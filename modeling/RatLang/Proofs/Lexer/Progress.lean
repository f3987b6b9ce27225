import RatLang.Proofs.Lexer.Emitted

/-!
# Every step makes progress

A step of the lexer reads at least one character, unless the text is used up. Whether it succeeds or
fails, the tokens that were found before it stay: a step that succeeds adds one token or a comment,
and a step that fails adds nothing. So a run ends after no more steps than there are characters left,
and the one that finds none. All of this holds in every state of a lexer, and so in those that
errors, direct scans of literals and tokens from outside have left behind.
-/

namespace RatLang

/-- Is the error one of the text? A read that cannot be undone and a lexeme of two kinds would be
errors of the lexer. -/
def LexError.isOfText : LexError → Bool
  | ambiguousToken .. | seek _ => false
  | unrecognizedToken .. | unterminatedString _ | invalidStringChar .. | unterminatedChar _
  | invalidCharLiteral .. => true

namespace Lexer

variable {lexer next : Lexer} {cause : LexError}

/-! ### Steps that fail -/

/-- A lexer stops behind at least one more character, with the tokens that it had. -/
structure Stops (lexer : Lexer) (cause : LexError) (next : Lexer) : Prop where
  reads : ∃ chars, chars ≠ [] ∧ lexer.source.Reads chars next.source
  tokens : next.tokens = lexer.tokens
  ofText : cause.isOfText

theorem take_ne_nil {n : Nat} {text : List Char} (some_read : 0 < n) (left : text ≠ []) :
    text.take n ≠ [] := by
  intro none_read
  rcases List.take_eq_nil_iff.mp none_read with zero | nil
  · omega
  · exact left nil

theorem stops_advanceBy {n : Nat} (some_read : 0 < n) (left : lexer.source.rest ≠ [])
    (ofText : cause.isOfText) :
    lexer.Stops cause { lexer with source := lexer.source.advanceBy n } where
  reads := ⟨_, take_ne_nil some_read left, Source.advanceBy_reads n lexer.source⟩
  tokens := rfl
  ofText := ofText

theorem stops_of_string (left : lexer.source.rest ≠ []) (h : lexer.string = .error cause next) :
    lexer.Stops cause next := by
  simp only [string] at h
  split at h <;> cases h
  · exact stops_advanceBy (Nat.succ_pos _) left rfl
  · exact stops_advanceBy (Nat.succ_pos _) left rfl

theorem stops_of_char (left : lexer.source.rest ≠ []) (h : lexer.char = .error cause next) :
    lexer.Stops cause next := by
  simp only [char] at h
  split at h
  · cases h
    exact stops_advanceBy (Nat.succ_pos _) left rfl
  · cases h
    exact stops_advanceBy (Nat.succ_pos _) left rfl
  · split at h <;> cases h
    exact stops_advanceBy (Nat.succ_pos _) left rfl

/-- A candidate that is neither a number nor a name is refused; it is never both. -/
theorem error_of_finish {reached : Lexer} {lexeme : String} {p : Position}
    (h : reached.finish lexeme p = .error cause next) : next = reached ∧ cause.isOfText := by
  unfold finish classify at h
  cases number : isNumeric lexeme with
  | true =>
    rw [number, isName_of_isNumeric number] at h
    cases h
  | false =>
    rw [number] at h
    cases name : isName lexeme with
    | true =>
      rw [name] at h
      cases h
    | false =>
      rw [name] at h
      cases h
      exact ⟨rfl, rfl⟩

theorem stops_of_candidate (left : lexer.source.rest ≠ [])
    (h : lexer.candidate = .error cause next) : lexer.Stops cause next := by
  have some_read : 0 < (scanCandidate "" false lexer.source.rest).reads := by
    obtain ⟨c, rest, eq⟩ := List.exists_cons_of_ne_nil left
    rw [eq]
    exact scanCandidate_reads_pos c rest
  by_cases free : ∀ kind, (scanCandidate "" false lexer.source.rest).ending ≠ .fixed kind
  · obtain ⟨reached, reads, same, eq⟩ := candidate_of_free free
    rw [eq] at h
    obtain ⟨rfl, ofText⟩ := error_of_finish h
    exact ⟨⟨_, take_ne_nil some_read left, reads⟩, same, ofText⟩
  · obtain ⟨kind, fixed⟩ := Classical.not_forall.mp free
    obtain ⟨taken, -, eq⟩ := candidate_of_fixed (Classical.not_not.mp fixed)
    rw [eq] at h
    cases h

theorem Stops.behind {skipped : Lexer} {blanks : List Char}
    (reads : lexer.source.Reads blanks skipped.source) (same : skipped.tokens = lexer.tokens)
    (stops : skipped.Stops cause next) : lexer.Stops cause next := by
  obtain ⟨⟨chars, some_read, reads'⟩, tokens, ofText⟩ := stops
  refine ⟨⟨blanks ++ chars, ?_, reads.trans reads'⟩, tokens.trans same, ofText⟩
  exact fun none_read => some_read (List.append_eq_nil_iff.mp none_read).2

theorem error_of_found {outcome : Outcome Unit} (h : outcome.found = .error cause next) :
    outcome = .error cause next := by
  unfold Outcome.found at h
  split at h <;> cases h
  rfl

theorem stops_of_advance (h : lexer.advance = .error cause next) : lexer.Stops cause next := by
  let skipped : Lexer := { lexer with source := lexer.source.skipBlanks.2 }
  have same : skipped.tokens = lexer.tokens := rfl
  apply Stops.behind lexer.source.skipBlanks_reads same
  simp only [advance] at h
  split at h
  · cases h
  · split at h
    · cases h
    · rename_i peeked
      exact stops_of_string (ne_nil_of_peek peeked) (error_of_found h)
    · rename_i peeked
      exact stops_of_char (ne_nil_of_peek peeked) (error_of_found h)
    · rename_i peeked
      split at h
      · cases h
      · split at h
        · cases h
        · exact stops_of_candidate (ne_nil_of_peek peeked) (error_of_found h)

/-! ### Steps that succeed -/

/-- What a step may add to the tokens of a lexer. -/
inductive Adds (lexer : Lexer) : List Token → Prop where
  /-- A terminator behind another one is dropped. -/
  | nothing (ended : lexer.tokens.back?.any Token.isTerminator) : Adds lexer []
  | token {t : Token} (word : ¬t.isComment) : Adds lexer [t]
  | comment {mark body : Token} (opens : mark.kind = .commentSeparator)
    (follows : body.kind = .commentBody) : Adds lexer [mark, body]

theorem adds_token {t : Token} (lexer : Lexer) (word : ¬t.isComment) :
    ∃ added, lexer.Adds added ∧
      (lexer.pushAll [t]).tokens.toList = lexer.tokens.toList ++ added := by
  show ∃ added, _ ∧ (lexer.push t).tokens.toList = _
  unfold push
  split
  · rename_i again
    rw [Bool.and_eq_true] at again
    exact ⟨[], .nothing again.2, (List.append_nil _).symm⟩
  · exact ⟨[t], .token word, Array.toList_push⟩

theorem adds_comment {mark body : Token} (lexer : Lexer) (opens : mark.kind = .commentSeparator)
    (follows : body.kind = .commentBody) :
    ∃ added, lexer.Adds added ∧
      (lexer.pushAll [mark, body]).tokens.toList = lexer.tokens.toList ++ added := by
  have visible : ¬mark.isTerminator := by simp [Token.isTerminator, opens]
  have visible' : ¬body.isTerminator := by simp [Token.isTerminator, follows]
  refine ⟨[mark, body], .comment opens follows, ?_⟩
  show ((lexer.push mark).push body).tokens.toList = _
  rw [tokens_push visible', Array.toList_push, tokens_push visible, Array.toList_push]
  simp

theorem adds_of_ofText {p : Position} {text : List Char} {piece : Piece} (lexer : Lexer)
    (left : text ≠ []) (found : Piece.ofText p text = .ok piece) :
    ∃ added, lexer.Adds added ∧
      (lexer.pushAll piece.tokens).tokens.toList = lexer.tokens.toList ++ added := by
  cases Piece.form_of_ofText left found with
  | lexeme kind chars opens goes => exact lexer.adds_token (by simp [Token.isComment, opens, goes])
  | comment rest => exact lexer.adds_comment rfl rfl

theorem adds_of_next {p : Position} {text : List Char} {piece : Piece} (lexer : Lexer)
    (h : Piece.next p text = .ok (some piece)) :
    ∃ added, lexer.Adds added ∧
      (lexer.pushAll piece.tokens).tokens.toList = lexer.tokens.toList ++ added := by
  unfold Piece.next at h
  dsimp only at h
  split at h
  · cases h
    exact lexer.adds_token (by simp [Token.terminator, Token.isComment])
  · split at h
    · cases h
    · rename_i left
      cases found : Piece.ofText (p.after (text.takeWhile Text.isBlank))
          (text.dropWhile Text.isBlank) with
      | error cause =>
        rw [found] at h
        cases h
      | ok piece' =>
        rw [found] at h
        cases h
        have added := lexer.adds_of_ofText left found
        exact added

/-! ### A step -/

/-- What a step does to a lexer, for each of its outcomes. -/
inductive Progress (lexer : Lexer) : Outcome Bool → Prop where
  /-- Of the text only whitespace without a newline was left. -/
  | finished {blanks : List Char} {next : Lexer} (reads : lexer.source.Reads blanks next.source)
    (blank : ∀ c ∈ blanks, Text.isBlank c ∧ c ≠ '\n') (done : next.source.rest = [])
    (tokens : next.tokens = lexer.tokens) : Progress lexer (.ok false next)
  /-- Something was read, and the tokens were extended. -/
  | found {chars : List Char} {added : List Token} {next : Lexer} (some_read : chars ≠ [])
    (reads : lexer.source.Reads chars next.source) (adds : lexer.Adds added)
    (tokens : next.tokens.toList = lexer.tokens.toList ++ added) : Progress lexer (.ok true next)
  /-- Something was read, and the tokens stay as they were. -/
  | failed {cause : LexError} {next : Lexer} (stops : lexer.Stops cause next) :
    Progress lexer (.error cause next)

theorem progress_of_advance (lexer : Lexer) : lexer.Progress lexer.advance := by
  cases step : lexer.advance with
  | error cause next => exact .failed (stops_of_advance step)
  | ok found next =>
    cases found with
    | false =>
      cases finds_of_advance step with
      | nothing skips done => exact .finished skips.reads skips.blank done skips.tokens
    | true =>
      have cuts := lexer.advance_cuts
      rw [step] at cuts
      cases cut : Piece.next lexer.source.position lexer.source.rest with
      | error cause =>
        rw [cut] at cuts
        obtain ⟨_, ⟨⟩⟩ := cuts
      | ok piece? =>
        cases piece? with
        | none =>
          rw [cut] at cuts
          obtain ⟨_, ⟨⟩, -⟩ := cuts
        | some piece =>
          rw [cut] at cuts
          obtain ⟨_, ⟨⟩, reads, tokens⟩ := cuts
          obtain ⟨added, adds, extended⟩ := lexer.adds_of_next cut
          refine .found (Piece.prefix_of_next cut).2 reads adds ?_
          rw [tokens, extended]

/-! ### A run -/

/-- A run is a number of steps, the last of which finds nothing or fails. -/
inductive RunsIn : Nat → Lexer → Outcome Unit → Prop where
  | finished {lexer final : Lexer} (step : lexer.advance = .ok false final) :
    RunsIn 1 lexer (.ok () final)
  | failed {lexer final : Lexer} {cause : LexError} (step : lexer.advance = .error cause final) :
    RunsIn 1 lexer (.error cause final)
  | found {n : Nat} {lexer next : Lexer} {outcome : Outcome Unit}
    (step : lexer.advance = .ok true next) (more : RunsIn n next outcome) :
    RunsIn (n + 1) lexer outcome

/-- Each step leaves fewer characters, so the steps of a run are bounded by them. -/
theorem exists_runsIn (lexer : Lexer) :
    ∃ n, n ≤ lexer.remaining + 1 ∧ RunsIn n lexer lexer.run := by
  cases step : lexer.advance with
  | error cause final =>
    rw [run_of_error step]
    exact ⟨1, by omega, .failed step⟩
  | ok found next =>
    cases found with
    | false =>
      rw [run_of_done step]
      exact ⟨1, by omega, .finished step⟩
    | true =>
      have shorter := remaining_of_advance step
      obtain ⟨n, bound, more⟩ := next.exists_runsIn
      rw [run_of_found step]
      exact ⟨n + 1, by omega, .found step more⟩
termination_by lexer.remaining

/-- What a run comes to. -/
inductive Ends (lexer : Lexer) : Outcome Unit → Prop where
  | finished {final : Lexer} (kept : lexer.tokens.toList <+: final.tokens.toList)
    (done : final.source.rest = []) : Ends lexer (.ok () final)
  | failed {cause : LexError} {final : Lexer} (kept : lexer.tokens.toList <+: final.tokens.toList)
    (ofText : cause.isOfText) : Ends lexer (.error cause final)

theorem Ends.behind {outcome : Outcome Unit} (kept : lexer.tokens.toList <+: next.tokens.toList)
    (ends : next.Ends outcome) : lexer.Ends outcome := by
  cases ends with
  | finished kept' done => exact .finished (kept.trans kept') done
  | failed kept' ofText => exact .failed (kept.trans kept') ofText

/-- What holds at the end of a run is carried along its steps. -/
theorem RunsIn.ends {n : Nat} {outcome : Outcome Unit} (runs : RunsIn n lexer outcome) :
    lexer.Ends outcome := by
  induction runs with
  | @finished lexer final step =>
    have progress := lexer.progress_of_advance
    rw [step] at progress
    cases progress with
    | finished _ _ done tokens => exact .finished (tokens ▸ List.prefix_rfl) done
  | @failed lexer final cause step =>
    have stops := stops_of_advance step
    exact .failed (stops.tokens ▸ List.prefix_rfl) stops.ofText
  | @found n lexer next outcome step _ ih =>
    have progress := lexer.progress_of_advance
    rw [step] at progress
    cases progress with
    | found _ _ _ tokens => exact ih.behind (by rw [tokens]; exact List.prefix_append _ _)

/-- A step reads at least one character or finds the text used up, and keeps the tokens that were
there. So a run takes no more steps than there are characters left and one more, and it keeps the
tokens too. -/
theorem advance_progress (lexer : Lexer) :
    lexer.Progress lexer.advance ∧
      ∃ n, n ≤ lexer.remaining + 1 ∧ RunsIn n lexer lexer.run ∧ lexer.Ends lexer.run := by
  obtain ⟨n, bound, runs⟩ := lexer.exists_runsIn
  exact ⟨lexer.progress_of_advance, n, bound, runs, runs.ends⟩

end Lexer

end RatLang
