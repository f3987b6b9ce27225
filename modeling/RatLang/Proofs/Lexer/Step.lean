import RatLang.Lexer
import RatLang.Proofs.Source

/-!
# What one step of the lexer reads and adds

A step that succeeds reads whitespace and then nothing, a mark that ends a statement, a lexeme, or a
comment with its body. What it reads and what it adds are related here once, for every scan.
-/

namespace RatLang

/-- The token that ends a statement. -/
def Token.terminator (position : Position) : Token :=
  ⟨.statementTerminator, String.singleton terminatorMark, position⟩

namespace Lexer

/-- Between two lexers nothing was read but whitespace without a newline. -/
structure Skips (lexer : Lexer) (blanks : List Char) (skipped : Lexer) : Prop where
  reads : lexer.source.Reads blanks skipped.source
  blank : ∀ c ∈ blanks, Text.isBlank c ∧ c ≠ '\n'
  tokens : skipped.tokens = lexer.tokens

/-- Between two lexers one lexeme was read and added. -/
structure Emits (lexer : Lexer) (token : Token) (next : Lexer) : Prop where
  reads : lexer.source.Reads token.lexeme.toList next.source
  position : token.position = lexer.source.position
  tokens : next.tokens = lexer.tokens.push token
  visible : ¬token.isTerminator
  nonempty : token.lexeme ≠ ""

/-- Between two lexers the rest of a line was read and added as the body of a comment. -/
structure EmitsBody (lexer : Lexer) (body : Token) (dropped : List Char) (next : Lexer) :
    Prop where
  reads : lexer.source.Reads (body.lexeme.toList ++ dropped) next.source
  dropped : dropped = [] ∨ dropped = ['\r']
  position : body.position = lexer.source.position
  tokens : next.tokens = lexer.tokens.push body
  kind : body.kind = .commentBody

/-- What a step may find. -/
inductive Finds (lexer next : Lexer) : Bool → Prop where
  /-- The text is used up. -/
  | nothing {blanks : List Char} (skips : lexer.Skips blanks next) (done : next.source.rest = []) :
    Finds lexer next false
  /-- Whitespace with a newline ends a statement where it begins. -/
  | newline {blanks : List Char} (reads : lexer.source.Reads blanks next.source)
    (blank : ∀ c ∈ blanks, Text.isBlank c) (newline : '\n' ∈ blanks)
    (tokens : next.tokens = (lexer.push (.terminator lexer.source.position)).tokens) :
    Finds lexer next true
  /-- A mark ends a statement. -/
  | mark {blanks : List Char} {skipped : Lexer} (skips : lexer.Skips blanks skipped)
    (reads : skipped.source.Reads [terminatorMark] next.source)
    (tokens : next.tokens = (skipped.push (.terminator skipped.source.position)).tokens) :
    Finds lexer next true
  /-- A lexeme stands behind whitespace. -/
  | token {blanks : List Char} {skipped : Lexer} {token : Token}
    (skips : lexer.Skips blanks skipped) (emits : skipped.Emits token next) : Finds lexer next true
  /-- A comment stands behind whitespace. -/
  | comment {blanks dropped : List Char} {skipped opened : Lexer} {mark body : Token}
    (skips : lexer.Skips blanks skipped) (opens : skipped.Emits mark opened)
    (emits : opened.EmitsBody body dropped next) : Finds lexer next true

theorem tokens_push {lexer : Lexer} {token : Token} (visible : ¬token.isTerminator) :
    (lexer.push token).tokens = lexer.tokens.push token := by
  unfold push
  rw [if_neg]
  rw [Bool.and_eq_true]
  exact fun both => visible both.1

theorem tokens_push_congr {lexer other : Lexer} (same : lexer.tokens = other.tokens)
    (token : Token) : (lexer.push token).tokens = (other.push token).tokens := by
  unfold push
  rw [same]
  split
  · exact same
  · rfl

theorem tokens_take_mark {lexer : Lexer} {rest : List Char}
    (front : lexer.source.rest = [terminatorMark] ++ rest) :
    (lexer.take 1 .statementTerminator).tokens =
      (lexer.push (.terminator lexer.source.position)).tokens := by
  let read : Lexer := { lexer with source := lexer.source.advanceBy 1 }
  have same : read.tokens = lexer.tokens := rfl
  have lexeme : String.ofList (lexer.source.rest.take 1) = String.singleton terminatorMark := by
    rw [front]
    rfl
  simp only [take, lexeme]
  exact tokens_push_congr same _

theorem emits_take {lexer : Lexer} {n : Nat} (kind : TokenKind) (some_read : 0 < n)
    (left : lexer.source.rest ≠ []) (visible : kind ≠ .statementTerminator) :
    ∃ token, lexer.Emits token (lexer.take n kind) := by
  let token : Token := ⟨kind, String.ofList (lexer.source.rest.take n), lexer.source.position⟩
  have unseen : ¬token.isTerminator := by simpa [Token.isTerminator, token] using visible
  refine ⟨token, ?_, rfl, tokens_push unseen, unseen, ?_⟩
  · rw [source_take, String.toList_ofList]
    exact Source.advanceBy_reads n lexer.source
  · intro empty
    have none_read : lexer.source.rest.take n = [] := by
      rw [← String.toList_ofList (l := lexer.source.rest.take n)]
      exact congrArg String.toList empty
    rcases List.take_eq_nil_iff.mp none_read with zero | nil
    · omega
    · exact left nil

theorem emits_of_string {lexer next : Lexer} (left : lexer.source.rest ≠ [])
    (h : lexer.string = .ok () next) : ∃ token, lexer.Emits token next := by
  simp only [string] at h
  split at h <;> cases h
  obtain ⟨token, emits⟩ := emits_take .stringLiteral (Nat.succ_pos _) left (by decide)
  exact ⟨token, emits⟩

theorem emits_of_char {lexer next : Lexer} (left : lexer.source.rest ≠ [])
    (h : lexer.char = .ok () next) : ∃ token, lexer.Emits token next := by
  simp only [char] at h
  split at h
  · cases h
  · cases h
  · split at h <;> cases h
    obtain ⟨token, emits⟩ := emits_take .charLiteral (Nat.succ_pos _) left (by decide)
    exact ⟨token, emits⟩

theorem dropCarriageReturn_append (line : List Char) :
    ∃ dropped, line = Source.dropCarriageReturn line ++ dropped ∧
      (dropped = [] ∨ dropped = ['\r']) := by
  unfold Source.dropCarriageReturn
  split
  · rename_i last
    obtain ⟨before, eq⟩ := List.getLast?_eq_some_iff.mp last
    exact ⟨['\r'], by rw [eq, List.dropLast_concat], .inr rfl⟩
  · exact ⟨[], (List.append_nil line).symm, .inl rfl⟩

theorem emits_commentBody (lexer : Lexer) :
    ∃ body dropped, lexer.EmitsBody body dropped lexer.commentBody := by
  let line := lexer.source.rest.takeWhile (· != '\n')
  let body : Token :=
    ⟨.commentBody, String.ofList (Source.dropCarriageReturn line), lexer.source.position⟩
  obtain ⟨dropped, split, carriage⟩ := dropCarriageReturn_append line
  refine ⟨body, dropped, ?_, carriage, rfl, tokens_push Bool.false_ne_true, rfl⟩
  have front : lexer.source.rest = line ++ lexer.source.rest.dropWhile (· != '\n') :=
    List.takeWhile_append_dropWhile.symm
  have reads := Source.advanceBy_prefix front
  rw [String.toList_ofList, ← split, commentBody, source_push]
  exact reads

/-! ### Candidates -/

theorem kind_of_fixedKind? {lexeme : String} {kind : TokenKind}
    (h : fixedKind? lexeme = some kind) :
    kind = .keyword ∨ kind = .type ∨ kind = .commentSeparator ∨ kind = .operator := by
  unfold fixedKind? at h
  split at h
  · cases h
    exact .inl rfl
  · split at h
    · cases h
      exact .inr (.inl rfl)
    · split at h
      · cases h
        exact .inr (.inr (.inl rfl))
      · split at h <;> cases h
        exact .inr (.inr (.inr rfl))

theorem kind_of_scanCandidate {candidate : String} {extending : Bool} {chars : List Char}
    {kind : TokenKind} (h : (scanCandidate candidate extending chars).ending = .fixed kind) :
    kind = .keyword ∨ kind = .type ∨ kind = .commentSeparator ∨ kind = .operator := by
  fun_induction scanCandidate candidate extending chars with
  | case1 | case2 => cases h
  | case3 _ _ _ _ _ _ ih => exact ih h
  | case4 _ _ _ _ _ _ _ _ ih => exact ih h
  | case5 _ _ _ _ _ _ _ _ _ ih => exact ih h
  | case6 _ _ _ _ _ _ found =>
    cases h
    exact kind_of_fixedKind? found

theorem reads_of_exhausted {candidate : String} {extending : Bool} {chars : List Char}
    (h : (scanCandidate candidate extending chars).ending = .exhausted) :
    (scanCandidate candidate extending chars).reads = chars.length := by
  fun_induction scanCandidate candidate extending chars <;> simp_all [Scan.after]

theorem visible_of_classify {lexeme : String} {position : Position} {kind : TokenKind}
    (h : classify lexeme position = .ok kind) : kind = .numericLiteral ∨ kind = .identifier := by
  unfold classify at h
  split at h <;> cases h
  · exact .inl rfl
  · exact .inr rfl

/-- A candidate whose characters have been read is added, if it is a name or a number. -/
theorem emits_of_finish {lexer reached next : Lexer} {chars : List Char}
    (h : reached.finish (String.ofList chars) lexer.source.position = .ok () next)
    (some_read : chars ≠ []) (reads : lexer.source.Reads chars reached.source)
    (same : reached.tokens = lexer.tokens) : ∃ token, lexer.Emits token next := by
  unfold finish at h
  split at h
  · rename_i kind found
    cases h
    let token : Token := ⟨kind, String.ofList chars, lexer.source.position⟩
    have unseen : ¬token.isTerminator := by
      rcases visible_of_classify found with eq | eq <;> simp [Token.isTerminator, token, eq]
    refine ⟨token, ?_, rfl, ?_, unseen, ?_⟩
    · rw [source_push, String.toList_ofList]
      exact reads
    · rw [tokens_push unseen, same]
    · intro empty
      apply some_read
      rw [← String.toList_ofList (l := chars)]
      exact congrArg String.toList empty
  · cases h

theorem candidate_of_fixed {lexer : Lexer} {kind : TokenKind}
    (fixed : (scanCandidate "" false lexer.source.rest).ending = .fixed kind) :
    ∃ taken, taken = lexer.take (scanCandidate "" false lexer.source.rest).reads kind ∧
      lexer.candidate =
        .ok () (if kind = .commentSeparator then taken.commentBody else taken) := by
  refine ⟨_, rfl, ?_⟩
  simp only [candidate, fixed]

/-- A candidate that is no fixed lexeme has been read and no character more when it is finished. -/
theorem candidate_of_free {lexer : Lexer}
    (free : ∀ kind, (scanCandidate "" false lexer.source.rest).ending ≠ .fixed kind) :
    ∃ reached : Lexer,
      lexer.source.Reads
        (lexer.source.rest.take (scanCandidate "" false lexer.source.rest).reads) reached.source ∧
      reached.tokens = lexer.tokens ∧
      lexer.candidate = reached.finish
        (String.ofList (lexer.source.rest.take (scanCandidate "" false lexer.source.rest).reads))
        lexer.source.position := by
  have reads := Source.advanceBy_reads (scanCandidate "" false lexer.source.rest).reads lexer.source
  simp only [candidate]
  cases ending : (scanCandidate "" false lexer.source.rest).ending with
  | fixed kind => exact absurd ending (free kind)
  | boundary =>
    rw [Source.reverse_advanceBy (scanCandidate_reads_lt _ _ _ ending)]
    let reached := lexer.source.advanceBy (scanCandidate "" false lexer.source.rest).reads
    exact ⟨⟨{ reached with undo := none }, lexer.tokens⟩, ⟨reads.rest, reads.position⟩, rfl, rfl⟩
  | exhausted =>
    let beyond := lexer.source.advanceBy ((scanCandidate "" false lexer.source.rest).reads + 1)
    refine ⟨⟨beyond, lexer.tokens⟩, ?_, rfl, rfl⟩
    have whole : lexer.source.rest.take ((scanCandidate "" false lexer.source.rest).reads + 1) =
        lexer.source.rest.take (scanCandidate "" false lexer.source.rest).reads := by
      rw [reads_of_exhausted ending, List.take_length, List.take_of_length_le (Nat.le_succ _)]
    rw [← whole]
    exact Source.advanceBy_reads _ lexer.source

theorem emits_of_candidate {lexer next : Lexer} (left : lexer.source.rest ≠ [])
    (h : lexer.candidate = .ok () next) :
    (∃ token, lexer.Emits token next) ∨
      ∃ mark opened body dropped, lexer.Emits mark opened ∧ opened.EmitsBody body dropped next := by
  have some_read : 0 < (scanCandidate "" false lexer.source.rest).reads := by
    obtain ⟨c, rest, eq⟩ := List.exists_cons_of_ne_nil left
    rw [eq]
    exact scanCandidate_reads_pos c rest
  by_cases free : ∀ kind, (scanCandidate "" false lexer.source.rest).ending ≠ .fixed kind
  · obtain ⟨reached, reads, same, eq⟩ := candidate_of_free free
    rw [eq] at h
    refine .inl (emits_of_finish h ?_ reads same)
    intro none_read
    rcases List.take_eq_nil_iff.mp none_read with zero | nil
    · omega
    · exact left nil
  · obtain ⟨kind, fixed⟩ := Classical.not_forall.mp free
    have fixed := Classical.not_not.mp fixed
    obtain ⟨taken, rfl, eq⟩ := candidate_of_fixed fixed
    rw [eq] at h
    cases h
    have visible : kind ≠ .statementTerminator := by
      rcases kind_of_scanCandidate fixed with rfl | rfl | rfl | rfl <;> decide
    obtain ⟨token, emits⟩ := emits_take kind some_read left visible
    split
    · obtain ⟨body, dropped, line⟩ := emits_commentBody
        (lexer.take (scanCandidate "" false lexer.source.rest).reads kind)
      exact .inr ⟨token, _, body, dropped, emits, line⟩
    · exact .inl ⟨token, emits⟩

/-! ### A step -/

theorem ne_nil_of_peek {source : Source} {c : Char} (peeked : source.peek = some c) :
    source.rest ≠ [] := by
  intro empty
  rw [Source.peek, empty] at peeked
  cases peeked

theorem of_found {outcome : Outcome Unit} {next : Lexer} {found : Bool}
    (h : outcome.found = .ok found next) : found = true ∧ outcome = .ok () next := by
  unfold Outcome.found at h
  split at h <;> cases h
  exact ⟨rfl, rfl⟩

theorem finds_of_advance {lexer next : Lexer} {found : Bool} (h : lexer.advance = .ok found next) :
    Finds lexer next found := by
  have reads := lexer.source.skipBlanks_reads
  have blank := lexer.source.isBlank_of_mem
  let skipped : Lexer := { lexer with source := lexer.source.skipBlanks.2 }
  simp only [advance] at h
  split at h
  · rename_i newline
    cases h
    refine Finds.newline ?_ blank ?_ ?_
    · rw [source_push]
      exact reads
    · simpa [Source.skipBlanks_eq] using newline
    · have same : skipped.tokens = lexer.tokens := rfl
      exact tokens_push_congr same _
  · rename_i plain
    have skips : lexer.Skips lexer.source.blanks skipped := by
      refine ⟨reads, fun c mem => ⟨blank c mem, ?_⟩, rfl⟩
      rintro rfl
      exact plain (by simpa [Source.skipBlanks_eq] using mem)
    split at h
    · rename_i peeked
      cases h
      exact .nothing skips (List.head?_eq_none_iff.mp peeked)
    · rename_i peeked
      obtain ⟨rfl, read⟩ := of_found h
      obtain ⟨token, emits⟩ := emits_of_string (ne_nil_of_peek peeked) read
      exact .token skips emits
    · rename_i peeked
      obtain ⟨rfl, read⟩ := of_found h
      obtain ⟨token, emits⟩ := emits_of_char (ne_nil_of_peek peeked) read
      exact .token skips emits
    · rename_i c _ _ peeked
      have left : skipped.source.rest ≠ [] := ne_nil_of_peek peeked
      split at h
      · rename_i mark
        cases h
        obtain ⟨rest, front⟩ := List.head?_eq_some_iff.mp peeked
        have first : skipped.source.rest = [terminatorMark] ++ rest := by rw [← mark]; exact front
        refine .mark skips ?_ ?_
        · rw [source_take]
          exact Source.advanceBy_prefix first
        · exact tokens_take_mark first
      · split at h
        · cases h
          obtain ⟨token, emits⟩ := emits_take .punctuator Nat.one_pos left (by decide)
          exact .token skips emits
        · obtain ⟨rfl, read⟩ := of_found h
          rcases emits_of_candidate left read with ⟨token, emits⟩ | ⟨_, _, _, _, opens, line⟩
          · exact .token skips emits
          · exact .comment skips opens line

end Lexer

end RatLang
