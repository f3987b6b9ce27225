import Mathlib.Data.List.Chain
import RatLang.Proofs.Lexer.Step

/-!
# The layout of a text

The tokens of a text and the gaps between them make up the whole text. A gap holds whitespace and
the marks that end statements; it gives one terminator if a statement ends in it, and none otherwise.
-/

namespace RatLang

/-- May the character stand outside all lexemes? -/
def Loose (c : Char) : Prop := Text.isBlank c ∨ c = terminatorMark

/-- The characters between two lexemes, from a position on, and the terminators that they give. The
flag says that the lexeme before is the body of a comment, which drops a carriage return at its
end. -/
inductive Gap (comment : Bool) (p : Position) : List Char → List Token → Prop where
  /-- No statement ends in whitespace without a newline. -/
  | plain {gap : List Char} (blank : ∀ c ∈ gap, Text.isBlank c ∧ c ≠ '\n') : Gap comment p gap []
  /-- A mark ends a statement where the mark stands. -/
  | mark {before rest : List Char} (loose : ∀ c ∈ before ++ rest, Loose c) :
    Gap comment p (before ++ terminatorMark :: rest) [.terminator (p.after before)]
  /-- Whitespace with a newline ends a statement where the whitespace begins. -/
  | newline {dropped run rest : List Char} (carriage : dropped = [] ∨ comment ∧ dropped = ['\r'])
    (blank : ∀ c ∈ run, Text.isBlank c) (newline : '\n' ∈ run) (loose : ∀ c ∈ rest, Loose c) :
    Gap comment p (dropped ++ run ++ rest) [.terminator (p.after dropped)]

/-- The tokens of a text that stands at a position. -/
inductive LaidOut : Bool → Position → List Char → List Token → Prop where
  /-- Behind the last lexeme stands a gap. -/
  | last {comment : Bool} {p : Position} {gap : List Char} {marks : List Token}
    (gaps : Gap comment p gap marks) : LaidOut comment p gap marks
  /-- In front of a lexeme stands a gap, and behind it the rest of the text. -/
  | token {comment : Bool} {p : Position} {gap rest : List Char} {marks tokens : List Token}
    {token : Token} (gaps : Gap comment p gap marks) (visible : ¬token.isTerminator)
    (spelled : token.lexeme = "" → token.kind = .commentBody)
    (position : token.position = p.after gap)
    (behind : LaidOut (token.kind == .commentBody) (token.position.after token.lexeme.toList) rest
      tokens) :
    LaidOut comment p (gap ++ token.lexeme.toList ++ rest) (marks ++ token :: tokens)

/-! ### Gaps -/

namespace Gap

variable {comment : Bool} {p : Position} {gap more : List Char} {marks : List Token}

theorem loose (h : Gap comment p gap marks) : ∀ c ∈ gap, Loose c := by
  cases h with
  | plain blank => exact fun c mem => .inl (blank c mem).1
  | mark loose =>
    intro c mem
    rcases List.mem_append.mp mem with mem | mem
    · exact loose c (List.mem_append_left _ mem)
    · rcases List.mem_cons.mp mem with rfl | mem
      · exact .inr rfl
      · exact loose c (List.mem_append_right _ mem)
  | newline carriage blank newline loose =>
    intro c mem
    rcases List.mem_append.mp mem with mem | mem
    · rcases List.mem_append.mp mem with mem | mem
      · rcases carriage with rfl | ⟨-, rfl⟩
        · cases mem
        · cases List.mem_singleton.mp mem
          exact .inl (by decide)
      · exact .inl (blank c mem)
    · exact loose c mem

/-- A gap that has given its terminator gives no other. -/
theorem extend (h : Gap comment p gap marks) (given : marks ≠ [])
    (moreLoose : ∀ c ∈ more, Loose c) : Gap comment p (gap ++ more) marks := by
  cases h with
  | plain blank => exact absurd rfl given
  | @mark before rest loose =>
    rw [List.append_assoc, List.cons_append]
    refine .mark fun c mem => ?_
    rw [← List.append_assoc] at mem
    exact (List.mem_append.mp mem).elim (loose c) (moreLoose c)
  | newline carriage blank newline loose =>
    rw [List.append_assoc]
    exact .newline carriage blank newline fun c mem =>
      (List.mem_append.mp mem).elim (loose c) (moreLoose c)

theorem extend_plain (h : Gap comment p gap marks)
    (blank : ∀ c ∈ more, Text.isBlank c ∧ c ≠ '\n') : Gap comment p (gap ++ more) marks := by
  cases h with
  | plain blank' => exact .plain fun c mem => (List.mem_append.mp mem).elim (blank' c) (blank c)
  | mark loose =>
    exact (Gap.mark loose).extend (List.cons_ne_nil _ _) fun c mem => .inl (blank c mem).1
  | newline carriage blank' newline loose =>
    exact (Gap.newline carriage blank' newline loose).extend (List.cons_ne_nil _ _)
      fun c mem => .inl (blank c mem).1

/-- The terminator of a gap stands in the gap. -/
theorem within (h : Gap comment p gap marks) :
    marks = [] ∨ ∃ place, marks = [.terminator place] ∧ (compare p place).isLE ∧
      compare place (p.after gap) = .lt := by
  cases h with
  | plain blank => exact .inl rfl
  | mark loose =>
    refine .inr ⟨_, rfl, Position.isLE_after p _, ?_⟩
    rw [Position.after_append]
    exact Position.compare_after _ (List.cons_ne_nil _ _)
  | newline carriage blank newline loose =>
    refine .inr ⟨_, rfl, Position.isLE_after p _, ?_⟩
    rw [List.append_assoc, Position.after_append]
    apply Position.compare_after
    intro empty
    rw [(List.append_eq_nil_iff.mp empty).1] at newline
    cases newline

end Gap

/-! ### From the steps to the run -/

namespace Lexer

/-- A lexer stands in a gap: what was read of the gap, the terminators that it has given so far, and
the tokens before it. -/
structure StandsIn (lexer : Lexer) (comment : Bool) (p : Position) (gap : List Char)
    (before marks : List Token) : Prop where
  tokens : lexer.tokens.toList = before ++ marks
  closed : ∀ t ∈ before.getLast?, ¬t.isTerminator
  gaps : Gap comment p gap marks
  position : lexer.source.position = p.after gap

/-- No more than the carriage return of a comment was read of the gap. -/
def Fresh (comment : Bool) (gap : List Char) : Prop := gap = [] ∨ comment ∧ gap = ['\r']

namespace StandsIn

variable {lexer next : Lexer} {comment : Bool} {p : Position} {gap blanks : List Char}
  {before marks : List Token}

/-- Behind a lexeme a gap begins. -/
theorem behind {token : Token} (tokens : lexer.tokens.toList = before ++ [token])
    (visible : ¬token.isTerminator) (fresh : Fresh comment gap)
    (position : lexer.source.position = p.after gap) :
    lexer.StandsIn comment p gap (before ++ [token]) [] := by
  refine ⟨by rw [tokens, List.append_nil], ?_, .plain ?_, position⟩
  · intro t last
    rw [List.getLast?_concat] at last
    cases last
    exact visible
  · intro c mem
    rcases fresh with rfl | ⟨-, rfl⟩
    · cases mem
    · cases List.mem_singleton.mp mem
      decide

theorem skip (h : lexer.StandsIn comment p gap before marks) (skips : lexer.Skips blanks next) :
    next.StandsIn comment p (gap ++ blanks) before marks := by
  refine ⟨by rw [skips.tokens, h.tokens], h.closed, h.gaps.extend_plain skips.blank, ?_⟩
  rw [skips.reads.position, h.position, Position.after_append]

/-- A terminator is added to a gap that has none. -/
theorem push_first (h : lexer.StandsIn comment p gap before []) (place : Position) :
    (lexer.push (.terminator place)).tokens.toList = before ++ [.terminator place] := by
  have tokens := h.tokens
  rw [List.append_nil] at tokens
  have last : lexer.tokens.back?.any Token.isTerminator = false := by
    rw [← Array.getLast?_toList, tokens]
    cases eq : before.getLast? with
    | none => rfl
    | some t => simpa using h.closed t eq
  unfold push
  rw [last, Bool.and_false, if_neg Bool.false_ne_true, Array.toList_push, tokens]

/-- A second terminator is dropped. -/
theorem push_again (h : lexer.StandsIn comment p gap before marks) (given : marks ≠ [])
    (place : Position) :
    (lexer.push (.terminator place)).tokens.toList = before ++ marks := by
  have last : lexer.tokens.back?.any Token.isTerminator = true := by
    rw [← Array.getLast?_toList, h.tokens]
    rcases h.gaps.within with rfl | ⟨first, rfl, -, -⟩
    · exact absurd rfl given
    · rw [List.getLast?_concat]
      rfl
  unfold push
  rw [if_pos (by rw [last]; rfl), h.tokens]

/-- A terminator is added for what ends a statement in the gap, unless the gap has one. -/
theorem stop (h : lexer.StandsIn comment p gap before marks)
    (reads : lexer.source.Reads blanks next.source)
    (tokens : next.tokens = (lexer.push (.terminator lexer.source.position)).tokens)
    (loose : ∀ c ∈ blanks, Loose c)
    (first : marks = [] → Gap comment p (gap ++ blanks) [.terminator (p.after gap)]) :
    ∃ marks', marks' ≠ [] ∧ next.StandsIn comment p (gap ++ blanks) before marks' := by
  have position : next.source.position = p.after (gap ++ blanks) := by
    rw [reads.position, h.position, Position.after_append]
  by_cases given : marks = []
  · subst given
    refine ⟨[.terminator lexer.source.position], List.cons_ne_nil _ _, ?_, h.closed, ?_, position⟩
    · rw [tokens, h.push_first]
    · rw [h.position]
      exact first rfl
  · refine ⟨marks, given, ?_, h.closed, h.gaps.extend given loose, position⟩
    rw [tokens, h.push_again given]

end StandsIn

/-- A step leads from one gap to the next, or stays in the gap: what lays out the text from where
the step ends lays it out from where the step began. -/
def Leads (lexer next : Lexer) (comment : Bool) (p : Position) (gap : List Char)
    (before : List Token) : Prop :=
  ∃ comment' p' gap' before' marks', next.StandsIn comment' p' gap' before' marks' ∧
    (marks' = [] → Fresh comment' gap') ∧
    ∀ tokens, LaidOut comment' p' (gap' ++ next.source.rest) tokens →
      ∃ tokens', before' ++ tokens = before ++ tokens' ∧
        LaidOut comment p (gap ++ lexer.source.rest) tokens'

namespace StandsIn

variable {lexer skipped next : Lexer} {comment : Bool} {p : Position} {gap blanks : List Char}
  {before marks : List Token}

/-- What ends a statement belongs to the gap. -/
theorem leads_of_stop (h : lexer.StandsIn comment p gap before marks)
    (reads : lexer.source.Reads blanks next.source)
    (tokens : next.tokens = (lexer.push (.terminator lexer.source.position)).tokens)
    (loose : ∀ c ∈ blanks, Loose c)
    (first : marks = [] → Gap comment p (gap ++ blanks) [.terminator (p.after gap)]) :
    lexer.Leads next comment p gap before := by
  obtain ⟨marks', given, stands⟩ := h.stop reads tokens loose first
  refine ⟨comment, p, gap ++ blanks, before, marks', stands, fun none => absurd none given, ?_⟩
  intro tokens laid
  refine ⟨tokens, rfl, ?_⟩
  rw [reads.rest, ← List.append_assoc]
  exact laid

/-- Whitespace in front of a step belongs to the gap. -/
theorem leads_of_skip (skips : lexer.Skips blanks skipped)
    (h : skipped.Leads next comment p (gap ++ blanks) before) :
    lexer.Leads next comment p gap before := by
  obtain ⟨comment', p', gap', before', marks', stands, fresh, lays⟩ := h
  refine ⟨comment', p', gap', before', marks', stands, fresh, ?_⟩
  intro tokens laid
  obtain ⟨tokens', eq, laid'⟩ := lays tokens laid
  refine ⟨tokens', eq, ?_⟩
  rw [skips.reads.rest, ← List.append_assoc]
  exact laid'

/-- Behind a lexeme begins the next gap. -/
theorem leads_of_emits (h : lexer.StandsIn comment p gap before marks) {token : Token}
    (emits : lexer.Emits token next) : lexer.Leads next comment p gap before := by
  have tokens : next.tokens.toList = (before ++ marks) ++ [token] := by
    rw [emits.tokens, Array.toList_push, h.tokens]
  have fresh : Fresh (token.kind == .commentBody) [] := .inl rfl
  have stands := StandsIn.behind (p := next.source.position) tokens emits.visible fresh rfl
  refine ⟨_, _, _, _, _, stands, fun _ => fresh, ?_⟩
  intro more laid
  refine ⟨marks ++ token :: more, by simp, ?_⟩
  rw [emits.reads.rest, ← List.append_assoc]
  refine .token h.gaps emits.visible (fun empty => absurd empty emits.nonempty) ?_ ?_
  · rw [emits.position, h.position]
  · rw [emits.position, ← emits.reads.position]
    exact laid

/-- Between the mark of a comment and its body stands nothing. -/
theorem leads_of_comment (h : lexer.StandsIn comment p gap before marks) {opened : Lexer}
    {mark body : Token} {dropped : List Char} (opens : lexer.Emits mark opened)
    (emits : opened.EmitsBody body dropped next) : lexer.Leads next comment p gap before := by
  have tokens : next.tokens.toList = (before ++ marks ++ [mark]) ++ [body] := by
    rw [emits.tokens, opens.tokens, Array.toList_push, Array.toList_push, h.tokens]
  have visible : ¬body.isTerminator := by simp [Token.isTerminator, emits.kind]
  have fresh : Fresh (body.kind == .commentBody) dropped :=
    emits.dropped.imp_right fun eq => ⟨by simp [emits.kind], eq⟩
  have position : next.source.position =
      (body.position.after body.lexeme.toList).after dropped := by
    rw [emits.reads.position, Position.after_append, emits.position]
  have stands := StandsIn.behind tokens visible fresh position
  refine ⟨_, _, _, _, _, stands, fun _ => fresh, ?_⟩
  intro more laid
  refine ⟨marks ++ mark :: body :: more, by simp, ?_⟩
  have line : LaidOut (mark.kind == .commentBody) (mark.position.after mark.lexeme.toList)
      ([] ++ body.lexeme.toList ++ (dropped ++ next.source.rest)) ([] ++ body :: more) := by
    refine .token (.plain fun c mem => by cases mem) visible (fun _ => emits.kind) ?_ laid
    rw [emits.position, opens.reads.position, opens.position, Position.after_nil]
  rw [opens.reads.rest, emits.reads.rest]
  have laid' := LaidOut.token h.gaps opens.visible
    (fun empty => absurd empty opens.nonempty) (by rw [opens.position, h.position]) line
  simpa only [List.append_assoc, List.nil_append] using laid'

/-- Every step that finds something leads on. -/
theorem leads (h : lexer.StandsIn comment p gap before marks)
    (fresh : marks = [] → Fresh comment gap) (finds : Finds lexer next true) :
    lexer.Leads next comment p gap before := by
  cases finds with
  | newline reads blank newline tokens =>
    refine h.leads_of_stop reads tokens (fun c mem => .inl (blank c mem)) fun none => ?_
    rw [← List.append_nil (gap ++ _)]
    exact .newline (fresh none) blank newline fun c mem => by cases mem
  | mark skips reads tokens =>
    have behind := h.skip skips
    have loose : ∀ c ∈ [terminatorMark], Loose c := fun c mem => .inr (List.mem_singleton.mp mem)
    refine leads_of_skip skips (behind.leads_of_stop reads tokens loose fun _ => ?_)
    exact .mark fun c mem => behind.gaps.loose c (List.append_nil (gap ++ _) ▸ mem)
  | token skips emits => exact leads_of_skip skips ((h.skip skips).leads_of_emits emits)
  | comment skips opens emits =>
    exact leads_of_skip skips ((h.skip skips).leads_of_comment opens emits)

end StandsIn

/-- A run from within a gap lays out the gap and the rest of the text. -/
theorem laidOut_of_run {lexer final : Lexer} {comment : Bool} {p : Position} {gap : List Char}
    {before marks : List Token} (h : lexer.run = .ok () final)
    (stands : lexer.StandsIn comment p gap before marks) (fresh : marks = [] → Fresh comment gap) :
    ∃ tokens, final.tokens.toList = before ++ tokens ∧
      LaidOut comment p (gap ++ lexer.source.rest) tokens := by
  rw [Lexer.run] at h
  split at h
  · rename_i next step
    have := remaining_of_advance step
    obtain ⟨_, _, _, _, _, stands', fresh', lays⟩ := stands.leads fresh (finds_of_advance step)
    obtain ⟨more, eq, laid⟩ := laidOut_of_run h stands' fresh'
    obtain ⟨tokens, eq', laid'⟩ := lays more laid
    exact ⟨tokens, eq.trans eq', laid'⟩
  · rename_i next step
    cases h
    cases finds_of_advance step with
    | nothing skips done =>
      refine ⟨marks, ?_, ?_⟩
      · rw [skips.tokens, stands.tokens]
      · rw [skips.reads.rest, done, List.append_nil]
        exact .last (stands.gaps.extend_plain skips.blank)
  · cases h
termination_by lexer.remaining

end Lexer

/-! ### Positions -/

/-- May a token stand right before another one? Only the empty body of a comment stands at the
position of what comes next. -/
def Follows (t next : Token) : Prop :=
  (compare t.position next.position).isLE ∧
    (t.position = next.position → t.kind = .commentBody ∧ t.lexeme = "")

theorem follows_of_lt {t next : Token} (h : compare t.position next.position = .lt) :
    Follows t next := by
  refine ⟨by rw [h]; rfl, fun same => ?_⟩
  rw [same, Position.compare_self] at h
  cases h

theorem LaidOut.ordered {comment : Bool} {p : Position} {chars : List Char} {tokens : List Token}
    (h : LaidOut comment p chars tokens) :
    tokens.IsChain Follows ∧ ∀ t ∈ tokens.head?, (compare p t.position).isLE := by
  induction h with
  | last gaps =>
    rcases gaps.within with rfl | ⟨place, rfl, starts, -⟩
    · exact ⟨.nil, fun t mem => by cases mem⟩
    · exact ⟨.singleton _, fun t mem => by cases mem; exact starts⟩
  | @token comment p gap rest marks tokens token gaps visible spelled position behind ih =>
    obtain ⟨chain, first⟩ := ih
    have here : (token :: tokens).IsChain Follows := by
      refine List.isChain_cons.mpr ⟨fun next mem => ?_, chain⟩
      have later := first next mem
      by_cases empty : token.lexeme = ""
      · rw [empty] at later
        exact ⟨later, fun _ => ⟨spelled empty, empty⟩⟩
      · have grows : compare token.position (token.position.after token.lexeme.toList) = .lt :=
          Position.compare_after _ (mt String.toList_eq_nil_iff.mp empty)
        exact follows_of_lt (Position.compare_of_isLE grows later)
    rcases gaps.within with rfl | ⟨place, rfl, starts, below⟩
    · refine ⟨here, fun t mem => ?_⟩
      cases mem
      rw [position]
      exact Position.isLE_after p gap
    · refine ⟨List.isChain_cons.mpr ⟨fun next mem => ?_, here⟩, fun t mem => ?_⟩
      · cases mem
        apply follows_of_lt
        rw [position]
        exact below
      · cases mem
        exact starts

/-! ### The whole text -/

/-- The text that stands at a position, up to its end. -/
def TextAt (text : List Char) (p : Position) (rest : List Char) : Prop :=
  ∃ before, text = before ++ rest ∧ p = Position.start.after before

/-- A position names one place in a text. -/
theorem TextAt.unique {text rest rest' : List Char} {p : Position} (h : TextAt text p rest)
    (h' : TextAt text p rest') : rest = rest' := by
  obtain ⟨before, split, place⟩ := h
  obtain ⟨before', split', place'⟩ := h'
  have same := Position.after_injective (split.symm.trans split') (place.symm.trans place')
  rw [same] at split
  exact List.append_cancel_left (split.symm.trans split')

theorem LaidOut.lexeme_at {comment : Bool} {p : Position} {chars : List Char} {tokens : List Token}
    (h : LaidOut comment p chars tokens) {t : Token} (mem : t ∈ tokens)
    (visible : ¬t.isTerminator) :
    ∃ before rest, chars = before ++ (t.lexeme.toList ++ rest) ∧ t.position = p.after before := by
  induction h with
  | last gaps =>
    rcases gaps.within with rfl | ⟨place, rfl, -, -⟩
    · cases mem
    · cases List.mem_singleton.mp mem
      exact absurd rfl visible
  | @token comment p gap rest marks tokens token gaps visible' spelled position behind ih =>
    rcases List.mem_append.mp mem with mark | mem
    · rcases gaps.within with rfl | ⟨place, rfl, -, -⟩
      · cases mark
      · cases List.mem_singleton.mp mark
        exact absurd rfl visible
    · rcases List.mem_cons.mp mem with rfl | mem
      · exact ⟨gap, rest, by rw [List.append_assoc], position⟩
      · obtain ⟨before, rest', split, place⟩ := ih mem
        refine ⟨gap ++ token.lexeme.toList ++ before, rest', ?_, ?_⟩
        · rw [split, List.append_assoc _ before]
        · rw [place, position, Position.after_append, Position.after_append]

/-- Lexing loses nothing and invents nothing: the lexemes of the tokens and the gaps between them
are the text, every lexeme stands where the position of its token says, and the positions grow. -/
theorem tokenize_layout {text : String} {tokens : List Token} (h : tokenize text = .ok tokens) :
    LaidOut false .start text.toList tokens ∧
      (∀ t ∈ tokens, ¬t.isTerminator →
        ∃ rest, TextAt text.toList t.position (t.lexeme.toList ++ rest)) ∧
      tokens.IsChain Follows := by
  have laid : LaidOut false .start text.toList tokens := by
    let lexer := Lexer.ofSource (.ofString "<input>" text)
    have stands : lexer.StandsIn false .start [] [] [] := by
      refine ⟨rfl, ?_, .plain ?_, rfl⟩
      · intro t mem
        cases mem
      · intro c mem
        cases mem
    unfold tokenize at h
    split at h
    · rename_i final run
      cases h
      obtain ⟨tokens, eq, laid⟩ := Lexer.laidOut_of_run run stands fun _ => .inl rfl
      rw [eq]
      exact laid
    · cases h
  refine ⟨laid, fun t mem visible => ?_, laid.ordered.1⟩
  obtain ⟨before, rest, split, place⟩ := laid.lexeme_at mem visible
  exact ⟨rest, before, split, place⟩

theorem tokenize_layout_comment :
    LaidOut false .start "a //\r\n;b".toList
      [⟨.identifier, "a", ⟨1, 1⟩⟩, ⟨.commentSeparator, "//", ⟨1, 3⟩⟩, ⟨.commentBody, "", ⟨1, 5⟩⟩,
        .terminator ⟨1, 6⟩, ⟨.identifier, "b", ⟨2, 2⟩⟩] :=
  (tokenize_layout (by decide +kernel)).1

end RatLang
