import RatLang.Proofs.Lexer.Cuts

/-!
# The tokens around a line comment

Behind whitespace a text can be cut apart: what stands in front of the whitespace gives its tokens
whatever comes next. So a text with a line comment behind whitespace gives the tokens of the text
without it, but for the comment itself and the terminators around it.
-/

namespace RatLang

namespace Piece

variable {p : Position} {blanks rest text : List Char}

/-- The end of a text that ends in whitespace: all whitespace, or a comment with whitespace in front
of it. -/
inductive Trails : List Char → Prop where
  | blank {tail : List Char} (blank : ∀ c ∈ tail, Text.isBlank c) : Trails tail
  | comment {blanks line : List Char} (blank : ∀ c ∈ blanks, Text.isBlank c)
    (plain : '\n' ∉ blanks) (single : '\n' ∉ line) :
    Trails (blanks ++ (commentMark.toList ++ line))

/-- The first piece of a text that ends in whitespace is the same whatever comes next, unless it is
a comment that reads the whole text. -/
theorem ofText_trailing {piece : Piece} (left : text ≠ [])
    (stops : ∀ c ∈ text.head?, ¬Text.isBlank c) (ended : ∀ c ∈ text.getLast?, Text.isBlank c)
    (found : ofText p text = .ok piece) :
    (∃ line, text = commentMark.toList ++ line ∧ '\n' ∉ line) ∨
      ∀ r, r.head? ≠ some '\'' → ofText p (text ++ r) = .ok piece := by
  obtain ⟨w, c, rfl⟩ : ∃ w c, text = w ++ [c] :=
    ⟨_, _, (List.dropLast_append_getLast left).symm⟩
  have last : Text.isBlank c := ended c (by simp)
  have before : w ≠ [] := by
    rintro rfl
    exact stops c rfl last
  by_cases comment : ∃ line, w ++ [c] = commentMark.toList ++ line ∧ '\n' ∉ line
  · exact .inl comment
  · refine .inr fun r other => ?_
    rw [List.append_assoc, List.singleton_append]
    exact (ofText_append before last found other).resolve_right comment

/-- A text that ends in whitespace can be cut apart in front of its end, whatever comes next. -/
theorem exists_trailing {ts : List Token} (cuts : Cuts p text ts)
    (ended : ∀ c ∈ text.getLast?, Text.isBlank c) :
    ∃ before tail us, text = before ++ tail ∧ Trails tail ∧
      ∀ r, r.head? ≠ some '\'' →
        cut p (text ++ r) = (cut (p.after before) (tail ++ r)).map (us ++ ·) := by
  have whole {p : Position} {text : List Char} (trails : Trails text) :
      ∃ before tail us, text = before ++ tail ∧ Trails tail ∧ ∀ r, r.head? ≠ some '\'' →
        cut p (text ++ r) = (cut (p.after before) (tail ++ r)).map (us ++ ·) := by
    refine ⟨[], text, [], rfl, trails, fun r _ => ?_⟩
    rw [Position.after_nil]
    cases cut p (text ++ r) <;> rfl
  induction cuts with
  | done blank => exact whole (.blank blank)
  | @newline p blanks rest ts blank newline stops _ ih =>
    by_cases left : rest = []
    · subst left
      rw [List.append_nil]
      exact whole (.blank blank)
    · rw [List.getLast?_append_of_ne_nil _ left] at ended
      obtain ⟨before, tail, us, split, trails, apart⟩ := ih ended
      refine ⟨blanks ++ before, tail, .terminator p :: us, by simp [split], trails, ?_⟩
      intro r other
      have stops' : ∀ c ∈ (rest ++ r).head?, ¬Text.isBlank c := by
        rwa [List.head?_append_of_ne_nil _ left]
      rw [List.append_assoc, cut_newline blank newline stops', apart r other,
        Position.after_append]
      exact map_append [.terminator p] us
  | @piece p blanks text rest piece ts blank plain stops left found split _ ih =>
    rw [List.getLast?_append_of_ne_nil _ left] at ended
    rcases ofText_trailing left stops ended found with comment | same
    · obtain ⟨line, rfl, single⟩ := comment
      exact whole (.comment blank plain single)
    · have ended' : ∀ c ∈ rest.getLast?, Text.isBlank c := by
        intro c last
        refine ended c ?_
        rw [split, List.getLast?_append, last]
        rfl
      obtain ⟨before, tail, us, split', trails, apart⟩ := ih ended'
      refine ⟨blanks ++ piece.chars ++ before, tail, piece.tokens ++ us, ?_, trails, ?_⟩
      · rw [split, split']
        simp
      · intro r other
        have stops' : ∀ c ∈ (text ++ r).head?, ¬Text.isBlank c := by
          rwa [List.head?_append_of_ne_nil _ left]
        have split'' : text ++ r = piece.chars ++ (rest ++ r) := by
          rw [split, List.append_assoc]
        rw [List.append_assoc,
          cut_piece blank plain stops' (by simp [left]) (same r other) split'', apart r other,
          Position.after_append, Position.after_append]
        exact map_append piece.tokens us

/-! ### The end of a line -/

/-- The tokens behind the newline of a line; the whitespace behind it belongs to the newline. -/
def cutNextLine (line : Nat) (rest : List Char) : Except LexError (List Token) :=
  cut (Position.after ⟨line + 1, 1⟩ (rest.takeWhile Text.isBlank)) (rest.dropWhile Text.isBlank)

theorem cut_break (blank : ∀ c ∈ blanks, Text.isBlank c) (rest : List Char) :
    cut p (blanks ++ '\n' :: rest) =
      (cutNextLine (p.after blanks).line rest).map (.terminator p :: ·) := by
  have blank' : ∀ c ∈ blanks ++ '\n' :: rest.takeWhile Text.isBlank, Text.isBlank c := by
    intro c mem
    rcases List.mem_append.mp mem with mem | mem
    · exact blank c mem
    · rcases List.mem_cons.mp mem with rfl | mem
      · decide
      · exact blank_takeWhile rest c mem
  have split : blanks ++ '\n' :: rest =
      (blanks ++ '\n' :: rest.takeWhile Text.isBlank) ++ rest.dropWhile Text.isBlank := by
    simp
  rw [split, cut_newline blank' (by simp) (stops_dropWhile rest), Position.after_append]
  rfl

theorem longestSymbol?_comment (rest : List Char) :
    Munch.longestSymbol? ('/' :: '/' :: rest) = some commentMark := by
  refine longestSymbol?_eq_some_iff.mpr ⟨by decide, ⟨rest, rfl⟩, fun symbol mem _ => ?_⟩
  have short := length_of_symbol symbol mem
  show symbol.toList.length ≤ 2
  omega

/-- Behind its mark a comment reads its line. -/
theorem ofText_comment {line : List Char} (single : '\n' ∉ line) (rest : List Char) :
    ofText p (commentMark.toList ++ line ++ '\n' :: rest) =
      .ok (comment commentMark.toList line p) := by
  have found : Munch.ofText ('/' :: '/' :: (line ++ '\n' :: rest)) =
      .lexeme .commentSeparator commentMark.toList := by
    have other : ¬((some '/').any isNameChar) := by decide
    unfold Munch.ofText Munch.ofOther
    rw [List.head?_cons, if_neg other, longestSymbol?_comment]
    rfl
  show ofText p ('/' :: '/' :: (line ++ '\n' :: rest)) = _
  rw [ofText_munch (by decide) (by decide), found]
  show Except.ok (comment _ ((line ++ '\n' :: rest).takeWhile (· != '\n')) p) = _
  rw [takeWhile_newline single]

/-- Behind whitespace stands a comment, and behind the comment its line ends. -/
theorem cut_comment {line : List Char} (blank : ∀ c ∈ blanks, Text.isBlank c)
    (plain : '\n' ∉ blanks) (single : '\n' ∉ line) (rest : List Char) :
    cut p (blanks ++ (commentMark.toList ++ line ++ '\n' :: rest)) =
      (cut (p.after (blanks ++ (commentMark.toList ++ line))) ('\n' :: rest)).map
        ((comment commentMark.toList line (p.after blanks)).tokens ++ ·) := by
  have stops : ∀ c ∈ (commentMark.toList ++ line ++ '\n' :: rest).head?, ¬Text.isBlank c := by
    rintro c ⟨⟩
    decide
  rw [cut_piece blank plain stops (List.cons_ne_nil _ _) (ofText_comment single rest) rfl,
    Position.after_append]
  rfl

/-- Tokens at which a statement ends. None of them is more than a terminator or part of a
comment. -/
structure EndsLine (v : List Token) : Prop where
  ends : ∃ t ∈ v, t.isTerminator
  nothing : ∀ t ∈ v, t.isTerminator ∨ t.isComment

theorem endsLine_terminator (p : Position) : EndsLine [.terminator p] :=
  ⟨⟨_, List.mem_singleton_self _, rfl⟩, by simp [Token.terminator, Token.isTerminator]⟩

theorem EndsLine.append {u v : List Token} (nothing : ∀ t ∈ u, t.isTerminator ∨ t.isComment)
    (h : EndsLine v) : EndsLine (u ++ v) := by
  obtain ⟨⟨t, mem, ends⟩, nothing'⟩ := h
  refine ⟨⟨t, List.mem_append_right u mem, ends⟩, fun t' mem' => ?_⟩
  exact (List.mem_append.mp mem').elim (nothing t') (nothing' t')

theorem nothing_of_comment (mark line : List Char) (p : Position) :
    ∀ t ∈ (comment mark line p).tokens, t.isTerminator ∨ t.isComment := by
  simp [comment, Token.isComment]

theorem line_after (p : Position) (chars : List Char) :
    (p.after chars).line = p.line + chars.count '\n' := by
  induction chars generalizing p with
  | nil => rfl
  | cons c chars ih =>
    rw [Position.after_cons, ih]
    by_cases newline : c = '\n'
    · simp [Position.next, newline]
      omega
    · simp [Position.next, newline]

/-- Behind a comment its line ends. -/
theorem cut_comment_break {line : List Char} (blank : ∀ c ∈ blanks, Text.isBlank c)
    (plain : '\n' ∉ blanks) (single : '\n' ∉ line) (rest : List Char) :
    ∃ v, EndsLine v ∧
      cut p (blanks ++ (commentMark.toList ++ line ++ '\n' :: rest)) =
        (cutNextLine p.line rest).map (v ++ ·) := by
  let q := p.after (blanks ++ (commentMark.toList ++ line))
  have lines : q.line = p.line := by
    rw [line_after, List.count_eq_zero_of_not_mem, Nat.add_zero]
    simp [plain, single, commentMark]
  have ended : cut q ('\n' :: rest) = (cutNextLine p.line rest).map (.terminator q :: ·) := by
    rw [← lines]
    exact cut_break (List.forall_mem_nil _) rest
  refine ⟨_, .append (nothing_of_comment commentMark.toList line (p.after blanks))
    (endsLine_terminator q), ?_⟩
  rw [cut_comment blank plain single, ended]
  exact map_append _ [.terminator q]

/-- In front of a newline, and behind whitespace that may end a comment, one more comment changes
nothing but the tokens at which the line ends. -/
theorem cut_trails {tail line : List Char} (trails : Trails tail) (single : '\n' ∉ line)
    (p : Position) (rest : List Char) :
    ∃ (v v' : List Token) (further : Except LexError (List Token)), EndsLine v ∧ EndsLine v' ∧
      cut p (tail ++ (commentMark.toList ++ line ++ '\n' :: rest)) = further.map (v ++ ·) ∧
      cut p (tail ++ '\n' :: rest) = further.map (v' ++ ·) := by
  cases trails with
  | blank blank =>
    by_cases newline : '\n' ∈ tail
    · have stops : ∀ c ∈ (commentMark.toList ++ line ++ '\n' :: rest).head?, ¬Text.isBlank c := by
        rintro c ⟨⟩
        decide
      obtain ⟨v, ends, eq⟩ := cut_comment_break (p := p.after tail)
        (List.forall_mem_nil fun c => Text.isBlank c) List.not_mem_nil single rest
      refine ⟨[.terminator p] ++ v, _, _, .append (endsLine_terminator p).nothing ends,
        endsLine_terminator p, ?_, cut_break blank rest⟩
      rw [cut_newline blank newline stops, ← List.nil_append (_ ++ _), eq]
      exact map_append [.terminator p] v
    · have lines : (p.after tail).line = p.line := by
        rw [line_after, List.count_eq_zero_of_not_mem newline, Nat.add_zero]
      obtain ⟨v, ends, eq⟩ := cut_comment_break blank newline single rest
      refine ⟨v, _, _, ends, endsLine_terminator p, eq, ?_⟩
      rw [cut_break blank rest, lines]
      rfl
  | @comment blanks line' blank plain single' =>
    have joined : '\n' ∉ line' ++ (commentMark.toList ++ line) := by
      simp [single, single', commentMark]
    obtain ⟨v, ends, eq⟩ := cut_comment_break (p := p) blank plain joined rest
    obtain ⟨v', ends', eq'⟩ := cut_comment_break (p := p) blank plain single' rest
    refine ⟨v, v', cutNextLine p.line rest, ends, ends', ?_, ?_⟩
    · rw [← eq]
      simp
    · rw [← eq']
      simp

/-- Where a text ends in whitespace, a comment in front of a newline changes nothing but the tokens
at which the line ends. -/
theorem cut_line {text line : List Char} {ts : List Token}
    (ended : ∀ c ∈ text.getLast?, Text.isBlank c) (lexed : cut p text = .ok ts)
    (single : '\n' ∉ line) (rest : List Char) :
    ∃ (us v v' : List Token) (further : Except LexError (List Token)), EndsLine v ∧ EndsLine v' ∧
      cut p (text ++ (commentMark.toList ++ line ++ '\n' :: rest)) =
        further.map (us ++ v ++ ·) ∧
      cut p (text ++ '\n' :: rest) = further.map (us ++ v' ++ ·) := by
  obtain ⟨before, tail, us, -, trails, apart⟩ := exists_trailing (cuts_of_cut lexed) ended
  obtain ⟨v, v', further, ends, ends', eq, eq'⟩ := cut_trails trails single (p.after before) rest
  refine ⟨us, v, v', further, ends, ends', ?_, ?_⟩
  · rw [apart _ (by simp [commentMark]), eq, map_append]
  · rw [apart _ (by simp), eq', map_append]

end Piece

end RatLang
