import RatLang.Proofs.Lexer.Context

/-!
# How a text is cut

A text that can be cut is a chain of steps: whitespace with a newline gives a terminator, and other
whitespace leads to a piece or to the end of the text. What holds of the tokens of a text is proved
along this chain.
-/

namespace RatLang

namespace Piece

variable {p : Position} {blanks rest text : List Char}

theorem next_blanks (blank : ∀ c ∈ blanks, Text.isBlank c)
    (stops : ∀ c ∈ text.head?, ¬Text.isBlank c) :
    next p (blanks ++ text) =
      if '\n' ∈ blanks then .ok (some ⟨blanks, [.terminator p]⟩)
      else if text = [] then .ok none
      else (ofText (p.after blanks) text).map fun piece =>
        some { piece with chars := blanks ++ piece.chars } := by
  simp only [next, takeWhile_run blank stops, dropWhile_run blank stops]

/-- Whitespace with a newline ends a statement. -/
theorem cut_newline (blank : ∀ c ∈ blanks, Text.isBlank c) (newline : '\n' ∈ blanks)
    (stops : ∀ c ∈ text.head?, ¬Text.isBlank c) :
    cut p (blanks ++ text) = (cut (p.after blanks) text).map (.terminator p :: ·) := by
  have found : next p (blanks ++ text) = .ok (some ⟨blanks, [.terminator p]⟩) := by
    rw [next_blanks blank stops, if_pos newline]
  exact cut_some found rfl

/-- Behind whitespace without a newline stands a piece. -/
theorem cut_piece {piece : Piece} (blank : ∀ c ∈ blanks, Text.isBlank c) (plain : '\n' ∉ blanks)
    (stops : ∀ c ∈ text.head?, ¬Text.isBlank c) (left : text ≠ [])
    (found : ofText (p.after blanks) text = .ok piece) (split : text = piece.chars ++ rest) :
    cut p (blanks ++ text) =
      (cut ((p.after blanks).after piece.chars) rest).map (piece.tokens ++ ·) := by
  have found' : next p (blanks ++ text) =
      .ok (some { piece with chars := blanks ++ piece.chars }) := by
    rw [next_blanks blank stops, if_neg plain, if_neg left, found]
    rfl
  have split' : blanks ++ text = (blanks ++ piece.chars) ++ rest := by
    rw [List.append_assoc, ← split]
  rw [cut_some found' split', Position.after_append]

/-- Where no piece is found behind whitespace without a newline, cutting fails. -/
theorem cut_failed {cause : LexError} (blank : ∀ c ∈ blanks, Text.isBlank c)
    (plain : '\n' ∉ blanks) (stops : ∀ c ∈ text.head?, ¬Text.isBlank c) (left : text ≠ [])
    (found : ofText (p.after blanks) text = .error cause) :
    cut p (blanks ++ text) = .error cause := by
  refine cut_error ?_
  rw [next_blanks blank stops, if_neg plain, if_neg left, found]
  rfl

/-- Where cutting succeeds behind whitespace without a newline, a piece is found. -/
theorem exists_piece {ts : List Token} (blank : ∀ c ∈ blanks, Text.isBlank c)
    (plain : '\n' ∉ blanks) (stops : ∀ c ∈ text.head?, ¬Text.isBlank c) (left : text ≠ [])
    (h : cut p (blanks ++ text) = .ok ts) :
    ∃ piece, ofText (p.after blanks) text = .ok piece := by
  cases found : ofText (p.after blanks) text with
  | ok piece => exact ⟨piece, rfl⟩
  | error cause =>
    rw [cut_failed blank plain stops left found] at h
    cases h

/-- Whitespace alone gives no token, unless there is a newline in it. -/
theorem cut_done (blank : ∀ c ∈ blanks, Text.isBlank c) (plain : '\n' ∉ blanks) :
    cut p blanks = .ok [] := by
  refine cut_none ?_
  rw [← List.append_nil blanks, next_blanks blank (by simp), if_neg plain, if_pos rfl]

theorem blank_takeWhile (text : List Char) : ∀ c ∈ text.takeWhile Text.isBlank, Text.isBlank c :=
  List.all_eq_true.mp List.all_takeWhile

theorem stops_dropWhile (text : List Char) :
    ∀ c ∈ (text.dropWhile Text.isBlank).head?, ¬Text.isBlank c := by
  intro c front
  obtain ⟨l, behind⟩ := List.head?_eq_some_iff.mp front
  exact Lexer.visible_of_dropWhile behind

/-- Every text is whitespace and what stands behind it. -/
theorem exists_blanks (text : List Char) :
    ∃ blanks behind, (∀ c ∈ blanks, Text.isBlank c) ∧ (∀ c ∈ behind.head?, ¬Text.isBlank c) ∧
      text = blanks ++ behind :=
  ⟨text.takeWhile Text.isBlank, text.dropWhile Text.isBlank, blank_takeWhile text,
    stops_dropWhile text, List.takeWhile_append_dropWhile.symm⟩

theorem map_append {x : Except LexError (List Token)} (ts us : List Token) :
    (x.map (us ++ ·)).map (ts ++ ·) = x.map (ts ++ us ++ ·) := by
  cases x <;> simp [Except.map]

/-- The tokens of a text, step by step. -/
inductive Cuts : Position → List Char → List Token → Prop where
  | done {p : Position} {text : List Char} (blank : ∀ c ∈ text, Text.isBlank c)
    (plain : '\n' ∉ text) : Cuts p text []
  | newline {p : Position} {blanks rest : List Char} {ts : List Token}
    (blank : ∀ c ∈ blanks, Text.isBlank c) (newline : '\n' ∈ blanks)
    (stops : ∀ c ∈ rest.head?, ¬Text.isBlank c) (more : Cuts (p.after blanks) rest ts) :
    Cuts p (blanks ++ rest) (.terminator p :: ts)
  | piece {p : Position} {blanks text rest : List Char} {piece : Piece} {ts : List Token}
    (blank : ∀ c ∈ blanks, Text.isBlank c) (plain : '\n' ∉ blanks)
    (stops : ∀ c ∈ text.head?, ¬Text.isBlank c) (left : text ≠ [])
    (found : ofText (p.after blanks) text = .ok piece) (split : text = piece.chars ++ rest)
    (more : Cuts ((p.after blanks).after piece.chars) rest ts) :
    Cuts p (blanks ++ text) (piece.tokens ++ ts)

/-- The error of a text, step by step. -/
inductive Fails : Position → List Char → LexError → Prop where
  | failed {p : Position} {blanks text : List Char} {cause : LexError}
    (blank : ∀ c ∈ blanks, Text.isBlank c) (plain : '\n' ∉ blanks)
    (stops : ∀ c ∈ text.head?, ¬Text.isBlank c) (left : text ≠ [])
    (found : ofText (p.after blanks) text = .error cause) : Fails p (blanks ++ text) cause
  | newline {p : Position} {blanks rest : List Char} {cause : LexError}
    (blank : ∀ c ∈ blanks, Text.isBlank c) (newline : '\n' ∈ blanks)
    (stops : ∀ c ∈ rest.head?, ¬Text.isBlank c) (more : Fails (p.after blanks) rest cause) :
    Fails p (blanks ++ rest) cause
  | piece {p : Position} {blanks text rest : List Char} {piece : Piece} {cause : LexError}
    (blank : ∀ c ∈ blanks, Text.isBlank c) (plain : '\n' ∉ blanks)
    (stops : ∀ c ∈ text.head?, ¬Text.isBlank c) (left : text ≠ [])
    (found : ofText (p.after blanks) text = .ok piece) (split : text = piece.chars ++ rest)
    (more : Fails ((p.after blanks).after piece.chars) rest cause) : Fails p (blanks ++ text) cause

theorem ok_of_map {x : Except LexError (List Token)} {f : List Token → List Token}
    {ts : List Token} (h : x.map f = .ok ts) : ∃ us, x = .ok us ∧ ts = f us := by
  cases x with
  | error cause => cases h
  | ok us =>
    cases h
    exact ⟨us, rfl, rfl⟩

theorem error_of_map {x : Except LexError (List Token)} {f : List Token → List Token}
    {cause : LexError} (h : x.map f = .error cause) : x = .error cause := by
  cases x with
  | error cause' =>
    cases h
    rfl
  | ok us => cases h

/-- Cutting goes step by step. -/
theorem cuts_of_cut {p : Position} {text : List Char} {ts : List Token} (h : cut p text = .ok ts) :
    Cuts p text ts := by
  obtain ⟨blanks, behind, blank, stops, whole⟩ := exists_blanks text
  have size : text.length = blanks.length + behind.length := by
    rw [whole, List.length_append]
  rw [whole] at h ⊢
  by_cases newline : '\n' ∈ blanks
  · have := List.length_pos_of_mem newline
    rw [cut_newline blank newline stops] at h
    obtain ⟨us, more, rfl⟩ := ok_of_map h
    exact .newline blank newline stops (cuts_of_cut more)
  · by_cases left : behind = []
    · subst left
      rw [List.append_nil] at h ⊢
      rw [cut_done blank newline] at h
      cases h
      exact .done blank newline
    · obtain ⟨piece, found⟩ := exists_piece blank newline stops left h
      obtain ⟨⟨rest, split⟩, some_read⟩ := prefix_of_ofText left found
      have := List.length_pos_iff.mpr some_read
      have : behind.length = piece.chars.length + rest.length := by
        rw [← split, List.length_append]
      rw [cut_piece blank newline stops left found split.symm] at h
      obtain ⟨us, more, rfl⟩ := ok_of_map h
      exact .piece blank newline stops left found split.symm (cuts_of_cut more)
termination_by text.length

/-- Cutting fails where some step fails. -/
theorem fails_of_cut {p : Position} {text : List Char} {cause : LexError}
    (h : cut p text = .error cause) : Fails p text cause := by
  obtain ⟨blanks, behind, blank, stops, whole⟩ := exists_blanks text
  have size : text.length = blanks.length + behind.length := by
    rw [whole, List.length_append]
  rw [whole] at h ⊢
  by_cases newline : '\n' ∈ blanks
  · have := List.length_pos_of_mem newline
    rw [cut_newline blank newline stops] at h
    exact .newline blank newline stops (fails_of_cut (error_of_map h))
  · by_cases left : behind = []
    · rw [left, List.append_nil, cut_done blank newline] at h
      cases h
    · cases found : ofText (p.after blanks) behind with
      | error cause' =>
        rw [cut_failed blank newline stops left found] at h
        cases h
        exact .failed blank newline stops left found
      | ok piece =>
        obtain ⟨⟨rest, split⟩, some_read⟩ := prefix_of_ofText left found
        have := List.length_pos_iff.mpr some_read
        have : behind.length = piece.chars.length + rest.length := by
          rw [← split, List.length_append]
        rw [cut_piece blank newline stops left found split.symm] at h
        exact .piece blank newline stops left found split.symm (fails_of_cut (error_of_map h))
termination_by text.length

end Piece

end RatLang
