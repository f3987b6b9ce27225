import RatLang.Lexer.Scan

/-!
# How the fixed lexemes relate to each other

What the longest match rests on: the fixed lexemes are either words or made of other characters,
only two keywords mix both, and every prefix of an operator is an operator.
-/

namespace RatLang

/-- The fixed lexemes that are no words. -/
def symbols : List String := commentMark :: operators

/-- All fixed lexemes. -/
def fixedLexemes : List String := keywords ++ types ++ symbols

theorem isFixedLexeme_iff {lexeme : String} : isFixedLexeme lexeme ↔ lexeme ∈ fixedLexemes := by
  simp [isFixedLexeme, isKeyword, isTypeName, isCommentMark, isOperator, fixedLexemes, symbols,
    or_assoc]

theorem fixedKind?_eq_none {lexeme : String} (h : lexeme ∉ fixedLexemes) :
    fixedKind? lexeme = none := by
  rw [← isFixedLexeme_iff, isFixedLexeme] at h
  simp only [Bool.or_eq_true, not_or] at h
  simp [fixedKind?, h]

/-! ### Characters -/

theorem isNameStart_toNat {c : Char} (h : isNameStart c) :
    65 ≤ c.toNat ∧ c.toNat ≤ 90 ∨ 97 ≤ c.toNat ∧ c.toNat ≤ 122 ∨ c.toNat = 95 := by
  have ranges : (decide ('A'.val ≤ c.val ∧ c.val ≤ 'Z'.val) ||
      ('a'.val ≤ c.val && c.val ≤ 'z'.val) || c == '_') = true := h
  simp only [Bool.or_eq_true, Bool.and_eq_true, decide_eq_true_eq, beq_iff_eq, Char.reduceVal,
    UInt32.le_iff_toNat_le, UInt32.reduceToNat, Char.toNat_val] at ranges
  rcases ranges with (upper | lower) | rfl
  · exact .inl upper
  · exact .inr (.inl lower)
  · exact .inr (.inr rfl)

theorem isNameChar_iff {c : Char} : isNameChar c ↔ isNameStart c ∨ c.isDigit := by
  simp only [isNameChar, isNameStart, Char.isAlphanum, Bool.or_eq_true]
  exact or_right_comm

theorem not_isBlank_of_nameChar {c : Char} (h : isNameChar c) : ¬Text.isBlank c := by
  simp only [Text.isBlank, Bool.or_eq_true, Bool.and_eq_true, decide_eq_true_eq, beq_iff_eq]
  rcases isNameChar_iff.mp h with start | digit
  · have range := isNameStart_toNat start
    omega
  · have range := Char.isDigit_iff_toNat.mp digit
    simp only [Char.reduceToNat] at range
    omega

theorem not_nameChar_of_mark : ∀ c ∈ terminatorMark :: '.' :: punctuators, ¬isNameChar c := by
  have checked : (terminatorMark :: '.' :: punctuators).all fun c => !isNameChar c := by
    decide
  intro c mem name
  have other := List.all_eq_true.mp checked c mem
  rw [name] at other
  cases other

theorem not_isPunctuator_of_nameChar {c : Char} (h : isNameChar c) : ¬isPunctuator c := by
  intro mark
  simp only [isPunctuator, List.contains_iff_mem] at mark
  exact not_nameChar_of_mark c (by simp [mark]) h

/-- Does the character always end a candidate? -/
def isMark (c : Char) : Bool := Text.isBlank c || isPunctuator c || c == terminatorMark

theorem not_isMark_of_nameChar {c : Char} (h : isNameChar c) : ¬isMark c := by
  simp only [isMark, Bool.or_eq_true, beq_iff_eq, not_or]
  refine ⟨⟨not_isBlank_of_nameChar h, not_isPunctuator_of_nameChar h⟩, ?_⟩
  rintro rfl
  exact not_nameChar_of_mark _ (by simp) h

/-! ### Facts about the tables

Each is read off a Boolean check of all entries, which needs no decision about all characters. -/

theorem word_or_symbol : ∀ entry ∈ fixedLexemes,
    (∀ c ∈ entry.toList, isNameChar c) ∨ entry = "fn?" ∨ entry = "fn/" ∨ entry ∈ symbols := by
  have checked : fixedLexemes.all fun entry =>
      entry.toList.all isNameChar ||
        (entry == "fn?" || (entry == "fn/" || symbols.contains entry)) := by
    decide
  intro entry mem
  have known := List.all_eq_true.mp checked entry mem
  rw [Bool.or_eq_true, Bool.or_eq_true, Bool.or_eq_true, beq_iff_eq, beq_iff_eq,
    List.contains_iff_mem] at known
  exact known.imp_left List.all_eq_true.mp

/-- No character of an entry is one of a class. -/
theorem none_of_all {table : List String} {chars : String → List Char} {test : Char → Bool}
    (checked : table.all fun entry => (chars entry).all fun c => !test c) :
    ∀ entry ∈ table, ∀ c ∈ chars entry, ¬test c := by
  intro entry mem c inside passes
  have other := List.all_eq_true.mp (List.all_eq_true.mp checked entry mem) c inside
  rw [passes] at other
  cases other

theorem not_nameChar_of_symbol : ∀ entry ∈ symbols, ∀ c ∈ entry.toList, ¬isNameChar c :=
  none_of_all (by decide)

theorem not_isMark_of_fixed : ∀ entry ∈ fixedLexemes, ∀ c ∈ entry.toList, ¬isMark c :=
  none_of_all (by decide)

theorem not_isMark_of_symbol (entry : String) (mem : entry ∈ symbols) :
    ∀ c ∈ entry.toList, ¬isMark c :=
  not_isMark_of_fixed entry (List.mem_append_right _ mem)

theorem length_of_symbol : ∀ entry ∈ symbols,
    entry.toList.length = 1 ∨ entry.toList.length = 2 := by
  decide

/-- The first character of an operator is an operator. -/
theorem first_of_symbol : ∀ entry ∈ symbols, ∀ c ∈ entry.toList.head?,
    String.singleton c ∈ symbols := by
  have checked : symbols.all fun entry =>
      entry.toList.head?.all fun c => symbols.contains (String.singleton c) := by
    decide
  intro entry mem c first
  have known := List.all_eq_true.mp checked entry mem
  rw [first, Option.all_some, List.contains_iff_mem] at known
  exact known

theorem kind_of_symbol : ∀ entry ∈ symbols,
    fixedKind? entry = some (if entry = commentMark then .commentSeparator else .operator) := by
  decide

theorem point_not_mem : ∀ entry ∈ fixedLexemes, '.' ∉ entry.toList := by
  decide

/-- A fixed lexeme of characters of both kinds is one of two keywords. -/
theorem mixed_of_mem {u : List Char} (mem : String.ofList u ∈ fixedLexemes) {c d : Char}
    (inside : c ∈ u) (name : isNameChar c) (inside' : d ∈ u) (other : ¬isNameChar d) :
    u = ['f', 'n', '?'] ∨ u = ['f', 'n', '/'] := by
  rcases word_or_symbol _ mem with word | eq | eq | symbol
  · rw [String.toList_ofList] at word
    exact absurd (word d inside') other
  · exact .inl (String.ofList_injective eq)
  · exact .inr (String.ofList_injective eq)
  · have none_named := not_nameChar_of_symbol _ symbol
    rw [String.toList_ofList] at none_named
    exact absurd name (none_named c inside)

/-- A fixed lexeme that begins like no name is a symbol. -/
theorem symbol_of_mem {c : Char} {u : List Char} (mem : String.ofList (c :: u) ∈ fixedLexemes)
    (other : ¬isNameChar c) : String.ofList (c :: u) ∈ symbols := by
  rcases word_or_symbol _ mem with word | eq | eq | symbol
  · rw [String.toList_ofList] at word
    exact absurd (word c (by simp)) other
  · have lists : c :: u = ['f', 'n', '?'] := String.ofList_injective eq
    injection lists with first
    exact absurd (first ▸ by decide) other
  · have lists : c :: u = ['f', 'n', '/'] := String.ofList_injective eq
    injection lists with first
    exact absurd (first ▸ by decide) other
  · exact symbol

/-- The kind of a fixed lexeme that is a word. -/
theorem fixedKind?_word {c : Char} {u : List Char} (name : isNameChar c) :
    fixedKind? (String.ofList (c :: u)) =
      if isKeyword (String.ofList (c :: u)) then some .keyword
      else if isTypeName (String.ofList (c :: u)) then some .type else none := by
  have no_symbol : String.ofList (c :: u) ∉ symbols := by
    intro symbol
    have none_named := not_nameChar_of_symbol _ symbol
    rw [String.toList_ofList] at none_named
    exact none_named c (by simp) name
  generalize String.ofList (c :: u) = lexeme at *
  simp only [symbols, List.mem_cons, not_or] at no_symbol
  simp [fixedKind?, isCommentMark, isOperator, no_symbol.1, no_symbol.2]

theorem kind_of_word {c : Char} {u : List Char} {kind : TokenKind} (name : isNameChar c)
    (h : fixedKind? (String.ofList (c :: u)) = some kind) : kind = .keyword ∨ kind = .type := by
  rw [fixedKind?_word name] at h
  split at h
  · cases h
    exact .inl rfl
  · split at h <;> cases h
    exact .inr rfl

end RatLang
