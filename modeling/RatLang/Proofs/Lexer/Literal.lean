import RatLang.Proofs.Lexer.Context

/-!
# The grammars of literals

What a number, a string literal and a char literal look like, said without a scan. A lexeme that
passes as a number has the form of one, and the scans of the two other literals close only behind
text of their forms.
-/

namespace RatLang

/-! ### Numbers -/

/-- A point, more digits and the mark of a floating type, each of them optional. -/
def FloatTail (tail : List Char) : Prop :=
  ∃ point fraction mark, tail = point ++ fraction ++ mark ∧ point ∈ [[], ['.']] ∧
    (∀ c ∈ fraction, c.isDigit) ∧ mark ∈ [[], ['f'], ['d']]

/-- The mark of an unsigned type and a width, both optional. -/
def IntegerTail (tail : List Char) : Prop :=
  ∃ unsigned width, tail = unsigned ++ width ∧ unsigned ∈ [[], ['u']] ∧
    width ∈ [[], ['i'], ['c'], ['l'], ['s']]

/-- Digits and one of the two tails. -/
def NumberForm (chars : List Char) : Prop :=
  ∃ digits tail, chars = digits ++ tail ∧ digits ≠ [] ∧ (∀ c ∈ digits, c.isDigit) ∧
    (FloatTail tail ∨ IntegerTail tail)

theorem inside_takeWhile (l : List Char) : ∀ c ∈ l.takeWhile Char.isDigit, c.isDigit :=
  List.all_eq_true.mp List.all_takeWhile

/-- Behind more digits stands the mark of a floating type, if anything does. -/
theorem mark_of_isFloatTail {fraction : List Char} (h : Numeric.isFloatTail ('.' :: fraction)) :
    fraction.dropWhile Char.isDigit ∈ [[], ['f'], ['d']] := by
  rw [Numeric.isFloatTail] at h
  split at h
  · simp [*]
  · rename_i c single
    rw [single]
    simpa [or_comm] using h
  · cases h

theorem floatTail_of_isFloatTail {tail : List Char} (h : Numeric.isFloatTail tail) :
    FloatTail tail := by
  by_cases pointed : ∃ rest, tail = '.' :: rest
  · obtain ⟨rest, rfl⟩ := pointed
    refine ⟨['.'], rest.takeWhile Char.isDigit, rest.dropWhile Char.isDigit, ?_, by simp,
      inside_takeWhile rest, mark_of_isFloatTail h⟩
    rw [List.append_assoc, List.takeWhile_append_dropWhile]
    rfl
  · have alike : Numeric.isFloatTail tail = Numeric.isFloatTail ('.' :: tail) :=
      Numeric.isFloatTail.eq_2 tail fun rest eq => pointed ⟨rest, eq⟩
    refine ⟨[], tail.takeWhile Char.isDigit, tail.dropWhile Char.isDigit, ?_, by simp,
      inside_takeWhile tail, mark_of_isFloatTail (alike ▸ h)⟩
    rw [List.nil_append, List.takeWhile_append_dropWhile]

/-- The widths of an integer without its mark. -/
theorem width_of_isIntegerTail {tail : List Char} (h : Numeric.isIntegerTail tail)
    (unmarked : ∀ rest, tail ≠ 'u' :: rest) : tail ∈ [[], ['i'], ['c'], ['l'], ['s']] := by
  cases tail with
  | nil => simp
  | cons c rest =>
    cases rest with
    | nil => simpa [Numeric.isIntegerTail.eq_5 c unmarked, or_assoc] using h
    | cons d rest =>
      rw [Numeric.isIntegerTail.eq_6 _ unmarked (by simp) (by simp)] at h
      cases h

theorem integerTail_of_isIntegerTail {tail : List Char} (h : Numeric.isIntegerTail tail) :
    IntegerTail tail := by
  by_cases marked : ∃ rest, tail = 'u' :: rest
  · obtain ⟨rest, rfl⟩ := marked
    refine ⟨['u'], rest, rfl, by simp, ?_⟩
    match rest, h with
    | [], _ => simp
    | [c], h => simpa [Numeric.isIntegerTail, or_assoc] using h
  · exact ⟨[], tail, rfl, by simp, width_of_isIntegerTail h fun rest eq => marked ⟨rest, eq⟩⟩

theorem numberForm_of_hasShape {chars : List Char} (shape : Numeric.hasShape chars) :
    NumberForm chars := by
  obtain ⟨digits, tails⟩ := Bool.and_eq_true_iff.mp shape
  refine ⟨chars.takeWhile Char.isDigit, chars.dropWhile Char.isDigit,
    List.takeWhile_append_dropWhile.symm, by simpa using digits, inside_takeWhile _, ?_⟩
  exact (Bool.or_eq_true_iff.mp tails).imp floatTail_of_isFloatTail integerTail_of_isIntegerTail

theorem numberForm_of_isNumeric {lexeme : String} (h : isNumeric lexeme) :
    NumberForm lexeme.toList :=
  numberForm_of_hasShape (Bool.and_eq_true_iff.mp h).1

/-! ### String literals -/

/-- What may stand between the quotes of a string literal: characters other than a quote and a
backslash, and backslashes that take the character behind them along. There is no newline. -/
inductive StringItems : List Char → Prop where
  | nil : StringItems []
  | plain {c : Char} {items : List Char} (quote : c ≠ '"') (escape : c ≠ '\\') (newline : c ≠ '\n')
    (inside : isStringChar c) (more : StringItems items) : StringItems (c :: items)
  | escaped {c : Char} {items : List Char} (newline : c ≠ '\n') (inside : isStringChar c)
    (more : StringItems items) : StringItems ('\\' :: c :: items)

/-- Items between quotes. -/
def StringForm (chars : List Char) : Prop :=
  ∃ items, StringItems items ∧ chars = '"' :: (items ++ ['"'])

theorem scanString_escape {c : Char} (newline : c ≠ '\n') (inside : isStringChar c)
    (rest : List Char) : scanString ('\\' :: c :: rest) = (scanString rest).after 2 := by
  simp [scanString, newline, inside]

theorem scanString_invalid {c : Char} (quote : c ≠ '"') (newline : c ≠ '\n') (escape : c ≠ '\\')
    (outside : ¬isStringChar c) (rest : List Char) : scanString (c :: rest) = ⟨1, .invalid c⟩ := by
  rw [scanString.eq_def]
  split <;> simp_all

/-- A string literal that closes has been read up to the quote behind its items. -/
theorem items_of_scanString {l : List Char} (closed : (scanString l).ending = .closed) :
    ∃ items, StringItems items ∧ l.take (scanString l).reads = items ++ ['"'] := by
  fun_induction scanString l with
  | case2 => exact ⟨[], .nil, rfl⟩
  | case6 c rest newline inside ih =>
    obtain ⟨items, more, eq⟩ := ih closed
    exact ⟨'\\' :: c :: items, .escaped newline inside more, by simp [Scan.after, eq]⟩
  | case8 c rest quote newline single pair inside ih =>
    have escape : c ≠ '\\' := by
      rintro rfl
      cases rest <;> simp_all
    obtain ⟨items, more, eq⟩ := ih closed
    exact ⟨c :: items, .plain quote escape newline inside more, by simp [Scan.after, eq]⟩
  | _ => cases closed

/-! ### Char literals -/

/-- One character other than a backslash, or an escape, between quotes. -/
inductive CharForm : List Char → Prop where
  | plain {c : Char} (escape : c ≠ '\\') (inside : isCharLiteralChar c) : CharForm ['\'', c, '\'']
  | escaped {e : Char} (known : isEscape e) : CharForm ['\'', '\\', e, '\'']

/-- Up to where a char literal closes no control character is read. -/
theorem inside_of_scanChar {l : List Char} (closed : (scanChar l).ending = .closed) :
    ∀ c ∈ l.take (scanChar l).reads, isCharLiteralChar c := by
  have quote : isCharLiteralChar '\'' := by decide
  fun_induction scanChar l with
  | case2 => simp [quote]
  | case3 => simp [quote]
  | case4 c rest _ _ inside ih =>
    rw [Scan.after, List.take_succ_cons, List.forall_mem_cons]
    exact ⟨inside, ih closed⟩
  | _ => cases closed

theorem charForm_of_isCharLiteral {lexeme : String} (h : isCharLiteral lexeme)
    (inside : ∀ c ∈ lexeme.toList, isCharLiteralChar c) : CharForm lexeme.toList := by
  unfold isCharLiteral at h
  split at h
  · rename_i opening c closing chars
    have parts : (opening = '\'' ∧ c ≠ '\\') ∧ closing = '\'' := by simpa using h
    obtain ⟨⟨rfl, plain⟩, rfl⟩ := parts
    rw [chars] at inside ⊢
    exact .plain plain (inside c (by simp))
  · rename_i opening mark e closing chars
    have parts : ((opening = '\'' ∧ mark = '\\') ∧ isEscape e) ∧ closing = '\'' := by
      simpa using h
    obtain ⟨⟨⟨rfl, rfl⟩, known⟩, rfl⟩ := parts
    rw [chars]
    exact .escaped known
  · cases h

end RatLang
