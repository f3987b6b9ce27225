import Mathlib.Computability.RegularExpressions
import RatLang.Proofs.Lexer.Literal

/-!
# Numbers and their types

A number is what the pattern of numbers matches: digits, and behind them a floating or an integer
tail. A lexeme may be divided between the pattern's parts in several ways, but what the suffix says
of its type is the same in all of them.
-/

namespace RatLang

/-! ### The pattern -/

namespace Numeric

open RegularExpression (char star)

/-- One of some characters. -/
def oneOf : List Char → RegularExpression Char
  | [] => 0
  | c :: more => char c + oneOf more

/-- What the expression matches, or nothing. -/
def optional (p : RegularExpression Char) : RegularExpression Char := 1 + p

/-- A decimal digit. -/
def digit : RegularExpression Char := oneOf ['0', '1', '2', '3', '4', '5', '6', '7', '8', '9']

/-- The pattern `([0-9]+)((\.)?([0-9]*)?(d|f)?|(u)?[icls]?)`, which matches whole lexemes. -/
def pattern : RegularExpression Char :=
  digit * star digit *
    (optional (char '.') * optional (star digit) * optional (char 'd' + char 'f') +
      optional (char 'u') * optional (oneOf ['i', 'c', 'l', 's']))

variable {w : List Char}

theorem mem_oneOf {cs : List Char} : w ∈ (oneOf cs).matches' ↔ ∃ c ∈ cs, w = [c] := by
  induction cs with
  | nil => simp [oneOf, Language.notMem_zero]
  | cons c more ih =>
    rw [oneOf, RegularExpression.matches'_add, Language.mem_add, ih]
    simp only [RegularExpression.matches'_char, List.mem_cons, exists_eq_or_imp]
    rfl

theorem mem_optional {p : RegularExpression Char} :
    w ∈ (optional p).matches' ↔ w = [] ∨ w ∈ p.matches' := by
  rw [optional, RegularExpression.matches'_add, Language.mem_add]
  rfl

theorem mem_char {c : Char} : w ∈ (char c).matches' ↔ w = [c] := Iff.rfl

theorem isDigit_iff {c : Char} :
    c.isDigit ↔ c ∈ ['0', '1', '2', '3', '4', '5', '6', '7', '8', '9'] := by
  constructor
  · intro digit
    have range : 48 ≤ c.toNat ∧ c.toNat ≤ 57 := by
      simpa [Char.isDigit, UInt32.le_iff_toNat_le] using digit
    have checked : ∀ n, 48 ≤ n → n ≤ 57 →
        Char.ofNat n ∈ ['0', '1', '2', '3', '4', '5', '6', '7', '8', '9'] := by decide
    rw [← Char.ofNat_toNat c]
    exact checked _ range.1 range.2
  · have checked : ∀ d ∈ ['0', '1', '2', '3', '4', '5', '6', '7', '8', '9'], d.isDigit := by simp
    exact checked c

theorem mem_digit : w ∈ digit.matches' ↔ ∃ c : Char, c.isDigit ∧ w = [c] := by
  simp only [digit, mem_oneOf, isDigit_iff]

theorem mem_digits : w ∈ (star digit).matches' ↔ ∀ c ∈ w, c.isDigit := by
  rw [RegularExpression.matches'_star, Language.mem_kstar]
  constructor
  · rintro ⟨words, rfl, inside⟩ c mem
    obtain ⟨word, mem_words, mem⟩ := List.mem_flatten.mp mem
    obtain ⟨d, digit, rfl⟩ := mem_digit.mp (inside word mem_words)
    rwa [List.mem_singleton.mp mem]
  · intro digits
    refine ⟨w.map ([·]), ?_, fun word among => ?_⟩
    · rw [← List.flatMap_def, List.flatMap_singleton']
    · obtain ⟨c, mem, rfl⟩ := List.mem_map.mp among
      exact mem_digit.mpr ⟨c, digits c mem, rfl⟩

theorem mem_floatTail :
    w ∈ (optional (char '.') * optional (star digit) * optional (char 'd' + char 'f')).matches' ↔
      FloatTail w := by
  simp only [RegularExpression.matches'_mul, RegularExpression.matches'_add, Language.mem_mul,
    Language.mem_add, mem_optional, mem_char, mem_digits]
  constructor
  · rintro ⟨_, ⟨point, pointed, fraction, digits, rfl⟩, mark, marked, rfl⟩
    refine ⟨point, fraction, mark, rfl, by simpa using pointed, ?_, by simpa [or_comm] using marked⟩
    rcases digits with rfl | digits
    · exact List.forall_mem_nil _
    · exact digits
  · rintro ⟨point, fraction, mark, rfl, pointed, digits, marked⟩
    exact ⟨_, ⟨point, by simpa using pointed, fraction, .inr digits, rfl⟩, mark,
      by simpa [or_comm] using marked, rfl⟩

theorem mem_integerTail :
    w ∈ (optional (char 'u') * optional (oneOf ['i', 'c', 'l', 's'])).matches' ↔
      IntegerTail w := by
  simp only [RegularExpression.matches'_mul, Language.mem_mul, mem_optional, mem_char, mem_oneOf]
  constructor
  · rintro ⟨unsigned, marked, width, letter, rfl⟩
    exact ⟨unsigned, width, rfl, by simpa using marked, by simpa using letter⟩
  · rintro ⟨unsigned, width, rfl, marked, letter⟩
    exact ⟨unsigned, by simpa using marked, width, by simpa using letter, rfl⟩

/-- What the pattern matches, in words. -/
theorem mem_pattern : w ∈ pattern.matches' ↔ NumberForm w := by
  rw [pattern, RegularExpression.matches'_mul, RegularExpression.matches'_add, Language.mem_mul]
  simp only [Language.mem_add, mem_floatTail, mem_integerTail]
  rw [RegularExpression.matches'_mul]
  simp only [Language.mem_mul, mem_digit, mem_digits]
  constructor
  · rintro ⟨_, ⟨_, ⟨c, first, rfl⟩, more, digits, rfl⟩, tail, form, rfl⟩
    exact ⟨c :: more, tail, rfl, List.cons_ne_nil c more, List.forall_mem_cons.mpr ⟨first, digits⟩,
      form⟩
  · rintro ⟨digits, tail, rfl, left, inside, form⟩
    obtain ⟨c, more, rfl⟩ := List.exists_cons_of_ne_nil left
    obtain ⟨first, rest⟩ := List.forall_mem_cons.mp inside
    exact ⟨c :: more, ⟨[c], ⟨c, first, rfl⟩, more, rest, rfl⟩, tail, form, rfl⟩

end Numeric

/-! ### The test -/

variable {digits point fraction mark unsigned width tail : List Char} {lexeme : String}

theorem notMem_digits {d : Char} (inside : ∀ c ∈ digits, c.isDigit) (other : ¬d.isDigit) :
    d ∉ digits :=
  fun mem => other (inside d mem)

/-- The digits in front of an integer tail end where it begins. -/
theorem isIntegerTail_of_integerTail (form : IntegerTail tail) :
    Numeric.isIntegerTail (tail.dropWhile Char.isDigit) := by
  obtain ⟨unsigned, width, rfl, marked, letter⟩ := form
  have checked : ∀ u ∈ [[], ['u']], ∀ v ∈ [[], ['i'], ['c'], ['l'], ['s']],
      Numeric.isIntegerTail ((u ++ v).dropWhile Char.isDigit) := by decide
  exact checked unsigned marked width letter

/-- The digits in front of a floating tail take those at its beginning along if it has no point. -/
theorem isFloatTail_of_floatTail (form : FloatTail tail) :
    Numeric.isFloatTail (tail.dropWhile Char.isDigit) := by
  obtain ⟨point, fraction, mark, rfl, pointed, inside, marked⟩ := form
  have stops : ∀ v ∈ [[], ['f'], ['d']], ∀ c ∈ v.head?, ¬Char.isDigit c := by simp
  have behind : (fraction ++ mark).dropWhile Char.isDigit = mark :=
    dropWhile_run inside (stops mark marked)
  simp only [List.mem_cons, List.not_mem_nil, or_false] at pointed
  rcases pointed with rfl | rfl
  · have checked : ∀ v ∈ [[], ['f'], ['d']], Numeric.isFloatTail v := by decide
    rw [List.nil_append, behind]
    exact checked mark marked
  · rw [List.append_assoc, List.singleton_append, List.dropWhile_cons_of_neg (by decide),
      Numeric.isFloatTail]
    simp only [List.mem_cons, List.not_mem_nil, or_false] at marked
    rcases marked with rfl | rfl | rfl <;> simp only [behind] <;> rfl

theorem hasShape_iff {chars : List Char} : Numeric.hasShape chars ↔ NumberForm chars := by
  refine ⟨numberForm_of_hasShape, ?_⟩
  rintro ⟨digits, tail, rfl, left, inside, tails⟩
  have front : (digits ++ tail).takeWhile Char.isDigit ≠ [] := by
    rw [List.takeWhile_append_of_pos inside]
    exact List.append_ne_nil_of_left_ne_nil left _
  rw [Numeric.hasShape, List.dropWhile_append_of_pos inside]
  simpa [front] using tails.imp isFloatTail_of_floatTail isIntegerTail_of_integerTail

/-- The mark of an unsigned type and the signs of a floating number never stand in one tail. -/
theorem marks_apart {chars : List Char} (form : NumberForm chars) :
    'u' ∉ chars ∨ 'f' ∉ chars ∧ 'd' ∉ chars ∧ '.' ∉ chars := by
  obtain ⟨digits, tail, rfl, -, inside, tails⟩ := form
  have outside (d : Char) (other : ¬d.isDigit) : d ∉ digits := notMem_digits inside other
  simp only [List.mem_append, not_or]
  rcases tails with ⟨point, fraction, mark, rfl, pointed, inside', marked⟩ |
    ⟨unsigned, width, rfl, marked, letter⟩
  · have checked : ∀ p ∈ [[], ['.']], ∀ m ∈ [[], ['f'], ['d']], 'u' ∉ p ∧ 'u' ∉ m := by decide
    obtain ⟨point', mark'⟩ := checked point pointed mark marked
    have fraction' : 'u' ∉ fraction := notMem_digits inside' (by decide)
    exact .inl ⟨outside 'u' (by decide), by simp [point', fraction', mark']⟩
  · have checked : ∀ u ∈ [[], ['u']], ∀ v ∈ [[], ['i'], ['c'], ['l'], ['s']],
        'f' ∉ u ++ v ∧ 'd' ∉ u ++ v ∧ '.' ∉ u ++ v := by decide
    obtain ⟨float, double, point⟩ := checked unsigned marked width letter
    exact .inr ⟨⟨outside 'f' (by decide), float⟩, ⟨outside 'd' (by decide), double⟩,
      outside '.' (by decide), point⟩

/-- The test of the marks refuses nothing that has the shape of a number. -/
theorem isNumeric_iff_hasShape : isNumeric lexeme ↔ Numeric.hasShape lexeme.toList := by
  refine ⟨fun number => (Bool.and_eq_true_iff.mp number).1, fun shape => ?_⟩
  rw [isNumeric, shape]
  rcases marks_apart (hasShape_iff.mp shape) with unsigned | ⟨float, double, point⟩
  · simp [unsigned]
  · simp [float, double, point]

/-! ### The type -/

/-- The type of a number with a floating tail, by its point and its mark. -/
def floatType (point mark : List Char) : Symbol :=
  if mark = ['f'] then .typeFloat
  else if mark = ['d'] ∨ point = ['.'] then .typeDouble
  else .typeInt

/-- The type of a number with an integer tail, by the mark of an unsigned type and the width. -/
def integerType (unsigned width : List Char) : Symbol :=
  if unsigned = ['u'] then
    if width = ['l'] then .typeUlong else if width = ['s'] then .typeUshort
    else if width = ['c'] then .typeUchar else .typeUint
  else
    if width = ['l'] then .typeLong else if width = ['s'] then .typeShort
    else if width = ['c'] then .typeChar else .typeInt

/-- Without a letter of a type at the end, a point and the mark of an unsigned type decide. -/
theorem numericType_of_last
    (last : ∀ c ∈ ['f', 'd', 'l', 's', 'c'], lexeme.toList.getLast? ≠ some c) :
    numericType lexeme =
      if '.' ∈ lexeme.toList then .typeDouble
      else if 'u' ∈ lexeme.toList then .typeUint else .typeInt := by
  simp only [List.forall_mem_cons] at last
  obtain ⟨float, double, long, short, char, -⟩ := last
  unfold numericType
  dsimp only
  split
  · rename_i ends
    exact absurd ends float
  · rename_i ends
    exact absurd ends double
  · simp only [List.contains_iff_mem]
    by_cases point : '.' ∈ lexeme.toList
    · simp only [point, if_true]
    · simp only [point, if_false]
      split <;> simp_all

/-- With a letter of an integer type at the end, the mark of an unsigned type decides. -/
theorem numericType_of_width {c : Char} (last : lexeme.toList.getLast? = some c)
    (letter : c ∈ ['l', 's', 'c']) (point : '.' ∉ lexeme.toList) :
    numericType lexeme =
      integerType (if 'u' ∈ lexeme.toList then ['u'] else []) [c] := by
  simp only [List.mem_cons, List.not_mem_nil, or_false] at letter
  by_cases unsigned : 'u' ∈ lexeme.toList <;> rcases letter with rfl | rfl | rfl <;>
    simp [numericType, integerType, last, point, unsigned]

theorem getLast?_ne {chars : List Char} {d : Char} (outside : d ∉ chars) :
    chars.getLast? ≠ some d :=
  fun last => outside (List.mem_of_getLast? last)

/-- The point and the mark decide, however the digits are divided. -/
theorem numericType_floating (inside : ∀ c ∈ digits ++ fraction, c.isDigit)
    (pointed : point ∈ [[], ['.']]) (marked : mark ∈ [[], ['f'], ['d']])
    (split : lexeme.toList = digits ++ (point ++ fraction ++ mark)) :
    numericType lexeme = floatType point mark := by
  simp only [List.mem_cons, List.not_mem_nil, or_false] at marked
  rcases marked with rfl | rfl | rfl
  · have mem_iff (d : Char) (other : ¬d.isDigit) : d ∈ lexeme.toList ↔ d ∈ point := by
      have outside := notMem_digits inside other
      rw [List.mem_append, not_or] at outside
      simp [split, outside]
    have letters : ∀ c ∈ ['f', 'd', 'l', 's', 'c'], lexeme.toList.getLast? ≠ some c := by
      intro c letter
      have checked : ∀ l ∈ ['f', 'd', 'l', 's', 'c'], ¬l.isDigit ∧ ∀ p ∈ [[], ['.']], l ∉ p := by
        simp
      obtain ⟨other, outside⟩ := checked c letter
      exact getLast?_ne fun mem => outside point pointed ((mem_iff c other).mp mem)
    simp only [List.mem_cons, List.not_mem_nil, or_false] at pointed
    rcases pointed with rfl | rfl <;>
      simp [numericType_of_last letters, mem_iff, floatType]
  · simp [numericType, floatType, split]
  · simp [numericType, floatType, split]

/-- The mark of an unsigned type and the width decide. -/
theorem numericType_integer (inside : ∀ c ∈ digits, c.isDigit)
    (marked : unsigned ∈ [[], ['u']]) (letter : width ∈ [[], ['i'], ['c'], ['l'], ['s']])
    (split : lexeme.toList = digits ++ (unsigned ++ width)) :
    numericType lexeme = integerType unsigned width := by
  have mem_iff (d : Char) (other : ¬d.isDigit) :
      d ∈ lexeme.toList ↔ d ∈ unsigned ++ width := by
    simp [split, notMem_digits inside other]
  have checked : ∀ u ∈ [[], ['u']], ∀ v ∈ [[], ['i'], ['c'], ['l'], ['s']],
      '.' ∉ u ++ v ∧ ('u' ∈ u ++ v ↔ u = ['u']) ∧
        ((∃ c ∈ ['l', 's', 'c'], v = [c]) ∨
          v ∈ [[], ['i']] ∧ ∀ c ∈ ['f', 'd', 'l', 's', 'c'], ¬c.isDigit ∧ c ∉ u ++ v) := by
    simp
  obtain ⟨point, sign, wide | ⟨narrow, outside⟩⟩ := checked unsigned marked width letter
  · rw [← mem_iff _ (by decide)] at point sign
    obtain ⟨c, wide, rfl⟩ := wide
    have last : lexeme.toList.getLast? = some c := by simp [split]
    simp only [List.mem_cons, List.not_mem_nil, or_false] at marked
    rcases marked with rfl | rfl <;> simp [numericType_of_width last wide point, sign]
  · rw [← mem_iff _ (by decide)] at point sign
    have letters : ∀ c ∈ ['f', 'd', 'l', 's', 'c'], lexeme.toList.getLast? ≠ some c := by
      intro c letter
      obtain ⟨other, outside⟩ := outside c letter
      exact getLast?_ne fun mem => outside ((mem_iff c other).mp mem)
    simp only [List.mem_cons, List.not_mem_nil, or_false] at marked narrow
    rcases marked with rfl | rfl <;> rcases narrow with rfl | rfl <;>
      simp [numericType_of_last letters, point, sign, integerType]

/-- A lexeme has the shape of a number exactly if the pattern matches it, and then it is one, since
the test of the marks refuses nothing more. No number is a name. The suffix determines the type of a
number: the point and the mark of a floating tail, or the mark of an unsigned type and the width. -/
theorem number_grammar (lexeme : String) :
    (isNumeric lexeme ↔ NumberForm lexeme.toList) ∧
      (Numeric.hasShape lexeme.toList ↔ lexeme.toList ∈ Numeric.pattern.matches') ∧
      (Numeric.hasShape lexeme.toList → isNumeric lexeme) ∧
      (isNumeric lexeme → ¬isName lexeme) ∧
      (∀ digits point fraction mark : List Char,
        (∀ c ∈ digits ++ fraction, c.isDigit) → point ∈ [[], ['.']] → mark ∈ [[], ['f'], ['d']] →
        lexeme.toList = digits ++ (point ++ fraction ++ mark) →
        numericType lexeme = floatType point mark) ∧
      ∀ digits unsigned width : List Char,
        (∀ c ∈ digits, c.isDigit) → unsigned ∈ [[], ['u']] →
        width ∈ [[], ['i'], ['c'], ['l'], ['s']] →
        lexeme.toList = digits ++ (unsigned ++ width) →
        numericType lexeme = integerType unsigned width := by
  refine ⟨isNumeric_iff_hasShape.trans hasShape_iff, hasShape_iff.trans Numeric.mem_pattern.symm,
    isNumeric_iff_hasShape.mpr, fun number => ?_,
    fun _ _ _ _ => numericType_floating, fun _ _ _ => numericType_integer⟩
  simp [Lexer.isName_of_isNumeric number]

/-- Digits in front of a mark may be counted to both runs of digits without changing the type. -/
theorem number_grammar_divided :
    NumberForm "120f".toList ∧ isNumeric "120f" ∧ ¬isName "120f" ∧
      numericType "120f" = floatType [] ['f'] ∧ numericType "12ul" = integerType ['u'] ['l'] := by
  have form : NumberForm "120f".toList :=
    ⟨['1', '2'], ['0', 'f'], rfl, by simp, by simp,
      .inl ⟨[], ['0'], ['f'], rfl, by simp, by simp, by simp⟩⟩
  obtain ⟨number, -, -, name, floating, -⟩ := number_grammar "120f"
  obtain ⟨-, -, -, -, -, integer⟩ := number_grammar "12ul"
  exact ⟨form, number.mpr form, name (number.mpr form),
    floating ['1'] [] ['2', '0'] ['f'] (by simp) (by simp) (by simp) rfl,
    integer ['1', '2'] ['u'] ['l'] (by simp) (by simp) (by simp) rfl⟩

end RatLang
