import Mathlib.Data.List.Basic
import RatLang.Json
import RatLang.Proofs.Runs

/-!
# JSON texts

What a text of JSON says, as far as there are values for it: without booleans, fractions, signs and
pairs of surrogates. Whitespace may stand between any two parts. A text says at most one thing, so
the form over several lines, which says the value that it is written for, loses nothing.
-/

namespace RatLang.Json

/-! ### The grammar -/

/-- May the character stand between the parts of a text? -/
def isSpace (c : Char) : Bool := c == ' ' || c == '\n' || c == '\r' || c == '\t'

/-- The text behind the whitespace that it begins with. -/
def skip (text : List Char) : List Char := text.dropWhile isSpace

/-- The value of a hexadecimal digit. -/
def hexValue? (c : Char) : Option Nat :=
  if '0' ≤ c ∧ c ≤ '9' then some (c.toNat - '0'.toNat)
  else if 'a' ≤ c ∧ c ≤ 'f' then some (c.toNat - 'a'.toNat + 10)
  else if 'A' ≤ c ∧ c ≤ 'F' then some (c.toNat - 'A'.toNat + 10)
  else none

/-- The letters behind a backslash, with the characters that they stand for. -/
def escapes : List (Char × Char) :=
  [('"', '"'), ('\\', '\\'), ('/', '/'), ('b', '\x08'), ('f', '\x0c'), ('n', '\n'), ('r', '\r'),
    ('t', '\t')]

/-- A character of a string at the front of a text, and what stands behind it. -/
inductive ReadsChar : List Char → Char → List Char → Prop where
  | plain {c : Char} {rest : List Char} (quote : c ≠ '"') (escape : c ≠ '\\')
    (visible : 0x20 ≤ c.toNat) : ReadsChar (c :: rest) c rest
  | escape {e c : Char} {rest : List Char} (known : (e, c) ∈ escapes) :
    ReadsChar ('\\' :: e :: rest) c rest
  | code {c h₁ h₂ h₃ h₄ : Char} {n₁ n₂ n₃ n₄ : Nat} {rest : List Char}
    (first : hexValue? h₁ = some n₁) (second : hexValue? h₂ = some n₂)
    (third : hexValue? h₃ = some n₃) (fourth : hexValue? h₄ = some n₄)
    (value : c.toNat = ((n₁ * 16 + n₂) * 16 + n₃) * 16 + n₄) :
    ReadsChar ('\\' :: 'u' :: h₁ :: h₂ :: h₃ :: h₄ :: rest) c rest

/-- The characters of a string and the quote that closes it. -/
inductive ReadsString : List Char → List Char → List Char → Prop where
  | close {rest : List Char} : ReadsString ('"' :: rest) [] rest
  | char {text behind rest chars : List Char} {c : Char} (first : ReadsChar text c behind)
    (more : ReadsString behind chars rest) : ReadsString text (c :: chars) rest

mutual

/-- A value at the front of a text, and what stands behind it. -/
inductive Reads : List Char → Json → List Char → Prop where
  | null {rest : List Char} : Reads ('n' :: 'u' :: 'l' :: 'l' :: rest) .null rest
  /-- A number is all the digits that stand there, and it does not begin with a needless zero. -/
  | number {n : Nat} {text : List Char} (digits : text.takeWhile Char.isDigit = Nat.toDigits 10 n) :
    Reads text (.number n) (text.dropWhile Char.isDigit)
  | string {s : String} {text rest : List Char} (chars : ReadsString text s.toList rest) :
    Reads ('"' :: text) (.string s) rest
  | emptyArray {text rest : List Char} (closes : skip text = ']' :: rest) :
    Reads ('[' :: text) (.array []) rest
  | array {text rest : List Char} {items : List Json} (inner : ReadsItems text items rest) :
    Reads ('[' :: text) (.array items) rest
  | emptyObject {text rest : List Char} (closes : skip text = '\x7d' :: rest) :
    Reads ('\x7b' :: text) (.object []) rest
  | object {text rest : List Char} {members : List (String × Json)}
    (inner : ReadsMembers text members rest) : Reads ('\x7b' :: text) (.object members) rest

/-- The items of an array and the bracket that closes it. -/
inductive ReadsItems : List Char → List Json → List Char → Prop where
  | last {text behind rest : List Char} {item : Json} (value : Reads (skip text) item behind)
    (closes : skip behind = ']' :: rest) : ReadsItems text [item] rest
  | more {text behind next rest : List Char} {item : Json} {items : List Json}
    (value : Reads (skip text) item behind) (comma : skip behind = ',' :: next)
    (others : ReadsItems next items rest) : ReadsItems text (item :: items) rest

/-- A member of an object: its key, a colon and its value. -/
inductive ReadsMember : List Char → String × Json → List Char → Prop where
  | mk {text name behind content rest : List Char} {key : String} {value : Json}
    (opens : skip text = '"' :: name) (chars : ReadsString name key.toList behind)
    (colon : skip behind = ':' :: content) (given : Reads (skip content) value rest) :
    ReadsMember text (key, value) rest

/-- The members of an object and the brace that closes it. -/
inductive ReadsMembers : List Char → List (String × Json) → List Char → Prop where
  | last {text behind rest : List Char} {entry : String × Json}
    (member : ReadsMember text entry behind) (closes : skip behind = '\x7d' :: rest) :
    ReadsMembers text [entry] rest
  | more {text behind next rest : List Char} {entry : String × Json}
    {entries : List (String × Json)} (member : ReadsMember text entry behind)
    (comma : skip behind = ',' :: next) (others : ReadsMembers next entries rest) :
    ReadsMembers text (entry :: entries) rest

end

/-- The text is one value, with nothing around it. -/
def IsText (text : String) (json : Json) : Prop := Reads text.toList json []

/-! ### A text says one thing -/

/-- A letter behind a backslash stands for one character. -/
theorem escapes_unique : ∀ x ∈ escapes, ∀ y ∈ escapes, x.1 = y.1 → x.2 = y.2 := by decide

theorem not_mem_escapes (c : Char) : ('u', c) ∉ escapes := by
  simp [escapes]

theorem ReadsChar.unique {text rest rest' : List Char} {c c' : Char} (h : ReadsChar text c rest)
    (h' : ReadsChar text c' rest') : c = c' ∧ rest = rest' := by
  cases h with
  | plain quote escape visible =>
    cases h' with
    | plain => exact ⟨rfl, rfl⟩
    | escape => exact absurd rfl escape
    | code => exact absurd rfl escape
  | @escape e c rest known =>
    cases h' with
    | plain _ escape => exact absurd rfl escape
    | escape known' => exact ⟨escapes_unique _ known _ known' rfl, rfl⟩
    | code => exact absurd known (not_mem_escapes c)
  | code first second third fourth value =>
    cases h' with
    | plain _ escape => exact absurd rfl escape
    | escape known => exact absurd known (not_mem_escapes c')
    | code first' second' third' fourth' value' =>
      rw [first] at first'
      rw [second] at second'
      rw [third] at third'
      rw [fourth] at fourth'
      cases first'
      cases second'
      cases third'
      cases fourth'
      exact ⟨Char.toNat_inj.mp (value.trans value'.symm), rfl⟩

/-- The quote that closes a string is no character of it. -/
theorem ReadsChar.not_quote {text rest : List Char} {c : Char} (h : ReadsChar text c rest) :
    ∀ d ∈ text.head?, d ≠ '"' := by
  rintro d front rfl
  cases h with
  | plain quote => exact quote (by simpa using front)
  | escape | code => simp at front

theorem ReadsString.unique {text rest rest' chars chars' : List Char}
    (h : ReadsString text chars rest) (h' : ReadsString text chars' rest') :
    chars = chars' ∧ rest = rest' := by
  induction h generalizing chars' with
  | close =>
    cases h' with
    | close => exact ⟨rfl, rfl⟩
    | char first => exact absurd rfl (first.not_quote '"' rfl)
  | char first more ih =>
    cases h' with
    | close => exact absurd rfl (first.not_quote '"' rfl)
    | char first' more' =>
      obtain ⟨rfl, rfl⟩ := first.unique first'
      obtain ⟨rfl, rfl⟩ := ih more'
      exact ⟨rfl, rfl⟩

/-- The characters that a value can begin with. -/
def OpensValue (c : Char) : Prop := c ∈ ['n', '"', '[', '\x7b'] ∨ c.isDigit

theorem Reads.opens {text rest : List Char} {json : Json} (h : Reads text json rest) :
    ∃ c behind, text = c :: behind ∧ OpensValue c := by
  cases h with
  | number digits =>
    cases text with
    | nil => exact absurd digits.symm Nat.toDigits_ne_nil
    | cons c behind =>
      by_cases digit : c.isDigit
      · exact ⟨c, behind, rfl, .inr digit⟩
      · rw [List.takeWhile_cons_of_neg digit] at digits
        exact absurd digits.symm Nat.toDigits_ne_nil
  | _ => exact ⟨_, _, rfl, .inl (by simp)⟩

/-- No value begins with a mark that is none of these characters. -/
theorem Reads.not_mark {c : Char} {behind rest : List Char} {json : Json}
    (h : Reads (c :: behind) json rest) (mark : ¬OpensValue c) : False := by
  obtain ⟨_, _, ⟨⟩, opens⟩ := h.opens
  exact mark opens

instance (c : Char) : Decidable (OpensValue c) := inferInstanceAs (Decidable (_ ∨ _))

/-- Where a number stands, no other value does. -/
theorem not_digits {n : Nat} {c : Char} {behind : List Char} (letter : ¬c.isDigit) :
    (c :: behind).takeWhile Char.isDigit ≠ Nat.toDigits 10 n := by
  rw [List.takeWhile_cons_of_neg letter]
  exact Nat.toDigits_ne_nil.symm

theorem toDigits_injective {m n : Nat} (h : Nat.toDigits 10 m = Nat.toDigits 10 n) : m = n := by
  rw [← Nat.ofDigitChars_ten_toDigits (n := m), h, Nat.ofDigitChars_ten_toDigits]

/-- An array with items does not close at once. -/
theorem ReadsItems.not_closed {text rest behind : List Char} {items : List Json}
    (h : ReadsItems text items rest) (closes : skip text = ']' :: behind) : False := by
  cases h with
  | last value | more value =>
    rw [closes] at value
    exact value.not_mark (by decide)

/-- An object with members does not close at once. -/
theorem ReadsMembers.not_closed {text rest behind : List Char} {members : List (String × Json)}
    (h : ReadsMembers text members rest) (closes : skip text = '\x7d' :: behind) : False := by
  cases h with
  | last member | more member =>
    cases member with
    | mk opens =>
      rw [closes] at opens
      cases opens

mutual

theorem Reads.unique {text rest rest' : List Char} {json json' : Json} :
    Reads text json rest → Reads text json' rest' → json = json' ∧ rest = rest'
  | .null, h' => by
    cases h' with
    | null => exact ⟨rfl, rfl⟩
    | number digits => exact absurd digits (not_digits (by decide))
  | .number digits, h' => by
    cases h' with
    | number digits' => exact ⟨by rw [toDigits_injective (digits.symm.trans digits')], rfl⟩
    | _ => exact absurd digits (not_digits (by decide))
  | .string chars, h' => by
    cases h' with
    | number digits => exact absurd digits (not_digits (by decide))
    | string chars' =>
      obtain ⟨same, rfl⟩ := chars.unique chars'
      exact ⟨by rw [String.toList_injective same], rfl⟩
  | .emptyArray closes, h' => by
    cases h' with
    | number digits => exact absurd digits (not_digits (by decide))
    | emptyArray closes' =>
      rw [closes] at closes'
      cases closes'
      exact ⟨rfl, rfl⟩
    | array inner => exact (inner.not_closed closes).elim
  | .array inner, h' => by
    cases h' with
    | number digits => exact absurd digits (not_digits (by decide))
    | emptyArray closes => exact (inner.not_closed closes).elim
    | array inner' =>
      obtain ⟨rfl, rfl⟩ := inner.unique inner'
      exact ⟨rfl, rfl⟩
  | .emptyObject closes, h' => by
    cases h' with
    | number digits => exact absurd digits (not_digits (by decide))
    | emptyObject closes' =>
      rw [closes] at closes'
      cases closes'
      exact ⟨rfl, rfl⟩
    | object inner => exact (inner.not_closed closes).elim
  | .object inner, h' => by
    cases h' with
    | number digits => exact absurd digits (not_digits (by decide))
    | emptyObject closes => exact (inner.not_closed closes).elim
    | object inner' =>
      obtain ⟨rfl, rfl⟩ := inner.unique inner'
      exact ⟨rfl, rfl⟩
termination_by structural h => h

theorem ReadsItems.unique {text rest rest' : List Char} {items items' : List Json} :
    ReadsItems text items rest → ReadsItems text items' rest' → items = items' ∧ rest = rest'
  | .last value closes, h' => by
    cases h' with
    | last value' closes' =>
      obtain ⟨rfl, rfl⟩ := value.unique value'
      rw [closes] at closes'
      cases closes'
      exact ⟨rfl, rfl⟩
    | more value' comma =>
      obtain ⟨rfl, rfl⟩ := value.unique value'
      rw [closes] at comma
      cases comma
  | .more value comma others, h' => by
    cases h' with
    | last value' closes =>
      obtain ⟨rfl, rfl⟩ := value.unique value'
      rw [closes] at comma
      cases comma
    | more value' comma' others' =>
      obtain ⟨rfl, rfl⟩ := value.unique value'
      rw [comma] at comma'
      cases comma'
      obtain ⟨rfl, rfl⟩ := others.unique others'
      exact ⟨rfl, rfl⟩
termination_by structural h => h

theorem ReadsMember.unique {text rest rest' : List Char} {entry entry' : String × Json} :
    ReadsMember text entry rest → ReadsMember text entry' rest' → entry = entry' ∧ rest = rest'
  | .mk opens chars colon value, h' => by
    cases h' with
    | mk opens' chars' colon' value' =>
      rw [opens] at opens'
      cases opens'
      obtain ⟨same, rfl⟩ := chars.unique chars'
      rw [colon] at colon'
      cases colon'
      obtain ⟨rfl, rfl⟩ := value.unique value'
      exact ⟨Prod.ext (String.toList_injective same) rfl, rfl⟩
termination_by structural h => h

theorem ReadsMembers.unique {text rest rest' : List Char}
    {members members' : List (String × Json)} :
    ReadsMembers text members rest → ReadsMembers text members' rest' →
      members = members' ∧ rest = rest'
  | .last member closes, h' => by
    cases h' with
    | last member' closes' =>
      obtain ⟨rfl, rfl⟩ := member.unique member'
      rw [closes] at closes'
      cases closes'
      exact ⟨rfl, rfl⟩
    | more member' comma =>
      obtain ⟨rfl, rfl⟩ := member.unique member'
      rw [closes] at comma
      cases comma
  | .more member comma others, h' => by
    cases h' with
    | last member' closes =>
      obtain ⟨rfl, rfl⟩ := member.unique member'
      rw [closes] at comma
      cases comma
    | more member' comma' others' =>
      obtain ⟨rfl, rfl⟩ := member.unique member'
      rw [comma] at comma'
      cases comma'
      obtain ⟨rfl, rfl⟩ := others.unique others'
      exact ⟨rfl, rfl⟩
termination_by structural h => h

end

theorem IsText.unique {text : String} {json json' : Json} (h : IsText text json)
    (h' : IsText text json') : json = json' :=
  (Reads.unique h h').1

/-! ### What is written -/

theorem skip_mark {c : Char} (mark : ¬isSpace c) (rest : List Char) :
    skip (c :: rest) = c :: rest :=
  List.dropWhile_cons_of_neg mark

theorem not_isSpace_of_opensValue {c : Char} (opens : OpensValue c) : ¬isSpace c := by
  rintro space
  have spaces : ((c = ' ' ∨ c = '\n') ∨ c = '\r') ∨ c = '\t' := by simpa [isSpace] using space
  rcases spaces with ((rfl | rfl) | rfl) | rfl <;> exact absurd opens (by decide)

/-- No whitespace stands in front of a value. -/
theorem Reads.skip_eq {text rest : List Char} {json : Json} (h : Reads text json rest) :
    skip text = text := by
  obtain ⟨c, behind, rfl, opens⟩ := h.opens
  exact skip_mark (not_isSpace_of_opensValue opens) behind

theorem skip_lineStart (depth : Nat) (text : List Char) :
    skip ((lineStart depth).toList ++ text) = skip text := by
  have spaces : ∀ c ∈ (lineStart depth).toList, isSpace c := by
    simp [lineStart, isSpace]
  exact List.dropWhile_append_of_pos spaces

theorem hexValue?_digitChar : ∀ n < 16, hexValue? (Nat.digitChar n) = some n := by decide

theorem readsChar_escaped (c : Char) (rest : List Char) :
    ReadsChar ((escaped c).toList ++ rest) c rest := by
  unfold escaped
  split_ifs with quote backslash b t n f r control
  · exact quote ▸ .escape (by decide)
  · exact backslash ▸ .escape (by decide)
  · exact b ▸ .escape (by decide)
  · exact t ▸ .escape (by decide)
  · exact n ▸ .escape (by decide)
  · exact f ▸ .escape (by decide)
  · exact r ▸ .escape (by decide)
  · have high := hexValue?_digitChar (c.toNat / 16) (by omega)
    have low := hexValue?_digitChar (c.toNat % 16) (Nat.mod_lt _ (by decide))
    have zero : hexValue? '0' = some 0 := by decide
    simp only [hexByte, String.toList_append, String.toList_ofList]
    exact .code zero zero high low (by omega)
  · rw [String.toList_singleton]
    exact .plain quote backslash (Nat.le_of_not_lt control)

theorem readsString_escaped (s : String) (rest : List Char) :
    ReadsString ((String.join (s.toList.map escaped)).toList ++ '"' :: rest) s.toList rest := by
  induction s.toList with
  | nil => exact .close
  | cons c chars ih =>
    have split : (String.join ((c :: chars).map escaped)).toList ++ '"' :: rest =
        (escaped c).toList ++ ((String.join (chars.map escaped)).toList ++ '"' :: rest) := by
      simp
    rw [split]
    exact .char (readsChar_escaped c _) ih

theorem toList_quoted (s : String) (rest : List Char) :
    (quoted s).toList ++ rest =
      '"' :: ((String.join (s.toList.map escaped)).toList ++ '"' :: rest) := by
  simp [quoted]

theorem reads_number (n : Nat) {rest : List Char} (stops : ∀ c ∈ rest.head?, ¬c.isDigit) :
    Reads ((toString n).toList ++ rest) (.number n) rest := by
  have digits : ∀ c ∈ Nat.toDigits 10 n, c.isDigit := fun c mem =>
    Nat.isDigit_of_mem_toDigits (by decide) (by decide) mem
  rw [Nat.toString_eq_ofList_toDigits, String.toList_ofList]
  have reads := Reads.number (takeWhile_run digits stops)
  rwa [dropWhile_run digits stops] at reads

/-- A line does not start with a digit. -/
theorem lineStart_stops (depth : Nat) (text : List Char) :
    ∀ c ∈ ((lineStart depth).toList ++ text).head?, ¬c.isDigit := by
  simp [lineStart]

/-- Parts between brackets, with the line of the closing bracket. -/
theorem toList_block (opening closing : String) (depth : Nat) (part : String) (parts : List String)
    (rest : List Char) :
    (block opening closing depth (part :: parts)).toList ++ rest =
      opening.toList ++ ((lineStart (depth + 1)).toList ++
        ((String.intercalate ("," ++ lineStart (depth + 1)) (part :: parts)).toList ++
          ((lineStart depth).toList ++ (closing.toList ++ rest)))) := by
  simp [block]

/-- Without parts the brackets stand on one line. -/
theorem toList_block_nil (opening closing : String) (depth : Nat) (rest : List Char) :
    (block opening closing depth []).toList ++ rest =
      opening.toList ++ (closing.toList ++ rest) := by
  simp [block]

/-- Parts behind a comma, each at the start of its own line. -/
theorem intercalate_comma (depth : Nat) (part next : String) (parts : List String)
    (rest : List Char) :
    (String.intercalate ("," ++ lineStart depth) (part :: next :: parts)).toList ++ rest =
      part.toList ++ ',' :: ((lineStart depth).toList ++
        ((String.intercalate ("," ++ lineStart depth) (next :: parts)).toList ++ rest)) := by
  simp [String.intercalate_cons_cons]

/-- A member is read up to what stands behind its value. -/
theorem readsMember_pretty (key : String) {value : Json} {depth : Nat} {rest : List Char}
    (given : Reads ((value.prettyAt depth).toList ++ rest) value rest) :
    ReadsMember ((lineStart depth).toList ++
      ((quoted key ++ ": " ++ value.prettyAt depth).toList ++ rest)) (key, value) rest := by
  have split : (quoted key ++ ": " ++ value.prettyAt depth).toList ++ rest =
      '"' :: ((String.join (key.toList.map escaped)).toList ++
        '"' :: ':' :: ' ' :: ((value.prettyAt depth).toList ++ rest)) := by
    simp [quoted]
  rw [split]
  have quote : ∀ behind, skip ((lineStart depth).toList ++ '"' :: behind) = '"' :: behind := by
    intro behind
    rw [skip_lineStart, skip_mark (by decide)]
  have space : skip (' ' :: ((value.prettyAt depth).toList ++ rest)) =
      (value.prettyAt depth).toList ++ rest :=
    (List.dropWhile_cons_of_pos (by decide)).trans given.skip_eq
  rw [← space] at given
  exact .mk (quote _) (readsString_escaped key _) (skip_mark (by decide) _) given

mutual

/-- A value is read from its form over several lines, whatever is no digit behind it. -/
theorem reads_prettyAt : (json : Json) → (depth : Nat) → (rest : List Char) →
    (∀ c ∈ rest.head?, ¬c.isDigit) → Reads ((json.prettyAt depth).toList ++ rest) json rest
  | .null, _, _, _ => by
    rw [prettyAt]
    exact .null
  | .number n, _, _, stops => by
    rw [prettyAt]
    exact reads_number n stops
  | .string s, _, rest, _ => by
    rw [prettyAt, toList_quoted]
    exact .string (readsString_escaped s rest)
  | .array [], depth, rest, _ => by
    rw [prettyAt, prettyItems, toList_block_nil]
    exact .emptyArray (skip_mark (by decide) rest)
  | .array (item :: items), depth, rest, _ => by
    rw [prettyAt, prettyItems, toList_block]
    exact .array (readsItems_pretty (item :: items) depth rest (by simp))
  | .object [], depth, rest, _ => by
    rw [prettyAt, prettyMembers, toList_block_nil]
    exact .emptyObject (skip_mark (by decide) rest)
  | .object ((key, value) :: entries), depth, rest, _ => by
    rw [prettyAt, prettyMembers, toList_block]
    exact .object (readsMembers_pretty ((key, value) :: entries) depth rest (by simp))

/-- Items are read up to the bracket on the line behind them. -/
theorem readsItems_pretty : (items : List Json) → (depth : Nat) → (rest : List Char) →
    items ≠ [] →
    ReadsItems ((lineStart (depth + 1)).toList ++
      ((String.intercalate ("," ++ lineStart (depth + 1))
        (prettyItems (depth + 1) items)).toList ++
          ((lineStart depth).toList ++ ']' :: rest))) items rest
  | [], _, _, nonempty => absurd rfl nonempty
  | [item], depth, rest, _ => by
    have closes : skip ((lineStart depth).toList ++ ']' :: rest) = ']' :: rest := by
      rw [skip_lineStart, skip_mark (by decide)]
    have value := reads_prettyAt item (depth + 1) _ (lineStart_stops depth (']' :: rest))
    rw [prettyItems, prettyItems, String.intercalate_singleton]
    refine .last ?_ closes
    rw [skip_lineStart, value.skip_eq]
    exact value
  | item :: next :: items, depth, rest, _ => by
    have others := readsItems_pretty (next :: items) depth rest (by simp)
    rw [prettyItems] at others
    have value := fun behind => reads_prettyAt item (depth + 1) (',' :: behind) (by simp)
    rw [prettyItems, prettyItems, intercalate_comma]
    refine .more ?_ (skip_mark (by decide) _) others
    rw [skip_lineStart, (value _).skip_eq]
    exact value _

/-- Members are read up to the brace on the line behind them. -/
theorem readsMembers_pretty : (members : List (String × Json)) → (depth : Nat) →
    (rest : List Char) → members ≠ [] →
    ReadsMembers ((lineStart (depth + 1)).toList ++
      ((String.intercalate ("," ++ lineStart (depth + 1))
        (prettyMembers (depth + 1) members)).toList ++
          ((lineStart depth).toList ++ '\x7d' :: rest))) members rest
  | [], _, _, nonempty => absurd rfl nonempty
  | [(key, value)], depth, rest, _ => by
    have closes : skip ((lineStart depth).toList ++ '\x7d' :: rest) = '\x7d' :: rest := by
      rw [skip_lineStart, skip_mark (by decide)]
    have given := reads_prettyAt value (depth + 1) _ (lineStart_stops depth ('\x7d' :: rest))
    rw [prettyMembers, prettyMembers, String.intercalate_singleton]
    exact .last (readsMember_pretty key given) closes
  | (key, value) :: (key', value') :: entries, depth, rest, _ => by
    have others := readsMembers_pretty ((key', value') :: entries) depth rest (by simp)
    rw [prettyMembers] at others
    have given := fun behind => reads_prettyAt value (depth + 1) (',' :: behind) (by simp)
    rw [prettyMembers, prettyMembers, intercalate_comma]
    exact .more (readsMember_pretty key (given _)) (skip_mark (by decide) _) others

end

/-- The form over several lines says the value that it is written for. -/
theorem isText_pretty (json : Json) : IsText json.pretty json := by
  have reads := reads_prettyAt json 0 [] (by simp)
  rwa [List.append_nil] at reads

/-- The form over several lines tells any two values apart. -/
theorem pretty_injective : Function.Injective pretty := fun json json' same =>
  (isText_pretty json).unique (same ▸ isText_pretty json')

end RatLang.Json
