import RatLang.Precedence

/-!
# The ladder of operators

The language lists its operators tier by tier, from the logical ones to the terms, and apart from
them those that stand in front of an operand. The lists are written out here, and the tier and the
binding power that the parser gives to an operator are those that the lists say.
-/

namespace RatLang

namespace Precedence

variable {tier : Precedence} {lexeme : String}

/-- The operators of a tier. -/
def lexemes : Precedence → List String
  | logical => ["||", "&&"]
  | comparison => ["==", "!=", "<", ">", "<=", ">="]
  | shift => ["<<", ">>"]
  | additive => ["+", "-"]
  | term => ["*", "/", "%"]
  | lowest | unary => []

/-- The operators that stand in front of an operand. -/
def signs : List String := ["-", "!", "~"]

/-- The tiers with operators, the loosest one first. -/
def ladder : List Precedence := [logical, comparison, shift, additive, term]

/-- The tier that lists an operator. -/
def listing? (lexeme : String) : Option Precedence := ladder.find? (·.lexemes.contains lexeme)

/-- The tier one step down the ladder, where the operands of a tier are parsed. -/
def tighter : Precedence → Precedence
  | lowest => logical
  | logical => comparison
  | comparison => shift
  | shift => additive
  | additive => term
  | term => unary
  | unary => unary

/-- The tier from which operators are strong enough for a binding power. -/
def ofPower : Nat → Precedence
  | 0 => lowest
  | 1 => logical
  | 2 => comparison
  | 3 => shift
  | 4 => additive
  | 5 => term
  | _ => unary

theorem power_tighter (h : tier ≠ unary) : tier.tighter.power = tier.power + 1 := by
  cases tier <;> first | rfl | exact absurd rfl h

theorem power_le (tier : Precedence) : tier.power ≤ 6 := by
  cases tier <;> decide

theorem power_injective {a b : Precedence} (h : a.power = b.power) : a = b := by
  cases a <;> cases b <;> first | rfl | exact absurd h (by decide)

theorem power_ofPower {power : Nat} (h : power ≤ 6) : (ofPower power).power = power := by
  have checked : ∀ n < 7, (ofPower n).power = n := by decide
  exact checked power (Nat.lt_succ_of_le h)

/-- No operator between operands is as strong as one in front of an operand. -/
theorem ofPower_of_lt {power : Nat} (h : 5 < power) : ofPower power = unary := by
  obtain ⟨more, rfl⟩ := Nat.exists_eq_add_of_le h
  rw [Nat.add_comm]
  rfl

/-- A tier that lists an operator is on the ladder. -/
theorem mem_ladder_of_mem (h : lexeme ∈ tier.lexemes) : tier ∈ ladder := by
  cases tier with
  | lowest | unary => cases h
  | logical | comparison | shift | additive | term => decide

/-- The parser gives an operator the tier that lists it. -/
theorem ofBinary?_eq_some_iff : ofBinary? lexeme = some tier ↔ lexeme ∈ tier.lexemes := by
  constructor
  · intro found
    unfold ofBinary? at found
    split at found <;> cases found <;> decide
  · have checked : ∀ level ∈ ladder, ∀ op ∈ level.lexemes, ofBinary? op = some level := by decide
    intro listed
    exact checked tier (mem_ladder_of_mem listed) lexeme listed

theorem listing?_eq_some_iff : listing? lexeme = some tier ↔ lexeme ∈ tier.lexemes := by
  constructor
  · intro found
    simpa using List.find?_some found
  · have checked : ∀ level ∈ ladder, ∀ op ∈ level.lexemes, listing? op = some level := by decide
    intro listed
    exact checked tier (mem_ladder_of_mem listed) lexeme listed

/-- The operators of a tier are operators of the language. -/
theorem mem_operators_of_mem (h : lexeme ∈ tier.lexemes) : lexeme ∈ operators := by
  have checked : ∀ level ∈ ladder, ∀ op ∈ level.lexemes, op ∈ operators := by decide
  exact checked tier (mem_ladder_of_mem h) lexeme h

/-- The tiers with operators lie strictly between the lowest one and the unary one. -/
theorem power_of_mem (h : lexeme ∈ tier.lexemes) : 1 ≤ tier.power ∧ tier.power ≤ 5 := by
  have checked : ∀ level ∈ ladder, 1 ≤ level.power ∧ level.power ≤ 5 := by decide
  exact checked tier (mem_ladder_of_mem h)

end Precedence

namespace Token

variable {t : Token} {tier : Precedence}

/-- Is the token an operator between operands on this tier? -/
def isOperatorOf (t : Token) (tier : Precedence) : Bool :=
  t.kind == .operator && tier.lexemes.contains t.lexeme

theorem isOperatorOf_iff : t.isOperatorOf tier ↔ t.kind = .operator ∧ t.lexeme ∈ tier.lexemes := by
  simp [isOperatorOf]

/-- Is the token an operator in front of an operand? -/
def isSign (t : Token) : Bool := t.kind == .operator && Precedence.signs.contains t.lexeme

theorem isSign_iff : t.isSign ↔ t.kind = .operator ∧ t.lexeme ∈ Precedence.signs := by
  simp [isSign]

theorem isUnaryOperator_eq_isSign (t : Token) : t.isUnaryOperator = t.isSign :=
  Bool.eq_iff_iff.mpr (isUnaryOperator_iff.trans isSign_iff.symm)

/-- The operators of a tier are those with its binding power. -/
theorem isOperatorOf_iff_bindingPower? :
    t.isOperatorOf tier ↔ t.bindingPower? = some tier.power := by
  rw [isOperatorOf_iff, bindingPower?]
  by_cases operator : t.kind = .operator
  · simp only [operator, true_and, if_true, Option.map_eq_some_iff]
    constructor
    · intro listed
      exact ⟨tier, Precedence.ofBinary?_eq_some_iff.mpr listed, rfl⟩
    · rintro ⟨level, found, same⟩
      rw [← Precedence.power_injective same]
      exact Precedence.ofBinary?_eq_some_iff.mp found
  · simp only [operator, false_and, if_false, reduceCtorEq]

end Token

end RatLang
