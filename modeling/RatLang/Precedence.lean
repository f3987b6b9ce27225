import RatLang.Token

/-!
# The tiers of operators

Operators bind in tiers, from the logical ones up to multiplication; the operators in front of an
operand bind tighter than all of them. Every tier associates to the left.
-/

namespace RatLang

/-- A tier of operators. `lowest` and `unary` hold no operator between operands. -/
inductive Precedence where
  | lowest | logical | comparison | shift | additive | term | unary
deriving DecidableEq, Repr

namespace Precedence

/-- The binding power of a tier, from zero up. -/
def power : Precedence → Nat
  | lowest => 0
  | logical => 1
  | comparison => 2
  | shift => 3
  | additive => 4
  | term => 5
  | unary => 6

/-- The name of a tier. -/
def name : Precedence → String
  | lowest => "Lowest"
  | logical => "Logical"
  | comparison => "Comparison"
  | shift => "Shift"
  | additive => "Additive"
  | term => "Term"
  | unary => "Unary"

/-- The tier of an operator between operands. -/
def ofBinary? (lexeme : String) : Option Precedence :=
  match lexeme with
  | "||" | "&&" => some logical
  | "==" | "!=" | "<" | ">" | "<=" | ">=" => some comparison
  | "<<" | ">>" => some shift
  | "+" | "-" => some additive
  | "*" | "/" | "%" => some term
  | _ => none

end Precedence

namespace Token

/-- The binding power of a token that stands between operands. -/
def bindingPower? (t : Token) : Option Nat :=
  if t.kind = .operator then (Precedence.ofBinary? t.lexeme).map Precedence.power else none

/-- May the token stand in front of an operand? -/
def isUnaryOperator (t : Token) : Bool :=
  t.kind == .operator && (t.lexeme == "-" || t.lexeme == "!" || t.lexeme == "~")

theorem isUnaryOperator_iff {t : Token} :
    t.isUnaryOperator ↔ t.kind = .operator ∧ t.lexeme ∈ ["-", "!", "~"] := by
  simp [isUnaryOperator, or_assoc]

end Token

end RatLang
