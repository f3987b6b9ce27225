import RatLang.Proofs.Parser.Grammar.Single
import RatLang.Proofs.Print.Derives

/-!
# Parentheses

An expression can be written in many ways: each operand that its place does not fit needs a pair of
parentheses, and any part may have as many more pairs as one likes. A group leaves no node, so all
these ways are read as the same tree, up to positions. The words that a program is printed with are
one of them.
-/

namespace RatLang

open Grammar
open Token (is_word isPunct_mark)

/-! ### Ways to write an expression -/

mutual

/-- An expression whose operators and numbers are ones of the language. Nothing is asked of names,
strings and characters. -/
def Expr.Valid : Expr → Prop
  | .binary op lhs rhs _ =>
    (∃ level, op.text ∈ Precedence.lexemes level) ∧ lhs.Valid ∧ rhs.Valid
  | .unary op operand _ =>
    op ∈ [Symbol.arithmeticSub, .logicalNot, .bitwiseNeg] ∧ operand.Valid
  | .numeric type value _ => type = numericType value
  | .string _ _ | .char _ _ | .null _ | .identifier _ => True
  | .call _ args _ => Expr.ArgsValid args

/-- Arguments whose operators and numbers are ones of the language. -/
def Expr.ArgsValid : List Expr → Prop
  | [] => True
  | arg :: rest => arg.Valid ∧ Expr.ArgsValid rest

end

mutual

/-- The tokens, wherever they stand, are a way to write the expression, with a number of pairs of
parentheses around it. A left operand of a lower tier needs a pair, and so do a right operand of a
lower or equal tier and a binary operand of a unary operator. -/
inductive Rendering : Expr → Nat → List Token → Prop where
  | numeric {type : Symbol} {value : String} {p : Position} {t : Token}
    (spelled : t.is .numericLiteral value) : Rendering (.numeric type value p) 0 [t]
  | string {value : String} {p : Position} {t : Token} (spelled : t.is .stringLiteral value) :
    Rendering (.string value p) 0 [t]
  | char {value : String} {p : Position} {t : Token} (spelled : t.is .charLiteral value) :
    Rendering (.char value p) 0 [t]
  | null {p : Position} {t : Token} (spelled : t.is .keyword "null") : Rendering (.null p) 0 [t]
  | identifier {name : Identifier} {t : Token} (spelled : t.is .identifier name.name) :
    Rendering (.identifier name) 0 [t]
  | call {name : String} {args : List Expr} {p : Position} {t opening closing : Token}
    {w : List Token} (spelled : t.is .identifier name) (opens : opening.isPunct '(')
    (given : ArgsRendering args w) (closes : closing.isPunct ')') :
    Rendering (.call name args p) 0 (t :: opening :: (w ++ [closing]))
  | unary {op : Symbol} {operand : Expr} {p : Position} {t : Token} {w : List Token} {n : Nat}
    (spelled : t.is .operator op.text) (inner : Rendering operand n w)
    (enough : operand.tier ≠ .unary → 0 < n) : Rendering (.unary op operand p) 0 (t :: w)
  | binary {op : Symbol} {lhs rhs : Expr} {p : Position} {t : Token} {l r : List Token} {m n : Nat}
    (left : Rendering lhs m l) (spelled : t.is .operator op.text) (right : Rendering rhs n r)
    (enough : lhs.tier.power < (Expr.binary op lhs rhs p).tier.power → 0 < m)
    (enough' : rhs.tier.power ≤ (Expr.binary op lhs rhs p).tier.power → 0 < n) :
    Rendering (.binary op lhs rhs p) 0 (l ++ t :: r)
  | group {e : Expr} {n : Nat} {w : List Token} {opening closing : Token}
    (opens : opening.isPunct '(') (inner : Rendering e n w) (closes : closing.isPunct ')') :
    Rendering e (n + 1) (opening :: (w ++ [closing]))

/-- The tokens are a way to write the arguments, with commas between them. -/
inductive ArgsRendering : List Expr → List Token → Prop where
  | none : ArgsRendering [] []
  | last {arg : Expr} {n : Nat} {w : List Token} (given : Rendering arg n w) :
    ArgsRendering [arg] w
  | cons {arg next : Expr} {rest : List Expr} {n : Nat} {w v : List Token} {comma : Token}
    (given : Rendering arg n w) (separates : comma.isPunct ',')
    (more : ArgsRendering (next :: rest) v) : ArgsRendering (arg :: next :: rest) (w ++ comma :: v)

end

/-- The tier of an expression with a number of pairs of parentheses around it. -/
def Expr.tierIn (e : Expr) (n : Nat) : Precedence := if n = 0 then e.tier else .unary

@[simp] theorem Expr.tierIn_zero (e : Expr) : e.tierIn 0 = e.tier := rfl

@[simp] theorem Expr.tierIn_succ (e : Expr) (n : Nat) : e.tierIn (n + 1) = .unary := rfl

/-- An operand fits its place, or it is in parentheses. -/
theorem Expr.power_le_tierIn {e : Expr} {n : Nat} {level : Precedence}
    (enough : e.tier.power < level.power → 0 < n) : level.power ≤ (e.tierIn n).power := by
  cases n with
  | zero =>
    rw [Expr.tierIn_zero]
    exact Nat.le_of_not_lt fun lower => Nat.lt_irrefl 0 (enough lower)
  | succ n => exact level.power_le

/-! ### What the grammar makes of them -/

/-- An operator in front of an operand that is in parentheses where it needs them. -/
theorem expression_unary {op : Symbol} {operand e : Expr} {t : Token} {w : List Token} {n : Nat}
    (operator : op ∈ [Symbol.arithmeticSub, .logicalNot, .bitwiseNeg])
    (spelled : t.is .operator op.text) (derived : Expression (operand.tierIn n) w e)
    (enough : operand.tier ≠ .unary → 0 < n) :
    Expression .unary (t :: w) (.unary op e t.position) := by
  obtain ⟨kind, lexeme⟩ := Token.is_iff.mp spelled
  obtain ⟨symbol, unary, -⟩ := spelled_of_unary operator
  have isOperator : t.isSign := by
    rw [Token.isSign_iff, lexeme]
    exact ⟨kind, (Token.isSign_iff.mp unary).2⟩
  have fits : Precedence.unary.power ≤ (operand.tierIn n).power := by
    refine Expr.power_le_tierIn fun lower => enough fun tier => ?_
    rw [tier] at lower
    exact Nat.lt_irrefl _ lower
  exact .unary isOperator (lexeme ▸ symbol) (loosen derived fits)

/-- An operator between operands that are in parentheses where they need them. -/
theorem expression_binary {op : Symbol} {level : Precedence} {lhs rhs e e' : Expr} {t : Token}
    {l r : List Token} {m n : Nat} (operator : op.text ∈ Precedence.lexemes level)
    (spelled : t.is .operator op.text) (left : Expression (lhs.tierIn m) l e)
    (right : Expression (rhs.tierIn n) r e') (enough : lhs.tier.power < level.power → 0 < m)
    (enough' : rhs.tier.power ≤ level.power → 0 < n) :
    Expression level (l ++ t :: r) (.binary op e e' t.position) := by
  obtain ⟨kind, lexeme⟩ := Token.is_iff.mp spelled
  have inner : level ≠ .unary := by
    rintro rfl
    exact absurd (Precedence.power_of_mem operator).2 (by decide)
  have isOperator : t.isOperatorOf level := by
    rw [Token.isOperatorOf_iff, lexeme]
    exact ⟨kind, operator⟩
  have fits : level.power ≤ (lhs.tierIn m).power := Expr.power_le_tierIn enough
  have fits' : level.tighter.power ≤ (rhs.tierIn n).power := by
    refine Expr.power_le_tierIn fun lower => enough' ?_
    rw [Precedence.power_tighter inner] at lower
    exact Nat.le_of_lt_succ lower
  exact .binary isOperator (lexeme ▸ spelled_of_mem_lexemes operator) (loosen left fits)
    (loosen right fits')

mutual

/-- Every way to write an expression forms it, up to positions. -/
theorem Rendering.derives : {e : Expr} → {n : Nat} → {w : List Token} → Rendering e n w →
    e.Valid → ∃ e', Expression (e.tierIn n) w e' ∧ e'.bare = e.bare
  | _, _, _, @Rendering.numeric type _ _ _ spelled, valid => by
    obtain ⟨kind, rfl⟩ := Token.is_iff.mp spelled
    obtain rfl : type = _ := valid
    exact ⟨_, .leaf (.numeric kind), rfl⟩
  | _, _, _, .string spelled, _ => by
    obtain ⟨kind, rfl⟩ := Token.is_iff.mp spelled
    exact ⟨_, .leaf (.string kind), rfl⟩
  | _, _, _, .char spelled, _ => by
    obtain ⟨kind, rfl⟩ := Token.is_iff.mp spelled
    exact ⟨_, .leaf (.char kind), rfl⟩
  | _, _, _, .null spelled, _ => ⟨_, .leaf (.null spelled), rfl⟩
  | _, _, _, .identifier spelled, _ => by
    obtain ⟨kind, same⟩ := Token.is_iff.mp spelled
    refine ⟨_, .leaf (.name kind), ?_⟩
    simp only [Expr.bare, Expr.mapPositions, Identifier.mapPositions, same, Position.forget]
  | _, _, _, .call spelled opens given closes, valid => by
    obtain ⟨kind, rfl⟩ := Token.is_iff.mp spelled
    obtain ⟨args, derived, same⟩ := given.derives valid
    refine ⟨_, .call kind opens derived closes, ?_⟩
    simp only [Expr.bare, Expr.mapPositions, same, Position.forget]
  | _, _, _, .unary spelled inner enough, valid => by
    obtain ⟨operator, validOperand⟩ := valid
    obtain ⟨operand, derived, same⟩ := inner.derives validOperand
    simp only [Expr.bare] at same
    refine ⟨_, expression_unary operator spelled derived enough, ?_⟩
    simp only [Expr.bare, Expr.mapPositions, same, Position.forget]
  | _, _, _, @Rendering.binary op lhs rhs p _ _ _ _ _ left spelled right enough enough', valid => by
    obtain ⟨⟨level, operator⟩, validLeft, validRight⟩ := valid
    obtain ⟨lhs', derived, same⟩ := left.derives validLeft
    obtain ⟨rhs', derived', same'⟩ := right.derives validRight
    simp only [Expr.bare] at same same'
    have tier : (Expr.binary op lhs rhs p).tier = level := Expr.tier_binary operator lhs rhs p
    rw [tier] at enough enough'
    rw [Expr.tierIn_zero, tier]
    refine ⟨_, expression_binary operator spelled derived derived' enough enough', ?_⟩
    simp only [Expr.bare, Expr.mapPositions, same, same', Position.forget]
  | _, _, _, .group opens inner closes, valid => by
    obtain ⟨e', derived, same⟩ := inner.derives valid
    exact ⟨e', .group opens (loosen derived (Nat.zero_le _)) closes, same⟩

theorem ArgsRendering.derives : {args : List Expr} → {w : List Token} → ArgsRendering args w →
    Expr.ArgsValid args → ∃ args', Arguments w args' ∧
      Expr.mapArgs Position.forget args' = Expr.mapArgs Position.forget args
  | _, _, .none, _ => ⟨[], .none, rfl⟩
  | _, _, .last given, valid => by
    obtain ⟨arg, derived, same⟩ := given.derives valid.1
    simp only [Expr.bare] at same
    refine ⟨[arg], .some (.last (loosen derived (Nat.zero_le _))), ?_⟩
    simp only [Expr.mapArgs, same]
  | _, _, .cons given separates more, valid => by
    obtain ⟨arg, derived, same⟩ := given.derives valid.1
    obtain ⟨args, given', same'⟩ := more.derives valid.2
    simp only [Expr.bare] at same
    cases given' with
    | none => cases same'
    | some derived' =>
      refine ⟨arg :: args, ?_, ?_⟩
      · exact .some (.cons (loosen derived (Nat.zero_le _)) separates derived')
      · rw [Expr.mapArgs, Expr.mapArgs, same, same']

end

/-! ### Tokens that count -/

theorem plain_of_is {t : Token} {kind : TokenKind} {lexeme : String} (spelled : t.is kind lexeme)
    (counts : kind ∉ [.commentSeparator, .commentBody, .statementTerminator]) : t.Plain := by
  obtain ⟨rfl, -⟩ := Token.is_iff.mp spelled
  exact plain_of_isWordKind counts

theorem plain_of_isPunct {t : Token} {c : Char} (mark : t.isPunct c) : t.Plain :=
  ⟨noTerminator_of_isPunct mark, not_isComment_of_isPunct mark⟩

/-- None of the tokens is a terminator or part of a comment. -/
def AllPlain (w : List Token) : Prop := ∀ t ∈ w, t.Plain

@[simp] theorem allPlain_nil : AllPlain [] := by simp [AllPlain]

@[simp] theorem allPlain_cons {t : Token} {w : List Token} :
    AllPlain (t :: w) ↔ t.Plain ∧ AllPlain w := by
  simp [AllPlain]

@[simp] theorem allPlain_append {v w : List Token} :
    AllPlain (v ++ w) ↔ AllPlain v ∧ AllPlain w := by
  simp [AllPlain, or_imp, forall_and]

mutual

theorem Rendering.allPlain : {e : Expr} → {n : Nat} → {w : List Token} → Rendering e n w →
    AllPlain w
  | _, _, _, .numeric spelled | _, _, _, .string spelled | _, _, _, .char spelled
  | _, _, _, .null spelled | _, _, _, .identifier spelled => by
    simp [plain_of_is spelled (by decide)]
  | _, _, _, .call spelled opens given closes => by
    simp [plain_of_is spelled (by decide), plain_of_isPunct opens, given.allPlain,
      plain_of_isPunct closes]
  | _, _, _, .unary spelled inner _ => by simp [plain_of_is spelled (by decide), inner.allPlain]
  | _, _, _, .binary left spelled right _ _ => by
    simp [left.allPlain, plain_of_is spelled (by decide), right.allPlain]
  | _, _, _, .group opens inner closes => by
    simp [plain_of_isPunct opens, inner.allPlain, plain_of_isPunct closes]

theorem ArgsRendering.allPlain : {args : List Expr} → {w : List Token} → ArgsRendering args w →
    AllPlain w
  | _, _, .none => allPlain_nil
  | _, _, .last given => given.allPlain
  | _, _, .cons given separates more => by
    simp [given.allPlain, plain_of_isPunct separates, more.allPlain]

end

/-- The parser leaves out no token of a way to write an expression. -/
theorem Rendering.significant_eq {e : Expr} {n : Nat} {w : List Token} (h : Rendering e n w) :
    significant w = w := by
  have empty : Tidy [] := ⟨by simp, .nil⟩
  have tidy : Tidy ([] ++ w) := empty.append_plain h.allPlain
  exact tidy.significant_eq

/-! ### The words that are printed -/

theorem rendering_enclosed {e : Expr} {w : List Token} (needed : Prop) [Decidable needed]
    (h : Rendering e 0 w) : ∃ n, Rendering e n (enclosed needed w) ∧ (needed → 0 < n) := by
  unfold enclosed
  split
  · exact ⟨1, .group (isPunct_mark rfl) h (isPunct_mark rfl), fun _ => Nat.one_pos⟩
  · rename_i needless
    exact ⟨0, h, fun given => absurd given needless⟩

mutual

/-- The words that are printed for an expression are a way to write it. -/
theorem Expr.rendering_words : (e : Expr) → Rendering e 0 e.words
  | .binary op lhs rhs p => by
    obtain ⟨m, left, enough⟩ := rendering_enclosed (lhs.tier.power < _) lhs.rendering_words
    obtain ⟨n, right, enough'⟩ := rendering_enclosed (rhs.tier.power ≤ _) rhs.rendering_words
    exact .binary left (is_word _ _) right enough enough'
  | .unary op operand p => by
    obtain ⟨n, inner, enough⟩ := rendering_enclosed (operand.tier ≠ .unary) operand.rendering_words
    exact .unary (is_word _ _) inner enough
  | .numeric .. => .numeric (is_word _ _)
  | .string .. => .string (is_word _ _)
  | .char .. => .char (is_word _ _)
  | .null _ => .null (is_word _ _)
  | .identifier _ => .identifier (is_word _ _)
  | .call name args p =>
    .call (is_word _ _) (isPunct_mark rfl) (Expr.rendering_argWords args) (isPunct_mark rfl)

theorem Expr.rendering_argWords : (args : List Expr) → ArgsRendering args (Expr.argWords args)
  | [] => .none
  | [arg] => .last arg.rendering_words
  | arg :: next :: rest =>
    .cons arg.rendering_words (isPunct_mark rfl) (Expr.rendering_argWords (next :: rest))

end

/-! ### How they are read -/

/-- An expression that is parsed from a binding power on ends in front of the queue: no parenthesis
makes a call of its last name, and no operator binds as tight. -/
structure Stops (minimum : Nat) (q : List Token) : Prop where
  noCall : ¬q.head?.any (·.isPunct '(')
  weaker : ∀ power, q.head?.bind Token.bindingPower? = some power → power < minimum

open RatLang.Parser (Parses run expression climb)

theorem Rendering.parses {e : Expr} {n minimum : Nat} {w q : List Token} (h : Rendering e n w)
    (valid : e.Valid) (low : minimum ≤ (e.tierIn n).power) (stops : Stops minimum q) :
    ∃ e', Parses (run (expression minimum)) (w ++ q) e' q ∧ e'.bare = e.bare := by
  obtain ⟨e', derived, same⟩ := h.derives valid
  have parts : Parser.Parts (e.tierIn n) q :=
    ⟨stops.noCall, fun power next => (stops.weaker power next).le.trans low⟩
  have ended : Parses (run (climb minimum e')) q e' q := by
    intro s front
    refine ⟨s, Ladder.climb_done fun power next => ?_, front⟩
    rw [ParseState.peek, front] at next
    exact stops.weaker power next
  exact ⟨e', Parser.parses_climbing derived low parts ended, same⟩

theorem Rendering.parseExpression {e : Expr} {n : Nat} {w : List Token} (h : Rendering e n w)
    (valid : e.Valid) : ∃ e', RatLang.parseExpression w = .ok e' ∧ e'.bare = e.bare := by
  obtain ⟨e', derived, same⟩ := h.derives valid
  have single : Single ([] ++ (w ++ [])) e' :=
    .mk breaks_nil (loosen derived (Nat.zero_le _)) breaks_nil
  rw [List.nil_append, List.append_nil] at single
  refine ⟨e', parseExpression_eq_ok_iff.mpr ?_, same⟩
  rw [h.significant_eq]
  exact single

/-- Whichever parentheses an expression is written with beyond the ones that its operands need, it
is read as the expression, up to positions: on its own, and inside of other tokens from any binding
power on that it reaches. No other expression can be written in the same way. -/
theorem parentheses_erased {e : Expr} {n : Nat} {w : List Token} (valid : e.Valid)
    (rendered : Rendering e n w) :
    (∃ e', parseExpression w = .ok e' ∧ e'.bare = e.bare) ∧
    (∀ minimum q, minimum ≤ (e.tierIn n).power → Stops minimum q →
      ∃ e', Parses (run (expression minimum)) (w ++ q) e' q ∧ e'.bare = e.bare) ∧
    ∀ other m, other.Valid → Rendering other m w → other.bare = e.bare := by
  have parsed := rendered.parseExpression valid
  refine ⟨parsed, fun minimum q low stops => rendered.parses valid low stops, ?_⟩
  intro other m valid' rendered'
  obtain ⟨e₁, parsed₁, same₁⟩ := parsed
  obtain ⟨e₂, parsed₂, same₂⟩ := rendered'.parseExpression valid'
  rw [parsed₁] at parsed₂
  cases parsed₂
  rw [← same₁, ← same₂]

/-- A negated difference with groups around the whole, around the operand and around a number is
multiplied by a call with a group in it. -/
theorem parentheses_erased_product :
    let one : Expr := .numeric .typeInt "1" .start
    let difference : Expr := .binary .arithmeticSub (.identifier ⟨"a", .start⟩) one .start
    let call : Expr := .call "f" [.identifier ⟨"b", .start⟩, .string "\"x\"" .start] .start
    let e : Expr := .binary .arithmeticMul (.unary .arithmeticSub difference .start) call .start
    let opening (column : Nat) : Token := ⟨.punctuator, "(", ⟨1, column⟩⟩
    let closing (column : Nat) : Token := ⟨.punctuator, ")", ⟨1, column⟩⟩
    let w : List Token := [opening 1, opening 2, ⟨.operator, "-", ⟨1, 3⟩⟩, opening 4, opening 5,
      ⟨.identifier, "a", ⟨1, 6⟩⟩, ⟨.operator, "-", ⟨1, 7⟩⟩, opening 8,
      ⟨.numericLiteral, "1", ⟨1, 9⟩⟩, closing 10, closing 11, closing 12, closing 13,
      ⟨.operator, "*", ⟨1, 14⟩⟩, ⟨.identifier, "f", ⟨1, 15⟩⟩, opening 16, opening 17,
      ⟨.identifier, "b", ⟨1, 18⟩⟩, closing 19, ⟨.punctuator, ",", ⟨1, 20⟩⟩,
      ⟨.stringLiteral, "\"x\"", ⟨1, 21⟩⟩, closing 24, closing 25]
    e.Valid ∧ Rendering e 1 w ∧ ∃ e', parseExpression w = .ok e' ∧ e'.bare = e.bare := by
  intro one difference call e opening closing w
  have valid : e.Valid :=
    ⟨⟨.term, by decide⟩, ⟨by decide, ⟨.additive, by decide⟩, trivial, rfl⟩, trivial, trivial,
      trivial⟩
  have number : Rendering one 1 [opening 8, ⟨.numericLiteral, "1", ⟨1, 9⟩⟩, closing 10] :=
    .group rfl (.numeric rfl) rfl
  have inner : Rendering difference 0 (⟨.identifier, "a", ⟨1, 6⟩⟩ :: ⟨.operator, "-", ⟨1, 7⟩⟩ ::
      [opening 8, ⟨.numericLiteral, "1", ⟨1, 9⟩⟩, closing 10]) :=
    .binary (.identifier rfl) rfl number (by decide) (by decide)
  have rendered : Rendering e 1 w := by
    refine .group ?_ (.binary (.group ?_ (.unary ?_ (.group ?_ (.group ?_ inner ?_) ?_) ?_) ?_) ?_
      (.call ?_ ?_ (.cons (.group ?_ (.identifier ?_) ?_) ?_ (.last (.string ?_))) ?_) ?_ ?_) ?_
    all_goals decide
  exact ⟨valid, rendered, (parentheses_erased valid rendered).1⟩

end RatLang
