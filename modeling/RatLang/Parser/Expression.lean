import RatLang.Literal
import RatLang.Parser.State
import RatLang.Precedence

/-!
# Parsing expressions

Operands are joined by precedence climbing: an expression of strength `p` takes every operator that
binds at least as tightly as `p`, and the right operand of an operator binds tighter than the
operator itself, so chains of one tier lean to the left. The functions recur on the number of tokens
that are left.
-/

namespace RatLang.Parser

mutual

/-- Parses an expression whose operators all bind at least as tightly as `minimum`. -/
def expression (minimum : Nat) (state : ParseState) : Step state.left Expr :=
  (operand state).bind fun lhs afterOperand taken =>
    (climb minimum lhs afterOperand).weaken taken
termination_by 3 * state.left + 1

/-- Folds the operators that follow onto `lhs`, as long as they bind at least as tightly as
`minimum`. -/
def climb (minimum : Nat) (lhs : Expr) (state : ParseState) : Step (state.left + 1) Expr :=
  match state.peek.bind Token.bindingPower? with
  | none => state.done lhs
  | some power =>
    if power < minimum then state.done lhs
    else
      (operation power lhs state).bind fun folded afterOperation taken =>
        (climb minimum folded afterOperation).weaken (ParseState.left_succ_le_succ taken)
termination_by 3 * state.left + 1

/-- Takes an operator of the given binding power and its right operand, and folds both onto
`lhs`. -/
def operation (power : Nat) (lhs : Expr) (state : ParseState) : Step state.left Expr :=
  (popSymbol (fun _ => true) "a binary operator" state).bind fun (op, symbol) afterOp taken =>
    (expression (power + 1) afterOp).bind fun rhs afterRhs takenRhs =>
      .ok (.binary symbol lhs rhs op.position) afterRhs (ParseState.left_lt_trans taken takenRhs)
termination_by 3 * state.left

/-- Parses a literal, a name, a call, a group, or an operator with its operand. -/
def operand (state : ParseState) : Step state.left Expr :=
  (pop "an expression" state).bind fun token afterToken taken =>
    let refused : Step state.left Expr :=
      .error (.unexpected token "an expression") afterToken
    match token.kind with
    | .numericLiteral =>
      .ok (.numeric (numericType token.lexeme) token.lexeme token.position) afterToken taken
    | .stringLiteral => .ok (.string token.lexeme token.position) afterToken taken
    | .charLiteral => .ok (.char token.lexeme token.position) afterToken taken
    | .keyword =>
      if token.lexeme = "null" then .ok (.null token.position) afterToken taken else refused
    | .identifier =>
      if afterToken.isAtPunct '(' then
        (callArguments afterToken).bind fun args afterCall takenCall =>
          .ok (.call token.lexeme args token.position) afterCall
            (ParseState.left_lt_trans taken takenCall)
      else .ok (.identifier ⟨token.lexeme, token.position⟩) afterToken taken
    | .punctuator =>
      if token.isPunct '(' then
        (expression Precedence.lowest.power afterToken).bind fun inner afterInner takenInner =>
          (expectPunct ')' "')'" afterInner).bind fun _ afterGroup takenGroup =>
            .ok inner afterGroup (ParseState.left_lt_trans₃ taken takenInner takenGroup)
      else refused
    | .operator =>
      if token.isUnaryOperator then
        match Symbol.ofLexeme? token.lexeme with
        | none => .error (.unexpected token "a unary operator") afterToken
        | some symbol =>
          (expression Precedence.unary.power afterToken).bind fun inner afterInner takenInner =>
            .ok (.unary symbol inner token.position) afterInner
              (ParseState.left_lt_trans taken takenInner)
      else refused
    | _ => refused
termination_by 3 * state.left

/-- Parses the arguments of a call with the parentheses around them. -/
def callArguments (state : ParseState) : Step state.left (List Expr) :=
  (pop "'('" state).bind fun _ afterOpen takenOpen =>
    if afterOpen.isAtPunct ')' then
      (pop "')'" afterOpen).bind fun _ afterClose takenClose =>
        .ok [] afterClose (ParseState.left_lt_trans takenOpen takenClose)
    else (arguments afterOpen).weaken (by omega)
termination_by 3 * state.left

/-- Parses arguments between commas, and the parenthesis that closes them. -/
def arguments (state : ParseState) : Step state.left (List Expr) :=
  (expression Precedence.lowest.power state).bind fun arg afterArg takenArg =>
    (pop "',' or ')'" afterArg).bind fun separator afterSeparator takenSeparator =>
      if separator.isPunct ')' then
        .ok [arg] afterSeparator (ParseState.left_lt_trans takenArg takenSeparator)
      else if separator.isPunct ',' then
        (arguments afterSeparator).bind fun rest afterRest takenRest =>
          .ok (arg :: rest) afterRest
            (ParseState.left_lt_trans₃ takenArg takenSeparator takenRest)
      else .error (.unexpected separator "',' or ')'") afterSeparator
termination_by 3 * state.left + 2

end

end RatLang.Parser
