import RatLang.Parser.Statement

/-!
# From tokens to trees

The two entry points of the parser: a whole program, and a single expression.
-/

namespace RatLang

/-- The statements of a program, or the first error. -/
def parse (tokens : List Token) : Except ParseError (List Stmt) :=
  match Parser.sequence false (.ofTokens tokens) with
  | .ok program _ _ => .ok program
  | .error cause _ => .error cause

/-- The expression that the tokens form. Only terminators may stand around it. -/
def parseExpression (tokens : List Token) : Except ParseError Expr :=
  match Parser.anyExpression (ParseState.ofTokens tokens).skipTerminators with
  | .error cause _ => .error cause
  | .ok expr state _ =>
    match state.skipTerminators.peek with
    | none => .ok expr
    | some token => .error (.unexpected token "end of expression")

end RatLang
