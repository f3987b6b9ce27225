import RatLang.Parser.Expression

/-!
# Parsing statements

The first token of a statement decides its form. A statement ends at a terminator, at the brace that
closes its scope or with the input; a bare block needs no end of its own, and its statements belong
to the scope around it.
-/

namespace RatLang

/-- The forms of statements. -/
inductive StatementForm where
  | function | untypedVariable | typedVariable | conditional | ret | expression
deriving DecidableEq, Repr

/-- The form of the statement that a token opens. No statement opens with `else`. -/
def StatementForm.ofToken? (token : Token) : Option StatementForm :=
  match token.kind, token.lexeme with
  | .keyword, "fn" | .keyword, "fn_" | .keyword, "fn?" | .keyword, "fn/" => some function
  | .keyword, "let" | .keyword, "op" => some untypedVariable
  | .keyword, "if" => some conditional
  | .keyword, "ret" | .keyword, "rev" => some ret
  | .keyword, "else" => none
  | .type, _ => some typedVariable
  | _, _ => some expression

/-- What stands in front of the body of a function. -/
structure FunctionHeader where
  kind : Symbol
  name : String
  position : Position
  params : List Identifier
  returnType : Symbol
deriving DecidableEq, Repr

namespace Parser

/-- Parses an expression of any strength. -/
def anyExpression (state : ParseState) : Step state.left Expr :=
  expression Precedence.lowest.power state

/-- Parses the names of parameters between commas. -/
def parameterNames (state : ParseState) : Step state.left (List Identifier) :=
  (expectKind .identifier "a parameter name" state).bind fun name afterName takenName =>
    let param : Identifier := ⟨name.lexeme, name.position⟩
    if afterName.isAtPunct ',' then
      (pop "','" afterName).bind fun _ afterComma takenComma =>
        (parameterNames afterComma).bind fun rest afterRest takenRest =>
          .ok (param :: rest) afterRest
            (ParseState.left_lt_trans₃ takenName takenComma takenRest)
    else .ok [param] afterName takenName
termination_by state.left

/-- Parses the parameters of a function with the parentheses around them. -/
def parameters (state : ParseState) : Step state.left (List Identifier) :=
  (expectPunct '(' "'('" state).bind fun _ afterOpen takenOpen =>
    let names : Step (afterOpen.left + 1) (List Identifier) :=
      if afterOpen.isAtPunct ')' then afterOpen.done []
      else (parameterNames afterOpen).weaken (by omega)
    names.bind fun params afterNames takenNames =>
      (expectPunct ')' "')'" afterNames).bind fun _ afterClose takenClose =>
        .ok params afterClose (by omega)

/-- Parses the type that a function returns. A function without one returns nothing. -/
def returnType (state : ParseState) : Step (state.left + 1) Symbol :=
  if state.isAt .operator "->" then
    (pop "'->'" state).bind fun _ afterArrow takenArrow =>
      (expectType afterArrow).weaken (by omega)
  else state.done .typeVoid

/-- Parses what stands in front of the body of a function. -/
def functionHeader (state : ParseState) : Step state.left FunctionHeader :=
  (popSymbol (fun _ => true) "a function keyword" state).bind
    fun (keyword, kind) afterKeyword takenKeyword =>
  (expectKind .identifier "a function name" afterKeyword).bind fun name afterName takenName =>
  (parameters afterName).bind fun params afterParams takenParams =>
  (returnType afterParams).bind fun returnType afterType takenType =>
    .ok ⟨kind, name.lexeme, keyword.position, params, returnType⟩ afterType
      (ParseState.left_lt_of_lt_succ takenKeyword takenName takenParams takenType)

/-- Parses the value of a declaration that may go without one. -/
def initializer (state : ParseState) : Step (state.left + 1) (Option Expr) :=
  if state.isAt .operator "=" then
    (pop "'='" state).bind fun _ afterMark takenMark =>
      (anyExpression afterMark).bind fun value afterValue takenValue =>
        .ok (some value) afterValue (by omega)
  else state.done none

/-- Parses the value of a declaration that needs one. -/
def requiredInitializer (state : ParseState) : Step (state.left + 1) (Option Expr) :=
  (expect .operator "=" "'='" state).bind fun _ afterMark takenMark =>
    (anyExpression afterMark).bind fun value afterValue takenValue =>
      .ok (some value) afterValue (by omega)

/-- Parses the type that a declaration may give after a colon. -/
def declaredType (state : ParseState) : Step (state.left + 1) (Option Symbol) :=
  if state.isAtPunct ':' then
    (pop "':'" state).bind fun _ afterColon takenColon =>
      (expectType afterColon).bind fun type afterType takenType =>
        .ok (some type) afterType (by omega)
  else state.done none

/-- Parses a declaration that opens with `let` or `op`. Only `op` may go without a value. -/
def variableDecl (state : ParseState) : Step state.left Stmt :=
  (popSymbol (fun _ => true) "'let' or 'op'" state).bind
    fun (keyword, kind) afterKeyword takenKeyword =>
  (expectKind .identifier "a variable name" afterKeyword).bind fun name afterName takenName =>
  (declaredType afterName).bind fun type afterType takenType =>
  let value : Step (afterType.left + 1) (Option Expr) :=
    if kind = .variableDeclarationLet then requiredInitializer afterType
    else initializer afterType
  value.bind fun value afterValue takenValue =>
    .ok (.variableDecl kind name.lexeme keyword.position type value) afterValue (by omega)

/-- Parses a declaration that opens with a type. -/
def typedVariableDecl (state : ParseState) : Step state.left Stmt :=
  (popSymbol (·.kind == .type) "a type" state).bind fun (keyword, type) afterType takenType =>
  (expectKind .identifier "a variable name" afterType).bind fun name afterName takenName =>
  (initializer afterName).bind fun value afterValue takenValue =>
    .ok (.variableDecl type name.lexeme keyword.position (some type) value) afterValue (by omega)

/-- Parses a return. Only `ret` gives a value back. -/
def returnStatement (state : ParseState) : Step state.left Stmt :=
  (popSymbol (fun _ => true) "'ret' or 'rev'" state).bind
    fun (keyword, kind) afterKeyword takenKeyword =>
  if kind = .functionReturn then
    (anyExpression afterKeyword).bind fun value afterValue takenValue =>
      .ok (.ret kind keyword.position (some value)) afterValue
        (ParseState.left_lt_trans takenKeyword takenValue)
  else .ok (.ret kind keyword.position none) afterKeyword takenKeyword

/-- Parses an expression as a statement. -/
def expressionStatement (state : ParseState) : Step state.left Stmt :=
  let position := (state.peek.map Token.position).getD state.lastPosition
  (anyExpression state).bind fun expr afterExpr takenExpr =>
    .ok (.expression expr position) afterExpr takenExpr

/-- Checks that a statement ends here. The token that ends it is not taken. -/
def statementEnd (state : ParseState) : Step (state.left + 1) Unit :=
  match state.peek with
  | none => state.done ()
  | some token =>
    if token.isTerminator || token.isPunct '\x7d' then state.done ()
    else state.fail (.unexpected token "end of statement")

mutual

/-- Parses the statements of a scope. A nested scope needs the brace that closes it, which is
taken; the outermost one ends with the input. -/
def sequence (nested : Bool) (start : ParseState) : Step (start.left + 1) (List Stmt) :=
  (skip start).bind fun _ state skipped =>
  match state.peek with
  | none =>
    if nested then state.fail (.outOfTokens "'\x7d'" state.lastPosition)
    else .ok [] state skipped
  | some token =>
    if token.isPunct '\x7b' then
      (pop "'\x7b'" state).bind fun _ afterOpen takenOpen =>
      (sequence true afterOpen).bind fun inner afterBlock takenBlock =>
      (sequence nested afterBlock).bind fun rest afterRest takenRest =>
        .ok (inner ++ rest) afterRest (by omega)
    else if token.isPunct '\x7d' then
      if nested then
        (pop "'\x7d'" state).bind fun _ afterClose takenClose => .ok [] afterClose (by omega)
      else state.fail (.unexpected token "a statement")
    else
      (statement state).bind fun stmt afterStmt takenStmt =>
      (statementEnd (afterStmt.complete stmt)).bind fun _ afterEnd takenEnd =>
      have ended : afterEnd.left < state.left := by
        rw [ParseState.left_complete] at takenEnd
        omega
      (sequence nested afterEnd).bind fun rest afterRest takenRest =>
        .ok (stmt :: rest) afterRest (by omega)
termination_by 4 * start.left + 2

/-- Parses one statement without its end. -/
def statement (state : ParseState) : Step state.left Stmt :=
  match state.peek with
  | none => state.fail (.outOfTokens "a statement" state.lastPosition)
  | some token =>
    match StatementForm.ofToken? token with
    | none => state.fail (.unexpected token "a statement")
    | some .function => functionDecl state
    | some .untypedVariable => variableDecl state
    | some .typedVariable => typedVariableDecl state
    | some .conditional => conditional state
    | some .ret => returnStatement state
    | some .expression => expressionStatement state
termination_by 4 * state.left + 1

/-- Parses a function with its body. -/
def functionDecl (state : ParseState) : Step state.left Stmt :=
  (functionHeader state).bind fun header afterHeader takenHeader =>
    (body afterHeader).bind fun body afterBody takenBody =>
      .ok (.functionDecl header.kind header.name header.position header.params header.returnType
        body) afterBody (ParseState.left_lt_trans takenHeader takenBody)
termination_by 4 * state.left

/-- Parses the statements between braces. Terminators may stand before the opening one. -/
def body (start : ParseState) : Step start.left (List Stmt) :=
  (skip start).bind fun _ state skipped =>
  (expectPunct '\x7b' "'\x7b'" state).bind fun _ afterOpen takenOpen =>
    (sequence true afterOpen).weaken (by omega)
termination_by 4 * start.left

/-- Parses a conditional with all its branches. -/
def conditional (state : ParseState) : Step state.left Stmt :=
  (expect .keyword "if" "'if'" state).bind fun keyword afterIf takenIf =>
  (anyExpression afterIf).bind fun condition afterCondition takenCondition =>
  (body afterCondition).bind fun block afterBlock takenBlock =>
  (elseBranches afterBlock).bind fun rest afterRest takenRest =>
    .ok (.conditional ⟨.conditionalIf, keyword.position, some condition, block⟩ rest) afterRest
      (by omega)
termination_by 4 * state.left

/-- Parses the branches after the first. Terminators in front of an `else` are taken; without an
`else` the last of them goes back, to end the statement. -/
def elseBranches (start : ParseState) : Step (start.left + 1) (List Branch) :=
  (skip start).bind fun _ state skipped =>
  if state.isAt .keyword "else" then
    (pop "'else'" state).bind fun keyword afterElse takenElse =>
    (skip afterElse).bind fun _ opened skippedAgain =>
    if opened.isAt .keyword "if" then
      (pop "'if'" opened).bind fun _ afterIf takenIf =>
      (anyExpression afterIf).bind fun condition afterCondition takenCondition =>
      (body afterCondition).bind fun block afterBlock takenBlock =>
      (elseBranches afterBlock).bind fun rest afterRest takenRest =>
        .ok (⟨.conditionalElseIf, keyword.position, some condition, block⟩ :: rest) afterRest
          (by omega)
    else
      (body opened).bind fun block afterBlock takenBlock =>
        .ok [⟨.conditionalElse, keyword.position, none, block⟩] afterBlock (by omega)
  else
    .ok [] start.skipToLastTerminator (Nat.lt_succ_of_le start.left_skipToLastTerminator_le)
termination_by 4 * start.left

end

end Parser

end RatLang
