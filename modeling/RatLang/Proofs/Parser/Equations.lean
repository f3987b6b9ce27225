import RatLang.Proofs.Parser.Action

/-!
# The equations of the parsers

One equation for each parsing function: its action is a program of the moves. The definitions
themselves are not opened again after this module. What an operand begins with and what may separate
arguments are given as data, so that the token that is refused there is refused by the move that
takes it.
-/

namespace RatLang.Parser

variable {α β : Type}

theorem run_expectKind (kind : TokenKind) (expected : String) :
    run (expectKind kind expected) = take (passing (·.kind == kind)) expected :=
  run_popIf _ _

theorem run_expectPunct (c : Char) (expected : String) :
    run (expectPunct c expected) = take (passing (·.isPunct c)) expected :=
  run_popIf _ _

theorem run_expect (kind : TokenKind) (lexeme expected : String) :
    run (expect kind lexeme expected) = take (passing (·.is kind lexeme)) expected :=
  run_popIf _ _

theorem run_expectType :
    run expectType = (do
      let pair ← take (spelling (·.kind == .type)) "a type"
      pure pair.2) := by
  funext state
  refine (outcome_then (f := fun pair => pure pair.2) ?_).trans ?_
  · intros; rfl
  · rw [run_popSymbol]

/-- A taken token that decides how to go on may be refused by the move that takes it. -/
theorem take_bind_form {form? : Token → Option α} {rest : α → Action β} {expected : String} :
    (take some expected >>= fun t => given t expected (form? t) >>= rest) =
      (take form? expected >>= rest) := by
  have fused := take_bind_given some form? expected (by simp)
  simp only [Option.bind_some] at fused
  rw [← fused, bind_assoc]

/-! ### Expressions -/

/-- What the first token of an operand says of it. -/
inductive OperandForm where
  /-- The operand is this literal. -/
  | leaf (expr : Expr)
  /-- The operand is this name, or a call of it. -/
  | named (name : Token)
  /-- The operand stands in parentheses. -/
  | group
  /-- The operand stands behind this operator. -/
  | unary (symbol : Symbol) (op : Token)

/-- The form of the operand that a token opens. -/
def operandForm? (token : Token) : Option OperandForm :=
  match token.kind with
  | .numericLiteral =>
    some (.leaf (.numeric (numericType token.lexeme) token.lexeme token.position))
  | .stringLiteral => some (.leaf (.string token.lexeme token.position))
  | .charLiteral => some (.leaf (.char token.lexeme token.position))
  | .keyword => if token.lexeme = "null" then some (.leaf (.null token.position)) else none
  | .identifier => some (.named token)
  | .punctuator => if token.isPunct '(' then some .group else none
  | .operator =>
    if token.isUnaryOperator then (Symbol.ofLexeme? token.lexeme).map (.unary · token) else none
  | _ => none

/-- The part of an operand behind its first token. -/
def operandRest : OperandForm → Action Expr
  | .leaf expr => pure expr
  | .named name => look fun next =>
    if next.any (·.isPunct '(') then do
      let args ← run callArguments
      pure (.call name.lexeme args name.position)
    else pure (.identifier ⟨name.lexeme, name.position⟩)
  | .group => do
    let inner ← run (expression Precedence.lowest.power)
    let _ ← take (passing (·.isPunct ')')) "')'"
    pure inner
  | .unary symbol op => do
    let inner ← run (expression Precedence.unary.power)
    pure (.unary symbol inner op.position)

theorem symbol_of_isUnaryOperator {token : Token} (h : token.isUnaryOperator) :
    ∃ symbol, Symbol.ofLexeme? token.lexeme = some symbol := by
  have spelled := (Token.isUnaryOperator_iff.mp h).2
  simp only [List.mem_cons, List.not_mem_nil, or_false] at spelled
  rcases spelled with eq | eq | eq <;> rw [eq]
  · exact ⟨.arithmeticSub, by decide⟩
  · exact ⟨.logicalNot, by decide⟩
  · exact ⟨.bitwiseNeg, by decide⟩

theorem run_operand : run operand = take operandForm? "an expression" >>= operandRest := by
  funext state
  rw [← take_bind_form, run, operand]
  refine (outcome_then (f := fun token =>
    given token "an expression" (operandForm? token) >>= operandRest) ?_).trans ?_
  · intro token after taken
    simp only [operandForm?]
    cases kind : token.kind
    case identifier =>
      simp only [given, operandRest, pure_bind]
      exact outcome_look (outcome_then fun _ _ _ => rfl) rfl
    case operator =>
      by_cases unary : token.isUnaryOperator
      · obtain ⟨symbol, eq⟩ := symbol_of_isUnaryOperator unary
        simp only [unary, eq, if_true, Option.map_some, given, pure_bind, operandRest]
        exact outcome_then fun _ _ _ => rfl
      · simp only [unary]
        rfl
    case punctuator =>
      by_cases opens : token.isPunct '('
      · simp only [opens, if_true, given, pure_bind, operandRest, ← run_expectPunct]
        exact outcome_then fun _ _ _ => outcome_then fun _ _ _ => rfl
      · simp only [opens]
        rfl
    case keyword =>
      by_cases null : token.lexeme = "null" <;> simp only [null, if_true, if_false] <;> rfl
    all_goals rfl
  · rw [run_pop]

theorem run_expression (minimum : Nat) :
    run (expression minimum) = (do
      let lhs ← run operand
      run (climb minimum lhs)) := by
  funext state
  rw [run, expression]
  exact outcome_then fun _ _ _ => Step.outcome_weaken _ _

theorem run_climb (minimum : Nat) (lhs : Expr) :
    run (climb minimum lhs) = (look fun next =>
      match next.bind Token.bindingPower? with
      | none => pure lhs
      | some power =>
        if power < minimum then pure lhs
        else do
          let folded ← run (operation power lhs)
          run (climb minimum folded)) := by
  funext state
  rw [run, climb, look]
  cases state.peek.bind Token.bindingPower? with
  | none => rfl
  | some power =>
    by_cases low : power < minimum
    · simp only [low, if_true]
      rfl
    · simp only [low, if_false]
      exact outcome_then fun _ _ _ => Step.outcome_weaken _ _

theorem run_operation (power : Nat) (lhs : Expr) :
    run (operation power lhs) = (do
      let op ← take (spelling fun _ => true) "a binary operator"
      let rhs ← run (expression (power + 1))
      pure (.binary op.2 lhs rhs op.1.position)) := by
  funext state
  rw [run, operation, ← run_popSymbol]
  exact outcome_then fun _ _ _ => outcome_then fun _ _ _ => rfl

theorem run_callArguments :
    run callArguments = (do
      let _ ← take some "'('"
      look fun next =>
        if next.any (·.isPunct ')') then do
          let _ ← take some "')'"
          pure []
        else run arguments) := by
  funext state
  rw [run, callArguments, ← run_pop, ← run_pop]
  refine outcome_then fun _ _ _ => outcome_look ?_ (Step.outcome_weaken _ _)
  exact outcome_then fun _ _ _ => rfl

/-- Does the token behind an argument close the list? Only a comma or a parenthesis may follow. -/
def separator? (token : Token) : Option Bool :=
  if token.isPunct ')' then some true else if token.isPunct ',' then some false else none

theorem run_arguments :
    run arguments = (do
      let arg ← run (expression Precedence.lowest.power)
      let closes ← take separator? "',' or ')'"
      if closes then pure [arg]
      else do
        let rest ← run arguments
        pure (arg :: rest)) := by
  funext state
  rw [run, arguments]
  apply outcome_then
  intro arg afterArg taken
  rw [← take_bind_form, ← run_pop]
  apply outcome_then
  intro separator after taken
  by_cases closes : separator.isPunct ')'
  · simp only [separator?, closes, if_true, given, pure_bind]
    rfl
  · by_cases comma : separator.isPunct ','
    · simp only [separator?, closes, comma, if_true, given]
      exact outcome_then fun _ _ _ => rfl
    · simp only [separator?, closes, comma]
      rfl

/-! ### Declarations and other simple statements -/

theorem run_anyExpression : run anyExpression = run (expression Precedence.lowest.power) := rfl

theorem run_parameterNames :
    run parameterNames = (do
      let name ← take (passing (·.kind == .identifier)) "a parameter name"
      look fun next =>
        if next.any (·.isPunct ',') then do
          let _ ← take some "','"
          let rest ← run parameterNames
          pure (⟨name.lexeme, name.position⟩ :: rest)
        else pure [⟨name.lexeme, name.position⟩]) := by
  funext state
  rw [run, parameterNames, ← run_pop, ← run_expectKind]
  refine outcome_then fun _ _ _ => outcome_look ?_ rfl
  exact outcome_then fun _ _ _ => outcome_then fun _ _ _ => rfl

theorem run_parameters :
    run parameters = (do
      let _ ← take (passing (·.isPunct '(')) "'('"
      let params ← look fun next =>
        if next.any (·.isPunct ')') then pure [] else run parameterNames
      let _ ← take (passing (·.isPunct ')')) "')'"
      pure params) := by
  funext state
  rw [run, parameters, ← run_expectPunct, ← run_expectPunct]
  apply outcome_then
  intro _ afterOpen _
  apply outcome_bind (outcome_look rfl (Step.outcome_weaken _ _))
  intro _ _ _
  exact outcome_then fun _ _ _ => rfl

theorem run_returnType :
    run returnType = (look fun next =>
      if next.any (·.is .operator "->") then do
        let _ ← take some "'->'"
        run expectType
      else pure .typeVoid) := by
  funext state
  rw [run, returnType, ← run_pop]
  exact outcome_look (outcome_then fun _ _ _ => Step.outcome_weaken _ _) rfl

theorem run_functionHeader :
    run functionHeader = (do
      let keyword ← take (spelling fun _ => true) "a function keyword"
      let name ← take (passing (·.kind == .identifier)) "a function name"
      let params ← run parameters
      let type ← run returnType
      pure ⟨keyword.2, name.lexeme, keyword.1.position, params, type⟩) := by
  funext state
  rw [run, functionHeader, ← run_popSymbol, ← run_expectKind]
  refine outcome_then fun _ _ _ => outcome_then fun _ _ _ => ?_
  exact outcome_then fun _ _ _ => outcome_then fun _ _ _ => rfl

theorem run_initializer :
    run initializer = (look fun next =>
      if next.any (·.is .operator "=") then do
        let _ ← take some "'='"
        let value ← run (expression Precedence.lowest.power)
        pure (some value)
      else pure none) := by
  funext state
  rw [run, initializer, ← run_pop, ← run_anyExpression]
  exact outcome_look (outcome_then fun _ _ _ => outcome_then fun _ _ _ => rfl) rfl

theorem run_requiredInitializer :
    run requiredInitializer = (do
      let _ ← take (passing (·.is .operator "=")) "'='"
      let value ← run (expression Precedence.lowest.power)
      pure (some value)) := by
  funext state
  rw [run, requiredInitializer, ← run_expect, ← run_anyExpression]
  exact outcome_then fun _ _ _ => outcome_then fun _ _ _ => rfl

theorem run_declaredType :
    run declaredType = (look fun next =>
      if next.any (·.isPunct ':') then do
        let _ ← take some "':'"
        let type ← run expectType
        pure (some type)
      else pure none) := by
  funext state
  rw [run, declaredType, ← run_pop]
  exact outcome_look (outcome_then fun _ _ _ => outcome_then fun _ _ _ => rfl) rfl

/-- Parses the value of a declaration that opens with this keyword. -/
def declaredValue (keyword : Symbol) : Action (Option Expr) :=
  if keyword = .variableDeclarationLet then run requiredInitializer else run initializer

theorem run_variableDecl :
    run variableDecl = (do
      let keyword ← take (spelling fun _ => true) "'let' or 'op'"
      let name ← take (passing (·.kind == .identifier)) "a variable name"
      let type ← run declaredType
      let value ← declaredValue keyword.2
      pure (.variableDecl keyword.2 name.lexeme keyword.1.position type value)) := by
  funext state
  rw [run, variableDecl, ← run_popSymbol, ← run_expectKind]
  refine outcome_then fun keyword _ _ => outcome_then fun _ _ _ => ?_
  refine outcome_then fun _ _ _ => outcome_bind ?_ fun _ _ _ => rfl
  unfold declaredValue
  split <;> rfl

theorem run_typedVariableDecl :
    run typedVariableDecl = (do
      let keyword ← take (spelling (·.kind == .type)) "a type"
      let name ← take (passing (·.kind == .identifier)) "a variable name"
      let value ← run initializer
      pure (.variableDecl keyword.2 name.lexeme keyword.1.position (some keyword.2) value)) := by
  funext state
  rw [run, typedVariableDecl, ← run_popSymbol, ← run_expectKind]
  refine outcome_then fun _ _ _ => outcome_then fun _ _ _ => ?_
  exact outcome_then fun _ _ _ => rfl

theorem run_returnStatement :
    run returnStatement = (do
      let keyword ← take (spelling fun _ => true) "'ret' or 'rev'"
      if keyword.2 = .functionReturn then do
        let value ← run (expression Precedence.lowest.power)
        pure (.ret keyword.2 keyword.1.position (some value))
      else pure (.ret keyword.2 keyword.1.position none)) := by
  funext state
  rw [run, returnStatement, ← run_popSymbol, ← run_anyExpression]
  apply outcome_then
  intro keyword _ _
  by_cases gives : keyword.2 = .functionReturn
  · simp only [gives, if_true]
    exact outcome_then fun _ _ _ => rfl
  · simp only [gives, if_false]
    rfl

theorem run_expressionStatement :
    run expressionStatement = (do
      let position ← here
      let expr ← run (expression Precedence.lowest.power)
      pure (.expression expr position)) := by
  funext state
  rw [run, expressionStatement, ← run_anyExpression, bind_of_ok (x := here) rfl]
  exact outcome_then fun _ _ _ => rfl

/-- May a statement end in front of this token, or of the end of the input? -/
def endsStatement (next : Option Token) : Bool :=
  next.all fun token => token.isTerminator || token.isPunct '\x7d'

theorem run_statementEnd :
    run statementEnd = (look fun next =>
      if endsStatement next then pure () else refuse "end of statement") := by
  funext state
  cases front : state.queue with
  | nil => simp only [run, statementEnd, look, endsStatement, ParseState.peek, front]; rfl
  | cons token rest =>
    simp only [run, statementEnd, look, endsStatement, ParseState.peek, front, List.head?_cons,
      Option.all_some]
    split
    · rfl
    · simp only [refuse, front]
      rfl

/-! ### Statements with bodies -/

theorem run_body :
    run body = (do
      let _ ← run skip
      let _ ← take (passing (·.isPunct '\x7b')) "'\x7b'"
      run (sequence true)) := by
  funext state
  rw [run, body, ← run_expectPunct]
  apply outcome_then
  intro _ _ _
  exact outcome_then fun _ _ _ => Step.outcome_weaken _ _

theorem run_functionDecl :
    run functionDecl = (do
      let header ← run functionHeader
      let block ← run body
      pure (.functionDecl header.kind header.name header.position header.params header.returnType
        block)) := by
  funext state
  rw [run, functionDecl]
  exact outcome_then fun _ _ _ => outcome_then fun _ _ _ => rfl

theorem run_conditional :
    run conditional = (do
      let keyword ← take (passing (·.is .keyword "if")) "'if'"
      let condition ← run (expression Precedence.lowest.power)
      let block ← run body
      let rest ← run elseBranches
      pure (.conditional ⟨.conditionalIf, keyword.position, some condition, block⟩ rest)) := by
  funext state
  rw [run, conditional, ← run_expect, ← run_anyExpression]
  refine outcome_then fun _ _ _ => outcome_then fun _ _ _ => ?_
  exact outcome_then fun _ _ _ => outcome_then fun _ _ _ => rfl

/-- Parses the branches that an `else` opens. -/
def elseBranch : Action (List Branch) := do
  let keyword ← take some "'else'"
  let _ ← run skip
  look fun next =>
    if next.any (·.is .keyword "if") then do
      let _ ← take some "'if'"
      let condition ← run (expression Precedence.lowest.power)
      let block ← run body
      let rest ← run elseBranches
      pure (⟨.conditionalElseIf, keyword.position, some condition, block⟩ :: rest)
    else do
      let block ← run body
      pure [⟨.conditionalElse, keyword.position, none, block⟩]

theorem run_elseBranches :
    run elseBranches = lookPast (·.is .keyword "else") elseBranch [] := by
  funext state
  rw [run, elseBranches, skip, Step.bind_ok, lookPast]
  by_cases found : state.skipTerminators.isAt .keyword "else"
  · rw [if_pos found, ParseState.isAt] at *
    rw [if_pos found, elseBranch, ← run_pop, ← run_pop, ← run_anyExpression]
    apply outcome_then
    intro _ _ _
    refine outcome_then fun _ _ _ => outcome_look ?_ ?_
    · refine outcome_then fun _ _ _ => outcome_then fun _ _ _ => ?_
      exact outcome_then fun _ _ _ => outcome_then fun _ _ _ => rfl
    · exact outcome_then fun _ _ _ => rfl
  · rw [if_neg found, ParseState.isAt] at *
    rw [if_neg found]
    rfl

/-- The parser of the statements of a form. -/
def statementOf : StatementForm → Action Stmt
  | .function => run functionDecl
  | .untypedVariable => run variableDecl
  | .typedVariable => run typedVariableDecl
  | .conditional => run conditional
  | .ret => run returnStatement
  | .expression => run expressionStatement

theorem run_statement :
    run statement = (look fun next =>
      match next.bind StatementForm.ofToken? with
      | none => refuse "a statement"
      | some form => statementOf form) := by
  funext state
  cases front : state.queue with
  | nil =>
    simp only [run, statement, look, ParseState.peek, front, List.head?_nil, Option.bind_none,
      refuse]
    rfl
  | cons token rest =>
    simp only [run, statement, look, ParseState.peek, front, List.head?_cons, Option.bind_some]
    cases StatementForm.ofToken? token with
    | none => simp only [refuse, front]; rfl
    | some form => cases form <;> rfl

/-- Parses the statements of a scope behind the terminators that they begin with. -/
def sequenceRest (nested : Bool) : Action (List Stmt) :=
  look fun
    | none => if nested then refuse "'\x7d'" else pure []
    | some token =>
      if token.isPunct '\x7b' then do
        let _ ← take some "'\x7b'"
        let inner ← run (sequence true)
        let rest ← run (sequence nested)
        pure (inner ++ rest)
      else if token.isPunct '\x7d' then
        if nested then do
          let _ ← take some "'\x7d'"
          pure []
        else refuse "a statement"
      else do
        let stmt ← run statement
        let _ ← record stmt
        let _ ← run statementEnd
        let rest ← run (sequence nested)
        pure (stmt :: rest)

theorem run_sequence (nested : Bool) :
    run (sequence nested) = (do
      let _ ← run skip
      sequenceRest nested) := by
  funext start
  rw [run, sequence]
  apply outcome_then
  intro _ state skipped
  cases front : state.queue with
  | nil =>
    simp only [sequenceRest, look, ParseState.peek, front, List.head?_nil]
    split
    · simp only [refuse, front]
      rfl
    · rfl
  | cons token rest =>
    simp only [sequenceRest, look, ParseState.peek, front, List.head?_cons]
    split
    · rw [← run_pop]
      refine outcome_then fun _ _ _ => outcome_then fun _ _ _ => ?_
      exact outcome_then fun _ _ _ => rfl
    · split
      · split
        · rw [← run_pop]
          exact outcome_then fun _ _ _ => rfl
        · simp only [refuse, front]
          rfl
      · apply outcome_then
        intro stmt after taken
        refine Eq.trans ?_ (bind_of_ok (x := record stmt) rfl).symm
        refine outcome_then fun _ _ _ => outcome_then fun _ _ _ => rfl

end RatLang.Parser
