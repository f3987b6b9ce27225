import RatLang.Proofs.Parser.Discipline
import RatLang.Proofs.Parser.Equations

/-!
# Parsers as programs

An action says where a parser gets from a state, but not what it passes on the way. Here each
parsing function has a program that says this too: a text of single moves and of calls of the other
functions. Carried out move by move, the program of a function does what the function does.
-/

namespace RatLang.Parser

/-- The parsing functions with their arguments. -/
inductive Call : Type → Type where
  | skip : Call Unit
  /-- Takes terminators and gives the last of them, or the one that is given if there are none. -/
  | terminators (last : Option Token) : Call (Option Token)
  | expression (minimum : Nat) : Call Expr
  | climb (minimum : Nat) (lhs : Expr) : Call Expr
  | operation (power : Nat) (lhs : Expr) : Call Expr
  | operand : Call Expr
  | callArguments : Call (List Expr)
  | arguments : Call (List Expr)
  | parameterNames : Call (List Identifier)
  | parameters : Call (List Identifier)
  | returnType : Call Symbol
  | functionHeader : Call FunctionHeader
  | initializer : Call (Option Expr)
  | requiredInitializer : Call (Option Expr)
  | declaredType : Call (Option Symbol)
  | variableDecl : Call Stmt
  | typedVariableDecl : Call Stmt
  | returnStatement : Call Stmt
  | expressionStatement : Call Stmt
  | statementEnd : Call Unit
  | sequence (nested : Bool) : Call (List Stmt)
  | statement : Call Stmt
  | functionDecl : Call Stmt
  | body : Call (List Stmt)
  | conditional : Call Stmt
  | elseBranches : Call (List Branch)

/-- What a function does to a state. -/
def Call.action : {α : Type} → Call α → Action α
  | _, .skip => run Parser.skip
  | _, .terminators last => fun s => .ok (s.terminators.getLast?.or last) s.skipTerminators
  | _, .expression minimum => run (Parser.expression minimum)
  | _, .climb minimum lhs => run (Parser.climb minimum lhs)
  | _, .operation power lhs => run (Parser.operation power lhs)
  | _, .operand => run Parser.operand
  | _, .callArguments => run Parser.callArguments
  | _, .arguments => run Parser.arguments
  | _, .parameterNames => run Parser.parameterNames
  | _, .parameters => run Parser.parameters
  | _, .returnType => run Parser.returnType
  | _, .functionHeader => run Parser.functionHeader
  | _, .initializer => run Parser.initializer
  | _, .requiredInitializer => run Parser.requiredInitializer
  | _, .declaredType => run Parser.declaredType
  | _, .variableDecl => run Parser.variableDecl
  | _, .typedVariableDecl => run Parser.typedVariableDecl
  | _, .returnStatement => run Parser.returnStatement
  | _, .expressionStatement => run Parser.expressionStatement
  | _, .statementEnd => run Parser.statementEnd
  | _, .sequence nested => run (Parser.sequence nested)
  | _, .statement => run Parser.statement
  | _, .functionDecl => run Parser.functionDecl
  | _, .body => run Parser.body
  | _, .conditional => run Parser.conditional
  | _, .elseBranches => run Parser.elseBranches

/-- A program: moves one after the other, up to a value or an error. -/
inductive Program (α : Type) : Type 1 where
  | done (value : α)
  | fail (cause : ParseError)
  /-- Goes on as the state says. -/
  | look (next : ParseState → Program α)
  /-- Takes the next token. -/
  | pop (expected : String) (next : Token → Program α)
  /-- Puts a token in front of the queue. -/
  | restore (token : Token) (next : Program α)
  /-- Remembers a statement. -/
  | record (stmt : Stmt) (next : Program α)
  /-- Looks up the symbol of a token, which is refused if it spells none. -/
  | symbol (token : Token) (expected : String) (next : Symbol → Program α)
  /-- Calls a function. -/
  | call {β : Type} (callee : Call β) (next : β → Program α)

namespace Program

variable {α : Type}

/-- What a program does to a state. -/
def action : Program α → Action α
  | done value => pure value
  | fail cause => throw cause
  | look next => fun s => (next s).action s
  | pop expected next => run (Parser.pop expected) >>= fun token => (next token).action
  | restore token next => fun s => next.action (s.restore token)
  | record stmt next => Parser.record stmt >>= fun _ => next.action
  | symbol token expected next =>
    given token expected (Symbol.ofLexeme? token.lexeme) >>= fun symbol => (next symbol).action
  | call callee next => callee.action >>= fun value => (next value).action

/-- Takes the next token, which has to pass a test. -/
def popIf (test : Token → Bool) (expected : String) (next : Token → Program α) : Program α :=
  .pop expected fun token =>
    if test token then next token else .fail (.unexpected token expected)

/-- Takes a token and looks up its symbol. -/
def popSymbol (test : Token → Bool) (expected : String) (next : Token → Symbol → Program α) :
    Program α :=
  .popIf test expected fun token => .symbol token expected (next token)

/-- Takes the name of a type. -/
def expectType (next : Symbol → Program α) : Program α :=
  .popSymbol (·.kind == .type) "a type" fun _ symbol => next symbol

/-- Refuses the next token, or the end of the input. -/
def refuse (expected : String) : Program α :=
  .look fun s =>
    match s.peek with
    | none => .fail (.outOfTokens expected s.lastPosition)
    | some token => .fail (.unexpected token expected)

end Program

/-- The function that parses the statements of a form. -/
def Call.ofForm : StatementForm → Call Stmt
  | .function => .functionDecl
  | .untypedVariable => .variableDecl
  | .typedVariable => .typedVariableDecl
  | .conditional => .conditional
  | .ret => .returnStatement
  | .expression => .expressionStatement

/-- The part of an operand behind its first token. -/
def Program.operandRest (token : Token) : Program Expr :=
  let refused : Program Expr := .fail (.unexpected token "an expression")
  match token.kind with
  | .numericLiteral => .done (.numeric (numericType token.lexeme) token.lexeme token.position)
  | .stringLiteral => .done (.string token.lexeme token.position)
  | .charLiteral => .done (.char token.lexeme token.position)
  | .keyword => if token.lexeme = "null" then .done (.null token.position) else refused
  | .identifier => .look fun s =>
    if s.isAtPunct '(' then
      .call .callArguments fun args => .done (.call token.lexeme args token.position)
    else .done (.identifier ⟨token.lexeme, token.position⟩)
  | .punctuator =>
    if token.isPunct '(' then
      .call (.expression Precedence.lowest.power) fun inner =>
      .popIf (·.isPunct ')') "')'" fun _ =>
      .done inner
    else refused
  | .operator =>
    if token.isUnaryOperator then
      .symbol token "a unary operator" fun symbol =>
      .call (.expression Precedence.unary.power) fun inner =>
      .done (.unary symbol inner token.position)
    else refused
  | _ => refused

/-- The part of a scope behind the terminators that it begins with. -/
def Program.sequenceRest (nested : Bool) (s : ParseState) : Program (List Stmt) :=
  match s.peek with
  | none => if nested then .fail (.outOfTokens "'\x7d'" s.lastPosition) else .done []
  | some token =>
    if token.isPunct '\x7b' then
      .pop "'\x7b'" fun _ =>
      .call (.sequence true) fun inner =>
      .call (.sequence nested) fun rest =>
      .done (inner ++ rest)
    else if token.isPunct '\x7d' then
      if nested then .pop "'\x7d'" fun _ => .done []
      else .fail (.unexpected token "a statement")
    else
      .call .statement fun stmt =>
      .record stmt <|
      .call .statementEnd fun _ =>
      .call (.sequence nested) fun rest =>
      .done (stmt :: rest)

/-- The branches that an `else` opens. -/
def Program.elseBranch : Program (List Branch) :=
  .pop "'else'" fun keyword =>
  .call .skip fun _ =>
  .look fun s =>
    if s.isAt .keyword "if" then
      .pop "'if'" fun _ =>
      .call (.expression Precedence.lowest.power) fun condition =>
      .call .body fun block =>
      .call .elseBranches fun rest =>
      .done (⟨.conditionalElseIf, keyword.position, some condition, block⟩ :: rest)
    else
      .call .body fun block =>
      .done [⟨.conditionalElse, keyword.position, none, block⟩]

/-- The programs of the functions. -/
def Call.program : {α : Type} → Call α → Program α
  | _, .skip => .look fun s =>
    if s.isAtTerminator then .pop "a terminator" fun _ => .call .skip .done else .done ()
  | _, .terminators last => .look fun s =>
    if s.isAtTerminator then
      .pop "a terminator" fun token => .call (.terminators (some token)) .done
    else .done last
  | _, .expression minimum =>
    .call .operand fun lhs =>
    .call (.climb minimum lhs) .done
  | _, .climb minimum lhs => .look fun s =>
    match s.peek.bind Token.bindingPower? with
    | none => .done lhs
    | some power =>
      if power < minimum then .done lhs
      else
        .call (.operation power lhs) fun folded =>
        .call (.climb minimum folded) .done
  | _, .operation power lhs =>
    .popSymbol (fun _ => true) "a binary operator" fun op symbol =>
    .call (.expression (power + 1)) fun rhs =>
    .done (.binary symbol lhs rhs op.position)
  | _, .operand => .pop "an expression" .operandRest
  | _, .callArguments =>
    .pop "'('" fun _ =>
    .look fun s =>
      if s.isAtPunct ')' then .pop "')'" fun _ => .done [] else .call .arguments .done
  | _, .arguments =>
    .call (.expression Precedence.lowest.power) fun arg =>
    .pop "',' or ')'" fun separator =>
      if separator.isPunct ')' then .done [arg]
      else if separator.isPunct ',' then .call .arguments fun rest => .done (arg :: rest)
      else .fail (.unexpected separator "',' or ')'")
  | _, .parameterNames =>
    .popIf (·.kind == .identifier) "a parameter name" fun name =>
    .look fun s =>
      if s.isAtPunct ',' then
        .pop "','" fun _ =>
        .call .parameterNames fun rest =>
        .done (⟨name.lexeme, name.position⟩ :: rest)
      else .done [⟨name.lexeme, name.position⟩]
  | _, .parameters =>
    let close (params : List Identifier) : Program (List Identifier) :=
      .popIf (·.isPunct ')') "')'" fun _ => .done params
    .popIf (·.isPunct '(') "'('" fun _ =>
    .look fun s => if s.isAtPunct ')' then close [] else .call .parameterNames close
  | _, .returnType => .look fun s =>
    if s.isAt .operator "->" then .pop "'->'" fun _ => .expectType .done else .done .typeVoid
  | _, .functionHeader =>
    .popSymbol (fun _ => true) "a function keyword" fun keyword kind =>
    .popIf (·.kind == .identifier) "a function name" fun name =>
    .call .parameters fun params =>
    .call .returnType fun type =>
    .done ⟨kind, name.lexeme, keyword.position, params, type⟩
  | _, .initializer => .look fun s =>
    if s.isAt .operator "=" then
      .pop "'='" fun _ =>
      .call (.expression Precedence.lowest.power) fun value =>
      .done (some value)
    else .done none
  | _, .requiredInitializer =>
    .popIf (·.is .operator "=") "'='" fun _ =>
    .call (.expression Precedence.lowest.power) fun value =>
    .done (some value)
  | _, .declaredType => .look fun s =>
    if s.isAtPunct ':' then .pop "':'" fun _ => .expectType fun type => .done (some type)
    else .done none
  | _, .variableDecl =>
    .popSymbol (fun _ => true) "'let' or 'op'" fun keyword kind =>
    .popIf (·.kind == .identifier) "a variable name" fun name =>
    .call .declaredType fun type =>
    .call (if kind = .variableDeclarationLet then .requiredInitializer else .initializer)
      fun value =>
    .done (.variableDecl kind name.lexeme keyword.position type value)
  | _, .typedVariableDecl =>
    .popSymbol (·.kind == .type) "a type" fun keyword type =>
    .popIf (·.kind == .identifier) "a variable name" fun name =>
    .call .initializer fun value =>
    .done (.variableDecl type name.lexeme keyword.position (some type) value)
  | _, .returnStatement =>
    .popSymbol (fun _ => true) "'ret' or 'rev'" fun keyword kind =>
      if kind = .functionReturn then
        .call (.expression Precedence.lowest.power) fun value =>
        .done (.ret kind keyword.position (some value))
      else .done (.ret kind keyword.position none)
  | _, .expressionStatement => .look fun s =>
    .call (.expression Precedence.lowest.power) fun expr =>
    .done (.expression expr ((s.peek.map Token.position).getD s.lastPosition))
  | _, .statementEnd => .look fun s =>
    if endsStatement s.peek then .done () else .refuse "end of statement"
  | _, .sequence nested =>
    .call .skip fun _ =>
    .look (.sequenceRest nested)
  | _, .statement => .look fun s =>
    match s.peek.bind StatementForm.ofToken? with
    | none => .refuse "a statement"
    | some form => .call (.ofForm form) .done
  | _, .functionDecl =>
    .call .functionHeader fun header =>
    .call .body fun block =>
    .done (.functionDecl header.kind header.name header.position header.params header.returnType
      block)
  | _, .body =>
    .call .skip fun _ =>
    .popIf (·.isPunct '\x7b') "'\x7b'" fun _ =>
    .call (.sequence true) .done
  | _, .conditional =>
    .popIf (·.is .keyword "if") "'if'" fun keyword =>
    .call (.expression Precedence.lowest.power) fun condition =>
    .call .body fun block =>
    .call .elseBranches fun rest =>
    .done (.conditional ⟨.conditionalIf, keyword.position, some condition, block⟩ rest)
  | _, .elseBranches =>
    .call (.terminators none) fun last =>
    .look fun s =>
      if s.isAt .keyword "else" then .elseBranch
      else
        match last with
        | some terminator => .restore terminator (.done [])
        | none => .done []

/-! ### Programs and functions -/

namespace Program

variable {α β : Type}

theorem action_done (value : α) : (done value).action = pure value := rfl

theorem action_call (callee : Call β) (next : β → Program α) :
    (call callee next).action = callee.action >>= fun value => (next value).action := rfl

theorem action_pop (expected : String) (next : Token → Program α) :
    (pop expected next).action = take some expected >>= fun token => (next token).action := by
  rw [action, run_pop]

theorem action_popIf (test : Token → Bool) (expected : String) (next : Token → Program α) :
    (popIf test expected next).action =
      take (passing test) expected >>= fun token => (next token).action := by
  rw [popIf, action_pop]
  refine Eq.trans (congrArg _ (funext fun token => ?_)) take_bind_form
  by_cases h : test token <;> simp only [passing, h] <;> rfl

theorem action_popSymbol (test : Token → Bool) (expected : String)
    (next : Token → Symbol → Program α) :
    (popSymbol test expected next).action =
      take (spelling test) expected >>= fun pair => (next pair.1 pair.2).action := by
  rw [popSymbol, popIf, action_pop]
  refine Eq.trans (congrArg _ (funext fun token => ?_)) take_bind_form
  by_cases h : test token
  · simp only [spelling, h, if_true, action]
    cases Symbol.ofLexeme? token.lexeme <;> rfl
  · simp only [spelling, h]
    rfl

theorem action_expectType (next : Symbol → Program α) :
    (expectType next).action = run Parser.expectType >>= fun type => (next type).action := by
  rw [expectType, action_popSymbol, run_expectType, bind_assoc]
  rfl

theorem action_refuse (expected : String) :
    (refuse expected : Program α).action = Parser.refuse expected := by
  funext s
  cases front : s.queue <;>
    simp only [refuse, action, Parser.refuse, ParseState.peek, front, List.head?_nil,
      List.head?_cons] <;> rfl

/-- Going on as a test of the next token says. -/
theorem action_look {test : ParseState → Bool} {test' : Option Token → Bool}
    (same : ∀ s, test s = test' s.peek) (yes no : Program α) :
    (look fun s => if test s then yes else no).action =
      Parser.look fun next => if test' next then yes.action else no.action := by
  funext s
  simp only [action, Parser.look, same]
  split <;> rfl

theorem action_look_isAtPunct (c : Char) (yes no : Program α) :
    (look fun s => if s.isAtPunct c then yes else no).action =
      Parser.look fun next => if next.any (·.isPunct c) then yes.action else no.action :=
  action_look (fun _ => rfl) yes no

theorem action_look_isAt (kind : TokenKind) (lexeme : String) (yes no : Program α) :
    (look fun s => if s.isAt kind lexeme then yes else no).action =
      Parser.look fun next => if next.any (·.is kind lexeme) then yes.action else no.action :=
  action_look (fun _ => rfl) yes no

end Program

open Program

theorem action_skip : Call.skip.program.action = Call.skip.action := by
  funext s
  simp only [Call.program, action]
  by_cases here : s.isAtTerminator
  · obtain ⟨t, rest, front, ends⟩ := ParseState.exists_of_isAtTerminator here
    have skipped := ParseState.skipTerminators_took front ends
    rw [if_pos here, action_pop, bind_of_ok (take_accepts front rfl), action_call,
      bind_of_ok (x := Call.skip.action) rfl, skipped]
    rfl
  · have skipped := (ParseState.skipTerminators_of_not here).2
    rw [if_neg here, action_done, Call.action, run, Parser.skip, Step.outcome, skipped]
    rfl

theorem action_terminators (last : Option Token) :
    (Call.terminators last).program.action = (Call.terminators last).action := by
  funext s
  simp only [Call.program, action]
  by_cases here : s.isAtTerminator
  · obtain ⟨t, rest, front, ends⟩ := ParseState.exists_of_isAtTerminator here
    have skipped := ParseState.skipTerminators_took front ends
    have taken := ParseState.terminators_took front ends
    rw [if_pos here, action_pop, bind_of_ok (take_accepts front rfl), action_call,
      bind_of_ok (x := (Call.terminators (some t)).action) rfl, skipped]
    simp only [Call.action, taken, List.getLast?_cons]
    cases (s.took t rest).terminators.getLast? <;> rfl
  · obtain ⟨none_taken, skipped⟩ := ParseState.skipTerminators_of_not here
    simp only [if_neg here, action_done, Call.action, none_taken, skipped]
    rfl

theorem action_expression (minimum : Nat) :
    (Call.expression minimum).program.action = (Call.expression minimum).action := by
  simp only [Call.program, Call.action, action_call, action_done, bind_pure, run_expression]

theorem action_climb (minimum : Nat) (lhs : Expr) :
    (Call.climb minimum lhs).program.action = (Call.climb minimum lhs).action := by
  funext s
  rw [Call.action, run_climb]
  simp only [Call.program, action, Parser.look]
  cases s.peek.bind Token.bindingPower? with
  | none => rfl
  | some power =>
    simp only
    split
    · rfl
    · simp only [action_call, action_done, bind_pure, Call.action]

theorem action_operation (power : Nat) (lhs : Expr) :
    (Call.operation power lhs).program.action = (Call.operation power lhs).action := by
  simp only [Call.program, Call.action, action_popSymbol, action_call, action_done, run_operation]

theorem action_operandRest (token : Token) :
    (Program.operandRest token).action =
      given token "an expression" (operandForm? token) >>= Parser.operandRest := by
  simp only [Program.operandRest, operandForm?]
  cases kind : token.kind
  case identifier =>
    rw [action_look_isAtPunct]
    rfl
  case operator =>
    by_cases unary : token.isUnaryOperator
    · obtain ⟨symbol, eq⟩ := symbol_of_isUnaryOperator unary
      simp only [unary, eq, if_true, Option.map_some, given, pure_bind, action, Parser.operandRest]
      rfl
    · simp only [unary]
      rfl
  case punctuator =>
    by_cases opens : token.isPunct '('
    · simp only [opens, if_true, given, pure_bind, action_call, action_popIf, Parser.operandRest]
      rfl
    · simp only [opens]
      rfl
  case keyword =>
    by_cases null : token.lexeme = "null" <;> simp only [null, if_true, if_false] <;> rfl
  all_goals rfl

theorem action_operand : Call.operand.program.action = Call.operand.action := by
  simp only [Call.program, Call.action, action_pop, run_operand, action_operandRest]
  exact take_bind_form

theorem action_callArguments : Call.callArguments.program.action = Call.callArguments.action := by
  simp only [Call.program, Call.action, action_pop, run_callArguments]
  refine congrArg _ (funext fun _ => ?_)
  rw [action_look_isAtPunct]
  simp only [action_pop, action_call, action_done, bind_pure, Call.action]

theorem action_arguments : Call.arguments.program.action = Call.arguments.action := by
  rw [Call.action, run_arguments]
  simp only [Call.program, action_call, action_pop]
  refine congrArg _ (funext fun arg => ?_)
  refine Eq.trans (congrArg _ (funext fun token => ?_)) take_bind_form
  by_cases closes : token.isPunct ')'
  · simp only [separator?, closes, if_true]
    rfl
  · by_cases comma : token.isPunct ','
    · simp only [separator?, closes, comma, if_true]
      rfl
    · simp only [separator?, closes, comma]
      rfl

theorem action_parameterNames :
    Call.parameterNames.program.action = Call.parameterNames.action := by
  rw [Call.action, run_parameterNames]
  simp only [Call.program, action_popIf]
  refine congrArg _ (funext fun _ => ?_)
  rw [action_look_isAtPunct]
  simp only [action_pop, action_call, action_done, Call.action]

theorem action_parameters : Call.parameters.program.action = Call.parameters.action := by
  simp only [Call.program, Call.action, action_popIf, run_parameters]
  refine congrArg _ (funext fun _ => ?_)
  rw [action_look_isAtPunct]
  funext s
  simp only [bind, EStateM.bind, Parser.look]
  split <;> simp only [action_popIf, action_call, action_done, Call.action] <;> rfl

theorem action_returnType : Call.returnType.program.action = Call.returnType.action := by
  simp only [Call.program, Call.action, run_returnType]
  rw [action_look_isAt]
  simp only [action_pop, action_expectType, action_done, bind_pure]

theorem action_functionHeader :
    Call.functionHeader.program.action = Call.functionHeader.action := by
  simp only [Call.program, Call.action, action_popSymbol, action_popIf, action_call, action_done,
    run_functionHeader]

theorem action_initializer : Call.initializer.program.action = Call.initializer.action := by
  simp only [Call.program, Call.action, run_initializer]
  rw [action_look_isAt]
  simp only [action_pop, action_call, action_done, Call.action]

theorem action_requiredInitializer :
    Call.requiredInitializer.program.action = Call.requiredInitializer.action := by
  simp only [Call.program, Call.action, action_popIf, action_call, action_done,
    run_requiredInitializer]

theorem action_declaredType : Call.declaredType.program.action = Call.declaredType.action := by
  simp only [Call.program, Call.action, run_declaredType]
  rw [action_look_isAtPunct]
  simp only [action_pop, action_expectType, action_done]

theorem action_variableDecl : Call.variableDecl.program.action = Call.variableDecl.action := by
  simp only [Call.program, Call.action, action_popSymbol, action_popIf, action_call, action_done,
    run_variableDecl, declaredValue]
  refine congrArg _ (funext fun keyword => ?_)
  split <;> rfl

theorem action_typedVariableDecl :
    Call.typedVariableDecl.program.action = Call.typedVariableDecl.action := by
  simp only [Call.program, Call.action, action_popSymbol, action_popIf, action_call, action_done,
    run_typedVariableDecl]

theorem action_returnStatement :
    Call.returnStatement.program.action = Call.returnStatement.action := by
  simp only [Call.program, Call.action, action_popSymbol, run_returnStatement]
  refine congrArg _ (funext fun keyword => ?_)
  split <;> rfl

theorem action_expressionStatement :
    Call.expressionStatement.program.action = Call.expressionStatement.action := by
  funext s
  rw [Call.action, run_expressionStatement, bind_of_ok (x := here) rfl]
  rfl

theorem action_statementEnd : Call.statementEnd.program.action = Call.statementEnd.action := by
  simp only [Call.program, Call.action, run_statementEnd]
  rw [action_look (fun _ => rfl), action_refuse]
  rfl

theorem action_sequence (nested : Bool) :
    (Call.sequence nested).program.action = (Call.sequence nested).action := by
  simp only [Call.program, Call.action, action_call, run_sequence]
  refine congrArg _ (funext fun _ => ?_)
  funext s
  simp only [action, Program.sequenceRest, Parser.sequenceRest, Parser.look]
  cases front : s.queue with
  | nil =>
    simp only [ParseState.peek, front, List.head?_nil]
    split 
    · simp only [Parser.refuse, front]
      rfl
    · rfl
  | cons token rest =>
    simp only [ParseState.peek, front, List.head?_cons]
    split
    · simp only [action_pop, action_call, action_done, Call.action]
    · split
      · split
        · simp only [action_pop, action_done]
        · simp only [Parser.refuse, front]
          rfl
      · rfl

theorem action_statement : Call.statement.program.action = Call.statement.action := by
  funext s
  simp only [Call.program, Call.action, action, run_statement, Parser.look]
  cases s.peek.bind StatementForm.ofToken? with
  | none => simp only [action_refuse]
  | some form => cases form <;> simp only [action_call, action_done, bind_pure] <;> rfl

theorem action_functionDecl : Call.functionDecl.program.action = Call.functionDecl.action := by
  simp only [Call.program, Call.action, action_call, action_done, run_functionDecl]

theorem action_body : Call.body.program.action = Call.body.action := by
  simp only [Call.program, Call.action, action_call, action_popIf, action_done, bind_pure, run_body]

theorem action_conditional : Call.conditional.program.action = Call.conditional.action := by
  simp only [Call.program, Call.action, action_call, action_popIf, action_done, run_conditional]

theorem action_elseBranch : Program.elseBranch.action = Parser.elseBranch := by
  simp only [Program.elseBranch, Parser.elseBranch, action_pop, action_call]
  refine congrArg _ (funext fun keyword => congrArg _ (funext fun _ => ?_))
  rw [action_look_isAt]
  simp only [action_pop, action_call, action_done, Call.action]

theorem action_elseBranches : Call.elseBranches.program.action = Call.elseBranches.action := by
  funext s
  rw [Call.action, run_elseBranches, lookPast, Call.program, action_call,
    bind_of_ok (x := (Call.terminators none).action) rfl]
  by_cases found : s.skipTerminators.isAt .keyword "else"
  · refine Eq.trans ?_ (if_pos found).symm
    simp only [action, found, if_true, action_elseBranch]
  · refine Eq.trans ?_ (if_neg found).symm
    cases last : s.terminators.getLast? <;>
      simp only [action, found, Option.or_none, ParseState.skipToLastTerminator, last] <;>
      rfl

/-- Carried out move by move, the program of a function does what the function does. -/
theorem action_program {α : Type} (c : Call α) : c.program.action = c.action := by
  cases c with
  | skip => exact action_skip
  | terminators last => exact action_terminators last
  | expression minimum => exact action_expression minimum
  | climb minimum lhs => exact action_climb minimum lhs
  | operation power lhs => exact action_operation power lhs
  | operand => exact action_operand
  | callArguments => exact action_callArguments
  | arguments => exact action_arguments
  | parameterNames => exact action_parameterNames
  | parameters => exact action_parameters
  | returnType => exact action_returnType
  | functionHeader => exact action_functionHeader
  | initializer => exact action_initializer
  | requiredInitializer => exact action_requiredInitializer
  | declaredType => exact action_declaredType
  | variableDecl => exact action_variableDecl
  | typedVariableDecl => exact action_typedVariableDecl
  | returnStatement => exact action_returnStatement
  | expressionStatement => exact action_expressionStatement
  | statementEnd => exact action_statementEnd
  | sequence nested => exact action_sequence nested
  | statement => exact action_statement
  | functionDecl => exact action_functionDecl
  | body => exact action_body
  | conditional => exact action_conditional
  | elseBranches => exact action_elseBranches

end RatLang.Parser
