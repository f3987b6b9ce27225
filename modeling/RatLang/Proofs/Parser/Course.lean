import RatLang.Proofs.Parser.Grammar.Sound
import RatLang.Proofs.Parser.Program
import RatLang.Proofs.Symbol.Table

/-!
# What a parser passes on its way

The programs of the parsing functions say which states a run goes through and which tokens it looks
up, also where it fails and where the run is cut short in the middle of a function. Whatever state a
run is in, its queue is an end of the queue that it began with: nothing is put back but a terminator
that was taken just before. And a token is looked up only where it names a type or where its
spelling has been checked, so that it spells a symbol.
-/

namespace RatLang

/-- Does the token spell a symbol? -/
def Token.Spells (t : Token) : Prop := ∃ symbol, Symbol.ofLexeme? t.lexeme = some symbol

namespace Parser

/-- What happens in a run: it is in a state, or it looks up the symbol of a token. -/
inductive Event where
  | at (state : ParseState)
  | lookup (token : Token)

/-- The events in the run of a program from a state. -/
inductive Occurs : {α : Type} → Program α → ParseState → Event → Prop where
  | here {α : Type} (p : Program α) (s : ParseState) : Occurs p s (.at s)
  | look {α : Type} {next : ParseState → Program α} {s : ParseState} {e : Event} :
      Occurs (next s) s e → Occurs (.look next) s e
  | pop {α : Type} {expected : String} {next : Token → Program α} {s : ParseState} {e : Event}
      {t : Token} {rest : List Token} (front : s.queue = t :: rest) :
      Occurs (next t) (s.took t rest) e → Occurs (.pop expected next) s e
  | restore {α : Type} {t : Token} {next : Program α} {s : ParseState} {e : Event} :
      Occurs next (s.restore t) e → Occurs (.restore t next) s e
  | record {α : Type} {stmt : Stmt} {next : Program α} {s : ParseState} {e : Event} :
      Occurs next (s.complete stmt) e → Occurs (.record stmt next) s e
  /-- A symbol is looked up. -/
  | asked {α : Type} {t : Token} {expected : String} {next : Symbol → Program α} {s : ParseState} :
      Occurs (.symbol t expected next) s (.lookup t)
  /-- The run goes on with the symbol that was found. -/
  | symbol {α : Type} {t : Token} {expected : String} {next : Symbol → Program α} {s : ParseState}
      {e : Event} {symbol : Symbol} (found : Symbol.ofLexeme? t.lexeme = some symbol) :
      Occurs (next symbol) s e → Occurs (.symbol t expected next) s e
  /-- What happens in a function that is called. -/
  | inside {α β : Type} {callee : Call β} {next : β → Program α} {s : ParseState} {e : Event} :
      Occurs callee.program s e → Occurs (.call callee next) s e
  /-- A call that fails ends the run where it has come to. -/
  | failed {α β : Type} {callee : Call β} {next : β → Program α} {s s' : ParseState}
      {cause : ParseError} (failure : callee.action s = .error cause s') :
      Occurs (.call callee next) s (.at s')
  /-- What happens behind a call that succeeds. -/
  | behind {α β : Type} {callee : Call β} {next : β → Program α} {s s' : ParseState} {e : Event}
      {b : β} (success : callee.action s = .ok b s') :
      Occurs (next b) s' e → Occurs (.call callee next) s e

/-! ### What is called where -/

/-- The state in which a function may be called. Those that take a keyword or an operator without a
look at it are called only in front of one. -/
def Call.Ready : {α : Type} → Call α → ParseState → Prop
  | _, .operation _ _, s | _, .functionHeader, s | _, .functionDecl, s | _, .variableDecl, s
  | _, .returnStatement, s => ∀ t ∈ s.peek, t.Spells
  | _, _, _ => True

theorem disciplined_statement (s : ParseState) : Disciplined (run statement) s := by
  cases front : s.queue with
  | cons t rest => exact (incremental_statement front).disciplined
  | nil =>
    have refused : run statement s = Parser.refuse "a statement" s := by
      rw [run_statement, look_nil front, Option.bind_none]
    rw [Disciplined, refused]
    exact Disciplined.refuse "a statement" s

theorem disciplined_expressionStatement (s : ParseState) :
    Disciplined (run expressionStatement) s := by
  rw [run_expressionStatement]
  have position : Disciplined here s := ParseState.Reaches.refl s
  refine position.bind fun _ s' _ => ?_
  exact (incremental_expression _ s').disciplined.bind fun _ s'' _ => .pure _ s''

/-- Every function leaves an end of the queue. -/
theorem Call.disciplined {α : Type} (c : Call α) (s : ParseState) : Disciplined c.action s := by
  cases c with
  | skip => exact .skip s
  | terminators last => exact s.reaches_skipTerminators
  | expression minimum => exact (incremental_expression minimum s).disciplined
  | climb minimum lhs => exact (incremental_climb minimum lhs s).disciplined
  | operation power lhs => exact (incremental_operation power lhs s).disciplined
  | operand => exact (incremental_operand s).disciplined
  | callArguments => exact (incremental_callArguments s).disciplined
  | arguments => exact (incremental_arguments s).disciplined
  | parameterNames => exact (incremental_parameterNames s).disciplined
  | parameters => exact (incremental_parameters s).disciplined
  | returnType => exact (incremental_returnType s).disciplined
  | functionHeader => exact (incremental_functionHeader s).disciplined
  | initializer => exact (incremental_initializer s).disciplined
  | requiredInitializer => exact (incremental_requiredInitializer s).disciplined
  | declaredType => exact (incremental_declaredType s).disciplined
  | variableDecl => exact (incremental_variableDecl s).disciplined
  | typedVariableDecl => exact (incremental_typedVariableDecl s).disciplined
  | returnStatement => exact (incremental_returnStatement s).disciplined
  | expressionStatement => exact disciplined_expressionStatement s
  | statementEnd => exact (incremental_statementEnd s).disciplined
  | sequence nested => exact (incremental_sequence nested s).disciplined
  | statement => exact disciplined_statement s
  | functionDecl => exact (incremental_functionDecl s).disciplined
  | body => exact (incremental_body s).disciplined
  | conditional => exact (incremental_conditional s).disciplined
  | elseBranches => exact (incremental_elseBranches s).disciplined

/-! ### What a program is careful about -/

/-- A program that looks a token up only where it spells a symbol, and that puts a token back only
where the queue began with it. The queue of the whole run is given. -/
def Program.Keeps {α : Type} (q : List Token) : Program α → ParseState → Prop
  | .done _, _ | .fail _, _ => True
  | .look next, s => (next s).Keeps q s
  | .pop _ next, s => ∀ t rest, s.queue = t :: rest → t ∈ q → (next t).Keeps q (s.took t rest)
  | .restore t next, s => (s.restore t).queue <:+ q ∧ next.Keeps q (s.restore t)
  | .record stmt next, s => next.Keeps q (s.complete stmt)
  | .symbol t _ next, s =>
    (t ∈ q ∧ (t.kind = .type ∨ t.Spells)) ∧
      ∀ symbol, Symbol.ofLexeme? t.lexeme = some symbol → (next symbol).Keeps q s
  | .call callee next, s =>
    callee.Ready s ∧ ∀ b s', callee.action s = .ok b s' → (next b).Keeps q s'

namespace Program.Keeps

variable {α β : Type} {q : List Token} {s : ParseState}

theorem popIf {test : Token → Bool} {expected : String} {next : Token → Program α}
    (h : ∀ t rest, s.queue = t :: rest → t ∈ q → test t → (next t).Keeps q (s.took t rest)) :
    (Program.popIf test expected next).Keeps q s := by
  intro t rest front mem
  show (if test t then next t else _ : Program α).Keeps q _
  split
  · rename_i passed
    exact h t rest front mem passed
  · trivial

theorem popSymbol {test : Token → Bool} {expected : String} {next : Token → Symbol → Program α}
    (known : ∀ t ∈ s.peek, test t → t.kind = .type ∨ t.Spells)
    (h : ∀ t rest symbol, s.queue = t :: rest → Symbol.ofLexeme? t.lexeme = some symbol →
      (next t symbol).Keeps q (s.took t rest)) :
    (Program.popSymbol test expected next).Keeps q s := by
  apply popIf
  intro t rest front mem passed
  have first : t ∈ s.peek := by simp [ParseState.peek, front]
  exact ⟨⟨mem, known t first passed⟩, fun symbol found => h t rest symbol front found⟩

theorem expectType {next : Symbol → Program α}
    (h : ∀ t rest symbol, s.queue = t :: rest → (next symbol).Keeps q (s.took t rest)) :
    (Program.expectType next).Keeps q s :=
  popSymbol (fun _ _ is => .inl (by simpa using is)) fun t rest symbol front _ =>
    h t rest symbol front

theorem refuse (expected : String) : (Program.refuse expected : Program α).Keeps q s := by
  rw [Program.refuse, Program.Keeps]
  cases s.peek <;> trivial

/-- A call with nothing behind it. -/
theorem tail {callee : Call α} (ready : callee.Ready s) :
    (Program.call callee .done).Keeps q s := ⟨ready, fun _ _ _ => trivial⟩

end Program.Keeps

theorem keeps_operandRest {q : List Token} {token : Token} (mem : token ∈ q) (s : ParseState) :
    (Program.operandRest token).Keeps q s := by
  unfold Program.operandRest
  split
  case h_4 => split <;> trivial
  case h_5 =>
    show (if _ then _ else _ : Program Expr).Keeps q s
    split
    · exact ⟨trivial, fun _ _ _ => trivial⟩
    · trivial
  case h_6 =>
    split
    · exact ⟨trivial, fun _ _ _ => .popIf fun _ _ _ _ _ => trivial⟩
    · trivial
  case h_7 =>
    split
    · rename_i unary
      exact ⟨⟨mem, .inr (symbol_of_isUnaryOperator unary)⟩, fun symbol _ =>
        ⟨trivial, fun _ _ _ => trivial⟩⟩
    · trivial
  all_goals trivial

theorem spells_of_bindingPower? {t : Token} {power : Nat} (h : t.bindingPower? = some power) :
    t.Spells := by
  unfold Token.bindingPower? at h
  split at h
  · obtain ⟨tier, found, -⟩ := Option.map_eq_some_iff.mp h
    have listed := Precedence.ofBinary?_eq_some_iff.mp found
    exact Symbol.exists_ofLexeme?
      (List.mem_append_right _ (Precedence.mem_operators_of_mem listed))
  · cases h

/-- The token that opens a statement spells a symbol if its form takes it unseen. -/
theorem ready_ofForm {t : Token} {form : StatementForm} {s : ParseState} (front : t ∈ s.peek)
    (opens : StatementForm.ofToken? t = some form) : (Call.ofForm form).Ready s := by
  have spelled : t.lexeme ∈ keywords → ∀ t' ∈ s.peek, t'.Spells := by
    intro keyword t' mem
    rw [← Option.mem_unique front mem]
    exact Symbol.exists_ofLexeme? (by simp [keyword])
  have words := ofToken?_eq_some opens
  cases form with
  | function => exact spelled ((by decide : Grammar.functionKeywords ⊆ keywords) words.2)
  | untypedVariable =>
    rcases words with word | word <;> rw [Token.is_iff] at word <;>
      exact spelled (by rw [word.2]; decide)
  | ret =>
    rcases words with word | word <;> rw [Token.is_iff] at word <;>
      exact spelled (by rw [word.2]; decide)
  | typedVariable | conditional | expression => trivial

theorem keeps_sequenceRest {q : List Token} (nested : Bool) (s : ParseState) :
    (Program.sequenceRest nested s).Keeps q s := by
  unfold Program.sequenceRest
  split
  · split <;> trivial
  · split
    · exact fun _ _ _ _ => ⟨trivial, fun _ _ _ => ⟨trivial, fun _ _ _ => trivial⟩⟩
    · split
      · split
        · exact fun _ _ _ _ => trivial
        · trivial
      · exact ⟨trivial, fun _ _ _ => ⟨trivial, fun _ _ _ => ⟨trivial, fun _ _ _ => trivial⟩⟩⟩

theorem keeps_elseBranch {q : List Token} (s : ParseState) : Program.elseBranch.Keeps q s := by
  refine fun keyword _ _ _ => ⟨trivial, fun _ s' _ => ?_⟩
  show (if s'.isAt .keyword "if" then _ else _ : Program (List Branch)).Keeps q s'
  split
  · refine fun _ _ _ _ => ⟨trivial, fun _ _ _ => ⟨trivial, fun _ _ _ => ?_⟩⟩
    exact ⟨trivial, fun _ _ _ => trivial⟩
  · exact ⟨trivial, fun _ _ _ => trivial⟩

/-- Every function looks tokens up and puts them back with care, wherever it may be called. -/
theorem Call.keeps {α : Type} (c : Call α) {q : List Token} {s : ParseState} (ready : c.Ready s)
    (within : s.queue <:+ q) : c.program.Keeps q s := by
  cases c with
  | skip =>
    show (if s.isAtTerminator then _ else _ : Program Unit).Keeps q s
    split
    · exact fun _ _ _ _ => .tail trivial
    · trivial
  | terminators last =>
    show (if s.isAtTerminator then _ else _ : Program (Option Token)).Keeps q s
    split
    · exact fun _ _ _ _ => .tail trivial
    · trivial
  | expression minimum => exact ⟨trivial, fun _ _ _ => .tail trivial⟩
  | climb minimum lhs =>
    rw [Call.program, Program.Keeps]
    cases found : s.peek.bind Token.bindingPower? with
    | none => trivial
    | some power =>
      obtain ⟨t, front, binds⟩ := Option.bind_eq_some_iff.mp found
      dsimp only
      split
      · trivial
      · refine ⟨fun t' mem => ?_, fun _ _ _ => .tail trivial⟩
        rw [← Option.mem_unique front mem]
        exact spells_of_bindingPower? binds
  | operation power lhs =>
    refine .popSymbol (fun t front _ => .inr (ready t front)) fun _ _ _ _ _ => ?_
    exact ⟨trivial, fun _ _ _ => trivial⟩
  | operand => exact fun t rest front mem => keeps_operandRest mem _
  | callArguments =>
    intro t rest front mem
    show (if (s.took t rest).isAtPunct ')' then _ else _ : Program (List Expr)).Keeps q _
    split
    · exact fun _ _ _ _ => trivial
    · exact .tail trivial
  | arguments =>
    refine ⟨trivial, fun arg s' parsed t rest front mem => ?_⟩
    show (if t.isPunct ')' then _ else if t.isPunct ',' then _ else _ :
      Program (List Expr)).Keeps q _
    split
    · trivial
    · split
      · exact ⟨trivial, fun _ _ _ => trivial⟩
      · trivial
  | parameterNames =>
    refine .popIf fun t rest front mem name => ?_
    show (if (s.took t rest).isAtPunct ',' then _ else _ : Program (List Identifier)).Keeps q _
    split
    · exact fun _ _ _ _ => ⟨trivial, fun _ _ _ => trivial⟩
    · trivial
  | parameters =>
    refine .popIf fun t rest front mem opens => ?_
    show (if (s.took t rest).isAtPunct ')' then _ else _ : Program (List Identifier)).Keeps q _
    split
    · exact .popIf fun _ _ _ _ _ => trivial
    · exact ⟨trivial, fun _ _ _ => .popIf fun _ _ _ _ _ => trivial⟩
  | returnType =>
    show (if s.isAt .operator "->" then _ else _ : Program Symbol).Keeps q s
    split
    · exact fun _ _ _ _ => .expectType fun _ _ _ _ => trivial
    · trivial
  | functionHeader =>
    refine .popSymbol (fun t front _ => .inr (ready t front)) fun _ _ _ _ _ => ?_
    refine .popIf fun _ _ _ _ _ => ⟨trivial, fun _ _ _ => ⟨trivial, fun _ _ _ => trivial⟩⟩
  | initializer =>
    show (if s.isAt .operator "=" then _ else _ : Program (Option Expr)).Keeps q s
    split
    · exact fun _ _ _ _ => ⟨trivial, fun _ _ _ => trivial⟩
    · trivial
  | requiredInitializer =>
    exact .popIf fun _ _ _ _ _ => ⟨trivial, fun _ _ _ => trivial⟩
  | declaredType =>
    show (if s.isAtPunct ':' then _ else _ : Program (Option Symbol)).Keeps q s
    split
    · exact fun _ _ _ _ => .expectType fun _ _ _ _ => trivial
    · trivial
  | variableDecl =>
    refine .popSymbol (fun t front _ => .inr (ready t front)) fun _ _ kind _ _ => ?_
    refine .popIf fun _ _ _ _ _ => ⟨trivial, fun _ _ _ => ?_⟩
    split <;> exact ⟨trivial, fun _ _ _ => trivial⟩
  | typedVariableDecl =>
    refine .popSymbol (fun t _ is => .inl (by simpa using is)) fun _ _ _ _ _ => ?_
    exact .popIf fun _ _ _ _ _ => ⟨trivial, fun _ _ _ => trivial⟩
  | returnStatement =>
    refine .popSymbol (fun t front _ => .inr (ready t front)) fun _ _ kind _ _ => ?_
    show (if kind = .functionReturn then _ else _ : Program Stmt).Keeps q _
    split
    · exact ⟨trivial, fun _ _ _ => trivial⟩
    · trivial
  | expressionStatement => exact ⟨trivial, fun _ _ _ => trivial⟩
  | statementEnd =>
    show (if endsStatement s.peek then _ else _ : Program Unit).Keeps q s
    split
    · trivial
    · exact .refuse _
  | sequence nested => exact ⟨trivial, fun _ s' _ => keeps_sequenceRest nested s'⟩
  | statement =>
    rw [Call.program, Program.Keeps]
    cases found : s.peek.bind StatementForm.ofToken? with
    | none => exact .refuse _
    | some form =>
      obtain ⟨t, front, opens⟩ := Option.bind_eq_some_iff.mp found
      exact .tail (ready_ofForm front opens)
  | functionDecl => exact ⟨ready, fun _ _ _ => ⟨trivial, fun _ _ _ => trivial⟩⟩
  | body => exact ⟨trivial, fun _ _ _ => .popIf fun _ _ _ _ _ => .tail trivial⟩
  | conditional =>
    refine .popIf fun _ _ _ _ _ => ⟨trivial, fun _ _ _ => ⟨trivial, fun _ _ _ => ?_⟩⟩
    exact ⟨trivial, fun _ _ _ => trivial⟩
  | elseBranches =>
    refine ⟨trivial, fun last s' skipped => ?_⟩
    cases skipped
    show (if s.skipTerminators.isAt .keyword "else" then _ else _ :
      Program (List Branch)).Keeps q _
    split
    · exact keeps_elseBranch _
    · cases last : s.terminators.getLast? with
      | none => trivial
      | some terminator => exact ⟨(ParseState.suffix_restore last).trans within, trivial⟩

/-! ### Whole runs -/

/-- An event in a run on a queue: the state has an end of the queue, and the token that is looked up
is one of the queue that names a type or spells a symbol. -/
def Event.Within (q : List Token) : Event → Prop
  | .at s => s.queue <:+ q
  | .lookup t => t ∈ q ∧ (t.kind = .type ∨ t.Spells)

/-- A careful program stays within the queue, move by move and call by call. -/
theorem Occurs.within {α : Type} {p : Program α} {s : ParseState} {e : Event} {q : List Token}
    (h : Occurs p s e) (keeps : p.Keeps q s) (suffix : s.queue <:+ q) : e.Within q := by
  induction h with
  | here p s => exact suffix
  | look _ ih => exact ih keeps suffix
  | @pop _ _ _ s _ t rest front _ ih =>
    have mem : t ∈ q := suffix.mem (by simp [front])
    refine ih (keeps t rest front mem) ?_
    exact (front ▸ List.suffix_cons t rest).trans suffix
  | restore _ ih => exact ih keeps.2 keeps.1
  | record _ ih => exact ih keeps suffix
  | asked => exact keeps.1
  | symbol found _ ih => exact ih (keeps.2 _ found) suffix
  | @inside _ _ callee _ s _ _ ih => exact ih (callee.keeps keeps.1 suffix) suffix
  | @failed _ _ callee _ s s' cause failure =>
    exact ((callee.disciplined s).reaches_of_error failure).suffix.trans suffix
  | @behind _ _ callee _ s s' _ b success _ ih =>
    have reached := (callee.disciplined s).reaches_of_ok success
    exact ih (keeps.2 b s' success) (reached.suffix.trans suffix)

/-- What happens when a list of tokens is parsed. -/
def Happens (tokens : List Token) (e : Event) : Prop :=
  Occurs (.call (.sequence false) .done) (.ofTokens tokens) e

theorem within_of_happens {tokens : List Token} {e : Event} (h : Happens tokens e) :
    e.Within (significant tokens) :=
  Occurs.within h (.tail trivial) List.suffix_rfl

end Parser

end RatLang
