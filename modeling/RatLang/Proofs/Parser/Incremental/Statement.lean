import RatLang.Proofs.Parser.Incremental.Expression

/-!
# Simple statements with more input to come

Declarations, returns and expressions as statements are incremental, and so is what stands in front
of the body of a function. Where a part may be left out, its first token must not follow.
-/

namespace RatLang

/-- An operator that stands for whatever token with a meaning was meant. -/
def Token.anyOperator : Token := ⟨.operator, "+", .start⟩

/-- The name of a type that stands for whatever type was meant. -/
def Token.anyType : Token := ⟨.type, "int", .start⟩

/-- The mark in front of a value. -/
def Token.equals : Token := ⟨.operator, "=", .start⟩

theorem Token.plain_anyOperator : Token.anyOperator.Plain := ⟨by decide, by decide⟩

theorem Token.plain_anyType : Token.anyType.Plain := ⟨by decide, by decide⟩

theorem Token.plain_equals : Token.equals.Plain := ⟨by decide, by decide⟩

namespace Parser

variable {α β : Type}

/-- A token that passes the test must not follow. -/
def Unless (test : Token → Bool) : Option Token → Prop := fun next => ¬next.any test

theorem Unless.of_mark {test : Token → Bool} {t : Token} (other : ¬test t) :
    ∀ next, next = some t → Unless test next := by
  rintro next rfl
  simpa [Unless] using other

theorem accepts_anyOperator :
    spelling (fun _ => true) .anyOperator = some (.anyOperator, .arithmeticAdd) := by
  decide

theorem accepts_anyType : spelling (·.kind == .type) .anyType = some (.anyType, .typeInt) := by
  decide

theorem accepts_anyName : passing (·.kind == .identifier) .anyName = some .anyName := by decide

/-! ### Declarations and other simple statements -/

theorem completes_parameterNames {s : ParseState} (empty : s.queue = []) :
    Completes (· = some .anyName) Used (Unless (·.isPunct ',')) (run parameterNames) s := by
  rw [run_parameterNames]
  refine Completes.take_bind accepts_anyName Token.plain_anyName empty fun s' used => ?_
  exact (Completes.optional _ used used fun _ => id).anyhow

theorem incremental_parameterNames (s : ParseState) :
    Incremental Used (Unless (·.isPunct ',')) (run parameterNames) s := by
  rw [run_parameterNames]
  refine (Incremental.take accepts_anyName Token.plain_anyName _ s).bind ?_ ?_ rfl
  · intro name s' taken
    have := left_of_take taken
    refine Incremental.optional _ rfl (fun _ => id) fun t rest front comma => ?_
    refine (Incremental.take rfl (Token.plain_mark ',') _ s').bind ?_ ?_ rfl
    · intro _ s'' taken'
      have := left_of_take taken'
      exact (incremental_parameterNames s'').bind_pure _
    · intro _ s'' used
      exact ((completes_parameterNames used).bind_pure _).anyhow
  · intro name s' used
    exact (Completes.optional _ used used fun _ => id).anyhow
termination_by s.left

/-- The names of the parameters, if there are any. -/
def someParameters : Action (List Identifier) :=
  look fun next => if next.any (·.isPunct ')') then pure [] else run parameterNames

theorem completes_someParameters {s : ParseState} (empty : s.queue = []) :
    Completes (· = some .anyName) Used (Unless (·.isPunct ',')) someParameters s := by
  apply (completes_parameterNames empty).look empty
  rintro next rfl
  rfl

theorem incremental_someParameters (s : ParseState) :
    Incremental Used (Unless (·.isPunct ',')) someParameters s := by
  have names := incremental_parameterNames s
  refine Incremental.look rfl names.disciplined ?_ fun t rest front => ?_
  · intro empty
    exact (completes_someParameters empty).anyhow
  · rw [Option.any_some]
    split
    · exact .pure [] s
    · exact names

theorem accepts_close : passing (·.isPunct ')') (.mark ')') = some (.mark ')') := by decide

theorem completes_close_params {s : ParseState} (empty : s.queue = [])
    (params : List Identifier) :
    Completes (Unless (·.isPunct ',')) Used Anything
      (take (passing (·.isPunct ')')) "')'" >>= fun _ => pure params) s :=
  ((Completes.take accepts_close (Token.plain_mark _) empty).bind_pure _).imp
    (Unless.of_mark (by decide))

theorem incremental_parameters (s : ParseState) :
    Incremental Used Anything (run parameters) s := by
  rw [run_parameters]
  have opened : passing (·.isPunct '(') (.mark '(') = some (.mark '(') := by decide
  refine (Incremental.take opened (Token.plain_mark _) _ s).seq rfl fun _ s' => ?_
  refine (incremental_someParameters s').bind (fun params s'' _ => ?_)
    (fun params _ used => completes_close_params used params) rfl
  exact (Incremental.take accepts_close (Token.plain_mark _) _ s'').bind_pure _

theorem incremental_expectType (s : ParseState) :
    Incremental Used Anything (run expectType) s := by
  rw [run_expectType]
  exact (Incremental.take accepts_anyType Token.plain_anyType _ s).bind_pure _

theorem incremental_returnType (s : ParseState) :
    Incremental Used (Unless (·.is .operator "->")) (run returnType) s := by
  rw [run_returnType]
  refine Incremental.optional _ rfl (fun _ => id) fun t rest _ _ => ?_
  refine (Incremental.take rfl Token.plain_anyName _ s).seq rfl fun _ s' => ?_
  exact (incremental_expectType s').narrow fun _ _ => trivial

theorem incremental_functionHeader (s : ParseState) :
    Incremental Used (Unless (·.is .operator "->")) (run functionHeader) s := by
  rw [run_functionHeader]
  refine (Incremental.take accepts_anyOperator Token.plain_anyOperator _ s).seq rfl ?_
  intro keyword s₁
  refine (Incremental.take accepts_anyName Token.plain_anyName _ s₁).seq rfl fun name s₂ => ?_
  refine (incremental_parameters s₂).seq rfl fun params s₃ => ?_
  exact (incremental_returnType s₃).bind_pure _

theorem incremental_initializer (s : ParseState) :
    Incremental Used Closing (run initializer) s := by
  rw [run_initializer]
  refine Incremental.optional _ rfl (fun next closing => closing.not_is (by decide)) ?_
  intro t rest _ _
  refine (Incremental.take rfl Token.plain_equals _ s).seq rfl fun _ s' => ?_
  exact (incremental_expression _ s').bind_pure _

theorem accepts_equals : passing (·.is .operator "=") .equals = some .equals := by decide

theorem incremental_requiredInitializer (s : ParseState) :
    Incremental Used Closing (run requiredInitializer) s := by
  rw [run_requiredInitializer]
  refine (Incremental.take accepts_equals Token.plain_equals _ s).seq rfl fun _ s' => ?_
  exact (incremental_expression _ s').bind_pure _

theorem incremental_declaredValue (keyword : Symbol) (s : ParseState) :
    Incremental Used Closing (declaredValue keyword) s := by
  unfold declaredValue
  split
  · exact incremental_requiredInitializer s
  · exact incremental_initializer s

/-- Without a type, a value may come at once. -/
theorem completes_declaredValue {s : ParseState} (empty : s.queue = []) (keyword : Symbol) :
    Completes (Unless (·.isPunct ':')) Used Closing (declaredValue keyword) s := by
  unfold declaredValue
  split
  · rw [run_requiredInitializer]
    refine Completes.imp ?_ (Unless.of_mark (t := .equals) (by decide))
    refine Completes.take_bind accepts_equals Token.plain_equals empty fun s' used => ?_
    exact ((completes_expression used _).bind_pure _).anyhow
  · rw [run_initializer]
    refine Completes.imp ?_ (fun next (closing : Closing next) => closing.not_isPunct (by decide))
    exact .optional _ empty empty fun next closing => closing.not_is (by decide)

theorem incremental_declaredType (s : ParseState) :
    Incremental Used (Unless (·.isPunct ':')) (run declaredType) s := by
  rw [run_declaredType]
  refine Incremental.optional _ rfl (fun _ => id) fun t rest _ _ => ?_
  refine (Incremental.take rfl (Token.plain_mark ':') _ s).seq rfl fun _ s' => ?_
  exact ((incremental_expectType s').bind_pure _).narrow fun _ _ => trivial

theorem incremental_variableDecl (s : ParseState) :
    Incremental Used Closing (run variableDecl) s := by
  rw [run_variableDecl]
  refine (Incremental.take accepts_anyOperator Token.plain_anyOperator _ s).seq rfl ?_
  intro keyword s₁
  refine (Incremental.take accepts_anyName Token.plain_anyName _ s₁).seq rfl fun name s₂ => ?_
  refine (incremental_declaredType s₂).bind (fun type s₃ _ => ?_) (fun type s₃ used => ?_) rfl
  · exact (incremental_declaredValue keyword.2 s₃).bind_pure _
  · exact (completes_declaredValue used keyword.2).bind_pure _

theorem incremental_typedVariableDecl (s : ParseState) :
    Incremental Used Closing (run typedVariableDecl) s := by
  rw [run_typedVariableDecl]
  refine (Incremental.take accepts_anyType Token.plain_anyType _ s).seq rfl fun keyword s₁ => ?_
  refine (Incremental.take accepts_anyName Token.plain_anyName _ s₁).seq rfl fun name s₂ => ?_
  exact (incremental_initializer s₂).bind_pure _

theorem incremental_returnStatement (s : ParseState) :
    Incremental Used Closing (run returnStatement) s := by
  rw [run_returnStatement]
  refine (Incremental.take accepts_anyOperator Token.plain_anyOperator _ s).seq rfl ?_
  intro keyword s₁
  split
  · exact (incremental_expression _ s₁).bind_pure _
  · exact .pure _ s₁

theorem incremental_expressionStatement {s : ParseState} {t : Token} {rest : List Token}
    (front : s.queue = t :: rest) : Incremental Used Closing (run expressionStatement) s := by
  rw [run_expressionStatement]
  refine (Incremental.here front).seq rfl fun position s₁ => ?_
  exact (incremental_expression _ s₁).bind_pure _

end Parser

end RatLang
