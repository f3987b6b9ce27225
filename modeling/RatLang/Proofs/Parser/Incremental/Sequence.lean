import RatLang.Proofs.Parser.Incremental.Statement

/-!
# Scopes with more input to come

Statements with bodies and sequences of statements are incremental. A conditional is the one
statement whose outcome may change behind the terminators that it leaves, because an `else` may
stand there. A nested scope is completed by the brace that closes it, the outermost one by nothing.
-/

namespace RatLang.Parser

/-- Only the brace that closes a scope may follow. -/
def Ending : Option Token → Prop := fun next => ∀ t ∈ next, t.isPunct '\x7d'

/-- What may follow a scope: anything if it is nested, and nothing otherwise. -/
def Behind (nested : Bool) : Option Token → Prop := fun next => nested = false → next = none

theorem Ending.closing {next : Option Token} (h : Ending next) : Closing next := by
  intro t mem
  exact .inr (.inr (.inr (h t mem)))

theorem Closing.unterminated {next : Option Token} (h : Closing next) : Unterminated next := by
  intro t mem
  simp [Token.isTerminator, h.kind t mem]

theorem behind_nested (next : Option Token) : Behind true next := by
  intro h
  cases h

theorem spent_nil : Spent [] := by
  intro t mem
  cases mem

theorem Spent.skipped {s : ParseState} (h : Spent s.queue) : s.skipTerminators.queue = [] := by
  cases front : s.skipTerminators.queue with
  | nil => rfl
  | cons t rest =>
    have mem : t ∈ s.skipTerminators.queue := by simp [front]
    have first := s.not_isTerminator_of_head t (by simp [front])
    exact absurd (h t (s.reaches_skipTerminators.suffix.mem mem)) first

/-! ### The end of a statement -/

theorem Spent.ends {s : ParseState} (h : Spent s.queue) {rest : List Token}
    (follows : Ending rest.head?) : endsStatement (s.extend rest).peek := by
  cases front : s.queue with
  | nil =>
    have peeked : (s.extend rest).peek = rest.head? := by simp [ParseState.peek, front]
    rw [peeked]
    cases first : rest.head? with
    | none => rfl
    | some t => simp [endsStatement, follows t (by simp [first])]
  | cons t more =>
    have terminator := h t (by simp [front])
    simp [endsStatement, ParseState.peek, front, terminator]

theorem statementEnd_of_spent {s : ParseState} (h : Spent s.queue) {rest : List Token}
    (follows : Ending rest.head?) :
    run statementEnd (s.extend rest) = .ok () (s.extend rest) := by
  rw [run_statementEnd, look, if_pos (h.ends follows)]
  rfl

theorem incremental_statementEnd (s : ParseState) :
    Incremental Used Ending (run statementEnd) s := by
  rw [run_statementEnd]
  refine Incremental.look rfl (.pure () s) ?_ fun t rest front => ?_
  · intro empty
    have done : Completes Ending Used Ending (pure ()) s := .pure () empty
    refine (done.look empty fun next follows => ?_).anyhow
    cases next with
    | none => rfl
    | some t => simp [endsStatement, follows t rfl]
  · split
    · exact .pure () s
    · exact .refuse front _

/-! ### Completing a scope -/

theorem completes_sequenceRest {s : ParseState} (empty : s.queue = []) (nested : Bool) :
    Completes Ending Used (Behind nested) (sequenceRest nested) s := by
  cases nested with
  | true =>
    have closed : Completes (· = some (.mark '\x7d')) Used (Behind true)
        (do let _ ← take some "'\x7d'"; pure ([] : List Stmt)) s := by
      apply Completes.take_bind rfl (Token.plain_mark _) empty
      intro s' used
      exact Completes.anyhow (.pure [] used)
    refine (closed.look empty ?_).imp ?_
    · rintro next rfl
      rfl
    · intro next eq t mem
      rw [eq, Option.mem_some] at mem
      rw [← mem]
      decide
  | false =>
    have done : Completes (Behind false) Used (Behind false) (pure ([] : List Stmt)) s :=
      .pure [] empty
    refine (done.look empty ?_).imp ?_
    · intro next ends
      rw [ends rfl]
      rfl
    · intro next ends t mem
      rw [ends rfl] at mem
      cases mem

theorem completes_sequence {s : ParseState} (spent : Spent s.queue) (nested : Bool) :
    Completes Ending Used (Behind nested) (run (sequence nested)) s := by
  rw [run_sequence]
  have skipped : Completes Ending Used Ending (run skip) s :=
    .skip spent.skipped fun next ends => ends.closing.unterminated
  exact skipped.bind fun _ s' used => completes_sequenceRest used nested

/-- Parses what stands behind a statement. -/
def sequenceBehind (nested : Bool) (stmt : Stmt) : Action (List Stmt) := do
  let _ ← record stmt
  let _ ← run statementEnd
  let rest ← run (sequence nested)
  pure (stmt :: rest)

theorem completes_sequenceBehind {s : ParseState} (spent : Spent s.queue) (nested : Bool)
    (stmt : Stmt) : Completes Ending Used (Behind nested) (sequenceBehind nested stmt) s := by
  have recorded : Completes Ending Spent Ending (record stmt) s :=
    .at_once () (s.complete stmt) spent fun _ _ => rfl
  apply recorded.bind
  intro _ s' spent'
  have ended : Completes Ending Spent Ending (run statementEnd) s' :=
    .at_once () s' spent' fun rest follows => statementEnd_of_spent spent' follows
  apply ended.bind
  intro _ s'' spent''
  exact (completes_sequence spent'' nested).bind_pure _

theorem disciplined_sequenceRest {s : ParseState} (empty : s.queue = []) (nested : Bool) :
    Disciplined (sequenceRest nested) s := by
  apply Disciplined.look
  rw [ParseState.peek, empty, List.head?_nil]
  cases nested with
  | true => exact .refuse _ s
  | false => exact .pure [] s

/-- Behind a statement, the end of the input is where the scope may go on. -/
theorem pending_sequenceBehind {s : ParseState} (spent : Spent s.queue) (nested : Bool)
    (stmt : Stmt) : Pending Used (sequenceBehind nested stmt s) := by
  have ended : run statementEnd ((s.complete stmt).extend []) = .ok () _ :=
    statementEnd_of_spent (s := s.complete stmt) spent fun t mem => by cases mem
  have used : (s.complete stmt).skipTerminators.queue = [] :=
    Spent.skipped (s := s.complete stmt) spent
  rw [ParseState.extend_nil] at ended
  unfold sequenceBehind
  rw [bind_of_ok (x := record stmt) rfl, bind_of_ok ended, run_sequence, bind_assoc,
    bind_of_ok (x := run skip) rfl]
  refine pending_of_empty rfl used (.bind (disciplined_sequenceRest used nested) ?_)
  intro rest s' _
  exact .pure _ s'

theorem completes_nextStatements {s : ParseState} (empty : s.queue = []) (nested : Bool)
    (inner : List Stmt) :
    Completes (Behind true) Used (Behind nested)
      (run (sequence nested) >>= fun rest => pure (inner ++ rest)) s := by
  have spent : Spent s.queue := empty ▸ spent_nil
  exact ((completes_sequence spent nested).bind_pure _).imp fun _ _ => behind_nested _

/-! ### Completing a body and the branches behind it -/

theorem accepts_open : passing (·.isPunct '\x7b') (.mark '\x7b') = some (.mark '\x7b') := by decide

theorem unterminated_mark {c : Char} :
    ∀ next, next = some (Token.mark c) → Unterminated next := by
  intro next eq t mem
  rw [eq, Option.mem_some] at mem
  rw [← mem]
  exact (Token.plain_mark c).1

/-- Parses a scope from the brace that opens it. -/
def scope : Action (List Stmt) := do
  let _ ← take (passing (·.isPunct '\x7b')) "'\x7b'"
  run (sequence true)

theorem completes_scope {s : ParseState} (empty : s.queue = []) :
    Completes (· = some (.mark '\x7b')) Used Anything scope s := by
  apply Completes.take_bind accepts_open (Token.plain_mark _) empty
  intro s' used
  have spent : Spent s'.queue := used ▸ spent_nil
  exact ((completes_sequence spent true).relax (fun _ => id) fun _ _ => behind_nested _).anyhow

theorem completes_body {s : ParseState} (empty : s.queue = []) :
    Completes (· = some (.mark '\x7b')) Used Anything (run body) s := by
  have spent : Spent s.queue := empty ▸ spent_nil
  have skipped : Completes (· = some (.mark '\x7b')) Used (· = some (.mark '\x7b'))
    (run skip) s := .skip spent.skipped unterminated_mark
  rw [run_body]
  exact skipped.bind fun _ s' used => completes_scope used

theorem lookPast_follows : ∀ next, Closing next →
    ∀ t ∈ next, ¬t.isTerminator ∧ ¬t.is .keyword "else" := by
  intro next closing t mem
  refine ⟨closing.unterminated t mem, ?_⟩
  simp [Token.is, closing.kind t mem]

theorem completes_elseBranches {s : ParseState} (empty : s.queue = []) :
    Completes Anything Spent Closing (run elseBranches) s := by
  have spent : Spent s.queue := empty ▸ spent_nil
  rw [run_elseBranches]
  refine (Incremental.lookPast [] lookPast_follows ?_).restart empty spent_nil
  intro seen
  simp [ParseState.peek, spent.skipped] at seen

/-- Parses a branch with a condition, and the branches behind it. -/
def guarded {α : Type} (branches : Expr → List Stmt → List Branch → α) : Action α := do
  let condition ← run (expression Precedence.lowest.power)
  let block ← run body
  let rest ← run elseBranches
  pure (branches condition block rest)

theorem completes_behindCondition {α : Type} {s : ParseState} (empty : s.queue = [])
    (branches : List Stmt → List Branch → α) :
    Completes Closing Spent Closing
      (run body >>= fun block =>
        run elseBranches >>= fun rest => pure (branches block rest)) s := by
  refine Completes.imp ?_ (Closing.mark (c := '\x7b') (by decide))
  apply (completes_body empty).bind
  intro block s' used
  exact (completes_elseBranches used).bind_pure _

theorem completes_guarded {α : Type} {s : ParseState} (empty : s.queue = [])
    (branches : Expr → List Stmt → List Branch → α) :
    Completes Anything Spent Closing (guarded branches) s :=
  ((completes_expression empty _).bind fun _ _ used => completes_behindCondition used _).anyhow

/-- Parses what stands behind an `else`. -/
def behindElse (keyword : Token) : Action (List Branch) :=
  look fun next =>
    if next.any (·.is .keyword "if") then do
      let _ ← take some "'if'"
      guarded fun condition block rest =>
        ⟨.conditionalElseIf, keyword.position, some condition, block⟩ :: rest
    else do
      let block ← run body
      pure [⟨.conditionalElse, keyword.position, none, block⟩]

theorem completes_behindElse {s : ParseState} (empty : s.queue = []) (keyword : Token) :
    Completes Unterminated Spent Closing (behindElse keyword) s := by
  have closed : Completes (· = some (.mark '\x7b')) Used Anything
      (run body >>= fun block => pure
        [(⟨.conditionalElse, keyword.position, none, block⟩ : Branch)]) s :=
    (completes_body empty).bind_pure _
  refine ((closed.look empty ?_).imp unterminated_mark).relax ?_ fun _ _ => trivial
  · rintro next rfl
    rfl
  · intro q used
    exact used ▸ spent_nil

/-! ### The functions -/

mutual

theorem incremental_sequence (nested : Bool) (s : ParseState) :
    Incremental Used (Behind nested) (run (sequence nested)) s := by
  rw [run_sequence]
  refine (Incremental.skip s).bind ?_ ?_ rfl
  · intro _ s' skipped
    have := left_of_skip skipped
    exact incremental_sequenceRest nested s'
  · intro _ s' used
    apply (completes_sequenceRest used nested).imp
    intro next ends
    exact ends.closing.unterminated
termination_by 4 * s.left + 3

theorem incremental_sequenceRest (nested : Bool) (s : ParseState) :
    Incremental Used (Behind nested) (sequenceRest nested) s := by
  cases front : s.queue with
  | nil =>
    exact .of_empty rfl front (disciplined_sequenceRest front nested)
      (completes_sequenceRest front nested).anyhow
  | cons t rest =>
    apply Incremental.look_cons front
    dsimp only
    split
    · refine (Incremental.take rfl (Token.plain_mark '\x7b') _ s).bind ?_ ?_ rfl
      · intro _ s₁ taken
        have := left_of_take taken
        refine (incremental_sequence true s₁).bind ?_ ?_ rfl
        · intro inner s₂ parsed
          have := left_of_run parsed
          exact (incremental_sequence nested s₂).bind_pure _
        · intro inner s₂ used
          exact completes_nextStatements used nested inner
      · intro _ s₁ used
        have spent : Spent s₁.queue := used ▸ spent_nil
        exact ((completes_sequence spent true).bind fun inner s₂ used' =>
          completes_nextStatements used' nested inner).anyhow
    · split
      · split
        · exact ((Incremental.take rfl (Token.plain_mark '\x7d') _ s).bind_pure fun _ => []).narrow
            fun _ _ => trivial
        · exact .refuse front _
      · refine (incremental_statement front).bind_of_pending ?_ ?_ ?_
        · intro stmt s' parsed
          have := left_of_run parsed
          exact incremental_sequenceBehind nested stmt s'
        · intro stmt s' _ spent
          exact pending_sequenceBehind spent nested stmt
        · intro stmt s' spent
          exact (completes_sequenceBehind spent nested stmt).imp fun _ ends => ends.closing
termination_by 4 * s.left + 2

theorem incremental_sequenceBehind (nested : Bool) (stmt : Stmt) (s : ParseState) :
    Incremental Used (Behind nested) (sequenceBehind nested stmt) s := by
  have restart {s : ParseState} (used : s.queue = []) :
      Completes Ending Used (Behind nested)
        (run (sequence nested) >>= fun rest => pure (stmt :: rest)) s :=
    (completes_sequence (used ▸ spent_nil) nested).bind_pure _
  have remembers : Incremental Used Anything (record stmt) s := .record stmt s
  refine remembers.bind ?_ ?_ rfl
  · intro _ s₁ recorded
    have : s₁.left = s.left := by cases recorded; rfl
    refine (incremental_statementEnd s₁).bind ?_ (fun _ _ => restart) rfl
    intro _ s₂ ended
    have := left_of_run ended
    exact (incremental_sequence nested s₂).bind_pure _
  · intro _ s₁ used
    have ended := (incremental_statementEnd s₁).restart used rfl
    exact ended.bind fun _ _ => restart
termination_by 4 * s.left + 4

theorem incremental_statement {s : ParseState} {t : Token} {rest : List Token}
    (front : s.queue = t :: rest) : Incremental Spent Closing (run statement) s := by
  rw [run_statement]
  apply Incremental.look_cons front
  rw [Option.bind_some]
  cases StatementForm.ofToken? t with
  | none => exact .refuse front _
  | some form =>
    cases form with
    | function => exact (incremental_functionDecl s).spent.narrow fun _ _ => trivial
    | untypedVariable => exact (incremental_variableDecl s).spent
    | typedVariable => exact (incremental_typedVariableDecl s).spent
    | conditional => exact incremental_conditional s
    | ret => exact (incremental_returnStatement s).spent
    | expression => exact (incremental_expressionStatement front).spent
termination_by 4 * s.left + 1

theorem incremental_functionDecl (s : ParseState) :
    Incremental Used Anything (run functionDecl) s := by
  rw [run_functionDecl]
  refine (incremental_functionHeader s).bind ?_ ?_ rfl
  · intro header s' parsed
    have := left_of_run parsed
    exact (incremental_body s').bind_pure _
  · intro header s' used
    exact ((completes_body used).bind_pure _).imp (Unless.of_mark (by decide))
termination_by 4 * s.left

theorem incremental_body (s : ParseState) : Incremental Used Anything (run body) s := by
  rw [run_body]
  refine (Incremental.skip s).bind ?_ ?_ rfl
  · intro _ s' skipped
    have := left_of_skip skipped
    refine (Incremental.take accepts_open (Token.plain_mark _) _ s').bind ?_ ?_ rfl
    · intro _ s'' taken
      have := left_of_take taken
      exact (incremental_sequence true s'').narrow fun _ _ => behind_nested _
    · intro _ s'' used
      have spent : Spent s''.queue := used ▸ spent_nil
      have closed := completes_sequence spent true
      exact (closed.relax (fun _ => id) fun _ _ => behind_nested _).anyhow
  · intro _ s' used
    exact (completes_scope used).imp unterminated_mark
termination_by 4 * s.left

theorem incremental_guarded {α : Type} (branches : Expr → List Stmt → List Branch → α)
    (s : ParseState) : Incremental Spent Closing (guarded branches) s := by
  refine (incremental_expression _ s).bind ?_ ?_ spent_nil
  · intro condition s₁ parsed
    have := left_of_run parsed
    refine (incremental_body s₁).bind ?_ ?_ spent_nil
    · intro block s₂ parsed'
      have := left_of_run parsed'
      exact (incremental_elseBranches s₂).bind_pure _
    · intro block s₂ used
      exact (completes_elseBranches used).bind_pure _
  · intro condition s₁ used
    exact completes_behindCondition used _
termination_by 4 * s.left

theorem incremental_conditional (s : ParseState) :
    Incremental Spent Closing (run conditional) s := by
  have accepted : passing (·.is .keyword "if") ⟨.keyword, "if", .start⟩ =
    some ⟨.keyword, "if", .start⟩ := by decide
  rw [run_conditional]
  refine (Incremental.take accepted ⟨by decide, by decide⟩ _ s).bind ?_ ?_ spent_nil
  · intro keyword s' taken
    have := left_of_take taken
    exact incremental_guarded _ s'
  · intro keyword s' used
    exact completes_guarded used _
termination_by 4 * s.left

theorem incremental_behindElse (keyword : Token) (s : ParseState) :
    Incremental Spent Closing (behindElse keyword) s := by
  have block : Incremental Spent Closing (run body >>= fun block => pure
      [(⟨.conditionalElse, keyword.position, none, block⟩ : Branch)]) s :=
    ((incremental_body s).bind_pure _).spent.narrow fun _ _ => trivial
  refine Incremental.look spent_nil block.disciplined ?_ fun t rest front => ?_
  · intro empty
    exact (completes_behindElse empty keyword).anyhow
  · rw [Option.any_some]
    split
    · refine (Incremental.take rfl (Token.plain_mark ',') _ s).bind ?_ ?_ spent_nil
      · intro _ s' taken
        have := left_of_take taken
        exact incremental_guarded _ s'
      · intro _ s' used
        exact completes_guarded used _
    · exact block
termination_by 4 * s.left + 1

theorem incremental_elseBranches (s : ParseState) :
    Incremental Spent Closing (run elseBranches) s := by
  have skips : s.skipTerminators.left ≤ s.left := s.reaches_skipTerminators.suffix.length_le
  rw [run_elseBranches]
  apply Incremental.lookPast [] lookPast_follows
  intro seen
  refine (Incremental.take rfl (Token.plain_mark ',') _ s.skipTerminators).bind ?_ ?_ spent_nil
  · intro keyword s₁ taken
    have := left_of_take taken
    refine (Incremental.skip s₁).bind ?_ ?_ spent_nil
    · intro _ s₂ skipped
      have := left_of_skip skipped
      exact incremental_behindElse keyword s₂
    · intro _ s₂ used
      exact completes_behindElse used keyword
  · intro keyword s₁ used
    have spent : Spent s₁.queue := used ▸ spent_nil
    have skipped : Completes Unterminated Used Unterminated (run skip) s₁ :=
      .skip spent.skipped fun _ => id
    exact (skipped.bind fun _ s₂ used' => completes_behindElse used' keyword).anyhow
termination_by 4 * s.left

end

end RatLang.Parser
