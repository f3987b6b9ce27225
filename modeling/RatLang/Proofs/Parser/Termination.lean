import RatLang.Proofs.Parser.Course

/-!
# Parsers come to an end

Whatever tokens a parser is given, lawful ones or not, it gets ahead with them and comes to an end.
A run is followed here move by move and call by call, so that a run without an end would have no
account of it. Two facts carry the proof. Every function that parses an expression, a statement or a
scope takes a token when it succeeds. And before it has taken one, a function calls only functions
of a lower rank. A terminator that is put back does no harm, since nothing is called behind it.
-/

namespace RatLang.Parser

/-! ### What a success takes -/

/-- Does the function take a token whenever it succeeds? -/
def Call.takes : {α : Type} → Call α → Bool
  | _, .skip | _, .terminators _ | _, .climb _ _ | _, .returnType | _, .initializer
  | _, .declaredType | _, .statementEnd | _, .sequence false | _, .elseBranches => false
  | _, _ => true

theorem Call.left_le {α : Type} (c : Call α) {s s' : ParseState} {a : α}
    (h : c.action s = .ok a s') : s'.left ≤ s.left :=
  ((c.disciplined s).reaches_of_ok h).suffix.length_le

theorem left_of_requiredInitializer {s s' : ParseState} {value : Option Expr}
    (h : run requiredInitializer s = .ok value s') : s'.left < s.left := by
  rw [run_requiredInitializer] at h
  obtain ⟨equals, s₁, taken, h⟩ := ok_of_bind h
  obtain ⟨e, s₂, parsed, h⟩ := ok_of_bind h
  cases h
  exact Nat.lt_trans (left_of_run parsed) (left_of_take taken)

theorem left_of_sequenceRest {nested : Bool} {s s' : ParseState} {p : List Stmt}
    (h : sequenceRest nested s = .ok p s') :
    s'.left < s.left ∨ nested = false ∧ s.queue = [] ∧ s' = s := by
  cases front : s.queue with
  | nil =>
    rw [sequenceRest, look_nil front] at h
    cases nested with
    | true =>
      simp only [if_true, refuse, front] at h
      cases h
    | false =>
      cases h
      exact .inr ⟨rfl, rfl, rfl⟩
  | cons t rest =>
    left
    rw [sequenceRest, look_cons front] at h
    dsimp only at h
    split_ifs at h with opens closes
    · obtain ⟨_, s₁, taken, h⟩ := ok_of_bind h
      obtain ⟨inner, s₂, block, h⟩ := ok_of_bind h
      obtain ⟨more, s₃, behind, h⟩ := ok_of_bind h
      cases h
      have first := left_of_take taken
      have second := (Call.sequence true).left_le block
      have third := (Call.sequence nested).left_le behind
      omega
    · obtain ⟨_, s₁, taken, h⟩ := ok_of_bind h
      cases h
      exact left_of_take taken
    · simp only [refuse, front] at h
      cases h
    · obtain ⟨stmt, s₁, parsed, h⟩ := ok_of_bind h
      obtain ⟨_, s₂, recorded, h⟩ := ok_of_bind h
      obtain ⟨_, s₃, ended, h⟩ := ok_of_bind h
      obtain ⟨more, s₄, behind, h⟩ := ok_of_bind h
      cases h
      cases recorded
      have first : s₁.left < s.left := left_of_run parsed
      have second : s₃.left ≤ (s₁.complete stmt).left := Call.statementEnd.left_le ended
      have third := (Call.sequence nested).left_le behind
      rw [ParseState.left_complete] at second
      omega

/-- The statements of a scope take a token, but for those of an outermost scope at the end of the
input. -/
theorem left_of_sequence {nested : Bool} {s s' : ParseState} {p : List Stmt}
    (h : run (sequence nested) s = .ok p s') :
    s'.left < s.left ∨ nested = false ∧ s.queue = [] := by
  rw [run_sequence] at h
  obtain ⟨_, s₁, skipped, h⟩ := ok_of_bind h
  have fewer := left_of_skip skipped
  rcases left_of_sequenceRest h with less | ⟨outermost, empty, rfl⟩
  · exact .inl (Nat.lt_of_lt_of_le less fewer)
  · cases front : s.queue with
    | nil => exact .inr ⟨outermost, rfl⟩
    | cons t rest =>
      left
      simp [ParseState.left, empty, front]

theorem Call.left_lt {α : Type} (c : Call α) (takes : c.takes) {s s' : ParseState} {a : α}
    (h : c.action s = .ok a s') : s'.left < s.left := by
  cases c with
  | skip | terminators | climb | returnType | initializer | declaredType | statementEnd
  | elseBranches => cases takes
  | requiredInitializer => exact left_of_requiredInitializer h
  | sequence nested =>
    cases nested with
    | false => cases takes
    | true =>
      rcases left_of_sequence h with less | ⟨outermost, -⟩
      · exact less
      · cases outermost
  | expression | operation | operand | callArguments | arguments | parameterNames | parameters
  | functionHeader | variableDecl | typedVariableDecl | returnStatement | expressionStatement
  | statement | functionDecl | body | conditional => exact left_of_run h

/-! ### What is called before a token is taken -/

/-- The rank of a function among those that call each other without taking a token. -/
def Call.rank : {α : Type} → Call α → Nat
  | _, .sequence _ => 4
  | _, .statement => 3
  | _, .functionDecl | _, .expressionStatement | _, .arguments => 2
  | _, .body | _, .expression _ | _, .climb _ _ | _, .elseBranches => 1
  | _, _ => 0

theorem Call.rank_le {α : Type} (c : Call α) : c.rank ≤ 4 := by
  cases c <;> simp [rank]

/-- A program that calls functions of a lower rank only, as long as it has not taken a token. What
it puts back was taken from the queue that is given, and it ends there. -/
def Program.Orderly {α : Type} (q : List Token) (rank : Nat) :
    Program α → Bool → ParseState → Prop
  | .done _, _, _ | .fail _, _, _ => True
  | .look next, taken, s => (next s).Orderly q rank taken s
  | .pop _ next, _, s =>
    ∀ t rest, s.queue = t :: rest → (next t).Orderly q rank true (s.took t rest)
  | .restore t next, _, s => (s.restore t).queue <:+ q ∧ ∃ value, next = .done value
  | .record stmt next, taken, s => next.Orderly q rank taken (s.complete stmt)
  | .symbol _ _ next, taken, s => ∀ symbol, (next symbol).Orderly q rank taken s
  | .call callee next, taken, s =>
    (taken ∨ callee.rank < rank) ∧ ∀ b s', callee.action s = .ok b s' →
      (next b).Orderly q rank (taken || callee.takes) s'

namespace Program.Orderly

variable {α : Type} {q : List Token} {rank : Nat} {taken : Bool} {s : ParseState}

theorem popIf {test : Token → Bool} {expected : String} {next : Token → Program α}
    (h : ∀ t rest, s.queue = t :: rest → (next t).Orderly q rank true (s.took t rest)) :
    (Program.popIf test expected next).Orderly q rank taken s := by
  intro t rest front
  show (if test t then next t else _ : Program α).Orderly q rank true _
  split
  · exact h t rest front
  · trivial

theorem popSymbol {test : Token → Bool} {expected : String} {next : Token → Symbol → Program α}
    (h : ∀ t rest symbol, s.queue = t :: rest →
      (next t symbol).Orderly q rank true (s.took t rest)) :
    (Program.popSymbol test expected next).Orderly q rank taken s :=
  popIf fun t rest front symbol => h t rest symbol front

theorem expectType {next : Symbol → Program α}
    (h : ∀ t rest symbol, s.queue = t :: rest →
      (next symbol).Orderly q rank true (s.took t rest)) :
    (Program.expectType next).Orderly q rank taken s :=
  popSymbol h

theorem refuse (expected : String) :
    (Program.refuse expected : Program α).Orderly q rank taken s := by
  rw [Program.refuse, Program.Orderly]
  cases s.peek <;> trivial

/-- A call with nothing behind it. -/
theorem tail {callee : Call α} (lower : taken ∨ callee.rank < rank) :
    (Program.call callee .done).Orderly q rank taken s :=
  ⟨lower, fun _ _ _ => trivial⟩

end Program.Orderly

theorem orderly_operandRest {q : List Token} {rank : Nat} (token : Token) (s : ParseState) :
    (Program.operandRest token).Orderly q rank true s := by
  unfold Program.operandRest
  split
  case h_4 => split <;> trivial
  case h_5 =>
    show (if _ then _ else _ : Program Expr).Orderly q rank true s
    split
    · exact ⟨.inl rfl, fun _ _ _ => trivial⟩
    · trivial
  case h_6 =>
    split
    · exact ⟨.inl rfl, fun _ _ _ => .popIf fun _ _ _ => trivial⟩
    · trivial
  case h_7 =>
    split
    · exact fun symbol => ⟨.inl rfl, fun _ _ _ => trivial⟩
    · trivial
  all_goals trivial

/-- Behind a statement or a block a scope goes on with fewer tokens. -/
theorem orderly_sequenceRest {q : List Token} (nested : Bool) (s : ParseState) :
    (Program.sequenceRest nested s).Orderly q 4 false s := by
  unfold Program.sequenceRest
  split
  · split <;> trivial
  · split
    · exact fun _ _ _ => ⟨.inl rfl, fun _ _ _ => ⟨.inl rfl, fun _ _ _ => trivial⟩⟩
    · split
      · split
        · exact fun _ _ _ => trivial
        · trivial
      · refine ⟨.inr (by decide), fun stmt s₁ parsed => ?_⟩
        exact ⟨.inl rfl, fun _ _ _ => ⟨.inl rfl, fun _ _ _ => trivial⟩⟩

theorem orderly_elseBranch {q : List Token} {rank : Nat} (s : ParseState) :
    Program.elseBranch.Orderly q rank false s := by
  intro keyword rest front
  refine ⟨.inl rfl, fun _ s₁ skipped => ?_⟩
  show (if s₁.isAt .keyword "if" then _ else _ : Program (List Branch)).Orderly q rank true s₁
  split
  · intro t rest' front'
    refine ⟨.inl rfl, fun condition s₂ parsed => ⟨.inl rfl, fun block s₃ parsed' => ?_⟩⟩
    exact ⟨.inl rfl, fun _ _ _ => trivial⟩
  · exact ⟨.inl rfl, fun _ _ _ => trivial⟩

/-- Every function is orderly, wherever it is called. -/
theorem Call.orderly {α : Type} (c : Call α) {q : List Token} {s : ParseState}
    (within : s.queue <:+ q) : c.program.Orderly q c.rank false s := by
  cases c with
  | skip =>
    show (if s.isAtTerminator then _ else _ : Program Unit).Orderly q _ _ s
    split
    · exact fun _ _ _ => .tail (.inl rfl)
    · trivial
  | terminators last =>
    show (if s.isAtTerminator then _ else _ : Program (Option Token)).Orderly q _ _ s
    split
    · exact fun _ _ _ => .tail (.inl rfl)
    · trivial
  | expression minimum => exact ⟨.inr (Nat.succ_pos 0), fun _ _ _ => .tail (.inl rfl)⟩
  | climb minimum lhs =>
    rw [Call.program, Program.Orderly]
    cases s.peek.bind Token.bindingPower? with
    | none => trivial
    | some power =>
      dsimp only
      split
      · trivial
      · exact ⟨.inr (Nat.succ_pos 0), fun _ _ _ => .tail (.inl rfl)⟩
  | operation power lhs =>
    exact .popSymbol fun _ _ _ _ => ⟨.inl rfl, fun _ _ _ => trivial⟩
  | operand => exact fun t rest front => orderly_operandRest t _
  | callArguments =>
    intro t rest front
    show (if (s.took t rest).isAtPunct ')' then _ else _ : Program (List Expr)).Orderly q _ _ _
    split
    · exact fun _ _ _ => trivial
    · exact .tail (.inl rfl)
  | arguments =>
    refine ⟨.inr (by decide), fun arg s₁ parsed t rest front => ?_⟩
    show (if t.isPunct ')' then _ else if t.isPunct ',' then _ else _ :
      Program (List Expr)).Orderly q _ _ _
    split
    · trivial
    · split
      · exact ⟨.inl rfl, fun _ _ _ => trivial⟩
      · trivial
  | parameterNames =>
    refine .popIf fun t rest front => ?_
    show (if (s.took t rest).isAtPunct ',' then _ else _ :
      Program (List Identifier)).Orderly q _ _ _
    split
    · exact fun _ _ _ => ⟨.inl rfl, fun _ _ _ => trivial⟩
    · trivial
  | parameters =>
    refine .popIf fun t rest front => ?_
    show (if (s.took t rest).isAtPunct ')' then _ else _ :
      Program (List Identifier)).Orderly q _ _ _
    split
    · exact .popIf fun _ _ _ => trivial
    · exact ⟨.inl rfl, fun _ _ _ => .popIf fun _ _ _ => trivial⟩
  | returnType =>
    show (if s.isAt .operator "->" then _ else _ : Program Symbol).Orderly q _ _ s
    split
    · exact fun _ _ _ => .expectType fun _ _ _ _ => trivial
    · trivial
  | functionHeader =>
    refine .popSymbol fun _ _ _ _ => .popIf fun _ _ _ => ⟨.inl rfl, fun _ _ _ => ?_⟩
    exact ⟨.inl rfl, fun _ _ _ => trivial⟩
  | initializer =>
    show (if s.isAt .operator "=" then _ else _ : Program (Option Expr)).Orderly q _ _ s
    split
    · exact fun _ _ _ => ⟨.inl rfl, fun _ _ _ => trivial⟩
    · trivial
  | requiredInitializer => exact .popIf fun _ _ _ => ⟨.inl rfl, fun _ _ _ => trivial⟩
  | declaredType =>
    show (if s.isAtPunct ':' then _ else _ : Program (Option Symbol)).Orderly q _ _ s
    split
    · exact fun _ _ _ => .expectType fun _ _ _ _ => trivial
    · trivial
  | variableDecl =>
    refine .popSymbol fun _ _ _ _ => .popIf fun _ _ _ => ⟨.inl rfl, fun _ _ _ => ?_⟩
    exact ⟨.inl rfl, fun _ _ _ => trivial⟩
  | typedVariableDecl =>
    exact .popSymbol fun _ _ _ _ => .popIf fun _ _ _ => ⟨.inl rfl, fun _ _ _ => trivial⟩
  | returnStatement =>
    refine .popSymbol fun _ _ kind _ => ?_
    show (if kind = .functionReturn then _ else _ : Program Stmt).Orderly q _ _ _
    split
    · exact ⟨.inl rfl, fun _ _ _ => trivial⟩
    · trivial
  | expressionStatement => exact ⟨.inr (by decide), fun _ _ _ => trivial⟩
  | statementEnd =>
    show (if endsStatement s.peek then _ else _ : Program Unit).Orderly q _ _ s
    split
    · trivial
    · exact .refuse _
  | sequence nested =>
    exact ⟨.inr (Nat.succ_pos 3), fun _ s₁ _ => orderly_sequenceRest nested s₁⟩
  | statement =>
    rw [Call.program, Program.Orderly]
    cases s.peek.bind StatementForm.ofToken? with
    | none => exact .refuse _
    | some form => exact .tail (.inr (by cases form <;> decide))
  | functionDecl => exact ⟨.inr (by decide), fun _ _ _ => ⟨.inl rfl, fun _ _ _ => trivial⟩⟩
  | body =>
    exact ⟨.inr (by decide), fun _ _ _ => .popIf fun _ _ _ => .tail (.inl rfl)⟩
  | conditional =>
    refine .popIf fun _ _ _ => ⟨.inl rfl, fun _ _ _ => ⟨.inl rfl, fun _ _ _ => ?_⟩⟩
    exact ⟨.inl rfl, fun _ _ _ => trivial⟩
  | elseBranches =>
    refine ⟨.inr (by decide), fun last s₁ skipped => ?_⟩
    cases skipped
    show (if s.skipTerminators.isAt .keyword "else" then _ else _ :
      Program (List Branch)).Orderly q _ _ _
    split
    · exact orderly_elseBranch _
    · cases last : s.terminators.getLast? with
      | none => trivial
      | some terminator => exact ⟨(ParseState.suffix_restore last).trans within, [], rfl⟩

/-! ### Where a run is -/

/-- Whatever state the run of an orderly program is in, its queue is an end of the one given. -/
theorem Occurs.suffix {α : Type} {p : Program α} {s : ParseState} {e : Event} {q : List Token}
    {rank : Nat} {taken : Bool} (h : Occurs p s e) (orderly : p.Orderly q rank taken s)
    (within : s.queue <:+ q) : ∀ s', e = .at s' → s'.queue <:+ q := by
  induction h generalizing rank taken with
  | here p s =>
    rintro s' ⟨⟩
    exact within
  | look _ ih => exact ih orderly within
  | @pop _ _ _ s _ t rest front _ ih =>
    exact ih (orderly t rest front) ((front ▸ List.suffix_cons t rest).trans within)
  | restore behind ih =>
    obtain ⟨reached, value, rfl⟩ := orderly
    exact @ih rank taken trivial reached
  | record _ ih => exact ih orderly within
  | asked =>
    rintro s' ⟨⟩
  | symbol found _ ih => exact ih (orderly _) within
  | @inside _ _ callee _ s _ _ ih => exact ih (callee.orderly within) within
  | @failed _ _ callee _ s s' cause failure =>
    rintro s'' ⟨⟩
    exact ((callee.disciplined s).reaches_of_error failure).suffix.trans within
  | @behind _ _ callee _ s s' _ b success _ ih =>
    have reached := (callee.disciplined s).reaches_of_ok success
    exact ih (orderly.2 b s' success) (reached.suffix.trans within)

/-! ### Runs that end -/

/-- The run of a program from a state ends with an outcome: a finite account of the moves that it
makes and of those that the functions make which it calls. -/
inductive Halts : {α : Type} → Program α → ParseState →
    EStateM.Result ParseError ParseState α → Prop where
  | done {α : Type} (value : α) (s : ParseState) : Halts (.done value) s (.ok value s)
  | fail {α : Type} (cause : ParseError) (s : ParseState) :
      Halts (.fail cause : Program α) s (.error cause s)
  | look {α : Type} {next : ParseState → Program α} {s : ParseState}
      {r : EStateM.Result ParseError ParseState α} :
      Halts (next s) s r → Halts (.look next) s r
  | pop {α : Type} {expected : String} {next : Token → Program α} {s : ParseState} {t : Token}
      {rest : List Token} {r : EStateM.Result ParseError ParseState α}
      (front : s.queue = t :: rest) :
      Halts (next t) (s.took t rest) r → Halts (.pop expected next) s r
  | outOfTokens {α : Type} {expected : String} {next : Token → Program α} {s : ParseState}
      (empty : s.queue = []) :
      Halts (.pop expected next) s (.error (.outOfTokens expected s.lastPosition) s)
  | restore {α : Type} {t : Token} {next : Program α} {s : ParseState}
      {r : EStateM.Result ParseError ParseState α} :
      Halts next (s.restore t) r → Halts (.restore t next) s r
  | record {α : Type} {stmt : Stmt} {next : Program α} {s : ParseState}
      {r : EStateM.Result ParseError ParseState α} :
      Halts next (s.complete stmt) r → Halts (.record stmt next) s r
  | symbol {α : Type} {t : Token} {expected : String} {next : Symbol → Program α} {s : ParseState}
      {symbol : Symbol} {r : EStateM.Result ParseError ParseState α}
      (found : Symbol.ofLexeme? t.lexeme = some symbol) :
      Halts (next symbol) s r → Halts (.symbol t expected next) s r
  | unknown {α : Type} {t : Token} {expected : String} {next : Symbol → Program α} {s : ParseState}
      (none_found : Symbol.ofLexeme? t.lexeme = none) :
      Halts (.symbol t expected next) s (.error (.unexpected t expected) s)
  | failed {α β : Type} {callee : Call β} {next : β → Program α} {s s' : ParseState}
      {cause : ParseError} :
      Halts callee.program s (.error cause s') → Halts (.call callee next) s (.error cause s')
  | behind {α β : Type} {callee : Call β} {next : β → Program α} {s s' : ParseState} {b : β}
      {r : EStateM.Result ParseError ParseState α} :
      Halts callee.program s (.ok b s') → Halts (next b) s' r → Halts (.call callee next) s r

/-- An orderly program halts if the functions do that have fewer tokens before them, or as many and
a lower rank. -/
theorem Program.Orderly.halts {q : List Token} {rank left : Nat}
    (below : ∀ {β : Type} (c : Call β) (s : ParseState),
      5 * s.left + c.rank < 5 * left + rank → Halts c.program s (c.action s))
    {α : Type} {p : Program α} {taken : Bool} {s : ParseState} (orderly : p.Orderly q rank taken s)
    (fewer : s.left ≤ left) (behind : taken → s.left < left) : Halts p s (p.action s) := by
  induction p generalizing taken s with
  | done value => exact .done value s
  | fail cause => exact .fail cause s
  | look next ih => exact .look (ih s orderly fewer behind)
  | pop expected next ih =>
    rw [action_pop]
    cases front : s.queue with
    | nil =>
      rw [bind_of_error (take_nil front)]
      exact .outOfTokens front
    | cons t rest =>
      have less := Nat.lt_of_lt_of_le (left_took front) fewer
      rw [bind_of_ok (take_accepts front rfl)]
      exact .pop front (ih t (orderly t rest front) (Nat.le_of_lt less) fun _ => less)
  | restore t next ih =>
    obtain ⟨-, value, rfl⟩ := orderly
    exact .restore (.done value _)
  | record stmt next ih => exact .record (ih orderly fewer behind)
  | symbol token expected next ih =>
    cases found : Symbol.ofLexeme? token.lexeme with
    | none =>
      rw [action, found]
      exact .unknown found
    | some symbol =>
      rw [action, found]
      exact .symbol found (ih symbol (orderly symbol) fewer behind)
  | call callee next ih =>
    obtain ⟨lower, next_orderly⟩ := orderly
    have bounded := callee.rank_le
    -- Behind a token that was taken, any rank will do: no rank is as large as five.
    have called : Halts callee.program s (callee.action s) := by
      apply below
      rcases lower with first | lower
      · have less := behind first
        omega
      · omega
    rw [action_call]
    cases result : callee.action s with
    | error cause s' =>
      rw [result] at called
      rw [bind_of_error result]
      exact .failed called
    | ok b s' =>
      rw [result] at called
      rw [bind_of_ok result]
      have kept := callee.left_le result
      refine .behind called (ih b (next_orderly b s' result) (Nat.le_trans kept fewer) ?_)
      intro first
      rcases Bool.or_eq_true _ _ ▸ first with before | takes
      · exact Nat.lt_of_le_of_lt kept (behind before)
      · exact Nat.lt_of_lt_of_le (callee.left_lt takes result) fewer

/-- Every function halts in every state, with the outcome that it gives. -/
theorem Call.halts {α : Type} (c : Call α) (s : ParseState) : Halts c.program s (c.action s) := by
  -- The tokens that are left weigh more than the ranks, so one measure serves for both.
  rw [← action_program c]
  refine (c.orderly List.suffix_rfl).halts ?_ (Nat.le_refl s.left) (by simp)
  intro β c' s' lower
  exact c'.halts s'
termination_by 5 * s.left + c.rank

/-! ### Progress -/

/-- A call that gets ahead. It comes to an end. Wherever its run is and wherever it ends, the queue
is an end of the queue that it began with. When it succeeds it has taken a token, unless there is
nothing to do for it. -/
structure Advances {α : Type} (c : Call α) (s : ParseState) (idle : Prop) : Prop where
  halts : Halts c.program s (c.action s)
  passes : ∀ s', Occurs c.program s (.at s') → s'.queue <:+ s.queue
  fails : ∀ cause s', c.action s = .error cause s' → s'.queue <:+ s.queue
  succeeds : ∀ a s', c.action s = .ok a s' →
    s'.queue <:+ s.queue ∧ (idle ∨ s'.queue.length < s.queue.length)

theorem Call.advances {α : Type} (c : Call α) (s : ParseState) (idle : Prop)
    (takes : ∀ a s', c.action s = .ok a s' → idle ∨ s'.left < s.left) : Advances c s idle where
  halts := c.halts s
  passes s' occurs := occurs.suffix (c.orderly List.suffix_rfl) List.suffix_rfl s' rfl
  fails _ _ failure := ((c.disciplined s).reaches_of_error failure).suffix
  succeeds a s' success := ⟨((c.disciplined s).reaches_of_ok success).suffix, takes a s' success⟩

theorem Call.advances_of_takes {α : Type} (c : Call α) (s : ParseState) (takes : c.takes) :
    Advances c s False :=
  c.advances s False fun _ _ success => .inr (c.left_lt takes success)

/-- Parsers of expressions, statements and scopes get ahead in every state: they end, they leave an
end of the queue, and they take a token when they succeed. Only an outermost scope may be empty. So
every list of tokens is parsed to an end, also one that no text has. -/
theorem parsers_advance :
    (∀ (s : ParseState) (minimum : Nat), Advances (.expression minimum) s False) ∧
    (∀ s : ParseState, Advances .operand s False) ∧
    (∀ s : ParseState, Advances .statement s False) ∧
    (∀ (s : ParseState) (form : StatementForm), Advances (.ofForm form) s False) ∧
    (∀ s : ParseState, Advances .body s False) ∧
    (∀ (s : ParseState) (nested : Bool),
      Advances (.sequence nested) s (nested = false ∧ s.queue = [])) ∧
    ∀ tokens : List Token, ∃ r, Halts (.call (.sequence false) .done) (.ofTokens tokens) r ∧
      parse tokens = verdict r := by
  refine ⟨fun s minimum => ?expression, fun s => ?operand, fun s => ?statement,
    fun s form => ?form, fun s => ?body, fun s nested => ?sequence, fun tokens => ?whole⟩
  case expression => exact Call.advances_of_takes _ s rfl
  case operand => exact Call.advances_of_takes _ s rfl
  case statement => exact Call.advances_of_takes _ s rfl
  case form => exact Call.advances_of_takes _ s (by cases form <;> rfl)
  case body => exact Call.advances_of_takes _ s rfl
  case sequence =>
    apply Call.advances
    intro p s' success
    exact (left_of_sequence success).symm
  case whole =>
    refine ⟨run (sequence false) (.ofTokens tokens), ?_, parse_eq tokens⟩
    have halts := (Call.sequence false).halts (.ofTokens tokens)
    cases result : (Call.sequence false).action (.ofTokens tokens) with
    | error cause s =>
      rw [result] at halts
      rw [show run (sequence false) (.ofTokens tokens) = .error cause s from result]
      exact .failed halts
    | ok p s =>
      rw [result] at halts
      rw [show run (sequence false) (.ofTokens tokens) = .ok p s from result]
      exact .behind halts (.done p s)

end RatLang.Parser
