import RatLang.Parser

/-!
# Parsers as actions

The bound in the type of a step makes the parsing functions terminate, and it is in the way of
every statement that compares two runs. Here each function is run without its bound, as an action
on the state, and is written as a program of a few moves: to take a token, to refuse the next one,
to look at it, to skip terminators, and to look past them. What is shown for the moves and for the
composition of two actions then holds of every parser.
-/

namespace RatLang

theorem Step.outcome_injective {α : Type} {n : Nat} {x y : Step n α} (h : x.outcome = y.outcome) :
    x = y := by
  cases x <;> cases y <;> simp_all [Step.outcome]

namespace Parser

/-- What a parser does to a state: a value or an error, and the state that it reaches. -/
abbrev Action (α : Type) := EStateM ParseError ParseState α

variable {α β : Type}

/-- The action of a parser, which forgets the bound on what is left. -/
def run {bound : ParseState → Nat} (parser : (state : ParseState) → Step (bound state) α) :
    Action α :=
  fun state => (parser state).outcome

/-- Takes the next token, which has to be accepted. One that is not is taken all the same. -/
def take (accept : Token → Option α) (expected : String) : Action α := fun state =>
  match state.queue with
  | [] => .error (.outOfTokens expected state.lastPosition) state
  | token :: rest =>
    match accept token with
    | some value => .ok value (state.took token rest)
    | none => .error (.unexpected token expected) (state.took token rest)

/-- Fails on the next token, or on the end of the input, and takes nothing. -/
def refuse (expected : String) : Action α := fun state =>
  match state.queue with
  | [] => .error (.outOfTokens expected state.lastPosition) state
  | token :: _ => .error (.unexpected token expected) state

/-- Goes on as the next token says. -/
def look (next : Option Token → Action α) : Action α := fun state => next state.peek state

/-- The position of the next token; at the end of the input, that of the last one. -/
def here : Action Position := fun state =>
  .ok ((state.peek.map Token.position).getD state.lastPosition) state

/-- Remembers a statement. -/
def record (stmt : Stmt) : Action Unit := fun state => .ok () (state.complete stmt)

/-- Looks at the token behind the terminators. If it is the one that is looked for, the terminators
are taken and the action goes on there; otherwise the last of them stays. -/
def lookPast (found : Token → Bool) (inside : Action α) (otherwise : α) : Action α := fun state =>
  if state.skipTerminators.peek.any found then inside state.skipTerminators
  else .ok otherwise state.skipToLastTerminator

/-! ### Composition -/

theorem bind_of_ok {x : Action α} {f : α → Action β} {s s' : ParseState} {a : α}
    (h : x s = .ok a s') : (x >>= f) s = f a s' := by
  simp only [bind, EStateM.bind, h]

theorem bind_of_error {x : Action α} {f : α → Action β} {s s' : ParseState} {cause : ParseError}
    (h : x s = .error cause s') : (x >>= f) s = .error cause s' := by
  simp only [bind, EStateM.bind, h]

/-- Two actions succeed one after the other only if each of them does. -/
theorem ok_of_bind {x : Action α} {f : α → Action β} {s s'' : ParseState} {b : β}
    (h : (x >>= f) s = .ok b s'') : ∃ a s', x s = .ok a s' ∧ f a s' = .ok b s'' := by
  cases eq : x s with
  | ok a s' => exact ⟨a, s', rfl, bind_of_ok (f := f) eq ▸ h⟩
  | error cause s' => rw [bind_of_error eq] at h; cases h

theorem bind_congr_at {x y : Action α} {f g : α → Action β} {s : ParseState} (same : x s = y s)
    (next : ∀ a s', x s = .ok a s' → f a s' = g a s') : (x >>= f) s = (y >>= g) s := by
  cases eq : x s with
  | ok a s' => rw [bind_of_ok eq, bind_of_ok (same ▸ eq), next a s' eq]
  | error cause s' => rw [bind_of_error eq, bind_of_error (same ▸ eq)]

/-- A step that is followed by another one, as an action. -/
theorem outcome_bind {m n : Nat} {step : Step m α} {x : Action α} {f : α → Action β}
    {state : ParseState}
    {next : (value : α) → (after : ParseState) → after.left < m → Step n β}
    (first : step.outcome = x state)
    (rest : ∀ value after taken, (next value after taken).outcome = f value after) :
    (step.bind next).outcome = (x >>= f) state := by
  simp only [bind, EStateM.bind, ← first]
  cases step with
  | ok value after taken => exact rest value after taken
  | error cause after => rfl

/-- A parser that is followed by another step, as an action. -/
theorem outcome_then {bound : ParseState → Nat} {n : Nat}
    {parser : (state : ParseState) → Step (bound state) α} {f : α → Action β} {state : ParseState}
    {next : (value : α) → (after : ParseState) → after.left < bound state → Step n β}
    (rest : ∀ value after taken, (next value after taken).outcome = f value after) :
    ((parser state).bind next).outcome = (run parser >>= f) state :=
  outcome_bind rfl rest

/-- A step that depends on the next token, as an action. -/
theorem outcome_look {n : Nat} {state : ParseState} {test : Option Token → Bool}
    {yes no : Step n α} {x y : Action α} (passed : yes.outcome = x state)
    (failed : no.outcome = y state) :
    (if test state.peek then yes else no).outcome =
      look (fun next => if test next then x else y) state := by
  simp only [look]
  split
  · exact passed
  · exact failed

/-- A parser that succeeds keeps to its bound. -/
theorem left_of_run {bound : ParseState → Nat}
    {parser : (state : ParseState) → Step (bound state) α} {a : α} {s s' : ParseState}
    (h : run parser s = .ok a s') : s'.left < bound s := by
  unfold run at h
  cases eq : parser s with
  | ok value state within => rw [eq] at h; cases h; exact within
  | error cause state => rw [eq] at h; cases h

/-! ### The moves on a queue -/

theorem take_nil {accept : Token → Option α} {expected : String} {s : ParseState}
    (empty : s.queue = []) :
    take accept expected s = .error (.outOfTokens expected s.lastPosition) s := by
  simp only [take, empty]

theorem take_cons {accept : Token → Option α} {expected : String} {s : ParseState} {t : Token}
    {rest : List Token} (front : s.queue = t :: rest) :
    take accept expected s =
      match accept t with
      | some value => .ok value (s.took t rest)
      | none => .error (.unexpected t expected) (s.took t rest) := by
  simp only [take, front]

theorem take_accepts {accept : Token → Option α} {expected : String} {s : ParseState} {t : Token}
    {rest : List Token} {a : α} (front : s.queue = t :: rest) (accepted : accept t = some a) :
    take accept expected s = .ok a (s.took t rest) := by
  rw [take_cons front, accepted]

theorem look_nil {next : Option Token → Action α} {s : ParseState} (empty : s.queue = []) :
    look next s = next none s := by
  simp only [look, ParseState.peek, empty, List.head?_nil]

theorem look_cons {next : Option Token → Action α} {s : ParseState} {t : Token}
    {rest : List Token} (front : s.queue = t :: rest) : look next s = next (some t) s := by
  simp only [look, ParseState.peek, front, List.head?_cons]

theorem left_took {s : ParseState} {t : Token} {rest : List Token} (front : s.queue = t :: rest) :
    (s.took t rest).left < s.left := by
  simp [ParseState.left, ParseState.took, front]

theorem left_of_take {accept : Token → Option α} {expected : String} {a : α} {s s' : ParseState}
    (h : take accept expected s = .ok a s') : s'.left < s.left := by
  cases front : s.queue with
  | nil => rw [take_nil front] at h; cases h
  | cons t rest =>
    rw [take_cons front] at h
    split at h <;> cases h
    exact left_took front

/-- Skipping never adds a token. -/
theorem left_of_skip {u : Unit} {s s' : ParseState} (h : run skip s = .ok u s') :
    s'.left ≤ s.left :=
  Nat.le_of_lt_succ (left_of_run h)

/-! ### Taking tokens -/

/-- Accepts the tokens that pass a test. -/
def passing (test : Token → Bool) (token : Token) : Option Token :=
  if test token then some token else none

/-- Accepts the tokens that pass a test and spell a symbol. -/
def spelling (test : Token → Bool) (token : Token) : Option (Token × Symbol) :=
  if test token then (Symbol.ofLexeme? token.lexeme).map (token, ·) else none

theorem run_pop (expected : String) : run (pop expected) = take some expected := by
  funext state
  simp only [run, pop, take]
  split <;> simp_all [Step.outcome]

/-- The value that a taken token stands for; without one the token is refused. -/
def given (token : Token) (expected : String) : Option α → Action α
  | some value => pure value
  | none => throw (.unexpected token expected)

/-- A token that was accepted may still be refused for what it is. -/
theorem take_bind_given (accept : Token → Option Token) (refine : Token → Option α)
    (expected : String) (same : ∀ t t', accept t = some t' → t' = t) :
    (take accept expected >>= fun t => given t expected (refine t)) =
    take (fun t => (accept t).bind refine) expected := by
  funext s
  cases front : s.queue with
  | nil => rw [bind_of_error (take_nil front), take_nil front]
  | cons t rest =>
    have taken : take accept expected s = _ := take_cons front
    rw [take_cons front]
    cases accepted : accept t with
    | none =>
      simp only [accepted] at taken
      rw [bind_of_error taken, Option.bind_none]
    | some t' =>
      simp only [accepted] at taken
      rw [bind_of_ok taken, Option.bind_some, same t t' accepted]
      cases refine t <;> rfl

theorem run_popIf (test : Token → Bool) (expected : String) :
    run (popIf test expected) = take (passing test) expected := by
  funext state
  refine (outcome_then (f := fun token => given token expected (passing test token)) ?_).trans ?_
  · intro token after taken
    by_cases h : test token <;> simp only [passing, h] <;> rfl
  · rw [run_pop]
    exact congrFun (take_bind_given some (passing test) expected (by simp)) state

theorem run_popSymbol (test : Token → Bool) (expected : String) :
    run (popSymbol test expected) = take (spelling test) expected := by
  have accepted : spelling test = fun token => (passing test token).bind fun token =>
      (Symbol.ofLexeme? token.lexeme).map (token, ·) := by
    funext token
    by_cases h : test token <;> simp [spelling, passing, h]
  funext state
  refine (outcome_then (f := fun token =>
    given token expected ((Symbol.ofLexeme? token.lexeme).map (token, ·))) ?_).trans ?_
  · intro token after taken
    cases Symbol.ofLexeme? token.lexeme <;> rfl
  · rw [run_popIf, accepted]
    refine congrFun (take_bind_given (passing test) _ expected ?_) state
    intro t t' h
    simp only [passing] at h
    split at h <;> cases h
    rfl

end Parser

end RatLang
