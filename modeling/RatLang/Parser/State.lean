import RatLang.Syntax
import RatLang.Token

/-!
# The state of a parser

A parser takes tokens from the front of a queue that holds no comments. It remembers the position
of the last token it has taken, which is where a report points when the input ends too early, and
the statements that it has completed. A step keeps the state that it has reached also when it
fails.

Each step is typed by a bound on the number of tokens that it leaves when it succeeds. The bounds
are what makes recursive steps terminate.
-/

namespace RatLang

/-- Why tokens make no program. -/
inductive ParseError where
  /-- A token that cannot stand where it stands. -/
  | unexpectedToken (found expected : String) (position : Position)
  /-- The input ends where something is still required. -/
  | outOfTokens (expected : String) (position : Position)
deriving DecidableEq, Repr

namespace ParseError

/-- The report of a token that cannot stand where it stands. -/
def unexpected (token : Token) (expected : String) : ParseError :=
  .unexpectedToken token.lexeme expected token.position

/-- The wording of the error. -/
def message : ParseError → String
  | unexpectedToken found expected position =>
    "unexpected token '" ++ found ++ "' at " ++ position.text ++ ", expected " ++ expected
  | outOfTokens expected position =>
    "out of tokens after " ++ position.text ++ ", expected " ++ expected

/-- The place the error points at. -/
def position : ParseError → Position
  | unexpectedToken _ _ position | outOfTokens _ position => position

end ParseError

/-- The tokens still to be parsed and what is remembered of those before them. -/
structure ParseState where
  queue : List Token
  /-- The position of the token that was taken last. -/
  lastPosition : Position
  /-- The statements that have been completed, the last one first. -/
  completed : List Stmt
deriving Repr

namespace ParseState

/-- The state before the first token. Comments are left out, and of terminators that then stand
side by side only the first is kept. -/
def ofTokens (tokens : List Token) : ParseState :=
  ⟨mergeTerminators (tokens.filter fun t => !t.isComment), .start, []⟩

/-- The number of tokens that are left. -/
def left (state : ParseState) : Nat := state.queue.length

/-- The next token, which stays in the queue. -/
def peek (state : ParseState) : Option Token := state.queue.head?

/-- Is the next token of this kind and spelling? -/
def isAt (state : ParseState) (kind : TokenKind) (lexeme : String) : Bool :=
  state.peek.any (·.is kind lexeme)

/-- Is the next token this punctuation mark? -/
def isAtPunct (state : ParseState) (c : Char) : Bool :=
  state.peek.any (·.isPunct c)

/-- Does the next token end a statement? -/
def isAtTerminator (state : ParseState) : Bool :=
  state.peek.any Token.isTerminator

/-- Puts a token in front of the queue. -/
def restore (state : ParseState) (token : Token) : ParseState :=
  { state with queue := token :: state.queue }

/-- The state after a token has been taken, with the tokens that remain. -/
def took (state : ParseState) (token : Token) (rest : List Token) : ParseState :=
  { state with queue := rest, lastPosition := token.position }

/-- The terminators at the front of the queue. -/
def terminators (state : ParseState) : List Token := state.queue.takeWhile Token.isTerminator

/-- Takes the terminators at the front of the queue. -/
def skipTerminators (state : ParseState) : ParseState :=
  { state with
    queue := state.queue.dropWhile Token.isTerminator
    lastPosition := (state.terminators.getLast?.map Token.position).getD state.lastPosition }

/-- Takes the terminators at the front of the queue and puts the last of them back. -/
def skipToLastTerminator (state : ParseState) : ParseState :=
  match state.terminators.getLast? with
  | none => state.skipTerminators
  | some terminator => state.skipTerminators.restore terminator

/-- Remembers a statement that has been completed. -/
def complete (state : ParseState) (stmt : Stmt) : ParseState :=
  { state with completed := stmt :: state.completed }

theorem left_restore (state : ParseState) (token : Token) :
    (state.restore token).left = state.left + 1 := rfl

theorem left_skipTerminators (state : ParseState) :
    state.skipTerminators.left + state.terminators.length = state.left := by
  have := congrArg List.length
    (List.takeWhile_append_dropWhile (p := Token.isTerminator) (l := state.queue))
  simp only [List.length_append] at this
  simp only [left, skipTerminators, terminators]
  omega

theorem left_skipToLastTerminator_le (state : ParseState) :
    state.skipToLastTerminator.left ≤ state.left := by
  have skipped := state.left_skipTerminators
  unfold skipToLastTerminator
  split
  · omega
  · rename_i last
    have : 0 < state.terminators.length := by
      rw [List.length_pos_iff]
      rintro empty
      simp [empty] at last
    rw [left_restore]
    omega

@[simp] theorem left_complete (state : ParseState) (stmt : Stmt) :
    (state.complete stmt).left = state.left := rfl

/-! What parsers that follow each other leave together -/

variable {s t u v w : ParseState}

theorem left_lt_trans (first : t.left < s.left) (second : u.left < t.left) :
    u.left < s.left :=
  Nat.lt_trans second first

theorem left_lt_trans₃ (first : t.left < s.left) (second : u.left < t.left)
    (third : v.left < u.left) : v.left < s.left :=
  Nat.lt_trans third (left_lt_trans first second)

theorem left_lt_of_lt_succ (first : t.left < s.left) (second : u.left < t.left)
    (third : v.left < u.left) (last : w.left < v.left + 1) : w.left < s.left :=
  Nat.lt_of_le_of_lt (Nat.le_of_lt_succ last) (left_lt_trans₃ first second third)

theorem left_succ_le_succ (first : t.left < s.left) : t.left + 1 ≤ s.left + 1 :=
  Nat.le_succ_of_le first

theorem left_succ_le_succ_trans (first : t.left < s.left) (second : u.left < t.left) :
    u.left + 1 ≤ s.left + 1 :=
  left_succ_le_succ (left_lt_trans first second)

end ParseState

/-- The outcome of a parsing step. On success fewer than `bound` tokens are left. -/
inductive Step (bound : Nat) (α : Type) where
  | ok (value : α) (state : ParseState) (within : state.left < bound)
  | error (cause : ParseError) (state : ParseState)

namespace Step

variable {α β : Type} {m n : Nat}

/-- The same outcome under a larger bound. -/
def weaken (h : m ≤ n) : Step m α → Step n α
  | ok value state within => ok value state (Nat.lt_of_lt_of_le within h)
  | error cause state => error cause state

/-- Goes on after a success; a failure is final. -/
def bind (step : Step m α)
    (next : (value : α) → (state : ParseState) → state.left < m → Step n β) : Step n β :=
  match step with
  | ok value state within => next value state within
  | error cause state => error cause state

/-- The outcome without its bound. -/
def outcome : Step m α → EStateM.Result ParseError ParseState α
  | ok value state _ => .ok value state
  | error cause state => .error cause state

@[simp] theorem bind_ok (value : α) (state : ParseState) (within : state.left < m)
    (next : (value : α) → (state : ParseState) → state.left < m → Step n β) :
    (ok value state within).bind next = next value state within := rfl

@[simp] theorem bind_error (cause : ParseError) (state : ParseState)
    (next : (value : α) → (state : ParseState) → state.left < m → Step n β) :
    (error cause state : Step m α).bind next = error cause state := rfl

@[simp] theorem outcome_weaken (h : m ≤ n) (step : Step m α) :
    (step.weaken h).outcome = step.outcome := by
  cases step <;> rfl

end Step

/-- Succeeds without taking a token. -/
def ParseState.done {α : Type} (state : ParseState) (value : α) : Step (state.left + 1) α :=
  .ok value state (Nat.lt_succ_self _)

/-- Fails without taking a token. -/
def ParseState.fail {α : Type} {bound : Nat} (state : ParseState) (cause : ParseError) :
    Step bound α :=
  .error cause state

namespace Parser

/-- Takes the next token. -/
def pop (expected : String) (state : ParseState) : Step state.left Token :=
  match h : state.queue with
  | [] => .error (.outOfTokens expected state.lastPosition) state
  | token :: rest => .ok token (state.took token rest) (by simp [ParseState.left, h, ParseState.took])

/-- Takes the next token, which has to pass a test. One that does not is taken all the same. -/
def popIf (test : Token → Bool) (expected : String) (state : ParseState) :
    Step state.left Token :=
  (pop expected state).bind fun token state within =>
    if test token then .ok token state within else .error (.unexpected token expected) state

/-- Takes a token of the given kind. -/
def expectKind (kind : TokenKind) (expected : String) (state : ParseState) :
    Step state.left Token :=
  popIf (·.kind == kind) expected state

/-- Takes a punctuation mark. -/
def expectPunct (c : Char) (expected : String) (state : ParseState) : Step state.left Token :=
  popIf (·.isPunct c) expected state

/-- Takes the token of the given kind and spelling. -/
def expect (kind : TokenKind) (lexeme expected : String) (state : ParseState) :
    Step state.left Token :=
  popIf (·.is kind lexeme) expected state

/-- Takes the terminators that come next. -/
def skip (state : ParseState) : Step (state.left + 1) Unit :=
  .ok () state.skipTerminators (by
    have := state.left_skipTerminators
    omega)

/-- Takes a token and gives it with the symbol that it spells. -/
def popSymbol (test : Token → Bool) (expected : String) (state : ParseState) :
    Step state.left (Token × Symbol) :=
  (popIf test expected state).bind fun token state within =>
    match Symbol.ofLexeme? token.lexeme with
    | some symbol => .ok (token, symbol) state within
    | none => .error (.unexpected token expected) state

/-- Takes the name of a type. -/
def expectType (state : ParseState) : Step state.left Symbol :=
  (popSymbol (·.kind == .type) "a type" state).bind fun (_, symbol) state within =>
    .ok symbol state within

end Parser

end RatLang
