import RatLang.Proofs.Parser.Action

/-!
# What a parser does to the queue

A parser takes tokens from the front of the queue and leaves a suffix of it, also when it fails. A
token that it refuses was in the queue, and when it runs out of tokens it reports the place where
the queue ends. These facts hold of every move and carry over to actions one after the other.
-/

namespace RatLang

namespace ParseState

/-- The position of the last token of the input: that of the queue, or the one taken last. -/
def endPosition (s : ParseState) : Position :=
  (s.queue.getLast?.map Token.position).getD s.lastPosition

/-- A later state of the same input. -/
structure Reaches (s s' : ParseState) : Prop where
  suffix : s'.queue <:+ s.queue
  ends : s'.endPosition = s.endPosition

namespace Reaches

theorem refl (s : ParseState) : s.Reaches s := ⟨List.suffix_rfl, rfl⟩

theorem trans {s s' s'' : ParseState} (first : s.Reaches s') (second : s'.Reaches s'') :
    s.Reaches s'' :=
  ⟨second.suffix.trans first.suffix, second.ends.trans first.ends⟩

end Reaches

theorem reaches_took {s : ParseState} {t : Token} {rest : List Token}
    (front : s.queue = t :: rest) : s.Reaches (s.took t rest) := by
  refine ⟨front ▸ List.suffix_cons t rest, ?_⟩
  simp only [endPosition, took, front]
  cases rest with
  | nil => rfl
  | cons next rest => rw [List.getLast?_cons_cons]; simp [List.getLast?_cons]

theorem queue_eq_terminators (s : ParseState) :
    s.queue = s.terminators ++ s.skipTerminators.queue :=
  List.takeWhile_append_dropWhile.symm

theorem terminators_took {s : ParseState} {t : Token} {q : List Token} (front : s.queue = t :: q)
    (ends : t.isTerminator) : s.terminators = t :: (s.took t q).terminators := by
  rw [terminators, front]
  exact List.takeWhile_cons_of_pos ends

/-- Taking one terminator and then skipping is skipping. -/
theorem skipTerminators_took {s : ParseState} {t : Token} {q : List Token}
    (front : s.queue = t :: q) (ends : t.isTerminator) :
    (s.took t q).skipTerminators = s.skipTerminators := by
  have queue : s.queue.dropWhile Token.isTerminator = q.dropWhile Token.isTerminator := by
    rw [front]
    exact List.dropWhile_cons_of_pos ends
  have last : s.terminators.getLast? = some ((s.took t q).terminators.getLast?.getD t) := by
    rw [terminators_took front ends, List.getLast?_cons]
  rw [skipTerminators, skipTerminators, last, queue]
  cases (s.took t q).terminators.getLast? <;> rfl

/-- Where no terminator comes next, none is taken. -/
theorem skipTerminators_of_not {s : ParseState} (away : ¬s.isAtTerminator) :
    s.terminators = [] ∧ s.skipTerminators = s := by
  have none_taken : s.queue.takeWhile Token.isTerminator = [] ∧
      s.queue.dropWhile Token.isTerminator = s.queue := by
    cases front : s.queue with
    | nil => exact ⟨rfl, rfl⟩
    | cons t rest =>
      have word : ¬t.isTerminator := by simpa [isAtTerminator, peek, front] using away
      exact ⟨List.takeWhile_cons_of_neg word, List.dropWhile_cons_of_neg word⟩
  refine ⟨none_taken.1, ?_⟩
  simp only [skipTerminators, terminators, none_taken, List.getLast?_nil, Option.map_none,
    Option.getD_none]

theorem exists_of_isAtTerminator {s : ParseState} (here : s.isAtTerminator) :
    ∃ t rest, s.queue = t :: rest ∧ t.isTerminator := by
  cases front : s.queue with
  | nil => simp [isAtTerminator, peek, front] at here
  | cons t rest => exact ⟨t, rest, rfl, by simpa [isAtTerminator, peek, front] using here⟩

theorem reaches_skipTerminators (s : ParseState) : s.Reaches s.skipTerminators := by
  refine ⟨List.dropWhile_suffix _, ?_⟩
  have split := s.queue_eq_terminators
  simp only [endPosition]
  rw [split, List.getLast?_append]
  cases s.skipTerminators.queue.getLast? with
  | some last => rfl
  | none => simp [skipTerminators]

theorem reaches_skipToLastTerminator (s : ParseState) : s.Reaches s.skipToLastTerminator := by
  unfold skipToLastTerminator
  cases found : s.terminators.getLast? with
  | none => exact s.reaches_skipTerminators
  | some last =>
    obtain ⟨before, eq⟩ := List.getLast?_eq_some_iff.mp found
    have split := s.queue_eq_terminators
    rw [eq, List.append_assoc] at split
    refine ⟨⟨before, split.symm⟩, ?_⟩
    have ends := s.reaches_skipTerminators.ends
    rw [← ends]
    simp only [endPosition, restore, skipTerminators, found]
    cases (s.queue.dropWhile Token.isTerminator) with
    | nil => rfl
    | cons next rest => rw [List.getLast?_cons_cons]

/-- The terminator that is put back was in the queue. -/
theorem suffix_restore {s : ParseState} {t : Token} (last : s.terminators.getLast? = some t) :
    (s.skipTerminators.restore t).queue <:+ s.queue := by
  have reached := s.reaches_skipToLastTerminator.suffix
  rwa [skipToLastTerminator, last] at reached

theorem reaches_complete (s : ParseState) (stmt : Stmt) : s.Reaches (s.complete stmt) :=
  ⟨List.suffix_rfl, rfl⟩

end ParseState

/-- Does the error name a token of the queue, or the place where the input ends? -/
def ParseError.Concerns (cause : ParseError) (s : ParseState) : Prop :=
  match cause with
  | .unexpectedToken found _ position => ∃ t ∈ s.queue, t.lexeme = found ∧ t.position = position
  | .outOfTokens _ position => position = s.endPosition

theorem ParseError.Concerns.of_reaches {cause : ParseError} {s s' : ParseState}
    (reached : s.Reaches s') (h : cause.Concerns s') : cause.Concerns s := by
  cases cause with
  | unexpectedToken found expected position =>
    obtain ⟨t, mem, spelled⟩ := h
    exact ⟨t, reached.suffix.mem mem, spelled⟩
  | outOfTokens expected position => exact Eq.trans h reached.ends

theorem ParseError.concerns_unexpected {s : ParseState} {t : Token} (mem : t ∈ s.queue)
    (expected : String) : (ParseError.unexpected t expected).Concerns s :=
  ⟨t, mem, rfl, rfl⟩

theorem ParseError.concerns_outOfTokens {s : ParseState} (empty : s.queue = [])
    (expected : String) : (ParseError.outOfTokens expected s.lastPosition).Concerns s := by
  simp [ParseError.Concerns, ParseState.endPosition, empty]

namespace Parser

variable {α β : Type}

/-- An action that keeps to the input: what it leaves is a suffix of the queue, and an error is
about this input. -/
def Disciplined (x : Action α) (s : ParseState) : Prop :=
  match x s with
  | .ok _ s' => s.Reaches s'
  | .error cause s' => s.Reaches s' ∧ cause.Concerns s

namespace Disciplined

theorem reaches_of_ok {x : Action α} {s s' : ParseState} {a : α} (h : Disciplined x s)
    (eq : x s = .ok a s') : s.Reaches s' := by
  rw [Disciplined, eq] at h
  exact h

theorem reaches_of_error {x : Action α} {s s' : ParseState} {cause : ParseError}
    (h : Disciplined x s) (eq : x s = .error cause s') : s.Reaches s' := by
  rw [Disciplined, eq] at h
  exact h.1

theorem concerns_of_error {x : Action α} {s s' : ParseState} {cause : ParseError}
    (h : Disciplined x s) (eq : x s = .error cause s') : cause.Concerns s := by
  rw [Disciplined, eq] at h
  exact h.2

theorem pure (a : α) (s : ParseState) : Disciplined (pure a) s := ParseState.Reaches.refl s

theorem record (stmt : Stmt) (s : ParseState) : Disciplined (record stmt) s :=
  s.reaches_complete stmt

theorem skip (s : ParseState) : Disciplined (run skip) s := s.reaches_skipTerminators

theorem take (accept : Token → Option α) (expected : String) (s : ParseState) :
    Disciplined (take accept expected) s := by
  unfold Disciplined
  cases front : s.queue with
  | nil =>
    rw [take_nil front]
    exact ⟨.refl s, ParseError.concerns_outOfTokens front expected⟩
  | cons t rest =>
    have reached := ParseState.reaches_took front
    rw [take_cons front]
    cases accept t with
    | none => exact ⟨reached, ParseError.concerns_unexpected (by simp [front]) expected⟩
    | some a => exact reached

theorem refuse (expected : String) (s : ParseState) :
    Disciplined (refuse expected : Action α) s := by
  unfold Disciplined Parser.refuse
  cases front : s.queue with
  | nil => exact ⟨.refl s, ParseError.concerns_outOfTokens front expected⟩
  | cons t rest => exact ⟨.refl s, ParseError.concerns_unexpected (by simp [front]) expected⟩

theorem look {next : Option Token → Action α} {s : ParseState} (h : Disciplined (next s.peek) s) :
    Disciplined (look next) s := h

theorem lookPast {found : Token → Bool} {inside : Action α} (otherwise : α) {s : ParseState}
    (h : s.skipTerminators.peek.any found → Disciplined inside s.skipTerminators) :
    Disciplined (lookPast found inside otherwise) s := by
  unfold Disciplined Parser.lookPast
  by_cases seen : s.skipTerminators.peek.any found
  · have inner := h seen
    have skipped := s.reaches_skipTerminators
    rw [if_pos seen]
    unfold Disciplined at inner
    cases eq : inside s.skipTerminators with
    | ok a s' =>
      rw [eq] at inner
      exact skipped.trans inner
    | error cause s' =>
      rw [eq] at inner
      exact ⟨skipped.trans inner.1, inner.2.of_reaches skipped⟩
  · rw [if_neg seen]
    exact s.reaches_skipToLastTerminator

theorem bind {x : Action α} {f : α → Action β} {s : ParseState} (hx : Disciplined x s)
    (hf : ∀ a s', x s = .ok a s' → Disciplined (f a) s') : Disciplined (x >>= f) s := by
  unfold Disciplined
  cases eq : x s with
  | error cause s' =>
    rw [Disciplined, eq] at hx
    rw [bind_of_error eq]
    exact hx
  | ok a s' =>
    have reached := hx.reaches_of_ok eq
    have next := hf a s' eq
    rw [bind_of_ok eq]
    unfold Disciplined at next
    cases eq' : f a s' with
    | ok b s'' =>
      rw [eq'] at next
      exact reached.trans next
    | error cause s'' =>
      rw [eq'] at next
      exact ⟨reached.trans next.1, next.2.of_reaches reached⟩

end Disciplined

end Parser

end RatLang
