import RatLang.Proofs.Parser.Discipline

/-!
# Parsing with more input to come

A run on a prefix of the input says something about every run that begins with it. A run that has
not met the end of the queue goes on the same way whatever follows; one that fails on a token fails
on every input that is the same up to that token; and one that has met the end can be completed.
`Incremental` puts these facts together, and it carries over to actions one after the other,
provided that the second one can also be completed from nothing, by tokens that do not disturb the
first.
-/

namespace RatLang

namespace ParseState

/-- The state with more tokens at the end of its queue. -/
def extend (s : ParseState) (us : List Token) : ParseState := { s with queue := s.queue ++ us }

@[simp] theorem queue_extend (s : ParseState) (us : List Token) :
    (s.extend us).queue = s.queue ++ us := rfl

@[simp] theorem extend_nil (s : ParseState) : s.extend [] = s := by
  simp [extend]

theorem extend_injective {s s' : ParseState} {us : List Token} (h : s.extend us = s'.extend us) :
    s = s' := by
  cases s
  cases s'
  simpa [extend] using h

/-- A state whose queue has a given end. -/
theorem exists_extend {s : ParseState} {q us : List Token} (h : s.queue = q ++ us) :
    ∃ s₀ : ParseState, s₀.queue = q ∧ s = s₀.extend us :=
  ⟨{ s with queue := q }, rfl, by simp [extend, ← h]⟩

theorem peek_extend {s : ParseState} (h : s.queue ≠ []) (us : List Token) :
    (s.extend us).peek = s.peek := by
  obtain ⟨t, rest, eq⟩ := List.exists_cons_of_ne_nil h
  simp [peek, eq]

theorem took_extend {s : ParseState} {t : Token} {rest us : List Token} :
    (s.extend us).took t (rest ++ us) = (s.took t rest).extend us := rfl

/-- What stops the terminators at the front is there, whatever follows the given tokens. -/
def Settles (s : ParseState) (us : List Token) : Prop :=
  ∀ t ∈ (s.skipTerminators.queue ++ us).head?, ¬t.isTerminator

theorem not_isTerminator_of_head {s : ParseState} :
    ∀ t ∈ s.skipTerminators.queue.head?, ¬t.isTerminator := by
  intro t mem
  have stops := List.head?_dropWhile_not Token.isTerminator s.queue
  have front : (s.queue.dropWhile Token.isTerminator).head? = some t := mem
  rw [front] at stops
  simpa using stops

theorem settles_of_ne {s : ParseState} (h : s.skipTerminators.queue ≠ []) (us : List Token) :
    s.Settles us := by
  have front : (s.skipTerminators.queue ++ us).head? = s.skipTerminators.queue.head? :=
    peek_extend h us
  intro t mem
  rw [front] at mem
  exact not_isTerminator_of_head t mem

theorem settles_of_head {s : ParseState} {us : List Token}
    (h : ∀ t ∈ us.head?, ¬t.isTerminator) : s.Settles us := by
  by_cases empty : s.skipTerminators.queue = []
  · rw [Settles, empty]
    exact h
  · exact settles_of_ne empty us

theorem isTerminator_of_mem {s : ParseState} : ∀ t ∈ s.terminators, t.isTerminator :=
  List.all_eq_true.mp List.all_takeWhile

theorem terminators_extend {s : ParseState} {us : List Token} (h : s.Settles us) :
    (s.extend us).terminators = s.terminators := by
  have split := s.queue_eq_terminators
  have stops : (s.skipTerminators.queue ++ us).takeWhile Token.isTerminator = [] := by
    cases eq : s.skipTerminators.queue ++ us with
    | nil => rfl
    | cons t rest =>
      rw [Settles, eq] at h
      exact List.takeWhile_cons_of_neg (h t rfl)
  calc (s.queue ++ us).takeWhile Token.isTerminator
      = (s.terminators ++ (s.skipTerminators.queue ++ us)).takeWhile Token.isTerminator := by
        rw [← List.append_assoc, ← split]
    _ = s.terminators ++ (s.skipTerminators.queue ++ us).takeWhile Token.isTerminator :=
        List.takeWhile_append_of_pos isTerminator_of_mem
    _ = s.terminators := by rw [stops, List.append_nil]

theorem skipTerminators_extend {s : ParseState} {us : List Token} (h : s.Settles us) :
    (s.extend us).skipTerminators = s.skipTerminators.extend us := by
  have same := terminators_extend h
  have split := (s.extend us).queue_eq_terminators
  rw [same, queue_extend, s.queue_eq_terminators, List.append_assoc] at split
  have rest : s.skipTerminators.queue ++ us = (s.extend us).queue.dropWhile Token.isTerminator :=
    List.append_cancel_left split
  rw [skipTerminators, same, ← rest]
  rfl

theorem skipToLastTerminator_extend {s : ParseState} {us : List Token} (h : s.Settles us) :
    (s.extend us).skipToLastTerminator = s.skipToLastTerminator.extend us := by
  simp only [skipToLastTerminator, terminators_extend h, skipTerminators_extend h]
  cases s.terminators.getLast? <;> rfl

theorem queue_extend_of_spent {s : ParseState} (spent : s.skipTerminators.queue = [])
    (us : List Token) : (s.extend us).skipTerminators.queue <:+ us := by
  have split := s.queue_eq_terminators
  rw [spent, List.append_nil] at split
  have dropped : (s.extend us).skipTerminators.queue = us.dropWhile Token.isTerminator := by
    change (s.queue ++ us).dropWhile Token.isTerminator = _
    rw [split]
    exact List.dropWhile_append_of_pos isTerminator_of_mem
  rw [dropped]
  exact List.dropWhile_suffix _

theorem suffix_skipToLastTerminator (s : ParseState) :
    s.skipTerminators.queue <:+ s.skipToLastTerminator.queue := by
  unfold skipToLastTerminator
  cases s.terminators.getLast? with
  | none => exact List.suffix_rfl
  | some last => exact List.suffix_cons last _

theorem left_skipToLastTerminator (s : ParseState) :
    s.skipToLastTerminator.left ≤ s.skipTerminators.left + 1 := by
  unfold skipToLastTerminator
  cases s.terminators.getLast? with
  | none => exact Nat.le_succ _
  | some last => exact Nat.le_of_eq (left_restore _ last)

/-- A state that is reached, with a given end of its queue, is reached from one with that end. -/
theorem Reaches.exists_extend {s s₀' : ParseState} {us : List Token}
    (h : s.Reaches (s₀'.extend us)) :
    ∃ s₀ : ParseState, s = s₀.extend us ∧ s₀'.queue <:+ s₀.queue := by
  obtain ⟨before, eq⟩ := h.suffix
  rw [queue_extend, ← List.append_assoc] at eq
  obtain ⟨s₀, queue, same⟩ := ParseState.exists_extend eq.symm
  exact ⟨s₀, same, before, queue.symm⟩

end ParseState

/-- Is the token one that stays where it is when the input is tidied up? -/
def Token.Plain (t : Token) : Prop := ¬t.isTerminator ∧ ¬t.isComment

namespace Parser

variable {α β : Type}

/-- Nothing is left of a queue. -/
def Used (q : List Token) : Prop := q = []

/-- Nothing but terminators is left of a queue. -/
def Spent (q : List Token) : Prop := ∀ t ∈ q, t.isTerminator

/-- The same outcome, with more tokens at the end of the queue. -/
def extended (us : List Token) :
    EStateM.Result ParseError ParseState α → EStateM.Result ParseError ParseState α
  | .ok a s => .ok a (s.extend us)
  | .error cause s => .error cause (s.extend us)

/-- May more tokens change the outcome? They may when the tokens have run out, and when what is left
after a success is no more than `stop` says. -/
def Pending (stop : List Token → Prop) : EStateM.Result ParseError ParseState α → Prop
  | .ok _ s => stop s.queue
  | .error (.outOfTokens _ _) _ => True
  | .error (.unexpectedToken _ _ _) _ => False

/-- Some plain tokens behind the queue make the action succeed, whatever stands behind them that may
follow. What then comes behind the queue is as `before` says. -/
def Completes (before : Option Token → Prop) (stop : List Token → Prop)
    (follow : Option Token → Prop) (x : Action α) (s : ParseState) : Prop :=
  ∃ us : List Token, (∀ t ∈ us, t.Plain) ∧ ∃ (a : α) (s' : ParseState), stop s'.queue ∧
    ∀ rest : List Token, follow rest.head? →
      before (us ++ rest).head? ∧ x (s.extend (us ++ rest)) = .ok a (s'.extend rest)

/-- Anything may follow. -/
def Anything : Option Token → Prop := fun _ => True

/-- Anything but a terminator may follow. -/
def Unterminated : Option Token → Prop := fun next => ∀ t ∈ next, ¬t.isTerminator

/-- An outcome that is not pending stays as it is. -/
def Stable (stop : List Token → Prop) (x : Action α) (s : ParseState) : Prop :=
  ¬Pending stop (x s) → ∀ us, x (s.extend us) = extended us (x s)

/-- A success that leaves a token needs nothing behind this token. -/
def Truncates (x : Action α) (s : ParseState) : Prop :=
  ∀ (s₀ s₀' : ParseState) (us : List Token) (a : α), s = s₀.extend us →
    x s = .ok a (s₀'.extend us) → s₀'.queue ≠ [] → x s₀ = .ok a s₀'

/-- A failure on a token needs nothing behind this token. -/
def Blames (x : Action α) (s : ParseState) : Prop :=
  ∀ (found expected : String) (position : Position) (s' : ParseState),
    x s = .error (.unexpectedToken found expected position) s' →
    ∃ (s₀ : ParseState) (us : List Token), s = s₀.extend us ∧
      (∃ t ∈ s₀.queue.getLast?, t.lexeme = found ∧ t.position = position) ∧
      ∃ s'', x s₀ = .error (.unexpectedToken found expected position) s''

/-- What a run on a queue says of the runs on longer and on shorter ones. -/
structure Incremental (stop : List Token → Prop) (follow : Option Token → Prop) (x : Action α)
    (s : ParseState) : Prop where
  disciplined : Disciplined x s
  stable : Stable stop x s
  truncates : Truncates x s
  blames : Blames x s
  /-- An outcome that is pending can be completed. -/
  completes : Pending stop (x s) → Completes Anything stop follow x s

/-- Whether an error is pending does not depend on what the action would have left. -/
theorem Pending.of_error {stop stop' : List Token → Prop} {cause : ParseError} {s s' : ParseState}
    (h : Pending (α := α) stop (.error cause s)) : Pending (α := β) stop' (.error cause s') := by
  cases cause <;> exact h

/-! ### Completing an action -/

namespace Completes

variable {before before' follow follow' : Option Token → Prop} {stop stop' : List Token → Prop}

/-- An action that does the same on every longer queue as another one on its own. -/
theorem transfer {x y : Action α} {s t : ParseState} (h : Completes before stop follow x t)
    (same : ∀ us, y (s.extend us) = x (t.extend us)) : Completes before stop follow y s := by
  obtain ⟨us, plain, a, s', stopped, ok⟩ := h
  refine ⟨us, plain, a, s', stopped, ?_⟩
  intro rest follows
  rw [same]
  exact ok rest follows

theorem imp {x : Action α} {s : ParseState} (h : Completes before stop follow x s)
    (weaker : ∀ next, before next → before' next) : Completes before' stop follow x s := by
  obtain ⟨us, plain, a, s', stopped, ok⟩ := h
  refine ⟨us, plain, a, s', stopped, ?_⟩
  intro rest follows
  obtain ⟨starts, eq⟩ := ok rest follows
  exact ⟨weaker _ starts, eq⟩

theorem anyhow {x : Action α} {s : ParseState} (h : Completes before stop follow x s) :
    Completes Anything stop follow x s := h.imp fun _ _ => trivial

theorem relax {x : Action α} {s : ParseState} (h : Completes before stop follow x s)
    (stops : ∀ q, stop q → stop' q) (stronger : ∀ next, follow' next → follow next) :
    Completes before stop' follow' x s := by
  obtain ⟨us, plain, a, s', stopped, ok⟩ := h
  exact ⟨us, plain, a, s', stops _ stopped, fun rest follows => ok rest (stronger _ follows)⟩

/-- Nothing is needed but what may follow. -/
theorem at_once {x : Action α} {s : ParseState} (a : α) (s' : ParseState) (stopped : stop s'.queue)
    (ok : ∀ rest, follow rest.head? → x (s.extend rest) = .ok a (s'.extend rest)) :
    Completes follow stop follow x s :=
  ⟨[], by simp, a, s', stopped, fun rest follows => ⟨follows, ok rest follows⟩⟩

theorem pure (a : α) {s : ParseState} (stopped : stop s.queue) :
    Completes follow stop follow (pure a) s :=
  at_once a s stopped fun _ _ => rfl

theorem skip {s : ParseState} (spent : s.skipTerminators.queue = [])
    (follows : ∀ next, follow next → Unterminated next) :
    Completes follow Used follow (run skip) s := by
  apply at_once () s.skipTerminators spent
  intro rest ok
  have settles : s.Settles rest := ParseState.settles_of_head (follows _ ok)
  exact congrArg (EStateM.Result.ok ()) (ParseState.skipTerminators_extend settles)

/-- A token is taken that is accepted, and what comes next is completed. -/
theorem take_bind {accept : Token → Option α} {f : α → Action β} {t : Token} {a : α}
    {expected : String} {s : ParseState} (accepted : accept t = some a) (plain : t.Plain)
    (empty : s.queue = [])
    (next : ∀ s', s'.queue = [] → Completes Anything stop follow (f a) s') :
    Completes (· = some t) stop follow (take accept expected >>= f) s := by
  obtain ⟨us, plain', b, s', stopped, ok⟩ := next (s.took t []) rfl
  refine ⟨t :: us, ?_, b, s', stopped, ?_⟩
  · intro t' mem
    rcases List.mem_cons.mp mem with rfl | mem
    · exact plain
    · exact plain' t' mem
  · intro rest follows
    have front : (s.extend (t :: us ++ rest)).queue = t :: (us ++ rest) := by simp [empty]
    exact ⟨rfl, (bind_of_ok (take_accepts front accepted)).trans (ok rest follows).2⟩

theorem take {accept : Token → Option α} {t : Token} {a : α} {expected : String} {s : ParseState}
    (accepted : accept t = some a) (plain : t.Plain) (empty : s.queue = []) :
    Completes (· = some t) Used Anything (take accept expected) s := by
  rw [← bind_pure (Parser.take accept expected)]
  exact take_bind accepted plain empty fun s' used => (pure a used).anyhow

theorem look {next : Option Token → Action α} {x : Action α} {s : ParseState}
    (h : Completes before stop follow x s) (empty : s.queue = [])
    (same : ∀ o, before o → next o = x) : Completes before stop follow (look next) s := by
  obtain ⟨us, plain, a, s', stopped, ok⟩ := h
  refine ⟨us, plain, a, s', stopped, ?_⟩
  intro rest follows
  obtain ⟨starts, eq⟩ := ok rest follows
  refine ⟨starts, ?_⟩
  have front : (s.extend (us ++ rest)).peek = (us ++ rest).head? := by
    simp [ParseState.peek, empty]
  rw [Parser.look, front, same _ starts, eq]

theorem bind {between : Option Token → Prop} {x : Action α} {f : α → Action β} {s : ParseState}
    (hx : Completes before stop between x s)
    (hf : ∀ a s', stop s'.queue → Completes between stop' follow (f a) s') :
    Completes before stop' follow (x >>= f) s := by
  obtain ⟨us, plain, a, s', stopped, ok⟩ := hx
  obtain ⟨vs, plain', b, s'', stopped', ok'⟩ := hf a s' stopped
  refine ⟨us ++ vs, ?_, b, s'', stopped', ?_⟩
  · intro t mem
    exact (List.mem_append.mp mem).elim (plain t) (plain' t)
  · intro rest follows
    obtain ⟨middle, eq'⟩ := ok' rest follows
    obtain ⟨starts, eq⟩ := ok (vs ++ rest) middle
    rw [List.append_assoc]
    exact ⟨starts, (bind_of_ok eq).trans eq'⟩

theorem bind_pure {x : Action α} {s : ParseState} (hx : Completes before stop follow x s)
    (g : α → β) : Completes before stop follow (x >>= fun a => Pure.pure (g a)) s :=
  hx.bind fun a _ stopped => pure (g a) stopped

/-- What may be left out is left out when what follows is something else. -/
theorem optional {test : Token → Bool} {x : Action α} (otherwise : α) {s : ParseState}
    (empty : s.queue = []) (stopped : stop s.queue)
    (other : ∀ next, follow next → ¬next.any test) :
    Completes follow stop follow
      (Parser.look fun next => if next.any test then x else Pure.pure otherwise) s := by
  apply (pure otherwise stopped).look empty
  intro next follows
  rw [if_neg (other next follows)]

end Completes

/-! ### The moves -/

/-- On the empty queue every outcome is pending. -/
theorem pending_of_empty {stop : List Token → Prop} {x : Action α} {s : ParseState}
    (base : stop []) (empty : s.queue = []) (disciplined : Disciplined x s) :
    Pending stop (x s) := by
  cases eq : x s with
  | ok a s' =>
    have reached := (disciplined.reaches_of_ok eq).suffix
    rw [empty, List.suffix_nil] at reached
    rw [Pending, reached]
    exact base
  | error cause s' =>
    cases cause with
    | outOfTokens expected position => trivial
    | unexpectedToken found expected position =>
      obtain ⟨t, mem, _⟩ := disciplined.concerns_of_error eq
      rw [empty] at mem
      cases mem

namespace Incremental

variable {follow follow' : Option Token → Prop} {stop : List Token → Prop}

/-- On the empty queue only the completion counts. -/
theorem of_empty {x : Action α} {s : ParseState} (base : stop []) (empty : s.queue = [])
    (disciplined : Disciplined x s) (completes : Completes Anything stop follow x s) :
    Incremental stop follow x s where
  disciplined := disciplined
  stable := by
    intro settled
    exact absurd (pending_of_empty base empty disciplined) settled
  truncates := by
    intro s₀ s₀' us a same ok left
    have reached := (disciplined.reaches_of_ok ok).suffix
    rw [empty, List.suffix_nil, ParseState.queue_extend, List.append_eq_nil_iff] at reached
    exact absurd reached.1 left
  blames := by
    intro found expected position s' failed
    obtain ⟨t, mem, _⟩ := disciplined.concerns_of_error failed
    rw [empty] at mem
    cases mem
  completes := fun _ => completes

theorem restart {x : Action α} {s : ParseState} (h : Incremental stop follow x s)
    (empty : s.queue = []) (base : stop []) : Completes Anything stop follow x s :=
  h.completes (pending_of_empty base empty h.disciplined)

/-- An action that is another one in front of this token. -/
theorem of_front {x y : Action α} {s : ParseState} {t : Token} {rest : List Token}
    (front : s.queue = t :: rest) (same : ∀ s', s'.peek = some t → x s' = y s')
    (h : Incremental stop follow y s) : Incremental stop follow x s := by
  have here : x s = y s := same s (by simp [ParseState.peek, front])
  have longer (us : List Token) : x (s.extend us) = y (s.extend us) :=
    same _ (by simp [ParseState.peek, front])
  have shorter {s₀ : ParseState} {us : List Token} (cut : s = s₀.extend us)
      (left : s₀.queue ≠ []) : x s₀ = y s₀ := by
    apply same
    obtain ⟨first, more, eq⟩ := List.exists_cons_of_ne_nil left
    rw [cut, ParseState.queue_extend, eq, List.cons_append] at front
    injection front with first_eq _
    rw [ParseState.peek, eq, List.head?_cons, first_eq]
  constructor
  · rw [Disciplined, here]
    exact h.disciplined
  · intro settled us
    rw [here] at settled ⊢
    rw [longer, h.stable settled]
  · intro s₀ s₀' us a cut ok left
    rw [here] at ok
    have reached := (h.disciplined.reaches_of_ok ok).suffix
    rw [cut, ParseState.queue_extend, ParseState.queue_extend] at reached
    have nonempty : s₀.queue ≠ [] := by
      have short := reached.length_le
      have some_left := List.length_pos_iff.mpr left
      simp only [List.length_append] at short
      exact List.length_pos_iff.mp (by omega)
    rw [shorter cut nonempty]
    exact h.truncates s₀ s₀' us a cut ok left
  · intro found expected position s' failed
    rw [here] at failed
    obtain ⟨s₀, us, cut, ⟨last, mem, spelled⟩, s'', eq⟩ := h.blames _ _ _ _ failed
    have nonempty : s₀.queue ≠ [] := List.ne_nil_of_mem (List.mem_of_getLast? mem)
    exact ⟨s₀, us, cut, ⟨last, mem, spelled⟩, s'', (shorter cut nonempty).trans eq⟩
  · intro pending
    rw [here] at pending
    exact (h.completes pending).transfer longer

theorem look_cons {next : Option Token → Action α} {s : ParseState} {t : Token}
    {rest : List Token} (front : s.queue = t :: rest)
    (h : Incremental stop follow (next (some t)) s) : Incremental stop follow (look next) s := by
  refine of_front front ?_ h
  intro s' first
  rw [Parser.look, first]

theorem look {next : Option Token → Action α} {s : ParseState} (base : stop [])
    (ended : Disciplined (next none) s)
    (restart : s.queue = [] → Completes Anything stop follow (look next) s)
    (h : ∀ t rest, s.queue = t :: rest → Incremental stop follow (next (some t)) s) :
    Incremental stop follow (look next) s := by
  cases front : s.queue with
  | nil =>
    refine of_empty base front (.look ?_) (restart front)
    rw [ParseState.peek, front]
    exact ended
  | cons t rest => exact look_cons front (h t rest front)

theorem pure (a : α) (s : ParseState) : Incremental stop follow (pure a) s where
  disciplined := .pure a s
  stable := fun _ _ => rfl
  truncates := by
    intro s₀ s₀' us b cut ok left
    injection ok with value state
    rw [cut] at state
    rw [← value, ← ParseState.extend_injective state]
    rfl
  blames := by
    intro found expected position s' failed
    cases failed
  completes := fun stopped => (Completes.pure a stopped).anyhow

theorem optional {test : Token → Bool} {x : Action α} (otherwise : α) {s : ParseState}
    (base : stop []) (other : ∀ next, follow next → ¬next.any test)
    (h : ∀ t rest, s.queue = t :: rest → test t → Incremental stop follow x s) :
    Incremental stop follow
      (Parser.look fun next => if next.any test then x else Pure.pure otherwise) s := by
  refine look base (.pure otherwise s) ?_ fun t rest front => ?_
  · intro empty
    exact (Completes.optional otherwise empty (empty ▸ base) other).anyhow
  · rw [Option.any_some]
    by_cases present : test t
    · rw [if_pos present]
      exact h t rest front present
    · rw [if_neg present]
      exact pure otherwise s

theorem here {s : ParseState} {t : Token} {rest : List Token} (front : s.queue = t :: rest) :
    Incremental stop follow here s := by
  refine of_front front ?_ (pure t.position s)
  intro s' first
  rw [Parser.here, first]
  rfl

theorem record (stmt : Stmt) (s : ParseState) : Incremental stop follow (record stmt) s where
  disciplined := .record stmt s
  stable := fun _ _ => rfl
  truncates := by
    intro s₀ s₀' us b cut ok left
    injection ok with value state
    have same : (s₀.complete stmt).extend us = s₀'.extend us := by rw [← state, cut]; rfl
    rw [← value, ← ParseState.extend_injective same]
    rfl
  blames := by
    intro found expected position s' failed
    cases failed
  completes := fun stopped =>
    (Completes.at_once () (s.complete stmt) stopped fun _ _ => rfl).anyhow

/-- An action that fails on this token. -/
theorem of_failure {x : Action α} {s : ParseState} {t : Token} {rest : List Token}
    (front : s.queue = t :: rest) (expected : String) (left : ParseState → ParseState)
    (failed : ∀ s', s'.peek = some t → x s' = .error (.unexpected t expected) (left s'))
    (leaves : ∀ s' us, s'.peek = some t → left (s'.extend us) = (left s').extend us)
    (disciplined : Disciplined x s) : Incremental stop follow x s := by
  have first : s.peek = some t := by simp [ParseState.peek, front]
  have eq := failed s first
  constructor
  · exact disciplined
  · intro _ us
    rw [eq, failed _ (by simp [ParseState.peek, front]), leaves s us first]
    rfl
  · intro s₀ s₀' us a cut ok
    rw [eq] at ok
    cases ok
  · intro found expected' position s'' failed'
    rw [eq] at failed'
    injection failed' with cause _
    injection cause with lexeme expects place
    obtain ⟨s₀, queue, cut⟩ := ParseState.exists_extend (q := [t]) front
    refine ⟨s₀, rest, cut, ⟨t, by simp [queue], lexeme, place⟩, left s₀, ?_⟩
    rw [failed s₀ (by simp [ParseState.peek, queue]), ← lexeme, ← expects, ← place]
    rfl
  · intro pending
    rw [eq] at pending
    cases pending

theorem refuse {s : ParseState} {t : Token} {rest : List Token} (front : s.queue = t :: rest)
    (expected : String) : Incremental stop follow (refuse expected : Action α) s := by
  refine of_failure front expected id ?_ (fun _ _ _ => rfl) (.refuse expected s)
  intro s' first
  obtain ⟨rest', eq⟩ := List.head?_eq_some_iff.mp first
  rw [Parser.refuse, eq]
  rfl

theorem take {accept : Token → Option α} {t : Token} {a : α} (accepted : accept t = some a)
    (plain : t.Plain) (expected : String) (s : ParseState) :
    Incremental Used Anything (take accept expected) s := by
  have disciplined := Disciplined.take accept expected s
  cases front : s.queue with
  | nil =>
    exact of_empty rfl front disciplined (Completes.take accepted plain front).anyhow
  | cons next rest =>
    have eq : Parser.take accept expected s = _ := take_cons front
    cases decided : accept next with
    | none =>
      refine of_failure front expected (fun s' => s'.took next s'.queue.tail) ?_ ?_ disciplined
      · intro s' first
        obtain ⟨rest', front'⟩ := List.head?_eq_some_iff.mp first
        rw [take_cons front', decided, front']
        rfl
      · intro s' us first
        obtain ⟨rest', front'⟩ := List.head?_eq_some_iff.mp first
        simp only [ParseState.queue_extend, front', List.cons_append, List.tail_cons]
        exact ParseState.took_extend
    | some b =>
      simp only [decided] at eq
      have longer (us : List Token) : Parser.take accept expected (s.extend us) =
          .ok b ((s.took next rest).extend us) := by
        have front' : (s.extend us).queue = next :: (rest ++ us) := by simp [front]
        rw [take_accepts front' decided]
        rfl
      constructor
      · exact disciplined
      · intro _ us
        rw [longer, eq]
        rfl
      · intro s₀ s₀' us c cut ok left
        rw [eq] at ok
        injection ok with value state
        have behind : rest = s₀'.queue ++ us := congrArg ParseState.queue state
        have front₀ : s₀.queue = next :: s₀'.queue := by
          rw [cut, ParseState.queue_extend, behind, ← List.cons_append] at front
          exact List.append_cancel_right front
        have same : (s₀.took next s₀'.queue).extend us = s₀'.extend us := by
          rw [← state, cut, behind]
          rfl
        rw [take_accepts front₀ decided, value, ParseState.extend_injective same]
      · intro found expected' position s' failed
        rw [eq] at failed
        cases failed
      · intro pending
        rw [eq] at pending
        exact (Completes.at_once b _ pending fun us _ => longer us).anyhow

theorem skip (s : ParseState) : Incremental Used Unterminated (run skip) s := by
  have longer {s₀ : ParseState} {us : List Token} (settles : s₀.Settles us) :
      run Parser.skip (s₀.extend us) = .ok () (s₀.skipTerminators.extend us) :=
    congrArg (EStateM.Result.ok ()) (ParseState.skipTerminators_extend settles)
  constructor
  · exact .skip s
  · intro settled us
    exact longer (ParseState.settles_of_ne settled us)
  · intro s₀ s₀' us a cut ok left
    injection ok with _ state
    have stopped : s₀.skipTerminators.queue ≠ [] := by
      intro spent
      have within := (ParseState.queue_extend_of_spent spent us).length_le
      have some_left := List.length_pos_iff.mpr left
      have queues := congrArg (fun s' => s'.queue.length) state
      simp only [cut, ParseState.queue_extend, List.length_append] at queues
      omega
    have same := longer (ParseState.settles_of_ne stopped us)
    rw [← cut] at same
    injection same with _ same
    rw [← ParseState.extend_injective (same.symm.trans state)]
    rfl
  · intro found expected position s' failed
    cases failed
  · intro spent
    exact (Completes.skip spent fun _ => id).anyhow

/-- Less may follow. -/
theorem narrow {x : Action α} {s : ParseState} (h : Incremental stop follow x s)
    (follows : ∀ next, follow' next → follow next) : Incremental stop follow' x s where
  disciplined := h.disciplined
  stable := h.stable
  truncates := h.truncates
  blames := h.blames
  completes := fun pending => (h.completes pending).relax (fun _ => id) follows

/-- An outcome counts as pending when terminators are left. -/
theorem spent {x : Action α} {s : ParseState} (h : Incremental Used follow x s) :
    Incremental Spent follow x s := by
  have wider : Pending Used (x s) → Pending Spent (x s) := by
    intro pending
    cases eq : x s with
    | ok a s' =>
      rw [eq] at pending
      have empty : s'.queue = [] := pending
      simp [Pending, Spent, empty]
    | error cause s' =>
      rw [eq] at pending
      exact pending.of_error
  refine ⟨h.disciplined, fun settled => h.stable (mt wider settled), h.truncates, h.blames, ?_⟩
  intro pending
  by_cases used : Pending Used (x s)
  · refine (h.completes used).relax ?_ fun _ => id
    intro q empty
    rw [empty]
    simp [Spent]
  · have longer := h.stable used
    cases eq : x s with
    | ok a s' =>
      rw [eq] at pending longer
      exact (Completes.at_once a s' pending fun rest _ => longer rest).anyhow
    | error cause s' =>
      rw [eq] at pending used
      exact absurd pending.of_error used

end Incremental

theorem getLast?_of_suffix {q q' : List Token} {t : Token} (within : q' <:+ q)
    (last : t ∈ q'.getLast?) : t ∈ q.getLast? := by
  obtain ⟨before, rfl⟩ := within
  rw [List.getLast?_append, Option.mem_def.mp last]
  rfl

theorem lookPast_seen {found : Token → Bool} {inside : Action α} {otherwise : α} {s : ParseState}
    (seen : s.skipTerminators.peek.any found) :
    lookPast found inside otherwise s = inside s.skipTerminators := if_pos seen

theorem lookPast_unseen {found : Token → Bool} {inside : Action α} {otherwise : α} {s : ParseState}
    (unseen : ¬s.skipTerminators.peek.any found) :
    lookPast found inside otherwise s = .ok otherwise s.skipToLastTerminator := if_neg unseen

/-! ### Looking past terminators -/

section LookPast

variable {found : Token → Bool} {inside : Action α} {otherwise : α} {s : ParseState}

theorem unseen_of_spent (spent : s.skipTerminators.queue = []) :
    ¬s.skipTerminators.peek.any found := by
  simp [ParseState.peek, spent]

/-- What is seen behind the terminators does not depend on what comes later. -/
theorem skipTerminators_of_ne (left : s.skipTerminators.queue ≠ []) (us : List Token) :
    (s.extend us).skipTerminators = s.skipTerminators.extend us ∧
      (s.extend us).skipTerminators.peek = s.skipTerminators.peek := by
  have eq := ParseState.skipTerminators_extend (ParseState.settles_of_ne left us)
  exact ⟨eq, by rw [eq, ParseState.peek_extend left]⟩

/-- The terminators that stay are all that is left if nothing stands behind them. -/
theorem spent_of_skipTerminators (spent : s.skipTerminators.queue = []) :
    Spent s.skipToLastTerminator.queue := by
  intro t mem
  have split := s.queue_eq_terminators
  rw [spent, List.append_nil] at split
  apply ParseState.isTerminator_of_mem (s := s) t
  rw [← split]
  exact s.reaches_skipToLastTerminator.suffix.mem mem

theorem skipTerminators_of_spent (spent : Spent s.skipToLastTerminator.queue) :
    s.skipTerminators.queue = [] := by
  cases front : s.skipTerminators.queue with
  | nil => rfl
  | cons t rest =>
    have first := s.not_isTerminator_of_head t (by simp [front])
    exact absurd (spent t (s.suffix_skipToLastTerminator.mem (by simp [front]))) first

theorem Stable.lookPast
    (h : s.skipTerminators.peek.any found → Stable Spent inside s.skipTerminators) :
    Stable Spent (lookPast found inside otherwise) s := by
  intro settled us
  by_cases spent : s.skipTerminators.queue = []
  · rw [lookPast_unseen (unseen_of_spent spent)] at settled
    exact absurd (spent_of_skipTerminators spent) settled
  · obtain ⟨skipped, peeked⟩ := skipTerminators_of_ne spent us
    by_cases seen : s.skipTerminators.peek.any found
    · rw [lookPast_seen seen] at settled ⊢
      rw [lookPast_seen (peeked ▸ seen), skipped]
      exact h seen settled us
    · rw [lookPast_unseen seen, lookPast_unseen (peeked ▸ seen),
        ParseState.skipToLastTerminator_extend (ParseState.settles_of_ne spent us)]
      rfl

/-- A queue of terminators that is cut where a terminator stays leaves none of them behind. -/
theorem settles_of_left {s₀ s₀' : ParseState} {us : List Token}
    (spent : s₀.skipTerminators.queue = []) (left : s₀'.queue ≠ [])
    (same : (s₀.extend us).skipToLastTerminator = s₀'.extend us) : s₀.Settles us := by
  have short := ParseState.queue_extend_of_spent spent us
  have some_left := List.length_pos_iff.mpr left
  have within := (s₀.extend us).left_skipToLastTerminator
  rw [same] at within
  simp only [ParseState.left, ParseState.queue_extend, List.length_append] at within
  have all : (s₀.extend us).skipTerminators.queue = us := short.eq_of_length_le (by omega)
  apply ParseState.settles_of_head
  rw [← all]
  exact ParseState.not_isTerminator_of_head

theorem Truncates.lookPast
    (disciplined : s.skipTerminators.peek.any found → Disciplined inside s.skipTerminators)
    (h : s.skipTerminators.peek.any found → Truncates inside s.skipTerminators) :
    Truncates (lookPast found inside otherwise) s := by
  intro s₀ s₀' us a cut ok left
  by_cases spent : s₀.skipTerminators.queue = []
  · by_cases seen : s.skipTerminators.peek.any found
    · -- Behind the terminators stands no more than what was cut off, and a token was left of it.
      rw [lookPast_seen seen] at ok
      have reached := ((disciplined seen).reaches_of_ok ok).suffix.length_le
      have within := (ParseState.queue_extend_of_spent spent us).length_le
      have some_left := List.length_pos_iff.mpr left
      simp only [cut, ParseState.queue_extend, List.length_append] at reached
      omega
    · rw [lookPast_unseen seen] at ok
      injection ok with value state
      rw [cut] at state
      have settles := settles_of_left spent left state
      rw [ParseState.skipToLastTerminator_extend settles] at state
      rw [lookPast_unseen (unseen_of_spent spent), value, ParseState.extend_injective state]
  · obtain ⟨skipped, peeked⟩ := skipTerminators_of_ne spent us
    rw [← cut] at skipped peeked
    by_cases seen : s.skipTerminators.peek.any found
    · rw [lookPast_seen seen] at ok
      rw [lookPast_seen (peeked ▸ seen)]
      exact h seen _ _ us a skipped ok left
    · rw [lookPast_unseen seen, cut,
        ParseState.skipToLastTerminator_extend (ParseState.settles_of_ne spent us)] at ok
      injection ok with value state
      rw [lookPast_unseen (peeked ▸ seen), value, ParseState.extend_injective state]

theorem Blames.lookPast
    (h : s.skipTerminators.peek.any found → Blames inside s.skipTerminators) :
    Blames (lookPast found inside otherwise) s := by
  intro found' expected position s' failed
  by_cases seen : s.skipTerminators.peek.any found
  · rw [lookPast_seen seen] at failed
    obtain ⟨s₀', us, cut', ⟨last, mem, spelled⟩, s'', eq⟩ := h seen _ _ _ _ failed
    have left : s₀'.queue ≠ [] := List.ne_nil_of_mem (List.mem_of_getLast? mem)
    have reached := s.reaches_skipTerminators
    rw [cut'] at reached
    obtain ⟨s₀, cut, within⟩ := reached.exists_extend
    have skipped := (Incremental.skip s).truncates s₀ s₀' us () cut
      (congrArg (EStateM.Result.ok ()) cut') left
    injection skipped with _ skipped
    have peeked : s₀.skipTerminators.peek = s.skipTerminators.peek := by
      rw [skipped, cut', ParseState.peek_extend left]
    refine ⟨s₀, us, cut, ⟨last, getLast?_of_suffix within mem, spelled⟩, s'', ?_⟩
    rw [lookPast_seen (peeked ▸ seen), skipped, eq]
  · rw [lookPast_unseen seen] at failed
    cases failed

/-- Nothing is needed behind terminators if neither they nor what is looked for may follow. -/
theorem Completes.lookPast_unseen {follow : Option Token → Prop}
    (follows : ∀ next, follow next → ∀ t ∈ next, ¬t.isTerminator ∧ ¬found t)
    (spent : Spent s.skipToLastTerminator.queue) :
    Completes follow Spent follow (lookPast found inside otherwise) s := by
  apply at_once otherwise s.skipToLastTerminator spent
  intro rest ends
  have settles : s.Settles rest :=
    ParseState.settles_of_head fun t mem => (follows _ ends t mem).1
  have unseen : ¬(s.extend rest).skipTerminators.peek.any found := by
    rw [ParseState.skipTerminators_extend settles, ParseState.peek, ParseState.queue_extend,
      skipTerminators_of_spent spent, List.nil_append]
    intro seen
    obtain ⟨t, mem, is⟩ := (Option.any_eq_true _ _).mp seen
    exact (follows _ ends t mem).2 is
  rw [Parser.lookPast_unseen unseen, ParseState.skipToLastTerminator_extend settles]

theorem Incremental.lookPast (otherwise : α) {follow : Option Token → Prop}
    (follows : ∀ next, follow next → ∀ t ∈ next, ¬t.isTerminator ∧ ¬found t)
    (h : s.skipTerminators.peek.any found → Incremental Spent follow inside s.skipTerminators) :
    Incremental Spent follow (lookPast found inside otherwise) s where
  disciplined := .lookPast otherwise fun seen => (h seen).disciplined
  stable := .lookPast fun seen => (h seen).stable
  truncates := .lookPast (fun seen => (h seen).disciplined) fun seen => (h seen).truncates
  blames := .lookPast fun seen => (h seen).blames
  completes := by
    intro pending
    by_cases seen : s.skipTerminators.peek.any found
    · rw [lookPast_seen seen] at pending
      apply ((h seen).completes pending).transfer
      intro us
      have left : s.skipTerminators.queue ≠ [] := fun spent => unseen_of_spent spent seen
      obtain ⟨skipped, peeked⟩ := skipTerminators_of_ne left us
      rw [lookPast_seen (peeked ▸ seen), skipped]
    · rw [lookPast_unseen seen] at pending
      exact (Completes.lookPast_unseen follows pending).anyhow

end LookPast

/-! ### One action after the other -/

section Bind

variable {stop stop' : List Token → Prop} {between follow : Option Token → Prop}
  {x : Action α} {f : α → Action β} {s : ParseState}

theorem Stable.bind (hx : Stable stop x s)
    (hf : ∀ a s', x s = .ok a s' → Stable stop' (f a) s')
    (pending : ∀ a s', x s = .ok a s' → stop s'.queue → Pending stop' (f a s')) :
    Stable stop' (x >>= f) s := by
  intro settled us
  cases eq : x s with
  | ok a s' =>
    rw [bind_of_ok eq] at settled ⊢
    have first : ¬Pending stop (x s) := by
      rw [eq]
      exact fun stopped => settled (pending a s' eq stopped)
    have longer := hx first us
    rw [eq] at longer
    rw [bind_of_ok longer]
    exact hf a s' eq settled us
  | error cause s' =>
    rw [bind_of_error eq] at settled ⊢
    have first : ¬Pending stop (x s) := by
      rw [eq]
      exact mt Pending.of_error settled
    have longer := hx first us
    rw [eq] at longer
    exact bind_of_error longer

theorem Truncates.bind (hx : Truncates x s)
    (disciplined : ∀ a s', x s = .ok a s' → Disciplined (f a) s')
    (hf : ∀ a s', x s = .ok a s' → Truncates (f a) s') : Truncates (x >>= f) s := by
  intro s₀ s₀'' us b cut ok left
  obtain ⟨a, s', first, second⟩ := ok_of_bind ok
  obtain ⟨s₀', cut', within⟩ := ((disciplined a s' first).reaches_of_ok second).exists_extend
  have left' : s₀'.queue ≠ [] := by
    intro empty
    rw [empty, List.suffix_nil] at within
    exact left within
  rw [cut'] at first
  rw [bind_of_ok (hx s₀ s₀' us a cut first left')]
  exact hf a s' (cut' ▸ first) s₀' s₀'' us b cut' second left

theorem Blames.bind (disciplined : Disciplined x s) (truncates : Truncates x s) (hx : Blames x s)
    (hf : ∀ a s', x s = .ok a s' → Blames (f a) s') : Blames (x >>= f) s := by
  intro found expected position s'' failed
  cases eq : x s with
  | ok a s' =>
    rw [bind_of_ok eq] at failed
    obtain ⟨s₀', us, cut', ⟨last, mem, spelled⟩, s₀'', eq'⟩ := hf a s' eq _ _ _ _ failed
    have left : s₀'.queue ≠ [] := List.ne_nil_of_mem (List.mem_of_getLast? mem)
    have reached := disciplined.reaches_of_ok eq
    rw [cut'] at reached eq
    obtain ⟨s₀, cut, within⟩ := reached.exists_extend
    refine ⟨s₀, us, cut, ⟨last, getLast?_of_suffix within mem, spelled⟩, s₀'', ?_⟩
    rw [bind_of_ok (truncates s₀ s₀' us a cut eq left), eq']
  | error cause s' =>
    rw [bind_of_error eq] at failed
    injection failed with cause_eq
    rw [cause_eq] at eq
    obtain ⟨s₀, us, cut, spelled, s₀', eq'⟩ := hx _ _ _ _ eq
    exact ⟨s₀, us, cut, spelled, s₀', bind_of_error eq'⟩

/-- If the first action is not pending, the second one is completed where the first one ends. -/
theorem Completes.bind_of_settled {before : Option Token → Prop} (hx : Stable stop x s)
    (first : ¬Pending stop (x s))
    (hf : ∀ a s', x s = .ok a s' → Pending stop' (f a s') →
      Completes before stop' follow (f a) s')
    (pending : Pending stop' ((x >>= f) s)) : Completes before stop' follow (x >>= f) s := by
  have longer := hx first
  cases eq : x s with
  | ok a s' =>
    rw [bind_of_ok eq] at pending
    rw [eq] at longer
    exact (hf a s' eq pending).transfer fun us => bind_of_ok (longer us)
  | error cause s' =>
    rw [bind_of_error eq] at pending
    rw [eq] at first
    exact absurd pending.of_error first

namespace Incremental

/-- One action after the other. Where the first one ends at the end of the queue, the second one has
to be pending, and it has to be one that can be completed from there. -/
theorem bind_of_pending (hx : Incremental stop between x s)
    (hf : ∀ a s', x s = .ok a s' → Incremental stop' follow (f a) s')
    (pending : ∀ a s', x s = .ok a s' → stop s'.queue → Pending stop' (f a s'))
    (restart : ∀ a s', stop s'.queue → Completes between stop' follow (f a) s') :
    Incremental stop' follow (x >>= f) s where
  disciplined := .bind hx.disciplined fun a s' eq => (hf a s' eq).disciplined
  stable := hx.stable.bind (fun a s' eq => (hf a s' eq).stable) pending
  truncates := hx.truncates.bind (fun a s' eq => (hf a s' eq).disciplined)
    fun a s' eq => (hf a s' eq).truncates
  blames := hx.blames.bind hx.disciplined hx.truncates fun a s' eq => (hf a s' eq).blames
  completes := by
    intro incomplete
    by_cases first : Pending stop (x s)
    · exact (hx.completes first).bind restart
    · exact .bind_of_settled hx.stable first (fun a s' eq => (hf a s' eq).completes) incomplete

/-- One action after another one that needs nothing behind what it leaves. -/
theorem bind (hx : Incremental Used between x s)
    (hf : ∀ a s', x s = .ok a s' → Incremental stop follow (f a) s')
    (restart : ∀ a s', s'.queue = [] → Completes between stop follow (f a) s')
    (base : stop []) : Incremental stop follow (x >>= f) s := by
  refine bind_of_pending hx hf ?_ restart
  intro a s' eq used
  exact pending_of_empty base used (hf a s' eq).disciplined

theorem bind_pure (hx : Incremental stop follow x s) (g : α → β) :
    Incremental stop follow (x >>= fun a => Pure.pure (g a)) s :=
  hx.bind_of_pending (fun a s' _ => pure (g a) s') (fun _ _ _ => id)
    fun a _ stopped => .pure (g a) stopped

/-- An action that is incremental from every state, after one that anything may follow. -/
theorem seq (hx : Incremental Used Anything x s) (base : stop [])
    (hf : ∀ a s', Incremental stop follow (f a) s') :
    Incremental stop follow (x >>= f) s :=
  hx.bind (fun a s' _ => hf a s') (fun a s' used => (hf a s').restart used base) base

end Incremental

end Bind

end Parser

end RatLang
