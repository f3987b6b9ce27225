import RatLang.Proofs.Source.History

/-!
# Un-reading undoes one read

Whether a source can un-read is decided by the last operation of its history that was not idle: it
must have taken a character, by a read or from the whitespace that a skip has read. Un-reading then
goes back in front of this character, which is read again next, and no second character can be
un-read before another one is taken.
-/

namespace RatLang.Source

variable {source start spot : Source} {op : Operation} {lead : List Char} {c : Char}

/-- The characters that an operation takes one at a time. A line is taken as a whole. -/
def taken (source : Source) : Operation → List Char
  | .read => source.read.1.toList
  | .skipBlanks => source.blanks
  | .peek | .reverse | .reset | .seekLine _ | .readLine => []

/-- An operation is idle where it asks only, where it finds no whitespace to skip and where it
fails. A read that finds no character is not idle. -/
def Idle (source : Source) : Operation → Prop
  | .peek => True
  | .skipBlanks => source.blanks = []
  | .reverse => ∃ cause, source.reverse = .error cause
  | .seekLine line => ∃ cause, source.seekLine line = .error cause
  | .read | .reset | .readLine => False

/-- The last operation of a history that was not idle has taken `c` last, and it has found `c` at
`spot`. -/
inductive LastTook (start : Source) : List Operation → Source → Char → Prop where
  | took {history : List Operation} {op : Operation} {lead : List Char} {c : Char}
    (taken : (start.performAll history).taken op = lead ++ [c]) :
    LastTook start (history ++ [op]) ((start.performAll history).advanceBy lead.length) c
  | idle {history : List Operation} {op : Operation} {spot : Source} {c : Char}
    (last : LastTook start history spot c) (idle : (start.performAll history).Idle op) :
    LastTook start (history ++ [op]) spot c

/-! ### One operation -/

theorem reverse_of_undo_none (forgotten : source.undo = none) :
    source.reverse = .error (.invalidReverse source.position) := by
  rw [reverse, forgotten]

theorem eq_of_reverse_error {cause : SeekError} (refused : source.reverse = .error cause) :
    cause = .invalidReverse source.position := by
  unfold reverse at refused
  split at refused <;> cases refused
  rfl

theorem undo_of_reverse {reached : Source} (undone : source.reverse = .ok reached) :
    reached.undo = none := by
  unfold reverse at undone
  split at undone <;> cases undone
  rfl

/-- Un-reading leads to the place right before, because the place that was noted is that one. -/
theorem Knows.cursor_of_reverse {reached : Source} {name : String} {text : List Char}
    (h : source.Knows name text) (undone : source.reverse = .ok reached) :
    reached.cursor + 1 = source.cursor := by
  cases pending : source.undo with
  | none =>
    rw [reverse_of_undo_none pending] at undone
    cases undone
  | some place =>
    obtain ⟨back, one, -⟩ := h.reverse pending
    cases back.symm.trans undone
    exact one

/-- What an operation takes stands in front of it, and it reads this much. -/
theorem perform_of_taken (takes : source.taken op = lead ++ [c]) :
    source.perform op = source.advanceBy (lead.length + 1) ∧
      ∃ rest, source.rest = lead ++ c :: rest := by
  cases op with
  | read =>
    cases front : source.rest with
    | nil => simp [taken, read, peek, front] at takes
    | cons d rest =>
      have single : lead = [] ∧ c = d := by
        simpa [taken, read, peek, front, List.singleton_eq_append_iff] using takes
      obtain ⟨rfl, rfl⟩ := single
      exact ⟨rfl, rest, rfl⟩
  | skipBlanks =>
    have blanks : source.blanks = lead ++ [c] := takes
    refine ⟨?_, source.rest.dropWhile Text.isBlank, ?_⟩
    · rw [perform, skipBlanks_eq, blanks, List.length_append, List.length_singleton]
    · have split : source.rest = source.blanks ++ source.rest.dropWhile Text.isBlank :=
        List.takeWhile_append_dropWhile.symm
      rw [blanks, List.append_assoc] at split
      exact split
  | _ => simp [taken] at takes

/-- An operation that takes characters can be undone up to the last of them. -/
theorem reverse_of_taken (takes : source.taken op = lead ++ [c]) :
    (source.perform op).reverse = .ok { source.advanceBy lead.length with undo := none } ∧
      (source.advanceBy lead.length).peek = some c := by
  obtain ⟨performed, rest, front⟩ := perform_of_taken takes
  constructor
  · rw [performed]
    exact reverse_advanceBy (by rw [front]; simp)
  · have reads := advanceBy_prefix front
    have behind : (source.advanceBy lead.length).rest = c :: rest :=
      List.append_cancel_left (reads.rest.symm.trans front)
    rw [peek, behind, List.head?_cons]

theorem perform_of_idle (idle : source.Idle op) : source.perform op = source := by
  cases op with
  | peek => rfl
  | skipBlanks =>
    have none_left : source.blanks = [] := idle
    rw [perform, skipBlanks_eq, none_left]
    rfl
  | reverse =>
    obtain ⟨cause, refused⟩ := idle
    rw [perform, refused]
    rfl
  | seekLine line =>
    obtain ⟨cause, refused⟩ := idle
    rw [perform, refused]
    rfl
  | read | reset | readLine => exact idle.elim

/-- Every other operation leaves nothing to undo. -/
theorem undo_perform (busy : ¬source.Idle op) (nothing : source.taken op = []) :
    (source.perform op).undo = none := by
  cases op with
  | read =>
    have ended : source.rest = [] := by simpa [taken, read, peek] using nothing
    rw [perform, read, advance, ended]
  | reverse =>
    rw [perform]
    cases undone : source.reverse with
    | error cause => exact absurd ⟨cause, undone⟩ busy
    | ok reached => exact undo_of_reverse undone
  | seekLine line =>
    rw [perform]
    cases sought : source.seekLine line with
    | error cause => exact absurd ⟨cause, sought⟩ busy
    | ok reached =>
      unfold seekLine at sought
      split at sought <;> cases sought
      rfl
  | peek => exact absurd trivial busy
  | skipBlanks => exact absurd nothing busy
  | reset | readLine => rfl

/-- What cannot be undone stays so as long as nothing is taken. -/
theorem undo_perform_of_none (forgotten : source.undo = none) (nothing : source.taken op = []) :
    (source.perform op).undo = none := by
  by_cases idle : source.Idle op
  · rw [perform_of_idle idle, forgotten]
  · exact undo_perform idle nothing

/-! ### A history -/

theorem performAll_concat (start : Source) (history : List Operation) (op : Operation) :
    start.performAll (history ++ [op]) = (start.performAll history).perform op := by
  rw [performAll, List.foldl_append]
  rfl

namespace LastTook

variable {history : List Operation}

/-- Idle operations behind the last one that took a character change nothing. -/
theorem reverse (last : LastTook start history spot c) :
    (start.performAll history).reverse = .ok { spot with undo := none } ∧ spot.peek = some c := by
  induction last with
  | took takes =>
    rw [performAll_concat]
    exact reverse_of_taken takes
  | idle _ idle ih =>
    rw [performAll_concat, perform_of_idle idle]
    exact ih

end LastTook

/-- A history after which there is something to undo has taken a character last. -/
theorem exists_lastTook (forgotten : start.undo = none) (history : List Operation) :
    (∃ spot c, LastTook start history spot c) ∨ (start.performAll history).undo = none := by
  induction history using List.reverseRecOn with
  | nil => exact .inr forgotten
  | append_singleton history op ih =>
    by_cases idle : (start.performAll history).Idle op
    · rw [performAll_concat, perform_of_idle idle]
      rcases ih with ⟨spot, c, last⟩ | stays
      · exact .inl ⟨spot, c, .idle last idle⟩
      · exact .inr stays
    · rcases List.eq_nil_or_concat' ((start.performAll history).taken op) with nothing | takes
      · rw [performAll_concat]
        exact .inr (undo_perform idle nothing)
      · obtain ⟨lead, c, takes⟩ := takes
        exact .inl ⟨_, c, .took takes⟩

/-- Where nothing could be undone and something can be undone later, a character was taken in
between. -/
theorem exists_taken (forgotten : start.undo = none) (history : List Operation)
    (pending : (start.performAll history).undo ≠ none) :
    ∃ before op behind, history = before ++ op :: behind ∧
      (start.performAll before).taken op ≠ [] := by
  induction history generalizing start with
  | nil => exact absurd forgotten pending
  | cons op history ih =>
    by_cases nothing : start.taken op = []
    · obtain ⟨before, op', behind, rfl, takes⟩ :=
        ih (undo_perform_of_none forgotten nothing) pending
      exact ⟨op :: before, op', behind, rfl, takes⟩
    · exact ⟨[], op, history, rfl, nothing⟩

/-- Between two times of un-reading a character is taken. -/
theorem exists_taken_between {history between : List Operation} {reached again : Source}
    (undone : (start.performAll history).reverse = .ok reached)
    (pending : (start.performAll (history ++ .reverse :: between)).reverse = .ok again) :
    ∃ before op behind, between = before ++ op :: behind ∧
      (start.performAll (history ++ .reverse :: before)).taken op ≠ [] := by
  have moved (more : List Operation) :
      start.performAll (history ++ .reverse :: more) = reached.performAll more := by
    rw [performAll, List.foldl_append, List.foldl_cons, ← performAll, ← performAll, perform,
      undone]
    rfl
  have left : (reached.performAll between).undo ≠ none := by
    intro nothing
    rw [moved, reverse_of_undo_none nothing] at pending
    cases pending
  obtain ⟨before, op, behind, split, takes⟩ := exists_taken (undo_of_reverse undone) between left
  exact ⟨before, op, behind, split, by rwa [moved]⟩

/-- A source can un-read exactly if, idle operations apart, the last one has taken a character. It
is then in front of the last character that was taken, which is read again next. Otherwise it stays
where it is, and the error points there. Between two times of un-reading a character is taken. -/
theorem reverse_undoes_read (name text : String) (history : List Operation) :
    let start := ofString name text
    let source := start.performAll history
    ((∃ reached, source.reverse = .ok reached) ↔ ∃ spot c, LastTook start history spot c) ∧
      (∀ spot c, LastTook start history spot c →
        ∃ reached, source.reverse = .ok reached ∧ source.perform .reverse = reached ∧
          reached.cursor = spot.cursor ∧ reached.position = spot.position ∧
          reached.cursor + 1 = source.cursor ∧ reached.read.1 = some c) ∧
      (∀ cause, source.reverse = .error cause →
        cause = .invalidReverse source.position ∧ source.perform .reverse = source) ∧
      ∀ between, (∃ reached, source.reverse = .ok reached) →
        (∃ reached, (start.performAll (history ++ .reverse :: between)).reverse = .ok reached) →
          ∃ before op behind, between = before ++ op :: behind ∧
            (start.performAll (history ++ .reverse :: before)).taken op ≠ [] := by
  intro start source
  have forgotten : start.undo = none := rfl
  have knows : source.Knows name text.toList := (Knows.ofString name text).performAll history
  refine ⟨⟨?_, ?_⟩, ?_, ?_, ?_⟩
  · rintro ⟨reached, undone⟩
    rcases exists_lastTook forgotten history with last | nothing
    · exact last
    · rw [reverse_of_undo_none nothing] at undone
      cases undone
  · rintro ⟨spot, c, last⟩
    exact ⟨_, last.reverse.1⟩
  · intro spot c last
    obtain ⟨undone, found⟩ := last.reverse
    refine ⟨_, undone, ?_, rfl, rfl, knows.cursor_of_reverse undone, found⟩
    rw [perform, undone]
    rfl
  · intro cause refused
    exact ⟨eq_of_reverse_error refused, perform_of_idle ⟨cause, refused⟩⟩
  · rintro between ⟨reached, undone⟩ ⟨again, pending⟩
    exact exists_taken_between undone pending

end RatLang.Source
