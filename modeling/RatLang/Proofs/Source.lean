import RatLang.Source

/-!
# Reading a source

Reading some characters moves a source behind them, and its position with it. Positions grow with
every character that is read.
-/

namespace RatLang

namespace Position

theorem compare_eq_lt_iff {p q : Position} :
    compare p q = .lt ↔ p.line < q.line ∨ p.line = q.line ∧ p.column < q.column := by
  show (compare p.line q.line).then (compare p.column q.column) = .lt ↔ _
  rw [Ordering.then_eq_lt, Nat.compare_eq_lt, Nat.compare_eq_eq, Nat.compare_eq_lt]

theorem isLE_iff {p q : Position} :
    (compare p q).isLE ↔ p.line < q.line ∨ p.line = q.line ∧ p.column ≤ q.column := by
  show ((compare p.line q.line).then (compare p.column q.column)).isLE ↔ _
  rw [Ordering.isLE_then_iff_or, Nat.compare_eq_lt, Nat.compare_eq_eq, Nat.isLE_compare]

theorem compare_trans {p q r : Position} (first : compare p q = .lt) (second : compare q r = .lt) :
    compare p r = .lt := by
  rw [compare_eq_lt_iff] at *
  omega

theorem compare_of_isLE {p q r : Position} (first : compare p q = .lt)
    (second : (compare q r).isLE) : compare p r = .lt := by
  rw [compare_eq_lt_iff] at *
  rw [isLE_iff] at second
  omega

theorem compare_next (p : Position) (c : Char) : compare p (p.next c) = .lt := by
  rw [compare_eq_lt_iff]
  unfold next
  split
  · exact .inl (Nat.lt_succ_self _)
  · exact .inr ⟨rfl, Nat.lt_succ_self _⟩

/-- A position grows with the characters that are read. -/
theorem compare_after (p : Position) {chars : List Char} (some_read : chars ≠ []) :
    compare p (p.after chars) = .lt := by
  induction chars generalizing p with
  | nil => exact absurd rfl some_read
  | cons c rest ih =>
    rw [after_cons]
    cases rest with
    | nil => exact compare_next p c
    | cons d more => exact compare_trans (compare_next p c) (ih _ (List.cons_ne_nil d more))

theorem compare_self (p : Position) : compare p p = .eq := by
  show (compare p.line p.line).then (compare p.column p.column) = .eq
  simp

theorem isLE_after (p : Position) (chars : List Char) : (compare p (p.after chars)).isLE := by
  by_cases some_read : chars = []
  · rw [some_read, after_nil, compare_self]
    rfl
  · rw [compare_after p some_read]
    rfl

/-- A position names one character of a text. -/
theorem after_injective {p : Position} {before before' rest rest' : List Char}
    (text : before ++ rest = before' ++ rest') (same : p.after before = p.after before') :
    before = before' := by
  obtain ⟨more, eq, -⟩ | ⟨more, eq, -⟩ := List.append_eq_append_iff.mp text
  · by_cases none_read : more = []
    · rw [eq, none_read, List.append_nil]
    · have grows := compare_after (p.after before) none_read
      rw [← after_append, ← eq, ← same, compare_self] at grows
      cases grows
  · by_cases none_read : more = []
    · rw [eq, none_read, List.append_nil]
    · have grows := compare_after (p.after before') none_read
      rw [← after_append, ← eq, same, compare_self] at grows
      cases grows

end Position

namespace Source

/-- One source is the other one after some characters have been read. -/
structure Reads (source : Source) (chars : List Char) (reached : Source) : Prop where
  rest : source.rest = chars ++ reached.rest
  position : reached.position = source.position.after chars

namespace Reads

theorem refl (source : Source) : source.Reads [] source := ⟨rfl, rfl⟩

theorem trans {source reached last : Source} {chars more : List Char}
    (first : source.Reads chars reached) (second : reached.Reads more last) :
    source.Reads (chars ++ more) last := by
  constructor
  · rw [first.rest, second.rest, List.append_assoc]
  · rw [second.position, first.position, Position.after_append]

end Reads

theorem advance_reads {source : Source} {c : Char} {rest : List Char}
    (front : source.rest = c :: rest) : source.Reads [c] source.advance := by
  unfold advance
  rw [front]
  exact ⟨front, rfl⟩

theorem advanceBy_nil {source : Source} (n : Nat) (empty : source.rest = []) :
    (source.advanceBy n).rest = [] ∧ (source.advanceBy n).position = source.position := by
  induction n generalizing source with
  | zero => exact ⟨empty, rfl⟩
  | succ n ih =>
    have next : source.advance = { source with undo := none } := by rw [advance, empty]
    rw [advanceBy, next]
    exact ih empty

theorem advanceBy_reads (n : Nat) (source : Source) :
    source.Reads (source.rest.take n) (source.advanceBy n) := by
  induction n generalizing source with
  | zero => exact .refl source
  | succ n ih =>
    cases front : source.rest with
    | nil =>
      obtain ⟨rest, position⟩ := advanceBy_nil (n + 1) front
      exact ⟨by rw [front, rest]; rfl, position⟩
    | cons c rest =>
      have first := advance_reads front
      have next : source.advance.rest = rest := by
        have split := first.rest
        rw [front, List.singleton_append] at split
        injection split with _ same
        exact same.symm
      have more := ih source.advance
      rw [next] at more
      exact first.trans more

/-- Reading a prefix of what comes next. -/
theorem advanceBy_prefix {source : Source} {chars rest : List Char}
    (front : source.rest = chars ++ rest) : source.Reads chars (source.advanceBy chars.length) := by
  have reads := advanceBy_reads chars.length source
  rw [front, List.take_left] at reads
  exact reads

theorem skipBlanks_reads (source : Source) :
    source.Reads source.blanks source.skipBlanks.2 := by
  rw [skipBlanks_eq]
  exact advanceBy_prefix List.takeWhile_append_dropWhile.symm

/-- Where the line is reached, no more is read. -/
theorem readTo_of_le {source : Source} {line : Nat} (reached : line ≤ source.position.line) :
    source.readTo line = source := by
  rw [readTo, if_neg (Nat.not_lt.mpr reached)]

/-- In front of the line one more character is read. -/
theorem readTo_of_lt {source : Source} {line : Nat} {c : Char} {rest : List Char}
    (front : source.rest = c :: rest) (before : source.position.line < line) :
    source.readTo line = source.advance.readTo line := by
  have next : source.peek = some c := by rw [peek, front, List.head?_cons]
  rw [readTo, if_pos before]
  split
  · rename_i ended
    cases ended.symm.trans next
  · rfl

/-- The line ends in front of the next newline, and the newline is read with it. At the end of the
text one more read finds nothing. -/
theorem readToNewline_eq (source : Source) :
    source.readToNewline = (source.rest.takeWhile (· != '\n'),
      source.advanceBy ((source.rest.takeWhile (· != '\n')).length + 1)) := by
  fun_induction readToNewline source with
  | case1 source ended => simp [List.head?_eq_none_iff.mp ended, advanceBy]
  | case2 source newline => simp [rest_eq_of_peek newline, advanceBy]
  | case3 source c next inside _ line reached more ih =>
    obtain ⟨rfl, rfl⟩ := Prod.mk.inj (more.symm.trans ih)
    rw [rest_eq_of_peek next, List.takeWhile_cons_of_pos (by simpa using inside)]
    rfl

theorem readLine_eq (source : Source) :
    source.readLine = (String.ofList (dropCarriageReturn (source.rest.takeWhile (· != '\n'))),
      { source.advanceBy ((source.rest.takeWhile (· != '\n')).length + 1) with undo := none }) := by
  rw [readLine, readToNewline_eq]

theorem isBlank_of_mem (source : Source) : ∀ c ∈ source.blanks, Text.isBlank c :=
  List.all_eq_true.mp List.all_takeWhile

end Source

end RatLang
