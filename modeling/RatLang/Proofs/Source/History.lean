import Mathlib.Data.List.DropRight
import RatLang.Proofs.Source

/-!
# What a source knows of its place

A source carries its position along, and the position before the last read. Whatever has been done
with it, both are those that the characters before the place determine: the line counts the newlines
among them and the column the characters behind the last one. So a place and its position name each
other.
-/

namespace RatLang

namespace Position

/-- The position that is counted from the characters before it: its line from the newlines among
them, and its column from the characters behind the last newline. -/
def counted (before : List Char) : Position :=
  ⟨1 + before.count '\n', 1 + (before.rtakeWhile (· != '\n')).length⟩

theorem start_after (before : List Char) : Position.start.after before = counted before := by
  induction before using List.reverseRecOn with
  | nil => rfl
  | append_singleton before c ih =>
    rw [after_append, after_cons, after_nil, ih, next, counted, counted, List.rtakeWhile_concat]
    by_cases newline : c = '\n'
    · simp [newline, Nat.add_assoc]
    · simp [newline, Nat.add_assoc]

end Position

/-- The place behind the given characters. -/
def Snapshot.behind (before : List Char) : Snapshot :=
  ⟨before.length, Position.start.after before⟩

namespace Source

/-- What can be done with a source. -/
inductive Operation where
  | read | peek | reverse | skipBlanks | reset
  | seekLine (line : Nat)
  | readLine
deriving DecidableEq, Repr

/-- The source after an operation. One that fails leaves it as it was. -/
def perform (source : Source) : Operation → Source
  | .read => source.read.2
  | .peek => source
  | .reverse => source.reverse.toOption.getD source
  | .skipBlanks => source.skipBlanks.2
  | .reset => source.reset
  | .seekLine line => (source.seekLine line).toOption.getD source
  | .readLine => source.readLine.2

/-- The source after operations one after the other. -/
def performAll (source : Source) (history : List Operation) : Source :=
  history.foldl perform source

/-- The source is at a place of this text, and knows at which. -/
structure Knows (source : Source) (name : String) (text : List Char) : Prop where
  name : source.name = name
  text : source.chars = text
  place : source.snapshot = .behind source.consumed.reverse
  /-- The read that can be undone is that of the last character before the place. -/
  undo : ∀ before, source.undo = some before → ∃ c consumed,
    source.consumed = c :: consumed ∧ before = .behind consumed.reverse

namespace Knows

variable {source : Source} {name : String} {text : List Char}

theorem cursor (h : source.Knows name text) : source.cursor = source.consumed.length := by
  have place := congrArg Snapshot.cursor h.place
  rwa [Snapshot.behind, List.length_reverse] at place

theorem position (h : source.Knows name text) :
    source.position = Position.start.after source.consumed.reverse :=
  congrArg Snapshot.position h.place

theorem ofString (name text : String) : (Source.ofString name text).Knows name text.toList :=
  ⟨rfl, rfl, rfl, nofun⟩

theorem forget (h : source.Knows name text) :
    { source with undo := none : Source }.Knows name text :=
  ⟨h.name, h.text, h.place, nofun⟩

theorem advance (h : source.Knows name text) : source.advance.Knows name text := by
  unfold Source.advance
  split
  · exact h.forget
  · rename_i c rest front
    refine ⟨h.name, ?_, ?_, ?_⟩
    · rw [← h.text]
      simp [chars, front]
    · rw [snapshot, Snapshot.behind, List.reverse_cons, Position.after_append, ← h.position,
        List.length_append, List.length_reverse, ← h.cursor]
      rfl
    · rintro before ⟨⟩
      exact ⟨c, source.consumed, rfl, h.place⟩

theorem advanceBy (h : source.Knows name text) (n : Nat) :
    (source.advanceBy n).Knows name text := by
  induction n generalizing source with
  | zero => exact h
  | succ n ih => exact ih h.advance

theorem reset (h : source.Knows name text) : source.reset.Knows name text :=
  ⟨h.name, h.text, rfl, nofun⟩

theorem readTo (h : source.Knows name text) (line : Nat) :
    (source.readTo line).Knows name text := by
  fun_induction Source.readTo line source with
  | case1 source _ _ => exact h.advance
  | case2 source _ _ _ _ ih => exact ih h.advance
  | case3 => exact h

/-- A read that can be undone is undone to the place one character before. -/
theorem reverse {place : Snapshot} (h : source.Knows name text)
    (pending : source.undo = some place) :
    source.reverse = .ok (source.backTo place) ∧ place.cursor + 1 = source.cursor ∧
      (source.backTo place).Knows name text := by
  obtain ⟨c, consumed, eq, rfl⟩ := h.undo place pending
  have before : (Snapshot.behind consumed.reverse).cursor + 1 = source.cursor := by
    rw [h.cursor, eq, Snapshot.behind, List.length_reverse, List.length_cons]
  have back : source.backTo (.behind consumed.reverse) = ⟨source.name, consumed, c :: source.rest,
      consumed.length, Position.start.after consumed.reverse, none⟩ := by
    have steps : source.cursor - consumed.length = 1 := by rw [h.cursor, eq]; simp
    simp [backTo, Snapshot.behind, steps, eq]
  refine ⟨by rw [Source.reverse, pending], before, ?_⟩
  rw [back]
  refine ⟨h.name, ?_, ?_, ?_⟩
  · rw [← h.text]
    simp [chars, eq]
  · simp [snapshot, Snapshot.behind]
  · rintro _ ⟨⟩

theorem perform (h : source.Knows name text) (op : Operation) :
    (source.perform op).Knows name text := by
  cases op with
  | read => exact h.advance
  | peek => exact h
  | reverse =>
    rw [Source.perform]
    cases pending : source.undo with
    | none =>
      have refused : source.reverse = .error (.invalidReverse source.position) := by
        rw [Source.reverse, pending]
      rw [refused]
      exact h
    | some place =>
      obtain ⟨undone, -, knows⟩ := h.reverse pending
      rw [undone]
      exact knows
  | skipBlanks =>
    rw [Source.perform, skipBlanks_eq]
    exact h.advanceBy _
  | reset => exact h.reset
  | seekLine line =>
    rw [Source.perform, seekLine]
    split
    · exact h
    · exact (h.reset.readTo line).forget
  | readLine =>
    rw [Source.perform, readLine_eq]
    exact (h.advanceBy _).forget

theorem performAll (h : source.Knows name text) (history : List Operation) :
    (source.performAll history).Knows name text := by
  induction history generalizing source with
  | nil => exact h
  | cons op history ih => exact ih (h.perform op)

theorem consumed_eq (h : source.Knows name text) :
    source.consumed.reverse = text.take source.cursor := by
  rw [← h.text, chars, h.cursor, ← List.length_reverse, List.take_left]

theorem rest_eq (h : source.Knows name text) : source.rest = text.drop source.cursor := by
  rw [← h.text, chars, h.cursor, ← List.length_reverse, List.drop_left]

theorem cursor_le (h : source.Knows name text) : source.cursor ≤ text.length := by
  rw [← h.text, chars, h.cursor, List.length_append, List.length_reverse]
  exact Nat.le_add_right _ _

theorem position_eq (h : source.Knows name text) :
    source.position = .counted (text.take source.cursor) := by
  rw [h.position, h.consumed_eq, Position.start_after]

/-- Two sources of one text are at one place if their positions are the same, and only then. -/
theorem position_eq_iff {other : Source} (h : source.Knows name text)
    (h' : other.Knows name text) :
    other.position = source.position ↔ other.cursor = source.cursor := by
  constructor
  · intro same
    have split : other.consumed.reverse ++ other.rest = source.consumed.reverse ++ source.rest :=
      h'.text.trans h.text.symm
    rw [h'.position, h.position] at same
    have before := congrArg List.length (Position.after_injective split same)
    rwa [List.length_reverse, List.length_reverse, ← h'.cursor, ← h.cursor] at before
  · intro same
    rw [h'.position_eq, h.position_eq, same]

end Knows

/-- What a source is after some history, in terms of its text and its cursor. -/
structure Placed (source : Source) (name text : String) : Prop where
  named : source.name = name
  whole : source.chars = text.toList
  cursor_le : source.cursor ≤ text.toList.length
  /-- The cursor counts the characters that have been read. -/
  before : source.consumed.reverse = text.toList.take source.cursor
  behind : source.rest = text.toList.drop source.cursor
  position : source.position = .counted (text.toList.take source.cursor)
  /-- What the last read can be undone to is the place one character before, with its position. -/
  pending : ∀ place, source.undo = some place → place.cursor + 1 = source.cursor ∧
    place.position = .counted (text.toList.take place.cursor) ∧
    ∃ back, source.reverse = .ok back ∧ back.cursor = place.cursor ∧
      back.position = place.position

/-- After any history of operations a source has its name and its text, and the place where it is
determines its position. The position determines the place in turn. -/
theorem placed_of_history (name text : String) (history : List Operation) :
    ((ofString name text).performAll history).Placed name text ∧
      ∀ other : List Operation,
        ((ofString name text).performAll other).position =
            ((ofString name text).performAll history).position ↔
          ((ofString name text).performAll other).cursor =
            ((ofString name text).performAll history).cursor := by
  have knows (history : List Operation) := (Knows.ofString name text).performAll history
  refine ⟨⟨(knows history).name, (knows history).text, (knows history).cursor_le,
    (knows history).consumed_eq, (knows history).rest_eq, (knows history).position_eq, ?_⟩,
    fun other => (knows history).position_eq_iff (knows other)⟩
  intro place pending
  obtain ⟨undone, one, back⟩ := (knows history).reverse pending
  exact ⟨one, back.position_eq, _, undone, rfl, rfl⟩

end Source

end RatLang
