import RatLang.Position
import RatLang.Text.Class

/-!
# Source texts

A source is a text with a place in it. Characters are read from the left, and the last one that
was read can be un-read, once. A source can also be moved to the start of a line, which is how a
report finds the line that it quotes.

The text is kept as the characters before the place, newest first, and those after it. Nothing
else is needed to know the number of the place and its position, but both are carried along so that
reading costs one step.
-/

namespace RatLang

/-- A place in a text. -/
structure Snapshot where
  /-- The number of characters before the place. -/
  cursor : Nat
  /-- The position of the place. -/
  position : Position
deriving DecidableEq, Repr

/-- A text with a place in it. -/
structure Source where
  /-- How reports call the text. -/
  name : String
  /-- The characters before the place, the last one first. -/
  consumed : List Char
  /-- The characters after the place. -/
  rest : List Char
  /-- The number of characters before the place. -/
  cursor : Nat
  /-- The position of the place. -/
  position : Position
  /-- The place before the last read, while that read can be undone. -/
  undo : Option Snapshot
deriving DecidableEq, Repr

/-- Why a source cannot be moved as asked. -/
inductive SeekError where
  /-- There is no read to undo. -/
  | invalidReverse (position : Position)
  /-- The text has no such line. -/
  | lineOutOfBounds (requested available : Nat)
deriving DecidableEq, Repr

namespace SeekError

/-- The wording of the error. -/
def message : SeekError → String
  | invalidReverse position =>
    "cannot reverse at " ++ position.text ++ ": no character to un-read"
  | lineOutOfBounds requested available =>
    "line " ++ toString requested ++ " out of bounds (file has " ++ toString available ++ " lines)"

/-- The place the error points at. -/
def position? : SeekError → Option Position
  | invalidReverse position => some position
  | lineOutOfBounds _ _ => none

end SeekError

namespace Source

/-- The start of a text. -/
def ofString (name text : String) : Source :=
  ⟨name, [], text.toList, 0, .start, none⟩

/-- All characters of the text. -/
def chars (source : Source) : List Char := source.consumed.reverse ++ source.rest

/-- The place where the source is. -/
def snapshot (source : Source) : Snapshot := ⟨source.cursor, source.position⟩

/-- The next character, which stays unread. -/
def peek (source : Source) : Option Char := source.rest.head?

/-- The source after its next character. At the end only the chance to un-read is lost. -/
def advance (source : Source) : Source :=
  match source.rest with
  | [] => { source with undo := none }
  | c :: rest =>
    { source with
      consumed := c :: source.consumed
      rest := rest
      cursor := source.cursor + 1
      position := source.position.next c
      undo := some source.snapshot }

/-- Reads the next character. -/
def read (source : Source) : Option Char × Source := (source.peek, source.advance)

/-- The source after `n` reads. -/
def advanceBy : Nat → Source → Source
  | 0, source => source
  | n + 1, source => advanceBy n source.advance

/-- The source back at a place where it has been. -/
def backTo (source : Source) (place : Snapshot) : Source :=
  let steps := source.cursor - place.cursor
  { source with
    consumed := source.consumed.drop steps
    rest := (source.consumed.take steps).reverse ++ source.rest
    cursor := place.cursor
    position := place.position
    undo := none }

/-- Un-reads the last character that was read. Only a read makes this possible again. -/
def reverse (source : Source) : Except SeekError Source :=
  match source.undo with
  | some before => .ok (source.backTo before)
  | none => .error (.invalidReverse source.position)

theorem length_rest_advance (source : Source) :
    source.advance.rest.length = source.rest.length - 1 := by
  unfold advance
  split <;> simp [*]

theorem length_rest_advanceBy (n : Nat) (source : Source) :
    (source.advanceBy n).rest.length = source.rest.length - n := by
  induction n generalizing source with
  | zero => rfl
  | succ n ih => rw [advanceBy, ih, length_rest_advance]; omega

/-- Where a character is left, reading it leaves fewer. -/
theorem length_rest_of_peek {source : Source} {c : Char} (next : source.peek = some c) :
    source.advance.rest.length < source.rest.length := by
  obtain ⟨rest, front⟩ := List.head?_eq_some_iff.mp next
  rw [length_rest_advance, front]
  simp

/-- The whitespace that comes next. -/
def blanks (source : Source) : List Char := source.rest.takeWhile Text.isBlank

/-- Reads the whitespace that comes next, and says whether it holds a newline. -/
def skipBlanks (source : Source) : Bool × Source :=
  match next : source.peek with
  | none => (false, source)
  | some c =>
    if Text.isBlank c then
      have := length_rest_of_peek next
      let (newline, reached) := source.advance.skipBlanks
      (c == '\n' || newline, reached)
    else (false, source)
termination_by source.rest.length

/-- The start of the text again. -/
def reset (source : Source) : Source :=
  { source with
    consumed := []
    rest := source.chars
    cursor := 0
    position := .start
    undo := none }

/-- The number of lines. A newline at the end opens no line. -/
def lineCount (source : Source) : Nat :=
  match source.chars.getLast? with
  | none => 0
  | some last =>
    let newlines := source.chars.count '\n'
    if last = '\n' then newlines else newlines + 1

/-- Reads on until the source stands on a line with at least this number, or the text ends. -/
def readTo (line : Nat) (source : Source) : Source :=
  if source.position.line < line then
    match next : source.peek with
    | none => source.advance
    | some _ =>
      have := length_rest_of_peek next
      source.advance.readTo line
  else source
termination_by source.rest.length

/-- The start of a line, counted from one. -/
def seekLine (source : Source) (line : Nat) : Except SeekError Source :=
  if line = 0 ∨ source.lineCount < line then
    .error (.lineOutOfBounds line source.lineCount)
  else .ok { source.reset.readTo line with undo := none }

/-- A line without the carriage return at its end. -/
def dropCarriageReturn (line : List Char) : List Char :=
  if line.getLast? = some '\r' then line.dropLast else line

/-- Reads the rest of the line and its newline, and gives what stands before the newline. -/
def readToNewline (source : Source) : List Char × Source :=
  match next : source.peek with
  | none => ([], source.advance)
  | some c =>
    if c = '\n' then ([], source.advance)
    else
      have := length_rest_of_peek next
      let (line, reached) := source.advance.readToNewline
      (c :: line, reached)
termination_by source.rest.length

/-- Reads the rest of the line and its newline. The text that is returned ends before the newline,
and before a carriage return that precedes it or the end. -/
def readLine (source : Source) : String × Source :=
  let (line, reached) := source.readToNewline
  (String.ofList (dropCarriageReturn line), { reached with undo := none })

/-! ### What the loops come to -/

theorem advanceBy_succ (n : Nat) (source : Source) :
    source.advanceBy (n + 1) = (source.advanceBy n).advance := by
  induction n generalizing source with
  | zero => rfl
  | succ n ih => rw [advanceBy, ih, advanceBy]

/-- Going back to the place before a read undoes the read. -/
theorem reverse_advance {source : Source} (left : source.rest ≠ []) :
    source.advance.reverse = .ok { source with undo := none } := by
  obtain ⟨c, rest, front⟩ := List.exists_cons_of_ne_nil left
  simp [advance, front, reverse, backTo, snapshot]

/-- Un-reading undoes the last read. -/
theorem reverse_advanceBy {source : Source} {n : Nat} (left : n < source.rest.length) :
    (source.advanceBy (n + 1)).reverse = .ok { source.advanceBy n with undo := none } := by
  have more : (source.advanceBy n).rest.length = source.rest.length - n :=
    length_rest_advanceBy n source
  rw [advanceBy_succ]
  refine reverse_advance fun none_left => ?_
  rw [none_left, List.length_nil] at more
  omega

/-- A character that comes next is the first one that is left. -/
theorem rest_eq_of_peek {source : Source} {c : Char} (next : source.peek = some c) :
    source.rest = c :: source.advance.rest := by
  obtain ⟨rest, front⟩ := List.head?_eq_some_iff.mp next
  rw [advance, front]

/-- All whitespace that comes next is skipped, and nothing else. -/
theorem skipBlanks_eq (source : Source) :
    source.skipBlanks = (source.blanks.contains '\n', source.advanceBy source.blanks.length) := by
  fun_induction skipBlanks source with
  | case1 source ended => simp [blanks, List.head?_eq_none_iff.mp ended, advanceBy]
  | case2 source c next blank _ newline reached skipped ih =>
    obtain ⟨rfl, rfl⟩ := Prod.mk.inj (skipped.symm.trans ih)
    have first : source.blanks = c :: source.advance.blanks := by
      rw [blanks, rest_eq_of_peek next, List.takeWhile_cons_of_pos blank, blanks]
    rw [first, List.contains_cons, Bool.beq_comm, List.length_cons, advanceBy]
  | case3 source c next visible =>
    simp [blanks, rest_eq_of_peek next, List.takeWhile_cons_of_neg visible, advanceBy]

end Source

end RatLang
