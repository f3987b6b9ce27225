import Mathlib.Data.List.TakeWhile
import RatLang.Proofs.Lexer.Comment

/-!
# The lines of a text

A text is split at its newlines, and a newline at its end opens no line that can be sought. Every
character of a text stands on one of its lines, at most one column behind the last character of the
line, and a source finds this line by its number.
-/

namespace RatLang

/-- The position is that of a character of the text, which begins at `p`. -/
def Within (p : Position) (text : List Char) (q : Position) : Prop :=
  ∃ before rest, text = before ++ rest ∧ rest ≠ [] ∧ q = p.after before

namespace Within

variable {p q : Position} {text : List Char}

theorem front (left : text ≠ []) : Within p text p := ⟨[], text, rfl, left, rfl⟩

theorem behind {u : List Char} (h : Within (p.after u) text q) : Within p (u ++ text) q := by
  obtain ⟨before, rest, rfl, left, rfl⟩ := h
  exact ⟨u ++ before, rest, (List.append_assoc u before rest).symm, left,
    (Position.after_append p u before).symm⟩

theorem append (h : Within p text q) (r : List Char) : Within p (text ++ r) q := by
  obtain ⟨before, rest, rfl, left, rfl⟩ := h
  exact ⟨before, rest ++ r, List.append_assoc before rest r, by simp [left], rfl⟩

end Within

/-! ### Whole lines -/

/-- The text ends where a line ends. -/
def WholeLines (text : List Char) : Prop := text = [] ∨ ∃ before, text = before ++ ['\n']

namespace WholeLines

variable {lead : List Char}

theorem after (whole : WholeLines lead) :
    Position.start.after lead = ⟨lead.count '\n' + 1, 1⟩ := by
  obtain rfl | ⟨before, rfl⟩ := whole
  · rfl
  · rw [Position.after_append, List.count_append]
    simp [Position.next, Piece.line_after, Position.start]
    omega

/-- Reading on to the line behind whole lines reads these, and stops because it is there: the text
does not end before. -/
theorem readTo (whole : WholeLines lead) {source : Source} {rest : List Char}
    (front : source.rest = lead ++ rest) :
    source.readTo (source.position.line + lead.count '\n') = source.advanceBy lead.length := by
  obtain rfl | ⟨before, rfl⟩ := whole
  · exact Source.readTo_of_le (Nat.le_refl _)
  · induction before generalizing source with
    | nil =>
      have place : source.advance.position = source.position.next '\n' :=
        (Source.advance_reads front).position
      rw [Source.readTo_of_lt front (by simp)]
      exact Source.readTo_of_le (by rw [place, Position.next]; simp)
    | cons c before ih =>
      have reads := Source.advance_reads front
      have behind : source.advance.rest = before ++ ['\n'] ++ rest :=
        (List.cons.inj (reads.rest.symm.trans front)).2
      have place : source.advance.position.line + (before ++ ['\n']).count '\n' =
          source.position.line + (c :: before ++ ['\n']).count '\n' := by
        rw [reads.position, Position.after_cons, Position.after_nil, Position.next]
        by_cases newline : c = '\n'
        · simp [newline]
          omega
        · simp [newline]
      rw [Source.readTo_of_lt front (by simp), ← place, ih behind]
      rfl

/-- The line behind whole lines is found by its number: the source stands at its start, with what
is behind the lines still to be read and nothing to be un-read. -/
theorem seekLine (whole : WholeLines lead) {source : Source} {rest : List Char}
    (split : source.chars = lead ++ rest) (counted : lead.count '\n' < source.lineCount) :
    ∃ reached, source.seekLine (lead.count '\n' + 1) = .ok reached ∧
      reached.position = ⟨lead.count '\n' + 1, 1⟩ ∧ reached.undo = none ∧ reached.rest = rest := by
  have front : source.reset.rest = lead ++ rest := split
  have reads := Source.advanceBy_prefix front
  have sought : source.reset.readTo (lead.count '\n' + 1) =
      source.reset.advanceBy lead.length := by
    rw [Nat.add_comm]
    exact whole.readTo front
  refine ⟨{ source.reset.advanceBy lead.length with undo := none }, ?_, ?_, rfl, ?_⟩
  · rw [Source.seekLine, if_neg (by omega), sought]
  · exact reads.position.trans whole.after
  · exact List.append_cancel_left (reads.rest.symm.trans front)

end WholeLines

/-- Within a line a position moves on by columns. -/
theorem Position.after_line (p : Position) {u : List Char} (single : '\n' ∉ u) :
    p.after u = ⟨p.line, p.column + u.length⟩ := by
  induction u generalizing p with
  | nil => rfl
  | cons c u ih =>
    rw [List.mem_cons, not_or] at single
    rw [after_cons, ih _ single.2, next, if_neg (Ne.symm single.1), List.length_cons]
    simp only [Position.mk.injEq, true_and]
    omega

/-! ### Places on lines -/

/-- A place in a text: the line on which it stands, with the text in front of the line and the
text from there on. -/
structure OnLine (text : List Char) (q : Position) (line : List Char) : Prop where
  named : (text.splitOn '\n')[q.line - 1]? = some line
  line_pos : 1 ≤ q.line
  column_pos : 1 ≤ q.column
  column_le : q.column ≤ line.length + 1
  sought : ∃ lead rest, text = lead ++ rest ∧ rest ≠ [] ∧ WholeLines lead ∧
    q.line = lead.count '\n' + 1 ∧ line = rest.takeWhile (· != '\n')

namespace OnLine

variable {source : Source} {q : Position} {line : List Char}

/-- The line of a place is one of the lines that are counted. -/
theorem line_le (h : OnLine source.chars q line) : q.line ≤ source.lineCount := by
  obtain ⟨lead, rest, split, left, -, number, -⟩ := h.sought
  have last : source.chars.getLast? = some (rest.getLast left) := by
    rw [split, List.getLast?_append_of_ne_nil _ left, List.getLast?_eq_some_getLast left]
  have newlines : source.chars.count '\n' = lead.count '\n' + rest.count '\n' := by
    rw [split, List.count_append]
  rw [Source.lineCount, last, number]
  dsimp only
  split
  · rename_i newline
    have : 0 < rest.count '\n' := List.count_pos_iff.mpr (newline ▸ List.getLast_mem left)
    omega
  · omega

/-- A source finds the line of a place by its number, wherever it stands, and reads it without a
carriage return at its end. -/
theorem quoted (h : OnLine source.chars q line) :
    ∃ reached, source.seekLine q.line = .ok reached ∧
      reached.readLine.1 = String.ofList (Source.dropCarriageReturn line) := by
  have counted := h.line_le
  obtain ⟨lead, rest, split, -, whole, number, rfl⟩ := h.sought
  rw [number] at counted ⊢
  obtain ⟨reached, found, -, -, behind⟩ := whole.seekLine split counted
  refine ⟨reached, found, ?_⟩
  rw [Source.readLine_eq, behind]

end OnLine

end RatLang
