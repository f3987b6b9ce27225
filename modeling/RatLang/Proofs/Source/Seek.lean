import Mathlib.Data.List.Forall2
import RatLang.Proofs.Source.History
import RatLang.Proofs.Source.Lines

/-!
# Seeking and reading lines

The lines of a text are the pieces between its newlines, and an empty piece at the end is none. A
source counts exactly these, it finds exactly these by their numbers, and reading from the start of
one of them on gives them one after the other. So all lines together make up the text, up to the
carriage returns that reading drops and a newline at the end.
-/

namespace RatLang

/-- The lines of a text: the pieces between its newlines, without an empty one at the end. -/
def linesOf (text : List Char) : List (List Char) :=
  let pieces := text.splitOn '\n'
  if pieces.getLast? = some [] then pieces.dropLast else pieces

/-- What reading makes of a line: one carriage return at its end is left out. -/
inductive Trimmed : List Char → String → Prop where
  | carriageReturn (text : String) : Trimmed (text.toList ++ ['\r']) text
  | whole {text : String} (bare : ∀ front, text.toList ≠ front ++ ['\r']) :
    Trimmed text.toList text

/-- A line as it is read. -/
def textOfLine (line : List Char) : String :=
  match line.reverse with
  | '\r' :: front => String.ofList front.reverse
  | _ => String.ofList line

theorem textOfLine_concat (front : List Char) :
    textOfLine (front ++ ['\r']) = String.ofList front := by
  simp [textOfLine]

theorem textOfLine_of_bare {line : List Char} (bare : ∀ front, line ≠ front ++ ['\r']) :
    textOfLine line = String.ofList line := by
  unfold textOfLine
  split
  · rename_i front ends
    exact absurd (by simpa using congrArg List.reverse ends) (bare front.reverse)
  · rfl

theorem textOfLine_eq (line : List Char) :
    textOfLine line = String.ofList (Source.dropCarriageReturn line) := by
  unfold Source.dropCarriageReturn
  split
  · rename_i ends
    obtain ⟨front, rfl⟩ := List.getLast?_eq_some_iff.mp ends
    rw [textOfLine_concat, List.dropLast_concat]
  · rename_i bare
    refine textOfLine_of_bare fun front ends => bare ?_
    rw [ends, List.getLast?_concat]

theorem trimmed_iff {line : List Char} {text : String} :
    Trimmed line text ↔ text = textOfLine line := by
  constructor
  · rintro (_ | bare)
    · rw [textOfLine_concat, String.ofList_toList]
    · rw [textOfLine_of_bare bare, String.ofList_toList]
  · rintro rfl
    by_cases ends : ∃ front, line = front ++ ['\r']
    · obtain ⟨front, rfl⟩ := ends
      rw [textOfLine_concat]
      simpa using Trimmed.carriageReturn (.ofList front)
    · rw [textOfLine_of_bare (not_exists.mp ends)]
      simpa using Trimmed.whole (by simpa using ends : ∀ front, (String.ofList line).toList ≠ _)

/-- A text line by line. -/
inductive Lined : List Char → Prop where
  | nothing : Lined []
  | last {line : List Char} (left : line ≠ []) (single : '\n' ∉ line) : Lined line
  | line {line rest : List Char} (single : '\n' ∉ line) (more : Lined rest) :
    Lined (line ++ '\n' :: rest)

theorem lined (text : List Char) : Lined text := by
  by_cases newline : '\n' ∈ text
  · obtain ⟨line, rest, eq, single⟩ := List.eq_append_cons_of_mem newline
    have shorter : rest.length < text.length := by
      rw [eq, List.length_append, List.length_cons]
      omega
    rw [eq]
    exact .line single (lined rest)
  · by_cases left : text = []
    · rw [left]
      exact .nothing
    · exact .last left newline
termination_by text.length

/-! ### The lines of a text -/

variable {line rest text : List Char}

theorem linesOf_nil : linesOf [] = [] := rfl

theorem linesOf_last (left : line ≠ []) (single : '\n' ∉ line) : linesOf line = [line] := by
  simp [linesOf, List.splitOn_eq_singleton single, left]

theorem linesOf_line (single : '\n' ∉ line) (rest : List Char) :
    linesOf (line ++ '\n' :: rest) = line :: linesOf rest := by
  have more : rest.splitOn '\n' ≠ [] := List.splitOn_ne_nil '\n' rest
  rw [linesOf, linesOf, List.splitOn_append_cons_self_of_not_mem single]
  rw [List.getLast?_cons, List.getLast?_eq_some_getLast more, List.dropLast_cons_of_ne_nil more]
  split <;> simp_all

theorem linesOf_ne_nil (left : text ≠ []) : linesOf text ≠ [] := by
  cases lined text with
  | nothing => exact absurd rfl left
  | last left single => simp [linesOf_last left single]
  | line single _ => simp [linesOf_line single]

/-- The lines make up the text, up to a newline at its end. -/
theorem exists_intercalate_linesOf (text : List Char) :
    ∃ final, (final = [] ∨ final = ['\n']) ∧
      text = ['\n'].intercalate (linesOf text) ++ final := by
  induction lined text with
  | nothing => exact ⟨[], .inl rfl, rfl⟩
  | last left single =>
    refine ⟨[], .inl rfl, ?_⟩
    rw [linesOf_last left single, List.intercalate_singleton, List.append_nil]
  | @line line rest single _ ih =>
    rw [linesOf_line single]
    by_cases more : rest = []
    · refine ⟨['\n'], .inr rfl, ?_⟩
      rw [more, linesOf_nil, List.intercalate_singleton]
    · obtain ⟨final, newline, eq⟩ := ih
      refine ⟨final, newline, ?_⟩
      rw [List.intercalate_cons_of_ne_nil (linesOf_ne_nil more), List.append_assoc, ← eq]
      simp

/-- Behind the first lines of a text stand the others. -/
theorem exists_lead {n : Nat} {text : List Char} (bound : n < (linesOf text).length) :
    ∃ lead rest, text = lead ++ rest ∧ rest ≠ [] ∧ WholeLines lead ∧ lead.count '\n' = n ∧
      linesOf rest = (linesOf text).drop n := by
  induction n generalizing text with
  | zero =>
    refine ⟨[], text, rfl, ?_, .inl rfl, rfl, rfl⟩
    rintro rfl
    exact absurd bound (Nat.lt_irrefl 0)
  | succ n ih =>
    cases lined text with
    | nothing => exact absurd bound (Nat.not_lt_zero _)
    | last left single =>
      rw [linesOf_last left single, List.length_singleton] at bound
      omega
    | @line line rest single _ =>
      rw [linesOf_line single, List.length_cons] at bound
      obtain ⟨lead, behind, rfl, left, whole, count, lines⟩ := ih (Nat.lt_of_succ_lt_succ bound)
      refine ⟨line ++ '\n' :: lead, behind, by simp, left, ?_, ?_, ?_⟩
      · rcases whole with rfl | ⟨before, rfl⟩
        · exact .inr ⟨line, rfl⟩
        · exact .inr ⟨line ++ '\n' :: before, by simp⟩
      · rw [List.count_append, List.count_eq_zero.mpr single, List.count_cons_self, count,
          Nat.zero_add]
      · rw [linesOf_line single, List.drop_succ_cons, lines]

theorem forall₂_trimmed_iff {lines : List (List Char)} {texts : List String} :
    List.Forall₂ Trimmed lines texts ↔ texts = lines.map textOfLine := by
  constructor
  · intro read
    induction read with
    | nil => rfl
    | cons first _ ih => rw [List.map_cons, trimmed_iff.mp first, ih]
  · rintro rfl
    exact List.forall₂_map_right_iff.mpr (List.forall₂_same.mpr fun _ _ => trimmed_iff.mpr rfl)

namespace Source

variable {source : Source}

theorem lineCount_eq (source : Source) : source.lineCount = (linesOf source.chars).length := by
  unfold lineCount
  generalize source.chars = text
  induction lined text with
  | nothing => rfl
  | @last line left single =>
    have other : line.getLast left ≠ '\n' := fun eq => single (eq ▸ List.getLast_mem left)
    rw [linesOf_last left single, List.getLast?_eq_some_getLast left]
    dsimp only
    rw [if_neg other, List.count_eq_zero.mpr single, List.length_singleton]
  | @line line rest single _ ih =>
    have count : (line ++ '\n' :: rest).count '\n' = rest.count '\n' + 1 := by
      rw [List.count_append, List.count_eq_zero.mpr single, List.count_cons_self, Nat.zero_add]
    rw [linesOf_line single, List.length_cons, ← ih, count]
    cases last : rest.getLast? with
    | none =>
      rw [List.getLast?_eq_none_iff.mp last]
      simp
    | some d =>
      simp only [List.getLast?_append, List.getLast?_cons, last]
      dsimp only [Option.getD_some, Option.some_or]
      split <;> rfl

theorem rest_advanceBy (n : Nat) (source : Source) :
    (source.advanceBy n).rest = source.rest.drop n := by
  have reads := advanceBy_reads n source
  exact List.append_cancel_left (reads.rest.symm.trans (List.take_append_drop n _).symm)

/-- Reading a line takes the first of the lines that are left, and there is always one to take:
behind the last line an empty one is read. -/
theorem readLine_lines (source : Source) :
    source.readLine.1 = textOfLine ((linesOf source.rest).headD []) ∧
      linesOf source.readLine.2.rest = (linesOf source.rest).tail := by
  rw [readLine_eq, ← textOfLine_eq]
  dsimp only
  rw [rest_advanceBy]
  generalize source.rest = text
  cases lined text with
  | nothing => exact ⟨rfl, rfl⟩
  | last left single =>
    rw [List.takeWhile_eq_self_iff.mpr (inside_line single), linesOf_last left single,
      List.drop_of_length_le (Nat.le_succ _)]
    exact ⟨rfl, rfl⟩
  | @line line rest single _ =>
    have next : (line ++ '\n' :: rest).drop (line.length + 1) = rest := by
      rw [← List.drop_drop, List.drop_left]
      rfl
    rw [takeWhile_newline single, linesOf_line single, next]
    exact ⟨rfl, rfl⟩

/-- Reading a line leads to the start of the next one, or to the end of the text. -/
theorem readLine_reaches (source : Source) :
    source.readLine.2.position = ⟨source.position.line + 1, 1⟩ ∨ source.readLine.2.rest = [] := by
  have reads := advanceBy_reads ((source.rest.takeWhile (· != '\n')).length + 1) source
  rw [readLine_eq]
  by_cases newline : '\n' ∈ source.rest
  · left
    obtain ⟨line, rest, split, single⟩ := List.eq_append_cons_of_mem newline
    have place : (source.advanceBy ((source.rest.takeWhile (· != '\n')).length + 1)).position =
        source.position.after (line ++ ['\n']) := by
      rw [reads.position, split, takeWhile_newline single, List.take_length_add_append]
      rfl
    rw [Position.after_append, Position.after_line _ single] at place
    exact place
  · right
    have whole : source.rest.takeWhile (· != '\n') = source.rest :=
      List.takeWhile_eq_self_iff.mpr (inside_line newline)
    show (source.advanceBy _).rest = []
    rw [rest_advanceBy, whole]
    exact List.drop_of_length_le (Nat.le_succ _)

/-- Reads some lines one after the other. -/
def readLines : Nat → Source → List String
  | 0, _ => []
  | k + 1, source => source.readLine.1 :: readLines k source.readLine.2

/-- The lines that are left are read in their order, and empty ones behind them. -/
theorem readLines_lines (k : Nat) (source : Source) :
    source.readLines k =
      (List.range k).map fun i => textOfLine ((linesOf source.rest).getD i []) := by
  induction k generalizing source with
  | zero => rfl
  | succ k ih =>
    obtain ⟨first, more⟩ := source.readLine_lines
    rw [readLines, ih, first, more, List.range_succ_eq_map, List.map_cons, List.map_map]
    cases linesOf source.rest <;> rfl

/-- As many lines are read as there are left. -/
theorem readLines_all (source : Source) :
    source.readLines (linesOf source.rest).length = (linesOf source.rest).map textOfLine := by
  rw [readLines_lines]
  apply List.ext_getElem (by simp)
  intro i _ counted
  rw [List.length_map] at counted
  simp [counted]

/-! ### Seeking -/

/-- Whether a line is found and where depends only on the text, not on the place in it. -/
theorem seekLine_reset (source : Source) (n : Nat) :
    source.reset.seekLine n = source.seekLine n := by
  have same : source.reset.chars = source.chars := rfl
  have count : source.reset.lineCount = source.lineCount := by rw [lineCount, lineCount, same]
  have again : source.reset.reset = source.reset := rfl
  rw [seekLine, seekLine, count, again]

theorem Knows.seekLine_eq {name text : String} (h : source.Knows name text.toList) (n : Nat) :
    source.seekLine n = (Source.ofString name text).seekLine n := by
  have same : source.reset = Source.ofString name text := by
    rw [Source.reset, h.name, h.text]
    rfl
  rw [← same, seekLine_reset]

/-- A source finds each line that is counted, at its start and with the others behind it. -/
theorem exists_seekLine {n : Nat} (positive : 1 ≤ n) (bound : n ≤ source.lineCount) :
    ∃ reached, source.seekLine n = .ok reached ∧ reached.position = ⟨n, 1⟩ ∧
      reached.undo = none ∧ linesOf reached.rest = (linesOf source.chars).drop (n - 1) := by
  have counted : n - 1 < source.lineCount := by omega
  obtain ⟨lead, rest, split, -, whole, count, lines⟩ := exists_lead (lineCount_eq source ▸ counted)
  obtain ⟨reached, found, place, forgotten, behind⟩ := whole.seekLine split (count ▸ counted)
  rw [count, Nat.sub_add_cancel positive] at found place
  exact ⟨reached, found, place, forgotten, behind ▸ lines⟩

theorem bounds_of_seekLine {n : Nat} {reached : Source} (sought : source.seekLine n = .ok reached) :
    1 ≤ n ∧ n ≤ source.lineCount := by
  unfold seekLine at sought
  split at sought
  · cases sought
  · omega

theorem seekLine_outside {n : Nat} (outside : n = 0 ∨ source.lineCount < n) :
    source.seekLine n = .error (.lineOutOfBounds n source.lineCount) := by
  rw [seekLine, if_pos outside]

theorem error_of_seekLine {n : Nat} {cause : SeekError}
    (refused : source.seekLine n = .error cause) :
    cause = .lineOutOfBounds n source.lineCount := by
  unfold seekLine at refused
  split at refused <;> cases refused
  rfl

/-- From the first line on all lines are read. -/
theorem readLines_seekLine (source : Source) :
    (source.perform (.seekLine 1)).readLines source.lineCount =
      (linesOf source.chars).map textOfLine := by
  by_cases empty : source.lineCount = 0
  · rw [empty, List.eq_nil_of_length_eq_zero (source.lineCount_eq.symm.trans empty)]
    rfl
  · obtain ⟨reached, sought, -, -, behind⟩ :=
      exists_seekLine (Nat.le_refl 1) (Nat.pos_of_ne_zero empty)
    have all : linesOf reached.rest = linesOf source.chars := behind
    have moved : source.perform (.seekLine 1) = reached := by
      rw [perform, sought]
      rfl
    rw [moved, lineCount_eq, ← all]
    exact reached.readLines_all

/-- A text has as many lines as are counted, and wherever a source stands in it, it finds these and
no others. The place that it finds depends on the text and the number only: it is the start of the
line, nothing can be un-read there, and reading gives the line and those behind it, then empty ones.
Where there is no such line the source stays where it is. All lines that are read make up the text,
up to the carriage returns at their ends and a newline at the end of the text. -/
theorem seekLine_finds_lines (name text : String) (history : List Operation) (n : Nat) :
    let source := (ofString name text).performAll history
    let lines := linesOf text.toList
    source.lineCount = lines.length ∧
      ((∃ reached, source.seekLine n = .ok reached) ↔ 1 ≤ n ∧ n ≤ source.lineCount) ∧
      (∀ cause, source.seekLine n = .error cause →
        cause = .lineOutOfBounds n source.lineCount ∧ source.perform (.seekLine n) = source) ∧
      (∀ reached, source.seekLine n = .ok reached →
        (ofString name text).seekLine n = .ok reached ∧ reached.position = ⟨n, 1⟩ ∧
          reached.reverse = .error (.invalidReverse ⟨n, 1⟩) ∧
          ∀ k, List.Forall₂ Trimmed ((List.range k).map fun i => lines.getD (n - 1 + i) [])
            (reached.readLines k)) ∧
      List.Forall₂ Trimmed lines
        ((source.perform (.seekLine 1)).readLines source.lineCount) ∧
      ∃ final, (final = [] ∨ final = ['\n']) ∧ text.toList = ['\n'].intercalate lines ++ final := by
  intro source lines
  have knows : source.Knows name text.toList := (Knows.ofString name text).performAll history
  have counted : source.lineCount = lines.length := by rw [lineCount_eq, knows.text]
  refine ⟨counted, ⟨?_, ?_⟩, ?_, ?_, ?_, exists_intercalate_linesOf text.toList⟩
  · rintro ⟨reached, sought⟩
    exact bounds_of_seekLine sought
  · rintro ⟨positive, bound⟩
    obtain ⟨reached, sought, -⟩ := exists_seekLine positive bound
    exact ⟨reached, sought⟩
  · intro cause refused
    refine ⟨error_of_seekLine refused, ?_⟩
    rw [perform, refused]
    rfl
  · intro reached sought
    obtain ⟨positive, bound⟩ := bounds_of_seekLine sought
    obtain ⟨reached', sought', place, forgotten, behind⟩ := exists_seekLine positive bound
    cases sought.symm.trans sought'
    refine ⟨?_, place, ?_, fun k => ?_⟩
    · rw [← knows.seekLine_eq, sought]
    · rw [reverse, forgotten, place]
    · rw [forall₂_trimmed_iff, readLines_lines, behind, knows.text]
      simp [lines]
  · rw [forall₂_trimmed_iff, readLines_seekLine, knows.text]

/-- Only the last of the carriage returns at the end of a line is left out. -/
theorem seekLine_finds_lines_carriageReturn :
    let source := (ofString "a" "x\r\ny\r\r\n\r\nz\r").performAll [.readLine, .read]
    source.lineCount = 4 ∧ ∃ reached, source.seekLine 2 = .ok reached ∧
      reached.position = ⟨2, 1⟩ ∧ reached.readLines 4 = ["y\r", "", "z", ""] := by
  intro source
  obtain ⟨counted, found, -, places, -⟩ := seekLine_finds_lines "a" "x\r\ny\r\r\n\r\nz\r"
    [.readLine, .read] 2
  have four : source.lineCount = 4 := counted.trans (by decide)
  obtain ⟨reached, sought⟩ := found.mpr ⟨by decide, by rw [four]; decide⟩
  obtain ⟨-, place, -, read⟩ := places reached sought
  exact ⟨four, reached, sought, place, (forall₂_trimmed_iff.mp (read 4)).trans (by decide)⟩

end Source

end RatLang
