import RatLang.Diagnostic
import RatLang.Proofs.Source.Seek

/-!
# A report points at its column

A report that quotes a line of its source shows three lines with a bar, one below the other, however
long the number of the line is. The indicator in the last of them stands below the character of the
column, also behind tabs, and behind the line if the column is not one of the line. What is shown
does not depend on the place where the source stands.
-/

namespace RatLang.Diagnostic

/-! ### Bars -/

theorem length_gutter (l : Nat) : (gutter l).length = (toString l).length := by
  rw [gutter, ← String.length_toList, String.toList_ofList, List.length_replicate]

theorem bar_notMem_gutter (l : Nat) : '|' ∉ (gutter l).toList := by
  rw [gutter, String.toList_ofList, List.mem_replicate]
  exact fun bar => absurd bar.2 (by decide)

theorem bar_notMem_toString (l : Nat) : '|' ∉ (toString l).toList := by
  rw [Nat.toString_eq_ofList_toDigits, String.toList_ofList]
  intro bar
  have digit := Nat.isDigit_of_mem_toDigits (by decide) (by decide) bar
  exact absurd digit (by decide)

/-- The first bar of a line stands behind its margin and a blank. -/
theorem idxOf_bar {shown margin : String} {behind : List Char} (plain : '|' ∉ margin.toList)
    (split : shown.toList = margin.toList ++ ' ' :: '|' :: behind) :
    shown.toList.idxOf '|' = margin.length + 1 := by
  have other : (' ' == '|') = false := by decide
  rw [split, List.idxOf_append_of_notMem plain, List.idxOf_cons, other, List.idxOf_cons_self,
    String.length_toList]
  rfl

/-- The bars of the three lines of a quotation stand below each other. -/
theorem bars_aligned (l : Nat) (line indentation marker : String) :
    ∀ shown ∈ [gutter l ++ " |\n", toString l ++ " | " ++ line ++ "\n",
      gutter l ++ " | " ++ indentation ++ marker ++ "\n"],
        shown.toList.idxOf '|' = (toString l).length + 1 := by
  have blank := bar_notMem_gutter l
  rintro shown mem
  simp only [List.mem_cons, List.not_mem_nil, or_false] at mem
  rcases mem with rfl | rfl | rfl
  · rw [← length_gutter]
    exact idxOf_bar blank (by rw [String.toList_append]; rfl)
  · exact idxOf_bar (bar_notMem_toString l) (by
      simp only [String.toList_append, List.append_assoc]
      rfl)
  · rw [← length_gutter]
    exact idxOf_bar blank (by
      simp only [String.toList_append, List.append_assoc]
      rfl)

/-! ### The indentation -/

theorem length_indentation (line : String) (column : Nat) :
    (indentation line column).length = min (column - 1) line.length := by
  rw [indentation, ← String.length_toList, String.toList_ofList, List.length_map,
    List.length_take, String.length_toList]

/-- A tab stands below a tab, and a blank below any other character. -/
theorem getElem?_indentation (line : String) (column : Nat) {i : Nat}
    (inside : i < (indentation line column).length) :
    (indentation line column).toList[i]? =
      if line.toList[i]? = some '\t' then some '\t' else some ' ' := by
  rw [length_indentation] at inside
  have counted : i < line.toList.length := by
    rw [String.length_toList]
    omega
  rw [indentation, String.toList_ofList, List.getElem?_map, List.getElem?_take_of_lt (by omega),
    List.getElem?_eq_getElem counted, Option.map_some]
  split <;> simp_all

/-! ### A report -/

theorem exists_quotedLine {source : Source} {l : Nat} (positive : 1 ≤ l)
    (bound : l ≤ source.lineCount) :
    ∃ sought piece, source.seekLine l = .ok sought ∧
      (linesOf source.chars)[l - 1]? = some piece ∧ sought.readLine.1 = textOfLine piece ∧
      quotedLine source l = .ok (textOfLine piece, sought.readLine.2) ∧
      (sought.readLine.2.position = ⟨l + 1, 1⟩ ∨ sought.readLine.2.rest = []) := by
  obtain ⟨sought, eq, place, -, behind⟩ := Source.exists_seekLine positive bound
  have counted : l - 1 < (linesOf source.chars).length := by
    rw [← Source.lineCount_eq]
    omega
  have first : sought.readLine.1 = textOfLine (linesOf source.chars)[l - 1] := by
    rw [sought.readLine_lines.1, behind, List.headD_eq_head?_getD, List.head?_drop,
      List.getElem?_eq_getElem counted, Option.getD_some]
  have reaches := sought.readLine_reaches
  rw [place] at reaches
  refine ⟨sought, _, eq, List.getElem?_eq_getElem counted, first, ?_, reaches⟩
  rw [quotedLine, eq, ← first]

/-- What is shown depends on the text and not on the place in it. -/
theorem render_of_knows {source other : Source} {name text : String}
    (h : source.Knows name text.toList) (h' : other.Knows name text.toList)
    (report : Diagnostic) (style : ReportStyle) :
    (report.render style source).1 = (report.render style other).1 := by
  have same (l : Nat) : quotedLine source l = quotedLine other l := by
    rw [quotedLine, quotedLine, h.seekLine_eq, h'.seekLine_eq]
  unfold render
  cases report.position with
  | none => rfl
  | some p =>
    dsimp only
    rw [same, h.name, h'.name]
    split
    · cases quotedLine other p.line <;> rfl
    · rfl

/-- A report of a line of the source shows, below its header and an arrow, the line as it is read
between two lines whose bars stand below each other. The indicator stands behind as many characters
as there are in front of the column, at most those of the line, each a tab or a blank as the line
has it. The source is then where the next line begins, or at its end. A report of a line that the
source does not have shows the header and the arrow, and the source stays where it is. What is shown
is the same wherever the source stands. -/
theorem render_points (name text : String) (history : List Source.Operation) (severity : Severity)
    (message : String) (indicator : Char) (l c : Nat) :
    let source := (Source.ofString name text).performAll history
    let report : Diagnostic := ⟨severity, message, some ⟨l, c⟩⟩
    let style : ReportStyle := ⟨false, true, indicator⟩
    let margin := String.ofList (List.replicate (toString l).length ' ')
    let header := severity.text ++ ": " ++ message ++ "\n"
    let arrow := margin ++ "--> " ++ name ++ ":" ++ toString l ++ ":" ++ toString c ++ "\n"
    (1 ≤ l ∧ l ≤ source.lineCount →
      ∃ sought piece top quoted marked indentation,
        source.seekLine l = .ok sought ∧
        (linesOf text.toList)[l - 1]? = some piece ∧ sought.readLine.1 = textOfLine piece ∧
        report.render style source =
          (header ++ arrow ++ top ++ quoted ++ marked, sought.readLine.2) ∧
        top = margin ++ " |\n" ∧ quoted = toString l ++ " | " ++ textOfLine piece ++ "\n" ∧
        marked = margin ++ " | " ++ indentation ++ String.singleton indicator ++ "\n" ∧
        (∀ shown ∈ [top, quoted, marked], shown.toList.idxOf '|' = (toString l).length + 1) ∧
        indentation.length = min (c - 1) (textOfLine piece).length ∧
        (∀ i < indentation.length, indentation.toList[i]? =
          if (textOfLine piece).toList[i]? = some '\t' then some '\t' else some ' ') ∧
        (sought.readLine.2.position = ⟨l + 1, 1⟩ ∨ sought.readLine.2.rest = [])) ∧
      (l = 0 ∨ source.lineCount < l → report.render style source = (header ++ arrow, source)) ∧
      ∀ other : List Source.Operation,
        (report.render style ((Source.ofString name text).performAll other)).1 =
          (report.render style source).1 := by
  intro source report style margin header arrow
  have knows (history : List Source.Operation) :=
    (Source.Knows.ofString name text).performAll history
  have named : source.name = name := (knows history).name
  refine ⟨?_, ?_, fun other => render_of_knows (knows other) (knows history) report style⟩
  · rintro ⟨positive, bound⟩
    obtain ⟨sought, piece, eq, line, read, found, reaches⟩ := exists_quotedLine positive bound
    rw [(knows history).text] at line
    refine ⟨sought, piece, _, _, _, indentation (textOfLine piece) c, eq, line, read, ?_, rfl, rfl,
      rfl, bars_aligned l _ _ _, length_indentation _ _, fun i => getElem?_indentation _ _, reaches⟩
    simp only [render, found, named, report, style, if_true]
    simp only [snippet, Diagnostic.header, ReportStyle.paint, Position.text, gutter,
      String.append_assoc, header, arrow, margin]
    rfl
  · intro outside
    have refused : quotedLine source l = .error (.lineOutOfBounds l source.lineCount) := by
      rw [quotedLine, Source.seekLine_outside outside]
    simp only [render, refused, named, report, style, if_true]
    simp only [Diagnostic.header, ReportStyle.paint, Position.text, gutter,
      String.append_assoc, header, arrow, margin]
    rfl

end RatLang.Diagnostic
