import RatLang.Proofs.Lexer.Progress
import RatLang.Proofs.Lexer.Seam

/-!
# Lexing is local to lines

What a line gives does not depend on the lines behind it, and what stands behind a newline gives the
tokens, or the error, of a text of its own, on lines further down. Only the terminators at the
newline become one.
-/

namespace RatLang

/-! ### Errors further down -/

/-- An error of the text points at a place, and moves with it. -/
theorem LexError.position?_mapPosition {cause : LexError} (ofText : cause.isOfText)
    (f : Position → Position) :
    ∃ p, cause.position? = some p ∧ (cause.mapPosition f).position? = some (f p) := by
  cases cause with
  | ambiguousToken | seek => cases ofText
  | unrecognizedToken | unterminatedString | invalidStringChar | unterminatedChar
  | invalidCharLiteral => exact ⟨_, rfl, rfl⟩

/-- Where a text has no tokens, the text itself is at fault. -/
theorem isOfText_of_tokenize {text : String} {cause : LexError}
    (failed : tokenize text = .error cause) : cause.isOfText := by
  obtain ⟨n, -, runs⟩ := (Lexer.ofSource (.ofString "<input>" text)).exists_runsIn
  have ends := runs.ends
  unfold tokenize at failed
  generalize (Lexer.ofSource (.ofString "<input>" text)).run = outcome at failed ends
  cases ends with
  | finished => cases failed
  | failed kept ofText =>
    cases failed
    exact ofText

/-! ### Terminators at a newline -/

/-- The tokens of two lines. The terminator between them is left out behind another one, and it
takes the place of one in front of the second line. -/
def joinLines (first : List Token) (seam : Position) (second : List Token) : List Token :=
  first ++ (if first.getLast?.any Token.isTerminator then [] else [.terminator seam]) ++
    second.dropWhile Token.isTerminator

/-- A terminator takes the place of those behind it. -/
theorem mergeTerminators_dropWhile {t : Token} (ends : t.isTerminator) (u v : List Token) :
    mergeTerminators (u ++ t :: v) = mergeTerminators (u ++ t :: v.dropWhile Token.isTerminator) := by
  induction v with
  | nil => rfl
  | cons s v ih =>
    by_cases ends' : s.isTerminator
    · rw [List.dropWhile_cons_of_pos ends', mergeTerminators_twice u v ends ends', ih]
    · rw [List.dropWhile_cons_of_neg ends']

theorem mergeTerminators_behind {t : Token} {u v : List Token} (ends : t.isTerminator)
    (apart : (u ++ [t]).IsChain Apart) (apart' : v.IsChain Apart) :
    mergeTerminators (u ++ t :: v) = u ++ [t] ++ v.dropWhile Token.isTerminator := by
  have split (w : List Token) : u ++ t :: w = u ++ [t] ++ w := by simp
  rw [mergeTerminators_dropWhile ends, split]
  apply mergeTerminators_eq
  refine List.isChain_append.mpr ⟨apart, apart'.suffix (List.dropWhile_suffix _), ?_⟩
  intro x _ next front _
  have stops := List.head?_dropWhile_not Token.isTerminator v
  rw [Option.mem_def.mp front] at stops
  simpa using stops

/-- Between two lines at most one terminator stays. -/
theorem mergeTerminators_joinLines {first second : List Token} (apart : first.IsChain Apart)
    (apart' : second.IsChain Apart) (seam : Position) :
    mergeTerminators (first ++ .terminator seam :: second) = joinLines first seam second := by
  have terminator : (Token.terminator seam).isTerminator := rfl
  unfold joinLines
  by_cases ended : first.getLast?.any Token.isTerminator
  · obtain ⟨t, last, ends⟩ := (Option.any_eq_true _ _).mp ended
    obtain ⟨u, rfl⟩ := List.getLast?_eq_some_iff.mp last
    rw [if_pos ended, List.append_assoc u, List.singleton_append,
      mergeTerminators_twice u second ends terminator, mergeTerminators_behind ends apart apart',
      List.append_nil]
  · rw [if_neg ended]
    apply mergeTerminators_behind terminator _ apart'
    refine List.isChain_append.mpr ⟨apart, .singleton _, ?_⟩
    intro t last next _ ends
    rw [Option.mem_def.mp last] at ended
    exact absurd ends ended

/-- Merging terminators keeps one at the end of a list. -/
theorem mergeTerminators_last {t : Token} (ends : t.isTerminator) (u : List Token) :
    ∃ v s, s.isTerminator ∧ mergeTerminators (u ++ [t]) = v ++ [s] := by
  induction u with
  | nil => exact ⟨[], t, ends, rfl⟩
  | cons w u ih =>
    obtain ⟨v, s, ends', merged⟩ := ih
    rw [List.cons_append]
    rcases mergeTerminators_cases w (u ++ [t]) with kept | ⟨next, more, first, -, eq, dropped⟩
    · exact ⟨w :: v, s, ends', by rw [kept, merged, List.cons_append]⟩
    · rw [merged] at eq
      cases v with
      | nil =>
        cases eq
        exact ⟨[], w, first, dropped⟩
      | cons x v =>
        cases eq
        exact ⟨w :: v, s, ends', dropped⟩

/-- Where a line ends makes no difference behind a terminator, and merging terminators changes no
other last token. -/
theorem joinLines_lineEnd (p : Position) (text : List Char) (ts second : List Token) :
    joinLines (mergeTerminators ts) (lineEnd p text ts) second =
      joinLines (mergeTerminators ts) (lineEnd p text (mergeTerminators ts)) second := by
  rcases List.eq_nil_or_concat ts with rfl | ⟨u, t, rfl⟩
  · rfl
  · by_cases ends : t.isTerminator
    · obtain ⟨v, s, ends', merged⟩ := mergeTerminators_last ends u
      simp [joinLines, merged, ends']
    · have merged := mergeTerminators_visible ends u []
      simp only [mergeTerminators] at merged
      simp [lineEnd, merged]

/-! ### Two texts with a newline between them -/

/-- A text and a newline in front of another text only move its tokens, or its error, and add their
own tokens. -/
theorem tokenize_seam {a : String} {ta : List Token} (first : tokenize a = .ok ta) (b : String) :
    tokenize (a ++ "\n" ++ b) =
      (shiftTokens (a.toList.count '\n' + 1) (tokenize b)).map
        (joinLines ta (lineEnd .start a.toList ta)) := by
  obtain ⟨ts, cuts, rfl⟩ := exists_cuts first
  have start : Position.mk ((Position.start.after a.toList).line + 1) 1 =
      Position.start.shift (a.toList.count '\n' + 1) := by
    rw [Piece.line_after, Position.shift, Position.start, Nat.add_assoc, Nat.add_comm]
  have seam := Piece.cut_seam cuts b.toList
  have text : (a ++ "\n" ++ b).toList = a.toList ++ '\n' :: b.toList := by simp
  rw [start, Piece.cut_shift] at seam
  rw [tokenize_eq_cut, tokenize_eq_cut, text, seam]
  cases Piece.cut .start b.toList with
  | error cause => rfl
  | ok us =>
    let moved := us.map (Token.mapPosition (Position.shift (a.toList.count '\n' + 1)))
    let q := lineEnd .start a.toList ts
    have merged : mergeTerminators (ts ++ .terminator q :: moved) =
        joinLines (mergeTerminators ts) (lineEnd .start a.toList (mergeTerminators ts))
          (mergeTerminators moved) := by
      rw [← joinLines_lineEnd, ← mergeTerminators_joinLines (apart_mergeTerminators ts)
        (apart_mergeTerminators moved), mergeTerminators_merged_append]
      exact mergeTerminators_append_congr ts
        (mergeTerminators_append_merged [.terminator q] moved).symm
    rw [mergeTerminators_mapPosition] at merged
    exact congrArg Except.ok merged

/-- Behind a text that has tokens and a newline, a text fails as it does on its own, and what it
gives on its own follows the tokens of the first text and one terminator. Both are as many lines
further down as end in front of them. -/
theorem tokenize_lines {a : String} {ta : List Token} (first : tokenize a = .ok ta) (b : String) :
    (∀ cause, tokenize b = .error cause →
      let moved := cause.mapPosition (.shift (a.toList.count '\n' + 1))
      tokenize (a ++ "\n" ++ b) = .error moved ∧
        ∃ p, cause.position? = some p ∧
          moved.position? = some ⟨p.line + (a.toList.count '\n' + 1), p.column⟩) ∧
    ∀ tb, tokenize b = .ok tb →
      tokenize (a ++ "\n" ++ b) = .ok (joinLines ta (lineEnd .start a.toList ta)
        (tb.map (Token.mapPosition (.shift (a.toList.count '\n' + 1))))) := by
  have seam := tokenize_seam first b
  constructor
  · intro cause failed
    rw [failed] at seam
    exact ⟨seam, LexError.position?_mapPosition (isOfText_of_tokenize failed) _⟩
  · intro tb lexed
    rw [lexed] at seam
    exact seam

/-- An operator does not go on behind the newline, and the lines between the texts give one
terminator. -/
theorem tokenize_lines_operator :
    let a := "x <\n//\r"
    let ta : List Token := [⟨.identifier, "x", ⟨1, 1⟩⟩, ⟨.operator, "<", ⟨1, 3⟩⟩,
      .terminator ⟨1, 4⟩, ⟨.commentSeparator, "//", ⟨2, 1⟩⟩, ⟨.commentBody, "", ⟨2, 3⟩⟩]
    tokenize a = .ok ta ∧
      tokenize (a ++ "\n" ++ " 'ab") = .error (.unterminatedChar ⟨3, 2⟩) ∧
      tokenize (a ++ "\n" ++ "\n= y") = .ok (ta ++ [.terminator ⟨2, 4⟩,
        ⟨.operator, "=", ⟨4, 1⟩⟩, ⟨.identifier, "y", ⟨4, 3⟩⟩]) := by
  intro a ta
  have first : tokenize a = .ok ta := by decide +kernel
  have failed : tokenize " 'ab" = .error (.unterminatedChar ⟨1, 2⟩) := by decide +kernel
  have second : tokenize "\n= y" = .ok [.terminator ⟨1, 1⟩, ⟨.operator, "=", ⟨2, 1⟩⟩,
      ⟨.identifier, "y", ⟨2, 3⟩⟩] := by decide +kernel
  have lines : a.toList.count '\n' = 1 := by decide
  have ends : lineEnd .start a.toList ta = ⟨2, 4⟩ := by decide
  have behind := (tokenize_lines first " 'ab").1 _ failed
  have joined := (tokenize_lines first "\n= y").2 _ second
  rw [lines] at behind joined
  rw [ends] at joined
  exact ⟨first, behind.1, joined⟩

end RatLang
