import RatLang.Proofs.Lexer.Comment
import RatLang.Proofs.Lexer.Emitted
import RatLang.Proofs.Parser.Position

/-!
# Words with whitespace between them

A word is recognized wherever nothing behind it joins it, and whitespace joins no word. So a text of
words with whitespace between them gives these words again, and a text of lines gives a terminator
behind each line.
-/

namespace RatLang

namespace Piece

variable {p : Position} {c : Char} {t : Token}

theorem not_isPunctuator_of_isBlank (blank : Text.isBlank c) : ¬isPunctuator c := by
  intro mem
  have checked : punctuators.all fun d => !Text.isBlank d := by decide
  have visible := List.all_eq_true.mp checked c (by simpa [isPunctuator] using mem)
  simp [blank] at visible

/-- No piece begins with whitespace. -/
theorem visible_of_ofText {piece : Piece} {l : List Char} (found : ofText p (c :: l) = .ok piece) :
    ¬Text.isBlank c := by
  intro blank
  cases Front.of c with
  | string | char | terminator => exact absurd blank (by decide)
  | punctuator _ _ mark => exact not_isPunctuator_of_isBlank blank mark
  | munch goes plain =>
    have other : ¬isNameChar c := fun name => not_isBlank_of_nameChar name blank
    have unknown : String.singleton c ∉ symbols := by
      intro mem
      exact not_isMark_of_symbol _ mem c (by simp) (by simp [isMark, blank])
    rw [ofText_munch goes plain, Munch.ofText, if_neg (by simpa using other), Munch.ofOther,
      longestSymbol?_eq_none unknown] at found
    cases found

/-! ### Words -/

/-- A token whose lexeme stands in some text. -/
def Recognized (t : Token) : Prop :=
  ∃ p text, text ≠ [] ∧ ofText p text = .ok (lexeme t.kind t.lexeme.toList p)

/-- The tokens of texts are recognized. -/
theorem recognized_of_spells {text : List Char} (spells : Spells t text) : Recognized t :=
  ⟨t.position, text, spells⟩

namespace Recognized

theorem left (word : Recognized t) : t.lexeme.toList ≠ [] := by
  obtain ⟨p, text, some_read, found⟩ := word
  exact (prefix_of_ofText some_read found).2

/-- A word is recognized again where nothing behind it joins it. -/
theorem found {r : List Char} (word : Recognized t)
    (parted : ∀ c ∈ r.head?, Parted t.kind t.lexeme.toList c) (q : Position) :
    ofText q (t.lexeme.toList ++ r) = .ok (lexeme t.kind t.lexeme.toList q) := by
  obtain ⟨p, text, some_read, found⟩ := word
  exact ofText_parted some_read found parted

theorem alone (word : Recognized t) (q : Position) :
    ofText q t.lexeme.toList = .ok (lexeme t.kind t.lexeme.toList q) := by
  have found := word.found (r := []) (by simp) q
  rwa [List.append_nil] at found

theorem visible (word : Recognized t) : ∀ c ∈ t.lexeme.toList.head?, ¬Text.isBlank c := by
  intro c front
  obtain ⟨l, eq⟩ := List.head?_eq_some_iff.mp front
  have alone := word.alone .start
  rw [eq] at alone
  exact visible_of_ofText alone

end Recognized

/-- Words with whitespace in front of each. -/
def spaced : List (List Char × Token) → List Char
  | [] => []
  | (blanks, t) :: rest => blanks ++ (t.lexeme.toList ++ spaced rest)

/-- Words none of which is joined by what follows it, with a text behind the last one. Whitespace
may stand in front of a word, but no newline. -/
inductive Separated (r : List Char) : List (List Char × Token) → Prop where
  | nil : Separated r []
  | cons {blanks : List Char} {t : Token} {ws : List (List Char × Token)}
    (blank : ∀ c ∈ blanks, Text.isBlank c) (plain : '\n' ∉ blanks) (word : Recognized t)
    (parted : ∀ c ∈ (spaced ws ++ r).head?, Parted t.kind t.lexeme.toList c)
    (rest : Separated r ws) : Separated r ((blanks, t) :: ws)

/-- Words that are separated are recognized one after the other. -/
theorem cut_separated {r : List Char} {ws : List (List Char × Token)} (h : Separated r ws)
    (p : Position) :
    ∃ ts q, SameWords ts (ws.map Prod.snd) ∧ cut p (spaced ws ++ r) = (cut q r).map (ts ++ ·) := by
  induction h generalizing p with
  | nil =>
    refine ⟨[], p, rfl, ?_⟩
    show cut p r = _
    cases cut p r <;> rfl
  | @cons blanks t ws blank plain word parted _ ih =>
    obtain ⟨ts, q, same, eq⟩ := ih ((p.after blanks).after t.lexeme.toList)
    have stops : ∀ d ∈ (t.lexeme.toList ++ (spaced ws ++ r)).head?, ¬Text.isBlank d := by
      rw [List.head?_append_of_ne_nil _ word.left]
      exact word.visible
    have text : spaced ((blanks, t) :: ws) ++ r =
        blanks ++ (t.lexeme.toList ++ (spaced ws ++ r)) := by
      rw [spaced, List.append_assoc, List.append_assoc]
    refine ⟨⟨t.kind, t.lexeme, p.after blanks⟩ :: ts, q, ?_, ?_⟩
    · rw [SameWords, List.map_cons, List.map_cons, List.map_cons, same]
      rfl
    · rw [text, cut_piece blank plain stops (by simp [word.left]) (word.found parted _) rfl]
      show (cut ((p.after blanks).after t.lexeme.toList) (spaced ws ++ r)).map _ = _
      rw [eq, map_append]
      simp [lexeme]

/-- Whitespace between words separates them. -/
theorem separated_of_blanks {r : List Char} {ws : List (List Char × Token)}
    (blank : ∀ w ∈ ws, (∀ c ∈ w.1, Text.isBlank c) ∧ '\n' ∉ w.1) (apart : ∀ w ∈ ws.tail, w.1 ≠ [])
    (words : ∀ w ∈ ws, Recognized w.2) (ends : ∀ c ∈ r.head?, Text.isBlank c) :
    Separated r ws := by
  induction ws with
  | nil => exact .nil
  | cons w ws ih =>
    rw [List.forall_mem_cons] at blank words
    refine .cons blank.1.1 blank.1.2 words.1 (fun c front => ?_)
      (ih blank.2 (fun w mem => apart w (List.mem_of_mem_tail mem)) words.2)
    refine parted_of_isBlank ?_ _ _
    cases ws with
    | nil => exact ends c front
    | cons w' ws =>
      rw [spaced, List.append_assoc,
        List.head?_append_of_ne_nil _ (apart w' List.mem_cons_self)] at front
      exact (blank.2 w' List.mem_cons_self).1 c (List.mem_of_mem_head? front)

end Piece

/-! ### Lines -/

/-- A line of words with one space between them. -/
def lineText (line : List Token) : String :=
  " ".intercalate (line.map Token.lexeme) ++ "\n"

/-- A text of lines. -/
def linesText (lines : List (List Token)) : String := String.join (lines.map lineText)

/-- The tokens of lines, with a terminator behind each line. -/
def linesTokens (lines : List (List Token)) : List Token :=
  lines.flatMap (· ++ [.terminator .start])

@[simp] theorem linesTokens_nil : linesTokens [] = [] := rfl

@[simp] theorem linesTokens_cons (line : List Token) (lines : List (List Token)) :
    linesTokens (line :: lines) = line ++ .terminator .start :: linesTokens lines := by
  simp [linesTokens]

@[simp] theorem linesTokens_append (lines lines' : List (List Token)) :
    linesTokens (lines ++ lines') = linesTokens lines ++ linesTokens lines' :=
  List.flatMap_append

namespace Piece

theorem toList_linesText_cons (line : List Token) (lines : List (List Token)) :
    (linesText (line :: lines)).toList = (lineText line).toList ++ (linesText lines).toList := by
  simp [linesText]

theorem toList_lineText_cons (t : Token) (line : List Token) :
    (lineText (t :: line)).toList =
      spaced (([], t) :: line.map fun word => ([' '], word)) ++ ['\n'] := by
  induction line generalizing t with
  | nil => simp [lineText, spaced]
  | cons u line ih =>
    have more := ih u
    simp only [lineText, spaced, List.nil_append, List.map_cons, String.toList_append] at more
    simp only [lineText, spaced, List.nil_append, List.map_cons, String.intercalate_cons_cons,
      String.toList_append, List.append_assoc, more]
    rfl

theorem visible_linesText {lines : List (List Token)} (nonempty : ∀ line ∈ lines, line ≠ [])
    (words : ∀ line ∈ lines, ∀ t ∈ line, Recognized t) :
    ∀ c ∈ (linesText lines).toList.head?, ¬Text.isBlank c := by
  cases lines with
  | nil => simp [linesText]
  | cons line lines =>
    obtain ⟨t, line, rfl⟩ := List.exists_cons_of_ne_nil (nonempty line List.mem_cons_self)
    have word := words _ List.mem_cons_self t List.mem_cons_self
    rw [toList_linesText_cons, toList_lineText_cons, spaced, List.nil_append, List.append_assoc,
      List.append_assoc, List.head?_append_of_ne_nil _ word.left]
    exact word.visible

/-- Lines of words give these words, with terminators behind the lines. -/
theorem cut_linesText {lines : List (List Token)} (nonempty : ∀ line ∈ lines, line ≠ [])
    (words : ∀ line ∈ lines, ∀ t ∈ line, Recognized t) (p : Position) :
    ∃ ts, cut p (linesText lines).toList = .ok ts ∧ SameWords ts (linesTokens lines) := by
  induction lines generalizing p with
  | nil => exact ⟨[], cut_none rfl, rfl⟩
  | cons line lines ih =>
    have nonempty' := fun line mem => nonempty line (List.mem_cons_of_mem _ mem)
    have words' := fun line mem => words line (List.mem_cons_of_mem _ mem)
    obtain ⟨t, line, rfl⟩ := List.exists_cons_of_ne_nil (nonempty line List.mem_cons_self)
    have recognized := words _ List.mem_cons_self
    let words'' : List (List Char × Token) := ([], t) :: line.map fun word => ([' '], word)
    have blank : ∀ w ∈ words'', (∀ c ∈ w.1, Text.isBlank c) ∧ '\n' ∉ w.1 := by
      simp [words'', show Text.isBlank ' ' from by decide]
    have apart : ∀ w ∈ words''.tail, w.1 ≠ [] := by simp [words'']
    have recognized' : ∀ w ∈ words'', Recognized w.2 := by simpa [words''] using recognized
    have newline : Text.isBlank '\n' := by decide
    have separated : Separated ('\n' :: (linesText lines).toList) words'' :=
      separated_of_blanks blank apart recognized' (by simpa using newline)
    obtain ⟨ts, q, same, eq⟩ := cut_separated separated p
    obtain ⟨us, more, same'⟩ := ih nonempty' words' (q.after ['\n'])
    have ended : cut q ('\n' :: (linesText lines).toList) =
        (cut (q.after ['\n']) (linesText lines).toList).map (.terminator q :: ·) :=
      cut_newline (by simpa using newline) (List.mem_singleton_self _)
        (visible_linesText nonempty' words')
    rw [toList_linesText_cons, toList_lineText_cons, List.append_assoc]
    refine ⟨ts ++ (.terminator q :: us), ?_, ?_⟩
    · rw [List.singleton_append, eq, ended, more]
      rfl
    · have front : words''.map Prod.snd = t :: line := by
        simp [words'', Function.comp_def]
      rw [front] at same
      rw [linesTokens_cons, SameWords, List.map_append, List.map_append, List.map_cons,
        List.map_cons, same, same']
      rfl

end Piece

end RatLang
