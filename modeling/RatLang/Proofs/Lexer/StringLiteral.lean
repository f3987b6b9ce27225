import RatLang.Proofs.Lexer.Literal
import RatLang.Proofs.Lexer.Progress

/-!
# Reading a string literal

Behind the opening quote of a string literal come its items, and then the quote that closes it, a
newline or the end of the text, or a character that no literal may hold. Which of them comes first
is determined by the text, and it decides what reading the literal comes to.
-/

namespace RatLang

/-- The front of a string literal that is still open, behind its quote: items, or items and a
backslash that has still to take a character along. -/
def OpenItems (front : List Char) : Prop :=
  ∃ items, StringItems items ∧ (front = items ∨ front = items ++ ['\\'])

theorem StringItems.append {items more : List Char} (inside : StringItems items)
    (inside' : StringItems more) : StringItems (items ++ more) := by
  induction inside with
  | nil => exact inside'
  | plain quote escape newline inside _ ih => exact .plain quote escape newline inside ih
  | escaped newline inside _ ih => exact .escaped newline inside ih

theorem OpenItems.behind {items front : List Char} (inside : StringItems items)
    (opens : OpenItems front) : OpenItems (items ++ front) := by
  obtain ⟨more, inside', split⟩ := opens
  refine ⟨items ++ more, inside.append inside', ?_⟩
  rcases split with rfl | rfl
  · exact .inl rfl
  · exact .inr (List.append_assoc items more ['\\']).symm

theorem openItems_nil : OpenItems [] := ⟨[], .nil, .inl rfl⟩

theorem openItems_backslash : OpenItems ['\\'] := ⟨[], .nil, .inr rfl⟩

/-- The text behind the opening quote of a string literal, by what ends the literal. -/
inductive StringStop : List Char → Prop where
  | closed {items : List Char} (inside : StringItems items) (rest : List Char) :
    StringStop (items ++ '"' :: rest)
  | unterminated {front : List Char} (opens : OpenItems front) (rest : List Char)
    (ends : ∀ c ∈ rest.head?, c = '\n') : StringStop (front ++ rest)
  | invalid {front : List Char} {c : Char} (opens : OpenItems front) (outside : ¬isStringChar c)
    (rest : List Char) : StringStop (front ++ c :: rest)

/-- Items in front do not change what ends a literal. -/
theorem StringStop.behind {text items : List Char} (inside : StringItems items)
    (stop : StringStop text) : StringStop (items ++ text) := by
  cases stop with
  | closed inside' rest =>
    rw [← List.append_assoc]
    exact .closed (inside.append inside') rest
  | unterminated opens rest ends =>
    rw [← List.append_assoc]
    exact .unterminated (opens.behind inside) rest ends
  | invalid opens outside rest =>
    rw [← List.append_assoc]
    exact .invalid (opens.behind inside) outside rest

/-- In every text something ends a literal. -/
theorem stringStop (text : List Char) : StringStop text := by
  fun_induction scanString text with
  | case1 => exact .unterminated openItems_nil [] (by simp)
  | case2 rest => exact .closed .nil rest
  | case3 rest => exact .unterminated openItems_nil ('\n' :: rest) (by simp)
  | case4 => exact .unterminated openItems_backslash [] (by simp)
  | case5 rest => exact .unterminated openItems_backslash ('\n' :: rest) (by simp)
  | case6 c rest newline inside ih => exact ih.behind (.escaped newline inside .nil)
  | case7 c rest newline outside => exact .invalid openItems_backslash outside rest
  | case8 c rest quote newline single pair inside ih =>
    have escape : c ≠ '\\' := by
      rintro rfl
      cases rest <;> simp_all
    exact ih.behind (.plain quote escape newline inside .nil)
  | case9 c rest quote newline single pair outside => exact .invalid openItems_nil outside rest

theorem not_isStringChar_iff {c : Char} :
    ¬isStringChar c ↔ Text.isControl c ∧ ¬Text.isBlank c := by
  simp [isStringChar]

/-! ### The scan -/

/-- Items are read one after the other. -/
theorem scanString_items {items : List Char} (inside : StringItems items) (text : List Char) :
    scanString (items ++ text) = (scanString text).after items.length := by
  induction inside with
  | nil => rfl
  | plain quote escape newline inside _ ih =>
    rw [List.cons_append, scanString_plain quote newline escape inside, ih]
    rfl
  | escaped newline inside _ ih =>
    rw [List.cons_append, List.cons_append, scanString_escape newline inside, ih]
    rfl

theorem scanString_closed {items : List Char} (inside : StringItems items) (rest : List Char) :
    scanString (items ++ '"' :: rest) = ⟨items.length + 1, .closed⟩ := by
  rw [scanString_items inside, Nat.add_comm]
  rfl

/-- What ends a literal with and without a backslash in front of it also ends it behind items. -/
theorem scanString_open {front rest : List Char} {ending : StringEnd} (opens : OpenItems front)
    (plain : scanString rest = ⟨1, ending⟩) (escaped : scanString ('\\' :: rest) = ⟨2, ending⟩) :
    scanString (front ++ rest) = ⟨front.length + 1, ending⟩ := by
  obtain ⟨items, inside, rfl | rfl⟩ := opens
  · rw [scanString_items inside, plain, Nat.add_comm]
    rfl
  · rw [List.append_assoc, List.singleton_append, scanString_items inside, escaped,
      List.length_append, Nat.add_assoc, Nat.add_comm]
    rfl

theorem scanString_unterminated {front rest : List Char} (opens : OpenItems front)
    (ends : ∀ c ∈ rest.head?, c = '\n') :
    scanString (front ++ rest) = ⟨front.length + 1, .unterminated⟩ := by
  apply scanString_open opens
  · cases rest with
    | nil => rfl
    | cons c rest =>
      obtain rfl := ends c rfl
      rfl
  · cases rest with
    | nil => rfl
    | cons c rest =>
      obtain rfl := ends c rfl
      simp [scanString]

theorem scanString_outside {front : List Char} {c : Char} (opens : OpenItems front)
    (outside : ¬isStringChar c) (rest : List Char) :
    scanString (front ++ c :: rest) = ⟨front.length + 1, .invalid c⟩ := by
  have other (d : Char) (inside : isStringChar d) : c ≠ d := by
    rintro rfl
    exact outside inside
  have newline : c ≠ '\n' := other '\n' (by decide)
  apply scanString_open opens
  · exact scanString_invalid (other '"' (by decide)) newline (other '\\' (by decide)) outside rest
  · simp [scanString, newline, outside]

namespace Lexer

variable {lexer : Lexer} {items front rest : List Char} {c : Char}

/-! ### The step -/

/-- A literal that is closed is added, and what is left stands behind it. -/
theorem string_of_closed (opens : lexer.source.rest = '"' :: (items ++ '"' :: rest))
    (inside : StringItems items) :
    ∃ next, lexer.string = .ok () next ∧
      next.tokens = lexer.tokens.push
        ⟨.stringLiteral, .ofList ('"' :: (items ++ ['"'])), lexer.source.position⟩ ∧
      lexer.source.Reads ('"' :: (items ++ ['"'])) next.source := by
  have front : lexer.source.rest.take (items.length + 1 + 1) = '"' :: (items ++ ['"']) := by
    rw [opens, List.take_succ_cons, List.take_length_add_append]
    rfl
  refine ⟨lexer.take (items.length + 1 + 1) .stringLiteral, ?_, ?_, ?_⟩
  · simp only [string, opens, List.tail_cons, scanString_closed inside]
  · rw [take, front]
    exact tokens_push (by simp [Token.isTerminator])
  · rw [source_take, ← front]
    exact Source.advanceBy_reads _ lexer.source

theorem string_of_unterminated (opens : lexer.source.rest = '"' :: (front ++ rest))
    (begins : OpenItems front) (ends : ∀ c ∈ rest.head?, c = '\n') :
    ∃ next, lexer.string = .error (.unterminatedString lexer.source.position) next := by
  simp only [string, opens, List.tail_cons, scanString_unterminated begins ends]
  exact ⟨_, rfl⟩

theorem string_of_invalid (opens : lexer.source.rest = '"' :: (front ++ c :: rest))
    (begins : OpenItems front) (outside : ¬isStringChar c) :
    ∃ next, lexer.string =
      .error (.invalidStringChar c (lexer.source.position.after ('"' :: front))) next := by
  have reads : lexer.source.Reads ('"' :: front) (lexer.source.advanceBy (front.length + 1)) :=
    Source.advanceBy_prefix opens
  simp only [string, opens, List.tail_cons, scanString_outside begins outside, reads.position]
  exact ⟨_, rfl⟩

/-- What reading a string literal comes to, by what ends the literal in the text behind its opening
quote. -/
inductive EndsString (lexer : Lexer) (text : List Char) : Outcome Unit → Prop where
  | closed {items rest : List Char} {next : Lexer} (inside : StringItems items)
    (split : text = items ++ '"' :: rest) : EndsString lexer text (.ok () next)
  | unterminated {front rest : List Char} {next : Lexer} (begins : OpenItems front)
    (split : text = front ++ rest) (ends : ∀ c ∈ rest.head?, c = '\n') :
    EndsString lexer text (.error (.unterminatedString lexer.source.position) next)
  | invalid {front rest : List Char} {c : Char} {next : Lexer} (begins : OpenItems front)
    (split : text = front ++ c :: rest) (outside : ¬isStringChar c) :
    EndsString lexer text
      (.error (.invalidStringChar c (lexer.source.position.after ('"' :: front))) next)

theorem endsString {text : List Char} (opens : lexer.source.rest = '"' :: text) :
    lexer.EndsString text lexer.string := by
  cases stringStop text with
  | closed inside rest =>
    obtain ⟨next, read, -⟩ := string_of_closed opens inside
    rw [read]
    exact .closed inside rfl
  | unterminated begins rest ends =>
    obtain ⟨next, refused⟩ := string_of_unterminated opens begins ends
    rw [refused]
    exact .unterminated begins rfl ends
  | invalid begins outside rest =>
    obtain ⟨next, refused⟩ := string_of_invalid opens begins outside
    rw [refused]
    exact .invalid begins rfl outside

/-- A string literal is read exactly if the text has the form of one in front: it is then added with
its lexeme, and the source stands right behind it. Otherwise the literal is unterminated if behind
items, or a backslash after them, a newline or the end of the text comes first, and a control
character that is no whitespace is refused where it stands if it comes first. No token is added
then. -/
theorem string_grammar {lexer : Lexer} {text : List Char}
    (opens : lexer.source.rest = '"' :: text) :
    let p := lexer.source.position
    ((∃ next, lexer.string = .ok () next) ↔
        ∃ literal rest, StringForm literal ∧ lexer.source.rest = literal ++ rest) ∧
      (∀ literal rest, StringForm literal → lexer.source.rest = literal ++ rest →
        ∃ next, lexer.string = .ok () next ∧
          next.tokens = lexer.tokens.push ⟨.stringLiteral, .ofList literal, p⟩ ∧
          lexer.source.Reads literal next.source ∧ next.source.rest = rest) ∧
      (∀ cause, (∃ next, lexer.string = .error cause next) ↔
        (cause = .unterminatedString p ∧ ∃ front rest, OpenItems front ∧
          lexer.source.rest = '"' :: (front ++ rest) ∧ ∀ c ∈ rest.head?, c = '\n') ∨
        ∃ front c rest, cause = .invalidStringChar c (p.after ('"' :: front)) ∧ OpenItems front ∧
          lexer.source.rest = '"' :: (front ++ c :: rest) ∧ Text.isControl c ∧ ¬Text.isBlank c) ∧
      ∀ cause next, lexer.string = .error cause next → next.tokens = lexer.tokens := by
  intro p
  have accepted (literal rest : List Char) (form : StringForm literal)
      (split : lexer.source.rest = literal ++ rest) :
      ∃ next, lexer.string = .ok () next ∧
        next.tokens = lexer.tokens.push ⟨.stringLiteral, .ofList literal, p⟩ ∧
        lexer.source.Reads literal next.source ∧ next.source.rest = rest := by
    obtain ⟨items, inside, rfl⟩ := form
    have split' : lexer.source.rest = '"' :: (items ++ '"' :: rest) := by simpa using split
    obtain ⟨next, read, tokens, reads⟩ := string_of_closed split' inside
    exact ⟨next, read, tokens, reads, List.append_cancel_left (reads.rest.symm.trans split)⟩
  have ended := endsString opens
  refine ⟨⟨?_, ?_⟩, accepted, fun cause => ⟨?_, ?_⟩, fun cause next refused => ?_⟩
  · rintro ⟨next, read⟩
    rw [read] at ended
    cases ended with
    | @closed items rest _ inside split =>
      exact ⟨'"' :: (items ++ ['"']), rest, ⟨items, inside, rfl⟩, by simp [opens, split]⟩
  · rintro ⟨literal, rest, form, split⟩
    obtain ⟨next, read, -⟩ := accepted literal rest form split
    exact ⟨next, read⟩
  · rintro ⟨next, refused⟩
    rw [refused] at ended
    cases ended with
    | @unterminated front rest _ begins split ends =>
      exact .inl ⟨rfl, front, rest, begins, by rw [opens, split], ends⟩
    | @invalid front rest c _ begins split outside =>
      exact .inr ⟨front, c, rest, rfl, begins, by rw [opens, split],
        not_isStringChar_iff.mp outside⟩
  · rintro (⟨rfl, front, rest, begins, split, ends⟩ | ⟨front, c, rest, rfl, begins, split, outside⟩)
    · exact string_of_unterminated split begins ends
    · exact string_of_invalid split begins (not_isStringChar_iff.mpr outside)
  · have left : lexer.source.rest ≠ [] := by rw [opens]; exact List.cons_ne_nil _ _
    exact (stops_of_string left refused).tokens

/-- A quote behind one backslash belongs to the literal, and one behind two closes it. -/
theorem string_grammar_backslashes :
    let lexer := Lexer.ofSource (.ofString "t.rat" "\"a\\\"b\\\\\" c")
    lexer.source.rest = '"' :: "a\\\"b\\\\\" c".toList ∧
      ∃ next, lexer.string = .ok () next ∧
        next.tokens = #[⟨.stringLiteral, "\"a\\\"b\\\\\"", ⟨1, 1⟩⟩] ∧
        next.source.rest = [' ', 'c'] := by
  intro lexer
  have opens : lexer.source.rest = '"' :: "a\\\"b\\\\\" c".toList := rfl
  have form : StringForm "\"a\\\"b\\\\\"".toList := by
    refine ⟨"a\\\"b\\\\".toList, ?_, rfl⟩
    exact .plain (by decide) (by decide) (by decide) (by decide)
      (.escaped (by decide) (by decide) (.plain (by decide) (by decide) (by decide) (by decide)
        (.escaped (by decide) (by decide) .nil)))
  obtain ⟨next, read, tokens, -, behind⟩ :=
    (string_grammar opens).2.1 "\"a\\\"b\\\\\"".toList [' ', 'c'] form rfl
  exact ⟨opens, next, read, tokens, behind⟩

end Lexer

end RatLang
