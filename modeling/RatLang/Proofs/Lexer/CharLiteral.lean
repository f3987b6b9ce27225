import RatLang.Proofs.Lexer.Literal
import RatLang.Proofs.Lexer.Progress

/-!
# Reading a char literal

Reading a char literal knows no escapes. It goes on to the first quote or control character, takes a
second quote right behind the first one along, and looks at the form of what it has read only then.
Which texts are accepted in this way is said here without a scan.
-/

namespace RatLang

/-- What a char literal reads over: characters that are neither quotes nor control characters. -/
def Quiet (chars : List Char) : Prop := ∀ c ∈ chars, c ≠ '\'' ∧ ¬Text.isControl c

@[simp] theorem quiet_nil : Quiet [] := List.forall_mem_nil _

@[simp] theorem quiet_cons {c : Char} {chars : List Char} :
    Quiet (c :: chars) ↔ (c ≠ '\'' ∧ ¬Text.isControl c) ∧ Quiet chars := List.forall_mem_cons

/-- A char literal and what may stand behind it. A quote behind a literal is taken along, so only
the two literals that end in two quotes anyway may stand in front of one. -/
inductive CharFront : List Char → List Char → Prop where
  | quote (rest : List Char) : CharFront ['\'', '\'', '\''] rest
  | escapedQuote (rest : List Char) : CharFront ['\'', '\\', '\'', '\''] rest
  | plain {c : Char} {rest : List Char} (quote : c ≠ '\'') (escape : c ≠ '\\')
    (visible : ¬Text.isControl c) (apart : rest.head? ≠ some '\'') : CharFront ['\'', c, '\''] rest
  | escaped {e : Char} {rest : List Char} (known : isEscape e) (quote : e ≠ '\'')
    (apart : rest.head? ≠ some '\'') : CharFront ['\'', '\\', e, '\''] rest

/-! ### The scan -/

/-- The text behind the opening quote of a char literal, by what ends the scan. -/
inductive CharStop : List Char → Prop where
  | closed {front rest : List Char} (quiet : Quiet front) (apart : rest.head? ≠ some '\'') :
    CharStop (front ++ '\'' :: rest)
  | doubled {front : List Char} (quiet : Quiet front) (rest : List Char) :
    CharStop (front ++ '\'' :: '\'' :: rest)
  | unterminated {front : List Char} (quiet : Quiet front) : CharStop front
  | control {front : List Char} {c : Char} (quiet : Quiet front) (control : Text.isControl c)
    (rest : List Char) : CharStop (front ++ c :: rest)

/-- A character that is read over does not change what ends the scan. -/
theorem CharStop.behind {c : Char} {text : List Char} (plain : c ≠ '\'' ∧ ¬Text.isControl c)
    (stop : CharStop text) : CharStop (c :: text) := by
  cases stop with
  | closed quiet apart => exact .closed (quiet_cons.mpr ⟨plain, quiet⟩) apart
  | doubled quiet rest => exact .doubled (quiet_cons.mpr ⟨plain, quiet⟩) rest
  | unterminated quiet => exact .unterminated (quiet_cons.mpr ⟨plain, quiet⟩)
  | control quiet control rest => exact .control (quiet_cons.mpr ⟨plain, quiet⟩) control rest

/-- In every text something ends the scan. -/
theorem charStop (text : List Char) : CharStop text := by
  induction text with
  | nil => exact .unterminated quiet_nil
  | cons c rest ih =>
    by_cases quote : c = '\''
    · subst quote
      by_cases apart : rest.head? = some '\''
      · obtain ⟨more, rfl⟩ := List.head?_eq_some_iff.mp apart
        exact .doubled quiet_nil more
      · exact .closed quiet_nil apart
    · by_cases control : Text.isControl c
      · exact .control quiet_nil control rest
      · exact ih.behind ⟨quote, control⟩

variable {front rest literal : List Char} {c : Char}

theorem scanChar_quiet (quiet : Quiet front) (text : List Char) :
    scanChar (front ++ text) = (scanChar text).after front.length := by
  induction front with
  | nil => rfl
  | cons c front ih =>
    obtain ⟨⟨quote, visible⟩, quiet⟩ := quiet_cons.mp quiet
    have inside : isCharLiteralChar c := by simpa [isCharLiteralChar] using visible
    rw [List.cons_append, scanChar_plain quote, if_pos inside, ih quiet, after_after]
    rfl

theorem scanChar_closed (quiet : Quiet front) (apart : rest.head? ≠ some '\'') :
    scanChar (front ++ '\'' :: rest) = ⟨front.length + 1, .closed⟩ := by
  rw [scanChar_quiet quiet, scanChar_single apart, Nat.add_comm]
  rfl

theorem scanChar_doubled (quiet : Quiet front) (rest : List Char) :
    scanChar (front ++ '\'' :: '\'' :: rest) = ⟨front.length + 2, .closed⟩ := by
  rw [scanChar_quiet quiet, Nat.add_comm]
  rfl

theorem scanChar_unterminated (quiet : Quiet front) :
    scanChar front = ⟨front.length + 1, .unterminated⟩ := by
  have scan := scanChar_quiet quiet []
  rw [List.append_nil] at scan
  rw [scan, Nat.add_comm]
  rfl

theorem scanChar_control (quiet : Quiet front) (control : Text.isControl c) (rest : List Char) :
    scanChar (front ++ c :: rest) = ⟨front.length + 1, .control⟩ := by
  have quote : c ≠ '\'' := by
    rintro rfl
    exact absurd control (by decide)
  have outside : ¬isCharLiteralChar c := by simpa [isCharLiteralChar] using control
  rw [scanChar_quiet quiet, scanChar_plain quote, if_neg outside, Nat.add_comm]
  rfl

/-! ### The form of what was read -/

/-- Between single quotes stands one character other than a backslash, or an escape. -/
theorem isCharLiteral_enclosed (body : List Char) :
    isCharLiteral (.ofList ('\'' :: (body ++ ['\'']))) ↔
      (∃ c, body = [c] ∧ c ≠ '\\') ∨ ∃ e, body = ['\\', e] ∧ isEscape e := by
  match body with
  | [] => simp [isCharLiteral]
  | [c] => simp [isCharLiteral]
  | [m, e] => simp [isCharLiteral]
  | _ :: _ :: _ :: _ => simp [isCharLiteral]

theorem not_isControl_of_isEscape {e : Char} (known : isEscape e) : ¬Text.isControl e := by
  have checked : ∀ entry ∈ escapes, ¬Text.isControl entry := by simp [escapes, Text.isControl]
  exact checked e (by simpa [isEscape] using known)

/-- A literal is closed by its last quote, and what was read up to there has the form of one. -/
theorem CharFront.scan (form : CharFront literal rest) :
    ∃ body, literal = '\'' :: body ∧ scanChar (body ++ rest) = ⟨body.length, .closed⟩ ∧
      isCharLiteral (.ofList literal) := by
  have backslash : '\\' ≠ '\'' ∧ ¬Text.isControl '\\' := by decide
  cases form with
  | quote rest =>
    exact ⟨['\'', '\''], rfl, by simpa using scanChar_doubled quiet_nil rest,
      (isCharLiteral_enclosed ['\'']).mpr (.inl ⟨'\'', rfl, by decide⟩)⟩
  | escapedQuote rest =>
    have quiet : Quiet ['\\'] := quiet_cons.mpr ⟨backslash, quiet_nil⟩
    exact ⟨['\\', '\'', '\''], rfl, by simpa using scanChar_doubled quiet rest,
      (isCharLiteral_enclosed ['\\', '\'']).mpr (.inr ⟨'\'', rfl, by decide⟩)⟩
  | @plain c _ quote escape visible apart =>
    have quiet : Quiet [c] := quiet_cons.mpr ⟨⟨quote, visible⟩, quiet_nil⟩
    exact ⟨[c, '\''], rfl, by simpa using scanChar_closed quiet apart,
      (isCharLiteral_enclosed [c]).mpr (.inl ⟨c, rfl, escape⟩)⟩
  | @escaped e _ known quote apart =>
    have visible := not_isControl_of_isEscape known
    have quiet : Quiet ['\\', e] :=
      quiet_cons.mpr ⟨backslash, quiet_cons.mpr ⟨⟨quote, visible⟩, quiet_nil⟩⟩
    exact ⟨['\\', e, '\''], rfl, by simpa using scanChar_closed quiet apart,
      (isCharLiteral_enclosed ['\\', e]).mpr (.inr ⟨e, rfl, known⟩)⟩

/-- What is read up to a single quote is a literal if it has the form of one. -/
theorem charFront_of_closed (quiet : Quiet front) (apart : rest.head? ≠ some '\'')
    (form : isCharLiteral (.ofList ('\'' :: (front ++ ['\''])))) :
    CharFront ('\'' :: (front ++ ['\''])) rest := by
  obtain ⟨c, rfl, escape⟩ | ⟨e, rfl, known⟩ := (isCharLiteral_enclosed _).mp form
  · obtain ⟨⟨quote, visible⟩, -⟩ := quiet_cons.mp quiet
    exact .plain quote escape visible apart
  · obtain ⟨⟨quote, -⟩, -⟩ := quiet_cons.mp (quiet_cons.mp quiet).2
    exact .escaped known quote apart

/-- What is read up to two quotes is a literal if it has the form of one. The first of the two is
then the character that the literal stands for. -/
theorem charFront_of_doubled
    (form : isCharLiteral (.ofList ('\'' :: (front ++ ['\'', '\''])))) (rest : List Char) :
    CharFront ('\'' :: (front ++ ['\'', '\''])) rest := by
  have shape : front ++ ['\'', '\''] = (front ++ ['\'']) ++ ['\''] := by simp
  rw [shape] at form ⊢
  obtain ⟨c, eq, -⟩ | ⟨e, eq, -⟩ := (isCharLiteral_enclosed _).mp form
  · have eq : front ++ ['\''] = [] ++ [c] := eq
    obtain ⟨rfl, -⟩ := List.append_inj' eq rfl
    exact .quote rest
  · have eq : front ++ ['\''] = ['\\'] ++ [e] := eq
    obtain ⟨rfl, -⟩ := List.append_inj' eq rfl
    exact .escapedQuote rest

namespace Lexer

variable {lexer : Lexer} {text body : List Char}

/-! ### The step -/

/-- Where the scan is closed, the form of what was read decides. -/
theorem char_of_closed (opens : lexer.source.rest = '\'' :: (body ++ rest))
    (scan : scanChar (body ++ rest) = ⟨body.length, .closed⟩) :
    lexer.char =
      if isCharLiteral (.ofList ('\'' :: body)) then
        .ok () (lexer.take (body.length + 1) .charLiteral)
      else .error (.invalidCharLiteral (.ofList ('\'' :: body)) lexer.source.position)
        { lexer with source := lexer.source.advanceBy (body.length + 1) } := by
  simp only [char, opens, List.tail_cons, scan, List.take_succ_cons, List.take_left]

/-- A literal at the front of the text is added, and what is left stands behind it. -/
theorem char_of_front (form : CharFront literal rest) (split : lexer.source.rest = literal ++ rest) :
    ∃ next, lexer.char = .ok () next ∧
      next.tokens = lexer.tokens.push ⟨.charLiteral, .ofList literal, lexer.source.position⟩ ∧
      lexer.source.Reads literal next.source := by
  obtain ⟨body, rfl, scan, literal⟩ := form.scan
  have front : lexer.source.rest.take (body.length + 1) = '\'' :: body := by
    rw [split, List.cons_append, List.take_succ_cons, List.take_left]
  refine ⟨lexer.take (body.length + 1) .charLiteral, ?_, ?_, ?_⟩
  · rw [char_of_closed split scan, if_pos literal]
  · rw [take, front]
    exact tokens_push (by simp [Token.isTerminator])
  · rw [source_take, ← front]
    exact Source.advanceBy_reads _ lexer.source

theorem char_of_quiet (opens : lexer.source.rest = '\'' :: text) (quiet : Quiet text) :
    ∃ next, lexer.char = .error (.unterminatedChar lexer.source.position) next := by
  simp only [char, opens, List.tail_cons, scanChar_unterminated quiet]
  exact ⟨_, rfl⟩

/-- What reading a char literal comes to. -/
inductive EndsChar (lexer : Lexer) (text : List Char) : Outcome Unit → Prop where
  | read {literal rest : List Char} {next : Lexer} (form : CharFront literal rest)
    (split : '\'' :: text = literal ++ rest) : EndsChar lexer text (.ok () next)
  | unterminated {next : Lexer} (quiet : Quiet text) :
    EndsChar lexer text (.error (.unterminatedChar lexer.source.position) next)
  | invalid {consumed : List Char} {next : Lexer} (reads : lexer.source.Reads consumed next.source) :
    EndsChar lexer text
      (.error (.invalidCharLiteral (.ofList consumed) lexer.source.position) next)

/-- The form of what was read up to the last quote decides. -/
theorem endsChar_of_closed (opens : lexer.source.rest = '\'' :: (body ++ rest))
    (scan : scanChar (body ++ rest) = ⟨body.length, .closed⟩)
    (front : isCharLiteral (.ofList ('\'' :: body)) → CharFront ('\'' :: body) rest) :
    lexer.EndsChar (body ++ rest) lexer.char := by
  rw [char_of_closed opens scan]
  split
  · rename_i form
    exact .read (front form) rfl
  · exact .invalid (Source.advanceBy_prefix opens)

theorem endsChar (opens : lexer.source.rest = '\'' :: text) : lexer.EndsChar text lexer.char := by
  cases charStop text with
  | @closed front rest quiet apart =>
    have scan := scanChar_closed quiet apart
    rw [List.append_cons] at opens scan ⊢
    exact endsChar_of_closed opens (by simpa using scan) (charFront_of_closed quiet apart)
  | @doubled front quiet rest =>
    have shape : front ++ '\'' :: '\'' :: rest = (front ++ ['\'', '\'']) ++ rest := by simp
    have scan := scanChar_doubled quiet rest
    rw [shape] at opens scan ⊢
    exact endsChar_of_closed opens (by simpa using scan) fun form => charFront_of_doubled form rest
  | unterminated quiet =>
    obtain ⟨next, refused⟩ := char_of_quiet opens quiet
    rw [refused]
    exact .unterminated quiet
  | @control front c quiet control rest =>
    have scan := scanChar_control quiet control rest
    rw [List.append_cons] at opens scan ⊢
    have length : front.length + 1 = (front ++ [c]).length := by simp
    rw [length] at scan
    simp only [char, opens, List.tail_cons, scan, List.take_succ_cons, List.take_left]
    exact .invalid (Source.advanceBy_prefix opens)

/-- A char literal is read exactly if one stands at the front of the text with nothing behind it
that would be taken along: it is then added with its lexeme, and the source stands right behind it.
Otherwise the literal is unterminated if neither a quote nor a control character follows its opening
quote, and what was read of it is refused if one does. No token is added then. -/
theorem char_grammar {lexer : Lexer} {text : List Char}
    (opens : lexer.source.rest = '\'' :: text) :
    let p := lexer.source.position
    ((∃ next, lexer.char = .ok () next) ↔
        ∃ literal rest, CharFront literal rest ∧ lexer.source.rest = literal ++ rest) ∧
      (∀ literal rest, CharFront literal rest → lexer.source.rest = literal ++ rest →
        ∃ next, lexer.char = .ok () next ∧
          next.tokens = lexer.tokens.push ⟨.charLiteral, .ofList literal, p⟩ ∧
          lexer.source.Reads literal next.source ∧ next.source.rest = rest) ∧
      ((∃ next, lexer.char = .error (.unterminatedChar p) next) ↔ Quiet text) ∧
      ∀ cause next, lexer.char = .error cause next → next.tokens = lexer.tokens ∧
        (cause = .unterminatedChar p ∨ ∃ consumed,
          cause = .invalidCharLiteral (.ofList consumed) p ∧
          lexer.source.Reads consumed next.source) := by
  intro p
  have ended := endsChar opens
  refine ⟨⟨?_, ?_⟩, fun literal rest form split => ?_, ⟨?_, char_of_quiet opens⟩,
    fun cause next refused => ⟨?_, ?_⟩⟩
  · rintro ⟨next, read⟩
    rw [read] at ended
    cases ended with
    | read form split => exact ⟨_, _, form, opens.trans split⟩
  · rintro ⟨literal, rest, form, split⟩
    obtain ⟨next, read, -⟩ := char_of_front form split
    exact ⟨next, read⟩
  · obtain ⟨next, read, tokens, reads⟩ := char_of_front form split
    exact ⟨next, read, tokens, reads, List.append_cancel_left (reads.rest.symm.trans split)⟩
  · rintro ⟨next, refused⟩
    rw [refused] at ended
    cases ended with
    | unterminated quiet => exact quiet
  · have left : lexer.source.rest ≠ [] := by rw [opens]; exact List.cons_ne_nil _ _
    exact (stops_of_char left refused).tokens
  · rw [refused] at ended
    cases ended with
    | unterminated => exact .inl rfl
    | invalid reads => exact .inr ⟨_, rfl, reads⟩

/-- An escaped quote is read also in front of another quote, which is left for the next literal. -/
theorem char_grammar_quotes :
    let lexer := Lexer.ofSource (.ofString "t.rat" "'\\'''x'")
    lexer.source.rest = '\'' :: "\\'''x'".toList ∧
      ∃ next, lexer.char = .ok () next ∧
        next.tokens = #[⟨.charLiteral, "'\\''", ⟨1, 1⟩⟩] ∧
        next.source.rest = ['\'', 'x', '\''] := by
  intro lexer
  have opens : lexer.source.rest = '\'' :: "\\'''x'".toList := rfl
  obtain ⟨next, read, tokens, -, behind⟩ :=
    (char_grammar opens).2.1 "'\\''".toList ['\'', 'x', '\''] (.escapedQuote _) rfl
  exact ⟨opens, next, read, tokens, behind⟩

end Lexer

end RatLang
