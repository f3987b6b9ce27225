import RatLang.Proofs.Lexer.Munch

/-!
# A step takes the longest match

A step that begins at a candidate adds the lexeme that stands at the front of the text, or fails
with the characters that form none.
-/

namespace RatLang

namespace Lexer

/-- The outcome of a step is what stands at the front of the text: a lexeme is read and added with
its kind, and characters that form none are read and named in the error. Behind the mark of a
comment its body is added too. -/
inductive Yields (lexer : Lexer) : Munch → Outcome Bool → Prop where
  | lexeme {kind : TokenKind} {chars : List Char} {taken : Lexer}
    (reads : lexer.source.Reads chars taken.source)
    (tokens : taken.tokens =
      lexer.tokens.push ⟨kind, String.ofList chars, lexer.source.position⟩) :
    Yields lexer (.lexeme kind chars)
      (.ok true (if kind = .commentSeparator then taken.commentBody else taken))
  | unrecognized {chars : List Char} {reached : Lexer}
    (reads : lexer.source.Reads chars reached.source)
    (tokens : reached.tokens = lexer.tokens) :
    Yields lexer (.unrecognized chars)
      (.error (.unrecognizedToken (String.ofList chars) lexer.source.position) reached)

/-! ### Names and numbers -/

theorem not_isNameStart_of_isDigit {c : Char} (digit : c.isDigit) : ¬isNameStart c := by
  intro start
  have letters := isNameStart_toNat start
  have digits := Char.isDigit_iff_toNat.mp digit
  simp only [Char.reduceToNat] at digits
  omega

/-- No lexeme is both a number and a name. -/
theorem isName_of_isNumeric {lexeme : String} (number : isNumeric lexeme) :
    isName lexeme = false := by
  have shape := (Bool.and_eq_true_iff.mp number).1
  have digits := (Bool.and_eq_true_iff.mp shape).1
  unfold isName
  cases chars : lexeme.toList with
  | nil => rfl
  | cons c rest =>
    rw [chars] at digits
    have digit : c.isDigit := by
      by_contra other
      rw [List.takeWhile_cons_of_neg other] at digits
      cases digits
    dsimp only
    rw [Bool.eq_false_iff.mpr (not_isNameStart_of_isDigit digit), Bool.false_and]

theorem yields_of_finish {lexer reached : Lexer} {chars : List Char}
    (reads : lexer.source.Reads chars reached.source) (same : reached.tokens = lexer.tokens) :
    lexer.Yields (.ofGrammar chars)
      (reached.finish (String.ofList chars) lexer.source.position).found := by
  have added {kind : TokenKind} (plain : kind ≠ .commentSeparator)
      (visible : kind ≠ .statementTerminator) :
      lexer.Yields (.lexeme kind chars)
        (.ok true (reached.push ⟨kind, String.ofList chars, lexer.source.position⟩)) := by
    have unseen : ¬Token.isTerminator ⟨kind, String.ofList chars, lexer.source.position⟩ := by
      simpa [Token.isTerminator] using visible
    have read : lexer.source.Reads chars
        (reached.push ⟨kind, String.ofList chars, lexer.source.position⟩).source := by
      rw [source_push]
      exact reads
    have yields := Yields.lexeme read (by rw [tokens_push unseen, same])
    rw [if_neg plain] at yields
    exact yields
  unfold finish classify Munch.ofGrammar
  cases number : isNumeric (String.ofList chars) with
  | true =>
    rw [isName_of_isNumeric number]
    exact added (by decide) (by decide)
  | false =>
    cases name : isName (String.ofList chars) with
    | true => exact added (by decide) (by decide)
    | false => exact .unrecognized reads same

/-! ### A step -/

theorem yields_of_candidate (lexer : Lexer) :
    lexer.Yields (.ofScan lexer.source.rest (scanCandidate "" false lexer.source.rest))
      lexer.candidate.found := by
  unfold Munch.ofScan
  split
  · rename_i kind fixed
    obtain ⟨taken, rfl, eq⟩ := candidate_of_fixed fixed
    have visible : kind ≠ .statementTerminator := by
      rcases kind_of_scanCandidate fixed with rfl | rfl | rfl | rfl <;> decide
    rw [eq]
    refine .lexeme ?_ (tokens_push ?_)
    · rw [source_take]
      exact Source.advanceBy_reads _ lexer.source
    · simpa [Token.isTerminator] using visible
  · rename_i boundary
    obtain ⟨reached, reads, same, eq⟩ := candidate_of_free fun kind fixed => by
      rw [boundary] at fixed
      cases fixed
    rw [eq]
    exact yields_of_finish reads same
  · rename_i exhausted
    obtain ⟨reached, reads, same, eq⟩ := candidate_of_free fun kind fixed => by
      rw [exhausted] at fixed
      cases fixed
    rw [eq]
    exact yields_of_finish reads same

/-- A step that begins at no mark reads a candidate. -/
theorem advance_eq_candidate {lexer : Lexer} {c : Char} {tail : List Char}
    (front : lexer.source.rest = c :: tail) (mark : ¬isMark c) :
    lexer.advance = lexer.candidate.found := by
  simp only [isMark, Bool.or_eq_true, beq_iff_eq, not_or] at mark
  obtain ⟨⟨blank, punctuator⟩, terminator⟩ := mark
  have double : c ≠ '"' := by
    rintro rfl
    exact punctuator (by decide)
  have single : c ≠ '\'' := by
    rintro rfl
    exact punctuator (by decide)
  have none_skipped : lexer.source.skipBlanks = (false, lexer.source) := by
    rw [Source.skipBlanks_eq, Source.blanks, front, List.takeWhile_cons_of_neg blank]
    rfl
  have peeked : lexer.source.peek = some c := by
    rw [Source.peek, front]
    rfl
  -- `double` and `single` rule out the cases of the two literals.
  simp only [advance, none_skipped, peeked, Bool.false_eq_true, if_false]
  rw [if_neg terminator, if_neg punctuator]

/-- A step at a character that is neither whitespace nor a punctuation mark nor the mark that ends a
statement yields what stands at the front of the text. -/
theorem advance_longest_match {lexer : Lexer} {c : Char} {tail : List Char}
    (front : lexer.source.rest = c :: tail) (mark : ¬isMark c) :
    lexer.Yields (.ofText (c :: tail)) lexer.advance := by
  have found := yields_of_candidate lexer
  rw [front, ofScan_eq_ofText mark] at found
  rw [advance_eq_candidate front mark]
  exact found

/-- A marked `fn` that characters of names follow is no lexeme. -/
theorem advance_longest_match_marked :
    (ofSource (.ofString "<input>" "fn?x.y z")).Yields
      (.unrecognized ['f', 'n', '?', 'x', '.', 'y'])
      (ofSource (.ofString "<input>" "fn?x.y z")).advance := by
  have found : Munch.ofText "fn?x.y z".toList =
      .unrecognized ['f', 'n', '?', 'x', '.', 'y'] := by
    decide +kernel
  rw [← found]
  exact advance_longest_match rfl (by decide)

end Lexer

end RatLang
