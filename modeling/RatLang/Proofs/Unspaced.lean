import Mathlib
import RatLang.Proofs.Lexer.Reprint
import RatLang.Proofs.Parser.Grammar.Neighbours

/-!
# Spaces in expressions

No two tokens that stand side by side in an expression become one lexeme when the whitespace between
them is left out. So an expression without spaces is read like the one with spaces.
-/

namespace RatLang

/-! ### First and last characters of lexemes -/

/-- The characters that lexemes of the kind begin with. -/
def Begins (kind : TokenKind) (c : Char) : Prop :=
  match kind with
  | .identifier | .keyword | .numericLiteral | .type => isNameChar c
  | .operator | .commentSeparator => String.singleton c ∈ symbols
  | .punctuator => isPunctuator c ∧ c ≠ '\''
  | .stringLiteral => c = '"'
  | .charLiteral => c = '\''
  | .statementTerminator => c = terminatorMark
  | .commentBody => False

theorem Munch.begins_of_ofText {c : Char} {l chars : List Char} {kind : TokenKind}
    (h : ofText (c :: l) = .lexeme kind chars) : Begins kind c := by
  unfold ofText at h
  split at h
  · rename_i name
    have name : isNameChar c := by simpa using name
    rcases kind_of_ofWord h with rfl | rfl | rfl | rfl <;> exact name
  · unfold ofOther at h
    split at h
    · rename_i symbol longest
      have first : String.singleton c ∈ symbols := by
        by_contra unknown
        rw [longestSymbol?_eq_none unknown] at longest
        cases longest
      injection h with kind_eq
      split at kind_eq <;> exact kind_eq ▸ first
    · cases h

namespace Piece

variable {t : Token} {c : Char}

theorem Recognized.begins (word : Recognized t) : ∀ c ∈ t.lexeme.toList.head?, Begins t.kind c := by
  intro c front
  obtain ⟨l, eq⟩ := List.head?_eq_some_iff.mp front
  have found := word.alone .start
  rw [eq] at found
  cases Front.of c with
  | string =>
    obtain ⟨-, eq⟩ := ofString_eq_ok.mp found
    rw [kind_of_lexeme_eq eq]
    rfl
  | char =>
    obtain ⟨-, -, eq⟩ := ofChar_eq_ok.mp found
    rw [kind_of_lexeme_eq eq]
    rfl
  | terminator =>
    rw [ofText_terminator] at found
    injection found with eq
    have same : lexeme .statementTerminator [terminatorMark] .start =
        lexeme t.kind (terminatorMark :: l) .start := eq
    rw [← kind_of_lexeme_eq same]
    rfl
  | punctuator double single mark =>
    rw [ofText_punctuator double single mark] at found
    injection found with eq
    rw [← kind_of_lexeme_eq eq]
    exact ⟨mark, single⟩
  | munch goes plain =>
    rw [ofText_munch goes plain] at found
    exact Munch.begins_of_ofText (ofMunch_alone found).1

/-- `fn` is a keyword. -/
theorem Recognized.kind_of_fn (word : Recognized t) (spelled : t.lexeme = "fn") :
    t.kind = .keyword := by
  have found := word.alone .start
  rw [spelled] at found
  have keyword : ofText .start "fn".toList = .ok (lexeme .keyword ['f', 'n'] .start) := by rfl
  rw [keyword] at found
  injection found with eq
  exact (kind_of_lexeme_eq eq).symm

/-- Only the keyword `fn` goes on behind its last character of names. -/
theorem Recognized.parted_of_word (word : Recognized t)
    (kind : t.kind = .identifier ∨ t.kind = .keyword ∨ t.kind = .numericLiteral)
    (other : t.lexeme ≠ "fn") (stops : ¬Munch.isWordChar c) :
    Parted t.kind t.lexeme.toList c := by
  have outside : ¬isNameChar c := fun name => stops (Munch.isWordChar_of_isNameChar c name)
  have free : String.ofList (t.lexeme.toList ++ [c]) ∉ fixedLexemes := by
    intro fixed
    obtain ⟨d, l, eq⟩ := List.exists_cons_of_ne_nil word.left
    have front : isNameChar d := by
      have begins := word.begins d (by rw [eq]; rfl)
      rcases kind with kind | kind | kind <;> simpa [Begins, kind] using begins
    -- The fixed lexeme would mix both kinds of characters.
    have marked : t.lexeme.toList = "fn".toList := by
      rcases mixed_of_mem fixed (c := d) (by simp [eq]) front (by simp) outside with split | split
      · have split : t.lexeme.toList ++ [c] = "fn".toList ++ ['?'] := split
        exact (List.append_inj' split rfl).1
      · have split : t.lexeme.toList ++ [c] = "fn".toList ++ ['/'] := split
        exact (List.append_inj' split rfl).1
    exact other (String.toList_injective marked)
  rcases kind with kind | kind | kind <;> rw [kind] <;> exact ⟨stops, free⟩

end Piece

/-! ### Neighbours -/

/-- No symbol goes on with an operator that stands in front of operands. -/
theorem not_unary_of_tail :
    ∀ entry ∈ symbols, ∀ c ∈ entry.toList.tail, ¬['-', '!', '~'].contains c :=
  none_of_all (by decide +kernel)

namespace Grammar

open Piece (Recognized)
open RatLang.Parser (OperandForm operandForm? operandForm?_eq_some)

variable {t u : Token} {c : Char}

/-- What follows an operand joins no word and opens no char literal. -/
theorem Follows.apart (follows : Follows u) (begins : Begins u.kind c) :
    ¬Munch.isWordChar c ∧ c ≠ '\'' := by
  rcases follows with kind | kind | kind
  · have known : String.singleton c ∈ symbols := by simpa [Begins, kind] using begins
    have other := not_nameChar_of_symbol _ known c (by simp)
    have fixed : String.singleton c ∈ fixedLexemes := List.mem_append_right _ known
    constructor
    · simp only [Munch.isWordChar, Bool.or_eq_true, beq_iff_eq, not_or]
      refine ⟨other, ?_⟩
      rintro rfl
      exact point_not_mem _ fixed (by simp)
    · rintro rfl
      exact not_isMark_of_fixed _ fixed '\'' (by simp) (by decide)
  · obtain ⟨mark, quote⟩ : isPunctuator c ∧ c ≠ '\'' := by simpa [Begins, kind] using begins
    exact ⟨Munch.not_isWordChar_of_mark (by simp [isMark, mark]), quote⟩
  · have ends : c = terminatorMark := by simpa [Begins, kind] using begins
    rw [ends]
    decide

/-- An operand begins with a character of names, with a mark, or with one of three operators. -/
theorem begins_of_operand {form : OperandForm} (operand : operandForm? u = some form)
    (first : c ∈ u.lexeme.toList.head?) (begins : Begins u.kind c) :
    isNameChar c ∨ isMark c ∨ c ∈ ['-', '!', '~'] := by
  have opens := operandForm?_eq_some operand
  cases form with
  | leaf e =>
    cases opens with
    | numeric kind | name kind => exact .inl (by simpa [Begins, kind] using begins)
    | null is => exact .inl (by simpa [Begins, (Token.is_iff.mp is).1] using begins)
    | string kind | char kind =>
      have quote := begins
      rw [kind] at quote
      rw [show c = _ from quote]
      exact .inr (.inl (by decide))
  | named name => exact .inl (by simpa [Begins, opens.2] using begins)
  | group =>
    obtain ⟨mark, -⟩ : isPunctuator c ∧ c ≠ '\'' := by
      simpa [Begins, Token.kind_of_isPunct opens] using begins
    exact .inr (.inl (by simp [isMark, mark]))
  | unary symbol op =>
    obtain ⟨-, operator, -⟩ := opens
    have spelled := (Token.isSign_iff.mp operator).2
    simp only [Precedence.signs, List.mem_cons, List.not_mem_nil, or_false] at spelled
    rcases spelled with eq | eq | eq
    all_goals
      rw [eq] at first
      simp only [String.reduceToList, List.head?_cons, Option.mem_some_iff] at first
      simp [← first]

/-- No operator goes on with the beginning of an operand. -/
theorem parted_of_operator {form : OperandForm} (word : Recognized t)
    (operator : t.kind = .operator) (operand : operandForm? u = some form)
    (first : c ∈ u.lexeme.toList.head?) (begins : Begins u.kind c) :
    Parted t.kind t.lexeme.toList c := by
  rw [operator]
  show String.ofList (t.lexeme.toList ++ [c]) ∉ fixedLexemes
  intro fixed
  obtain ⟨d, l, eq⟩ := List.exists_cons_of_ne_nil word.left
  have known : String.singleton d ∈ symbols := by
    simpa [Begins, operator] using word.begins d (by rw [eq]; rfl)
  rw [eq, List.cons_append] at fixed
  -- What begins like an operator and is a fixed lexeme is a symbol, and the character stands in it.
  have symbol := symbol_of_mem fixed (not_nameChar_of_symbol _ known d (by simp))
  rcases begins_of_operand operand first begins with name | mark | unary
  · exact not_nameChar_of_symbol _ symbol c (by simp) name
  · exact not_isMark_of_symbol _ symbol c (by simp) mark
  · exact not_unary_of_tail _ symbol c (by simp) (List.contains_iff_mem.mpr unary)

/-- No literal and no name goes on with what follows it. -/
theorem parted_of_leaf {e : Expr} (word : Recognized t) (single : Leaf t e) (follows : Follows u)
    (begins : Begins u.kind c) : Parted t.kind t.lexeme.toList c := by
  obtain ⟨stops, quote⟩ := follows.apart begins
  have other (kind : t.kind ≠ .keyword) : t.lexeme ≠ "fn" :=
    fun spelled => kind (word.kind_of_fn spelled)
  cases single with
  | numeric kind => exact word.parted_of_word (.inr (.inr kind)) (other (by simp [kind])) stops
  | name kind => exact word.parted_of_word (.inl kind) (other (by simp [kind])) stops
  | null is =>
    obtain ⟨kind, spelled⟩ := Token.is_iff.mp is
    exact word.parted_of_word (.inr (.inl kind)) (by simp [spelled]) stops
  | string kind =>
    rw [kind]
    trivial
  | char kind =>
    rw [kind]
    exact quote

/-- Neighbours are not joined. -/
theorem Neighbours.parted (beside : Neighbours t u) (word : Recognized t) (word' : Recognized u) :
    ∀ c ∈ u.lexeme.toList.head?, Parted t.kind t.lexeme.toList c := by
  intro c first
  have begins := word'.begins c first
  cases beside with
  | mark mark => rcases mark with kind | kind <;> rw [kind] <;> trivial
  | operator operator operand => exact parted_of_operator word operator operand first begins
  | leaf single follows => exact parted_of_leaf word single follows begins

/-- Words of which all that stand side by side are neighbours need no whitespace between them. -/
theorem separated_of_neighbours {ts : List Token} (chain : ts.IsChain Neighbours)
    (words : ∀ t ∈ ts, Recognized t) :
    Piece.Separated [] (ts.map fun t => ([], t)) := by
  induction ts with
  | nil => exact .nil
  | cons t ts ih =>
    rw [List.forall_mem_cons] at words
    obtain ⟨beside, chain⟩ := List.isChain_cons.mp chain
    refine .cons (by simp) (by simp) words.1 (fun c front => ?_) (ih chain words.2)
    cases ts with
    | nil => cases front
    | cons u ts =>
      have word := words.2 u List.mem_cons_self
      rw [List.map_cons, Piece.spaced, List.nil_append, List.append_assoc,
        List.head?_append_of_ne_nil _ word.left] at front
      exact (beside u rfl).parted words.1 word c front

end Grammar

theorem spaced_unspaced (ts : List Token) :
    String.ofList (Piece.spaced (ts.map fun t => ([], t))) =
      String.join (ts.map Token.lexeme) := by
  apply String.toList_injective
  rw [String.toList_ofList]
  induction ts with
  | nil => rfl
  | cons t ts ih =>
    rw [List.map_cons, Piece.spaced, ih]
    simp

/-- An expression is read in the same way when all its whitespace is left out: the tokens are the
same words, and the tree is the same up to positions. -/
theorem parseExpression_unspaced {text : String} {ts : List Token} {e : Expr}
    (lexed : tokenize text = .ok ts) (plain : ∀ t ∈ ts, ¬t.isComment)
    (parsed : parseExpression ts = .ok e) :
    ∃ ts' e', tokenize (String.join (ts.map Token.lexeme)) = .ok ts' ∧ SameWords ts' ts ∧
      parseExpression ts' = .ok e' ∧ e'.bare = e.bare := by
  -- The parser leaves out no token of either text.
  have tidy : Tidy ts := ⟨plain, apart_of_tokenize lexed⟩
  have derived := parseExpression_eq_ok_iff.mp parsed
  rw [tidy.significant_eq] at derived
  have separated := Grammar.separated_of_neighbours derived.linked.chain
    (recognized_of_tokenize lexed plain)
  have whole : (ts.map fun t => (([] : List Char), t)).map Prod.snd = ts := by simp
  obtain ⟨ts', lexed', same⟩ := tokenize_separated whole separated tidy.apart
  rw [spaced_unspaced] at lexed'
  obtain ⟨e', derived', bare⟩ := derived.relocate same
  rw [← (tidy.relocate same).significant_eq] at derived'
  exact ⟨ts', e', lexed', same, parseExpression_eq_ok_iff.mpr derived', bare⟩

/-- A negated group with a negated number in it is compared with a denied call, and a newline stands
behind them. -/
theorem parseExpression_unspaced_comparison :
    let text := "- ( a < - 1. ) == ! f ( '\\'' , \"x\" ) \n"
    let ts : List Token := [⟨.operator, "-", ⟨1, 1⟩⟩, ⟨.punctuator, "(", ⟨1, 3⟩⟩,
      ⟨.identifier, "a", ⟨1, 5⟩⟩, ⟨.operator, "<", ⟨1, 7⟩⟩, ⟨.operator, "-", ⟨1, 9⟩⟩,
      ⟨.numericLiteral, "1.", ⟨1, 11⟩⟩, ⟨.punctuator, ")", ⟨1, 14⟩⟩, ⟨.operator, "==", ⟨1, 16⟩⟩,
      ⟨.operator, "!", ⟨1, 19⟩⟩, ⟨.identifier, "f", ⟨1, 21⟩⟩, ⟨.punctuator, "(", ⟨1, 23⟩⟩,
      ⟨.charLiteral, "'\\''", ⟨1, 25⟩⟩, ⟨.punctuator, ",", ⟨1, 30⟩⟩,
      ⟨.stringLiteral, "\"x\"", ⟨1, 32⟩⟩, ⟨.punctuator, ")", ⟨1, 36⟩⟩,
      ⟨.statementTerminator, ";", ⟨1, 37⟩⟩]
    let group : Expr := .binary .comparisonLt (.identifier ⟨"a", ⟨1, 5⟩⟩)
      (.unary .arithmeticSub (.numeric .typeDouble "1." ⟨1, 11⟩) ⟨1, 9⟩) ⟨1, 7⟩
    let call : Expr := .call "f" [.char "'\\''" ⟨1, 25⟩, .string "\"x\"" ⟨1, 32⟩] ⟨1, 21⟩
    let e : Expr := .binary .comparisonEq (.unary .arithmeticSub group ⟨1, 1⟩)
      (.unary .logicalNot call ⟨1, 19⟩) ⟨1, 16⟩
    tokenize text = .ok ts ∧ parseExpression ts = .ok e ∧
    String.join (ts.map Token.lexeme) = "-(a<-1.)==!f('\\'',\"x\");" ∧
    ∃ ts' e', tokenize (String.join (ts.map Token.lexeme)) = .ok ts' ∧ SameWords ts' ts ∧
      parseExpression ts' = .ok e' ∧ e'.bare = e.bare := by
  intro text ts group call e
  have lexed : tokenize text = .ok ts := by decide +kernel
  have plain : ∀ t ∈ ts, ¬t.isComment := by decide
  have parsed : parseExpression ts = .ok e := by cbv
  exact ⟨lexed, parsed, by decide +kernel, parseExpression_unspaced lexed plain parsed⟩

end RatLang
