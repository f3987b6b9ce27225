import RatLang.Proofs.Lexer.Literal
import RatLang.Proofs.Parser.WellFormed

/-!
# Every lexeme belongs to its kind

Whatever kind the lexer gives a lexeme, the lexeme satisfies what the kind says: it is in the table
of the kind, or it has the form of a name or of a literal. The marks of comments and their bodies
come in pairs. Both facts hold of every piece that is cut off the text, and neither is lost when
terminators are merged.
-/

namespace RatLang

/-- A letter or an underscore, and then these and digits. -/
def NameForm (chars : List Char) : Prop :=
  ∃ first rest, chars = first :: rest ∧ isNameStart first ∧ ∀ c ∈ rest, isNameChar c

/-- What the kind of the token says of its lexeme. -/
def Token.Fits (t : Token) : Prop :=
  match t.kind with
  | .identifier => NameForm t.lexeme.toList ∧ ¬isFixedLexeme t.lexeme
  | .keyword => t.lexeme ∈ keywords
  | .type => t.lexeme ∈ types
  | .operator => t.lexeme ∈ operators
  | .numericLiteral => NumberForm t.lexeme.toList
  | .stringLiteral => StringForm t.lexeme.toList
  | .charLiteral => CharForm t.lexeme.toList
  | .punctuator => ∃ c ∈ punctuators, c ≠ '"' ∧ c ≠ '\'' ∧ t.lexeme = String.singleton c
  | .commentSeparator => t.lexeme = commentMark
  | .commentBody => '\n' ∉ t.lexeme.toList
  | .statementTerminator => t.lexeme = String.singleton terminatorMark

theorem nameForm_of_isName {lexeme : String} (h : isName lexeme) : NameForm lexeme.toList := by
  unfold isName at h
  split at h
  · cases h
  · rename_i first rest chars
    rw [Bool.and_eq_true, List.all_eq_true] at h
    exact ⟨first, rest, chars, h⟩

/-! ### Kinds of lexemes -/

namespace Munch

variable {text chars : List Char}

/-- The kinds of what is neither a quoted literal nor a single mark. -/
theorem kind_of_ofText {kind : TokenKind} (h : ofText text = .lexeme kind chars) :
    kind ∈ [.identifier, .keyword, .type, .operator, .numericLiteral, .commentSeparator] := by
  unfold ofText ofWord ofOther ofGrammar at h
  grind

theorem isNumeric_of_ofText (h : ofText text = .lexeme .numericLiteral chars) :
    isNumeric (String.ofList chars) := by
  unfold ofText ofWord ofOther ofGrammar at h
  grind

theorem isOperator_of_ofText (h : ofText text = .lexeme .operator chars) :
    isOperator (String.ofList chars) := by
  have longest : ∃ symbol, longestSymbol? text = some symbol ∧ symbol ≠ commentMark ∧
      chars = symbol.toList := by
    unfold ofText ofWord ofOther ofGrammar at h
    grind
  obtain ⟨symbol, longest, plain, rfl⟩ := longest
  have mem := (longestSymbol?_eq_some_iff.mp longest).1
  rw [String.ofList_toList]
  simpa [symbols, plain, isOperator] using mem

/-- A keyword is a word of its table, or the word of a function with the mark behind it. -/
theorem isKeyword_of_ofText (h : ofText text = .lexeme .keyword chars) :
    isKeyword (String.ofList chars) := by
  have word : isKeyword (String.ofList chars) ∨
      ∃ behind : List Char, chars = ['f', 'n'] ++ behind.take 1 ∧
        (behind.head? = some '?' ∨ behind.head? = some '/') := by
    unfold ofText ofWord ofOther ofGrammar at h
    grind
  obtain word | ⟨behind, rfl, mark⟩ := word
  · exact word
  · rcases mark with mark | mark
    · obtain ⟨rest, rfl⟩ := List.head?_eq_some_iff.mp mark
      exact (by decide +kernel : isKeyword (String.ofList ['f', 'n', '?']))
    · obtain ⟨rest, rfl⟩ := List.head?_eq_some_iff.mp mark
      exact (by decide +kernel : isKeyword (String.ofList ['f', 'n', '/']))

theorem fits_of_ofText {t : Token} (h : ofText text = .lexeme t.kind t.lexeme.toList) :
    t.Fits := by
  obtain ⟨kind, lexeme, p⟩ := t
  have kinds := kind_of_ofText h
  simp only [List.mem_cons, List.not_mem_nil, or_false] at kinds
  rcases kinds with rfl | rfl | rfl | rfl | rfl | rfl
  · have name := isName_of_ofText h
    rw [String.ofList_toList] at name
    exact ⟨nameForm_of_isName name.1, name.2⟩
  · simpa [Token.Fits, isKeyword] using isKeyword_of_ofText h
  · simpa [Token.Fits, isTypeName] using isTypeName_of_ofText h
  · simpa [Token.Fits, isOperator] using isOperator_of_ofText h
  · have number := isNumeric_of_ofText h
    rw [String.ofList_toList] at number
    exact numberForm_of_isNumeric number
  · exact String.toList_injective (eq_commentMark h)

end Munch

namespace Piece

variable {p : Position} {text : List Char} {piece : Piece} {t : Token}

theorem eq_of_lexeme {kind : TokenKind} {chars : List Char} {q : Position}
    (h : lexeme t.kind t.lexeme.toList t.position = lexeme kind chars q) :
    t.kind = kind ∧ t.lexeme.toList = chars :=
  ⟨kind_of_lexeme_eq h, congrArg Piece.chars h⟩

/-- A token that stands at the front of a text fits. -/
theorem fits_of_spells (spells : Spells t text) : t.Fits := by
  obtain ⟨left, found⟩ := spells
  obtain ⟨d, l, rfl⟩ := List.exists_cons_of_ne_nil left
  unfold Token.Fits
  cases Front.of d with
  | string =>
    obtain ⟨closed, eq⟩ := ofString_eq_ok.mp found
    obtain ⟨kind, chars⟩ := eq_of_lexeme eq
    obtain ⟨items, inside, read⟩ := items_of_scanString closed
    rw [kind]
    exact ⟨items, inside, by rw [chars, read]⟩
  | char =>
    obtain ⟨closed, literal, eq⟩ := ofChar_eq_ok.mp found
    obtain ⟨kind, chars⟩ := eq_of_lexeme eq
    have quote : isCharLiteralChar '\'' := by decide
    rw [kind]
    rw [← chars, String.ofList_toList] at literal
    refine charForm_of_isCharLiteral literal ?_
    rw [chars]
    exact List.forall_mem_cons.mpr ⟨quote, inside_of_scanChar closed⟩
  | terminator =>
    rw [ofText_terminator] at found
    have eq : lexeme t.kind t.lexeme.toList t.position =
        lexeme .statementTerminator [terminatorMark] t.position := (Except.ok.inj found).symm
    obtain ⟨kind, chars⟩ := eq_of_lexeme eq
    rw [kind]
    exact String.toList_injective chars
  | punctuator double single mark =>
    rw [ofText_punctuator double single mark] at found
    obtain ⟨kind, chars⟩ := eq_of_lexeme (Except.ok.inj found).symm
    rw [kind]
    exact ⟨d, by simpa [isPunctuator] using mark, double, single,
      String.toList_injective (by rw [chars, String.toList_singleton])⟩
  | munch goes plain =>
    rw [ofText_munch goes plain] at found
    exact Munch.fits_of_ofText (ofMunch_alone found).1

theorem fits_of_ofText (left : text ≠ []) (found : ofText p text = .ok piece)
    (mem : t ∈ piece.tokens) : t.Fits := by
  cases form_of_ofText left found with
  | lexeme kind chars => exact fits_of_spells (spells_of_lexeme left found mem)
  | comment rest =>
    simp only [comment, List.mem_cons, List.not_mem_nil, or_false] at mem
    rcases mem with rfl | rfl
    · exact String.ofList_toList
    · obtain ⟨dropped, line, -⟩ :=
        Lexer.dropCarriageReturn_append (rest.takeWhile (· != '\n'))
      show '\n' ∉ (String.ofList _).toList
      rw [String.toList_ofList]
      intro newline
      have inside : '\n' ∈ rest.takeWhile (· != '\n') := line ▸ List.mem_append_left dropped newline
      simpa using List.mem_takeWhile_imp inside

theorem fits_of_mem_cuts {ts : List Token} (cuts : Cuts p text ts) : ∀ t ∈ ts, t.Fits := by
  induction cuts with
  | done => exact List.forall_mem_nil _
  | newline _ _ _ _ ih => exact List.forall_mem_cons.mpr ⟨rfl, ih⟩
  | piece _ _ _ left found _ _ ih =>
    exact List.forall_mem_append.mpr ⟨fun t mem => fits_of_ofText left found mem, ih⟩

end Piece

/-! ### Comments -/

/-- The mark of a comment and its body stand side by side, and neither stands alone. -/
inductive Paired : List Token → Prop where
  | nil : Paired []
  | word {t : Token} {ts : List Token} (word : ¬t.isComment) (more : Paired ts) : Paired (t :: ts)
  | comment {mark body : Token} {ts : List Token} (opens : mark.kind = .commentSeparator)
    (goes : body.kind = .commentBody) (more : Paired ts) : Paired (mark :: body :: ts)

namespace Paired

variable {ts us : List Token}

theorem append (first : Paired ts) (second : Paired us) : Paired (ts ++ us) := by
  induction first with
  | nil => exact second
  | word word _ ih => exact .word word ih
  | comment opens goes _ ih => exact .comment opens goes ih

theorem of_cuts {p : Position} {text : List Char} (cuts : Piece.Cuts p text ts) : Paired ts := by
  induction cuts with
  | done => exact .nil
  | newline _ _ _ _ ih => exact .word (noComment_of_terminator rfl) ih
  | piece _ _ _ left found _ _ ih =>
    refine append ?_ ih
    cases Piece.form_of_ofText left found with
    | lexeme kind chars opens goes => exact .word (by simp [Token.isComment, opens, goes]) .nil
    | comment rest => exact .comment rfl rfl .nil

theorem tail_of_word {t : Token} (h : Paired (t :: ts)) (word : ¬t.isComment) : Paired ts := by
  cases h with
  | word _ more => exact more
  | comment opens => simp [Token.isComment, opens] at word

theorem mergeTerminators (h : Paired ts) : Paired (mergeTerminators ts) := by
  induction h with
  | nil => exact .nil
  | @word t ts word _ ih =>
    rcases mergeTerminators_cases t ts with kept | ⟨next, more, _, ends, merged, dropped⟩
    · exact kept ▸ .word word ih
    · rw [dropped]
      rw [merged] at ih
      exact .word word (ih.tail_of_word (noComment_of_terminator ends))
  | @comment mark body ts opens goes _ ih =>
    have stays {t : Token} (other : ¬t.isTerminator) (us : List Token) :
        RatLang.mergeTerminators (t :: us) = t :: RatLang.mergeTerminators us := by
      rcases mergeTerminators_cases t us with kept | ⟨_, _, ends, _⟩
      · exact kept
      · exact absurd ends other
    rw [stays (by simp [Token.isTerminator, opens]), stays (by simp [Token.isTerminator, goes])]
    exact .comment opens goes ih

/-- A body stands behind every mark. -/
theorem body_of_mark (h : Paired ts) : ∀ (i : Nat) (t : Token), ts[i]? = some t →
    t.kind = .commentSeparator → ∃ body, ts[i + 1]? = some body ∧ body.kind = .commentBody := by
  induction h with
  | nil => simp
  | @word t ts word _ ih =>
    intro i u found kind
    cases i with
    | zero =>
      cases found
      simp [Token.isComment, kind] at word
    | succ i => exact ih i u found kind
  | @comment mark body ts opens goes _ ih =>
    intro i u found kind
    rcases i with _ | _ | i
    · exact ⟨body, rfl, goes⟩
    · cases found
      rw [goes] at kind
      cases kind
    · exact ih i u found kind

/-- A mark stands in front of every body. -/
theorem mark_of_body (h : Paired ts) : ∀ (i : Nat) (t : Token), ts[i]? = some t →
    t.kind = .commentBody → ∃ j mark, i = j + 1 ∧ ts[j]? = some mark ∧
      mark.kind = .commentSeparator := by
  induction h with
  | nil => simp
  | @word t ts word _ ih =>
    intro i u found kind
    cases i with
    | zero =>
      cases found
      simp [Token.isComment, kind] at word
    | succ i =>
      obtain ⟨j, mark, rfl, before, opens⟩ := ih i u found kind
      exact ⟨j + 1, mark, rfl, before, opens⟩
  | @comment mark body ts opens goes _ ih =>
    intro i u found kind
    rcases i with _ | _ | i
    · cases found
      rw [opens] at kind
      cases kind
    · exact ⟨0, mark, rfl, rfl, opens⟩
    · obtain ⟨j, mark', rfl, before, opens'⟩ := ih i u found kind
      exact ⟨j + 2, mark', rfl, before, opens'⟩

end Paired

/-! ### The tokens of a text -/

theorem fits_of_mem {text : String} {tokens : List Token} (lexed : tokenize text = .ok tokens) :
    ∀ t ∈ tokens, t.Fits := by
  obtain ⟨ts, cuts, rfl⟩ := exists_cuts lexed
  exact fun t mem => Piece.fits_of_mem_cuts cuts t ((mergeTerminators_sublist ts).subset mem)

/-- What is a literal has the form of its kind. -/
theorem fits_of_isLiteral {kind : TokenKind} {lexeme : String} (h : IsLiteral kind lexeme) :
    (Token.word kind lexeme).Fits := by
  obtain ⟨text, tokens, lexed, t, mem, rfl, rfl⟩ := h
  exact fits_of_mem lexed t mem

theorem paired_of_tokenize {text : String} {tokens : List Token}
    (lexed : tokenize text = .ok tokens) : Paired tokens := by
  obtain ⟨ts, cuts, rfl⟩ := exists_cuts lexed
  exact (Paired.of_cuts cuts).mergeTerminators

end RatLang
