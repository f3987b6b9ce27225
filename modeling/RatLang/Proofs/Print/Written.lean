import RatLang.Proofs.Print
import RatLang.Proofs.Symbol.Table

/-!
# The words of a program are recognized

Every word that is written for a program is recognized where whitespace stands behind it, whatever
the other words are. The words of names and literals are those of some text, and the other ones
stand in the tables of the language.
-/

namespace RatLang

open Token (word mark)

/-! ### Words -/

/-- A word that is recognized, and that ends no statement and opens no comment. It has no place
yet. -/
structure Written (t : Token) : Prop where
  recognized : Piece.Recognized t
  plain : t.Plain
  start : t.position = .start

/-- The kinds of the words that are written. -/
def IsWordKind (kind : TokenKind) : Prop :=
  kind ∉ [.commentSeparator, .commentBody, .statementTerminator]

theorem plain_of_isWordKind {t : Token} (words : IsWordKind t.kind) : t.Plain := by
  simp only [IsWordKind, List.mem_cons, List.not_mem_nil, or_false, not_or] at words
  simp [Token.Plain, Token.isTerminator, Token.isComment, words]

theorem written_of_spells {t : Token} {text : List Char} (spells : Piece.Spells t text)
    (words : IsWordKind t.kind) : Written (word t.kind t.lexeme) :=
  ⟨⟨t.position, text, spells⟩, plain_of_isWordKind words, rfl⟩

/-- What is recognized alone is recognized in front of whitespace. -/
theorem written_of_munch {kind : TokenKind} {lexeme : String}
    (alone : Munch.ofText lexeme.toList = .lexeme kind lexeme.toList) (words : IsWordKind kind)
    (visible : ∀ c ∈ lexeme.toList.head?, ¬isMark c) : Written (word kind lexeme) := by
  have other : kind ≠ .commentSeparator := by
    rintro rfl
    simp [IsWordKind] at words
  obtain ⟨-, left⟩ := Munch.prefix_of_ofText alone
  suffices found : Piece.ofText .start lexeme.toList =
      .ok (Piece.lexeme kind lexeme.toList .start) from
    written_of_spells (t := word kind lexeme) ⟨left, found⟩ words
  obtain ⟨d, l, eq⟩ := List.exists_cons_of_ne_nil left
  rw [eq] at alone visible ⊢
  have visible := visible d rfl
  simp only [isMark, Bool.or_eq_true, beq_iff_eq, not_or] at visible
  rw [Piece.ofText_munch visible.2 visible.1.2, alone, Piece.ofMunch, if_neg other]

/-- The lexemes of a table are recognized, if each is recognized alone. -/
theorem written_of_table {kind : TokenKind} {table : List String} (words : IsWordKind kind)
    (checked : table.all fun lexeme => Munch.ofText lexeme.toList == .lexeme kind lexeme.toList &&
      lexeme.toList.head?.all fun c => !isMark c) :
    ∀ lexeme ∈ table, Written (word kind lexeme) := by
  intro lexeme mem
  have entry := List.all_eq_true.mp checked lexeme mem
  rw [Bool.and_eq_true, beq_iff_eq, Option.all_eq_true] at entry
  exact written_of_munch entry.1 words fun c front => by simpa using entry.2 c front

theorem written_keyword : ∀ lexeme ∈ keywords, Written (word .keyword lexeme) :=
  written_of_table (by simp [IsWordKind]) (by decide)

theorem written_type : ∀ lexeme ∈ types, Written (word .type lexeme) :=
  written_of_table (by simp [IsWordKind]) (by decide)

theorem written_operator : ∀ lexeme ∈ operators, Written (word .operator lexeme) :=
  written_of_table (by simp [IsWordKind]) (by decide)

theorem written_mark {c : Char} (mem : c ∈ ['(', ')', ',', ':', '\x7b', '\x7d']) :
    Written (mark c) := by
  have checked : ['(', ')', ',', ':', '\x7b', '\x7d'].all fun d =>
      d ≠ '"' ∧ d ≠ '\'' ∧ isPunctuator d := by decide
  obtain ⟨double, single, punctuator⟩ :=
    of_decide_eq_true (List.all_eq_true.mp checked c mem)
  have found : Piece.ofText .start [c] = .ok (Piece.lexeme .punctuator [c] .start) :=
    Piece.ofText_punctuator double single punctuator []
  have spells : Piece.Spells (mark c) [c] := by
    refine ⟨List.cons_ne_nil c [], ?_⟩
    simpa [mark] using found
  exact written_of_spells spells (by simp [mark, IsWordKind])

theorem nameChars_of_isName {name : String} (h : isName name) :
    name.toList ≠ [] ∧ ∀ c ∈ name.toList, isNameChar c := by
  unfold isName at h
  cases chars : name.toList with
  | nil => simp [chars] at h
  | cons c rest =>
    simp only [chars, Bool.and_eq_true, List.all_eq_true] at h
    have first : isNameChar c := isNameChar_iff.mpr (.inl h.1)
    exact ⟨List.cons_ne_nil c rest, by simpa [first] using h.2⟩

/-- A name is recognized as an identifier. -/
theorem munch_of_isName {name : String} (h : IsName name) :
    Munch.ofText name.toList = .lexeme .identifier name.toList := by
  obtain ⟨shape, unfixed⟩ := h
  obtain ⟨left, names⟩ := nameChars_of_isName shape
  simp only [isFixedLexeme, Bool.or_eq_true, not_or] at unfixed
  have number : ¬isNumeric name := fun number => by
    rw [Lexer.isName_of_isNumeric number] at shape
    cases shape
  have first : name.toList.head?.any isNameChar := by
    obtain ⟨c, rest, chars⟩ := List.exists_cons_of_ne_nil left
    rw [chars] at names ⊢
    exact names c List.mem_cons_self
  have ends : ∀ p : Char → Bool, ∀ c ∈ ([] : List Char).head?, ¬p c := by simp
  have word := takeWhile_run names (ends isNameChar)
  have behind := dropWhile_run names (ends isNameChar)
  have whole := takeWhile_run (fun c mem => Munch.isWordChar_of_isNameChar c (names c mem))
    (ends Munch.isWordChar)
  rw [List.append_nil] at word behind whole
  rw [Munch.ofText, if_pos first, Munch.ofWord, word, behind, whole, Munch.ofGrammar,
    String.ofList_toList]
  simp [unfixed, number, shape]

theorem written_name {name : String} (h : IsName name) : Written (word .identifier name) := by
  refine written_of_munch (munch_of_isName h) (by simp [IsWordKind]) fun c front => ?_
  exact not_isMark_of_nameChar ((nameChars_of_isName h.1).2 c (List.mem_of_mem_head? front))

/-- What is a token of some text is one of the printed text. -/
theorem written_literal {kind : TokenKind} {lexeme : String} (h : IsLiteral kind lexeme)
    (words : IsWordKind kind) : Written (word kind lexeme) := by
  obtain ⟨text, tokens, lexed, t, mem, rfl, rfl⟩ := h
  obtain ⟨-, noComment⟩ := plain_of_isWordKind words
  obtain ⟨behind, spells⟩ := spells_of_mem lexed mem noComment
  exact written_of_spells spells words

/-! ### Expressions -/

theorem spelled_of_unary {op : Symbol}
    (h : op ∈ [Symbol.arithmeticSub, .logicalNot, .bitwiseNeg]) :
    Symbol.ofLexeme? op.text = some op ∧ (word .operator op.text).isSign ∧
      op.text ∈ operators := by
  have checked : ∀ s ∈ [Symbol.arithmeticSub, .logicalNot, .bitwiseNeg],
      Symbol.ofLexeme? s.text = some s ∧ (word .operator s.text).isSign ∧
        s.text ∈ operators := by decide
  exact checked op h

theorem Expr.words_ne_nil (e : Expr) : e.words ≠ [] := by
  cases e <;> simp [Expr.words]

/-- All words of a list are written words. -/
def WrittenAll (w : List Token) : Prop := ∀ t ∈ w, Written t

@[simp] theorem writtenAll_nil : WrittenAll [] := List.forall_mem_nil _

@[simp] theorem writtenAll_cons {t : Token} {w : List Token} :
    WrittenAll (t :: w) ↔ Written t ∧ WrittenAll w := List.forall_mem_cons

@[simp] theorem writtenAll_append {v w : List Token} :
    WrittenAll (v ++ w) ↔ WrittenAll v ∧ WrittenAll w := List.forall_mem_append

theorem writtenAll_enclosed {w : List Token} (h : WrittenAll w) (needed : Prop)
    [Decidable needed] : WrittenAll (enclosed needed w) := by
  unfold enclosed
  split
  · simp [h, written_mark]
  · exact h

mutual

theorem Expr.written : (e : Expr) → e.WellFormed → WrittenAll e.words
  | .binary op lhs rhs p, wf => by
    obtain ⟨⟨level, operator⟩, left, right⟩ := wf
    rw [Expr.words]
    simp [writtenAll_enclosed (lhs.written left), writtenAll_enclosed (rhs.written right),
      written_operator _ (Precedence.mem_operators_of_mem operator)]
  | .unary op operand p, wf => by
    obtain ⟨operator, inner⟩ := wf
    rw [Expr.words]
    simp [writtenAll_enclosed (operand.written inner),
      written_operator _ (spelled_of_unary operator).2.2]
  | .numeric type value p, wf => by
    simp [Expr.words, written_literal wf.2 (by simp [IsWordKind])]
  | .string value p, wf => by simp [Expr.words, written_literal wf (by simp [IsWordKind])]
  | .char value p, wf => by simp [Expr.words, written_literal wf (by simp [IsWordKind])]
  | .null p, _ => by simp [Expr.words, written_keyword "null" (by decide)]
  | .identifier name, wf => by simp [Expr.words, written_name wf]
  | .call name args p, wf => by
    simp [Expr.words, written_name wf.1, written_mark, Expr.written_args args wf.2]

theorem Expr.written_args : (args : List Expr) → Expr.ArgsWellFormed args →
    WrittenAll (Expr.argWords args)
  | [], _ => by simp [Expr.argWords]
  | [arg], wf => arg.written wf.1
  | arg :: next :: rest, wf => by
    simp [Expr.argWords, arg.written wf.1, written_mark,
      Expr.written_args (next :: rest) wf.2]

end

/-! ### The parts of declarations -/

theorem spelled_of_isType {type : Symbol} (h : type.isType) :
    Symbol.ofLexeme? type.text = some type ∧ type.text ∈ types := by
  have checked : ∀ s ∈ Symbol.all, s.isType →
      Symbol.ofLexeme? s.text = some s ∧ s.text ∈ types := by decide
  exact checked type (Symbol.mem_all type) h

theorem spelled_of_functionKind {kind : Symbol} (h : kind ∈ functionKinds) :
    kind.text ∈ Grammar.functionKeywords ∧ kind.text ∈ keywords ∧
      Symbol.ofLexeme? kind.text = some kind := by
  have checked : ∀ s ∈ functionKinds, s.text ∈ Grammar.functionKeywords ∧ s.text ∈ keywords ∧
      Symbol.ofLexeme? s.text = some s := by decide
  exact checked kind h

theorem paramWords_written : (params : List Identifier) → (∀ i ∈ params, IsName i.name) →
    WrittenAll (paramWords params)
  | [], _ => writtenAll_nil
  | [i], h => by simpa [paramWords] using written_name (h i List.mem_cons_self)
  | i :: next :: rest, h => by
    have more := paramWords_written (next :: rest) fun i mem => h i (List.mem_cons_of_mem _ mem)
    simp [paramWords, written_name (h i List.mem_cons_self), written_mark, more]

theorem returnWords_written {type : Symbol} (h : type.isType) : WrittenAll (returnWords type) := by
  unfold returnWords
  split
  · exact writtenAll_nil
  · simp [written_operator "->" (by decide), written_type _ (spelled_of_isType h).2]

theorem typeWords_written {type : Option Symbol} (h : ∀ t ∈ type, t.isType) :
    WrittenAll (typeWords type) := by
  cases type with
  | none => exact writtenAll_nil
  | some type => simp [typeWords, written_mark, written_type _ (spelled_of_isType (h type rfl)).2]

theorem wordsOf_written {value : Option Expr} (wf : ∀ e ∈ value, e.WellFormed) :
    WrittenAll (Expr.wordsOf value) := by
  cases value with
  | none => exact writtenAll_nil
  | some e => exact e.written (wf e rfl)

theorem valueWords_written {value : Option Expr} (wf : ∀ e ∈ value, e.WellFormed) :
    WrittenAll (valueWords value) := by
  cases value with
  | none => exact writtenAll_nil
  | some e => simp [valueWords, written_operator "=" (by decide), e.written (wf e rfl)]

theorem headerWords_written {kind type : Symbol} {name : String} {params : List Identifier}
    (h : kind ∈ functionKinds) (named : IsName name) (names : ∀ i ∈ params, IsName i.name)
    (h' : type.isType) : WrittenAll (headerWords kind name params type) := by
  simp [headerWords, written_keyword _ (spelled_of_functionKind h).2.1, written_name named,
    written_mark, paramWords_written params names, returnWords_written h']

theorem variableWords_written {kind : Symbol} {name : String} {type : Option Symbol}
    {value : Option Expr} (named : IsName name) (shape : VariableShape kind type value)
    (wf : ∀ e ∈ value, e.WellFormed) : WrittenAll (variableWords kind name type value) := by
  unfold variableWords
  have keyword {type : Option Symbol} (h : ∀ t ∈ type, t.isType) {lexeme : String}
      (mem : lexeme ∈ keywords) : WrittenAll (word .keyword lexeme :: word .identifier name ::
        (typeWords type ++ valueWords value)) := by
    simp [written_keyword lexeme mem, written_name named, typeWords_written h,
      valueWords_written wf]
  rcases shape with ⟨rfl, types, -⟩ | ⟨rfl, types⟩ | ⟨isType, rfl⟩
  · exact keyword types (by decide)
  · exact keyword types (by decide)
  · rw [if_pos isType]
    simp [written_type _ (spelled_of_isType isType).2, written_name named, valueWords_written wf]

/-! ### The lines of a program -/

/-- A line that is not empty and holds written words only. -/
structure WrittenLine (line : List Token) : Prop where
  nonempty : line ≠ []
  words : WrittenAll line

theorem branchWords_written {kind : Symbol}
    (h : kind ∈ [.conditionalIf, .conditionalElseIf, .conditionalElse]) :
    WrittenAll (branchWords kind) := by
  have opens := written_keyword "if" (by decide)
  have other := written_keyword "else" (by decide)
  simp only [List.mem_cons, List.not_mem_nil, or_false] at h
  rcases h with rfl | rfl | rfl
  · exact writtenAll_cons.mpr ⟨opens, writtenAll_nil⟩
  · exact writtenAll_cons.mpr ⟨other, writtenAll_cons.mpr ⟨opens, writtenAll_nil⟩⟩
  · exact writtenAll_cons.mpr ⟨other, writtenAll_nil⟩

theorem writtenLine_brace : WrittenLine [mark '\x7d'] :=
  ⟨List.cons_ne_nil _ _, by simp [written_mark]⟩

mutual

theorem Stmt.written : (s : Stmt) → s.WellFormed → ∀ line ∈ s.lines, WrittenLine line
  | .functionDecl kind name p params type body, wf => by
    obtain ⟨isKind, named, names, isType, inner⟩ := wf
    have front := headerWords_written isKind named names isType
    rw [Stmt.lines, List.forall_mem_cons, List.forall_mem_append, List.forall_mem_singleton]
    exact ⟨⟨by simp [headerWords], by simp [front, written_mark]⟩,
      Stmt.written_body body inner, writtenLine_brace⟩
  | .variableDecl kind name p type value, wf => by
    obtain ⟨named, shape, valueWf⟩ := wf
    rw [Stmt.lines, List.forall_mem_singleton]
    refine ⟨?_, variableWords_written named shape valueWf⟩
    unfold variableWords
    split <;> exact List.cons_ne_nil _ _
  | .conditional first rest, wf => by
    obtain ⟨isIf, branch, more⟩ := wf
    rw [Stmt.lines, List.forall_mem_append]
    exact ⟨first.written branch (by simp [isIf]) [] writtenAll_nil,
      Branch.written_chain rest more⟩
  | .ret kind p value, wf => by
    rw [Stmt.lines, List.forall_mem_singleton]
    refine ⟨List.cons_ne_nil _ _, ?_⟩
    rcases wf with ⟨rfl, e, rfl, valueWf⟩ | ⟨rfl, rfl⟩
    · exact writtenAll_cons.mpr ⟨written_keyword _ (by decide), e.written valueWf⟩
    · exact writtenAll_cons.mpr ⟨written_keyword _ (by decide), writtenAll_nil⟩
  | .expression e p, wf => by
    rw [Stmt.lines, List.forall_mem_singleton]
    exact ⟨e.words_ne_nil, e.written wf⟩

theorem Stmt.written_body : (p : List Stmt) → Stmt.BodyWellFormed p →
    ∀ line ∈ Stmt.bodyLines p, WrittenLine line
  | [], _ => List.forall_mem_nil _
  | s :: p, wf => by
    rw [Stmt.bodyLines, List.forall_mem_append]
    exact ⟨s.written wf.1, Stmt.written_body p wf.2⟩

theorem Branch.written : (branch : Branch) → branch.WellFormed →
    branch.kind ∈ [.conditionalIf, .conditionalElseIf, .conditionalElse] →
    ∀ before, WrittenAll before → ∀ line ∈ branch.lines before, WrittenLine line
  | .mk kind p condition body, wf, isKind, before, written => by
    obtain ⟨given, inner⟩ := wf
    have valueWf : ∀ e ∈ condition, e.WellFormed := by
      rcases given with ⟨-, rfl⟩ | ⟨-, e, rfl, valueWf⟩
      · rintro e ⟨⟩
      · rintro e ⟨⟩
        exact valueWf
    rw [Branch.lines, List.forall_mem_cons]
    refine ⟨⟨by simp, ?_⟩, Stmt.written_body body inner⟩
    have opens : WrittenAll (branchWords kind) := branchWords_written isKind
    simp [written, opens, wordsOf_written valueWf, written_mark]

theorem Branch.written_chain : (rest : List Branch) → Branch.ChainWellFormed rest →
    ∀ line ∈ Branch.chainLines rest, WrittenLine line
  | [], _ => by
    rw [Branch.chainLines, List.forall_mem_singleton]
    exact writtenLine_brace
  | branch :: rest, wf => by
    obtain ⟨isKind, inner, more⟩ := wf
    rw [Branch.chainLines, List.forall_mem_append]
    refine ⟨branch.written inner ?_ _ writtenLine_brace.words, Branch.written_chain rest more⟩
    rcases isKind with isElseIf | ⟨isElse, -⟩
    · simp [isElseIf]
    · simp [isElse]

end

end RatLang
