import RatLang.Proofs.Parser.Ladder

/-!
# The grammar of the language

Which lists of tokens form which trees, said without a parser. The lists hold no comments. An
expression is built up the five tiers of the ladder, on each of which the operators lean to the
left. A sequence mixes terminators, bare blocks and statements; behind a statement stands a
terminator or the end of its scope. Inside a statement terminators stand only in front of the brace
that opens a body, in front of `else`, between `else` and `if`, and inside the bodies.
-/

namespace RatLang.Grammar

/-- A token that names a type. -/
structure TypeName (t : Token) (type : Symbol) : Prop where
  kind : t.kind = .type
  spelled : Symbol.ofLexeme? t.lexeme = some type

/-- A list of terminators. -/
def Breaks (w : List Token) : Prop := ∀ t ∈ w, t.isTerminator

/-! ### Expressions -/

/-- A token that is an expression on its own. -/
inductive Leaf (t : Token) : Expr → Prop where
  | numeric (kind : t.kind = .numericLiteral) :
    Leaf t (.numeric (numericType t.lexeme) t.lexeme t.position)
  | string (kind : t.kind = .stringLiteral) : Leaf t (.string t.lexeme t.position)
  | char (kind : t.kind = .charLiteral) : Leaf t (.char t.lexeme t.position)
  | null (is : t.is .keyword "null") : Leaf t (.null t.position)
  | name (kind : t.kind = .identifier) : Leaf t (.identifier ⟨t.lexeme, t.position⟩)

mutual

/-- The expressions of a tier. -/
inductive Expression : Precedence → List Token → Expr → Prop where
  /-- An expression of the next tier is one of this tier too. -/
  | tighter {level : Precedence} {w : List Token} {e : Expr} (inner : level ≠ .unary)
    (operand : Expression level.tighter w e) : Expression level w e
  /-- An operator stands behind an expression of its own tier and in front of one of the next. -/
  | binary {level : Precedence} {l r : List Token} {op : Token} {symbol : Symbol} {lhs rhs : Expr}
    (operator : op.isOperatorOf level) (spelled : Symbol.ofLexeme? op.lexeme = some symbol)
    (left : Expression level l lhs) (right : Expression level.tighter r rhs) :
    Expression level (l ++ op :: r) (.binary symbol lhs rhs op.position)
  | unary {w : List Token} {op : Token} {symbol : Symbol} {e : Expr}
    (operator : op.isSign) (spelled : Symbol.ofLexeme? op.lexeme = some symbol)
    (operand : Expression .unary w e) : Expression .unary (op :: w) (.unary symbol e op.position)
  | group {w : List Token} {opening closing : Token} {e : Expr} (opens : opening.isPunct '(')
    (inner : Expression .lowest w e) (closes : closing.isPunct ')') :
    Expression .unary (opening :: (w ++ [closing])) e
  | leaf {t : Token} {e : Expr} (single : Leaf t e) : Expression .unary [t] e
  | call {w : List Token} {name opening closing : Token} {args : List Expr}
    (named : name.kind = .identifier) (opens : opening.isPunct '(') (arguments : Arguments w args)
    (closes : closing.isPunct ')') :
    Expression .unary (name :: opening :: (w ++ [closing])) (.call name.lexeme args name.position)

/-- The arguments of a call, with commas between them. -/
inductive Arguments : List Token → List Expr → Prop where
  | none : Arguments [] []
  | some {w : List Token} {args : List Expr} (given : MoreArguments w args) : Arguments w args

/-- At least one argument. -/
inductive MoreArguments : List Token → List Expr → Prop where
  | last {w : List Token} {e : Expr} (arg : Expression .lowest w e) : MoreArguments w [e]
  | cons {w more : List Token} {comma : Token} {e : Expr} {args : List Expr}
    (arg : Expression .lowest w e) (separates : comma.isPunct ',')
    (rest : MoreArguments more args) : MoreArguments (w ++ comma :: more) (e :: args)

end

/-! ### The parts of declarations -/

/-- Names with commas between them. -/
inductive Names : List Token → List Identifier → Prop where
  | last {name : Token} (named : name.kind = .identifier) :
    Names [name] [⟨name.lexeme, name.position⟩]
  | cons {name comma : Token} {w : List Token} {names : List Identifier}
    (named : name.kind = .identifier) (separates : comma.isPunct ',') (rest : Names w names) :
    Names (name :: comma :: w) (⟨name.lexeme, name.position⟩ :: names)

/-- The parameters of a function. -/
inductive Parameters : List Token → List Identifier → Prop where
  | none : Parameters [] []
  | some {w : List Token} {names : List Identifier} (given : Names w names) : Parameters w names

/-- The type that a function returns. -/
inductive ReturnType : List Token → Symbol → Prop where
  | none : ReturnType [] .typeVoid
  | given {arrow name : Token} {type : Symbol} (points : arrow.is .operator "->")
    (named : TypeName name type) : ReturnType [arrow, name] type

/-- The type that a declaration may give. -/
inductive Annotation : List Token → Option Symbol → Prop where
  | none : Annotation [] none
  | given {colon name : Token} {type : Symbol} (marks : colon.isPunct ':')
    (named : TypeName name type) : Annotation [colon, name] (some type)

/-- The value that a declaration may give. -/
inductive Initializer : List Token → Option Expr → Prop where
  | none : Initializer [] none
  | given {equals : Token} {w : List Token} {e : Expr} (marks : equals.is .operator "=")
    (value : Expression .lowest w e) : Initializer (equals :: w) (some e)

/-- The spellings of the keywords that open functions. -/
def functionKeywords : List String := ["fn", "fn_", "fn?", "fn/"]

/-- What stands in front of the body of a function. -/
inductive Header : List Token → FunctionHeader → Prop where
  | mk {keyword name opening closing : Token} {kind type : Symbol} {ps ts : List Token}
    {params : List Identifier} (isKeyword : keyword.kind = .keyword)
    (opens : keyword.lexeme ∈ functionKeywords)
    (spelled : Symbol.ofLexeme? keyword.lexeme = some kind) (named : name.kind = .identifier)
    (before : opening.isPunct '(') (parameters : Parameters ps params)
    (behind : closing.isPunct ')') (returns : ReturnType ts type) :
    Header (keyword :: name :: opening :: (ps ++ closing :: ts))
      ⟨kind, name.lexeme, keyword.position, params, type⟩

/-! ### Statements -/

/-- A statement without a body. -/
inductive Simple : List Token → Stmt → Prop where
  | letVariable {keyword name equals : Token} {ts w : List Token} {type : Option Symbol} {e : Expr}
    (opens : keyword.is .keyword "let") (named : name.kind = .identifier)
    (annotated : Annotation ts type) (marks : equals.is .operator "=")
    (value : Expression .lowest w e) :
    Simple (keyword :: name :: (ts ++ equals :: w))
      (.variableDecl .variableDeclarationLet name.lexeme keyword.position type (some e))
  | opVariable {keyword name : Token} {ts w : List Token} {type : Option Symbol}
    {value : Option Expr} (opens : keyword.is .keyword "op") (named : name.kind = .identifier)
    (annotated : Annotation ts type) (initial : Initializer w value) :
    Simple (keyword :: name :: (ts ++ w))
      (.variableDecl .variableDeclarationOp name.lexeme keyword.position type value)
  | typedVariable {keyword name : Token} {w : List Token} {type : Symbol} {value : Option Expr}
    (opens : TypeName keyword type) (named : name.kind = .identifier)
    (initial : Initializer w value) :
    Simple (keyword :: name :: w)
      (.variableDecl type name.lexeme keyword.position (some type) value)
  | ret {keyword : Token} {w : List Token} {e : Expr} (opens : keyword.is .keyword "ret")
    (value : Expression .lowest w e) :
    Simple (keyword :: w) (.ret .functionReturn keyword.position (some e))
  | rev {keyword : Token} (opens : keyword.is .keyword "rev") :
    Simple [keyword] (.ret .functionReturnVoid keyword.position none)
  | expression {first : Token} {w : List Token} {e : Expr}
    (whole : Expression .lowest (first :: w) e) :
    Simple (first :: w) (.expression e first.position)

mutual

/-- The statements of a scope. Those of a bare block belong to the scope around it. -/
inductive Sequence : List Token → List Stmt → Prop where
  | nil : Sequence [] []
  | terminator {t : Token} {w : List Token} {p : List Stmt} (ends : t.isTerminator)
    (rest : Sequence w p) : Sequence (t :: w) p
  | block {opening closing : Token} {b w : List Token} {p q : List Stmt}
    (opens : opening.isPunct '\x7b') (inner : Sequence b p) (closes : closing.isPunct '\x7d')
    (rest : Sequence w q) : Sequence (opening :: (b ++ closing :: w)) (p ++ q)
  | statement {b w : List Token} {s : Stmt} {p : List Stmt} (first : Statement b s)
    (ends : ∀ t ∈ w.head?, t.isTerminator) (rest : Sequence w p) : Sequence (b ++ w) (s :: p)

/-- A statement without its end. -/
inductive Statement : List Token → Stmt → Prop where
  | simple {w : List Token} {s : Stmt} (simple : Simple w s) : Statement w s
  | function {w b : List Token} {header : FunctionHeader} {p : List Stmt} (front : Header w header)
    (body : Body b p) :
    Statement (w ++ b) (.functionDecl header.kind header.name header.position header.params
      header.returnType p)
  | conditional {keyword : Token} {w b r : List Token} {e : Expr} {p : List Stmt}
    {branches : List Branch} (opens : keyword.is .keyword "if") (condition : Expression .lowest w e)
    (body : Body b p) (rest : Branches r branches) :
    Statement (keyword :: (w ++ (b ++ r)))
      (.conditional ⟨.conditionalIf, keyword.position, some e, p⟩ branches)

/-- The statements between braces. -/
inductive Body : List Token → List Stmt → Prop where
  | mk {breaks b : List Token} {opening closing : Token} {p : List Stmt} (skipped : Breaks breaks)
    (opens : opening.isPunct '\x7b') (inner : Sequence b p) (closes : closing.isPunct '\x7d') :
    Body (breaks ++ opening :: (b ++ [closing])) p

/-- The branches of a conditional behind the first one. -/
inductive Branches : List Token → List Branch → Prop where
  | nil : Branches [] []
  | elseIf {breaks breaks' : List Token} {keyword keyword' : Token} {w b r : List Token} {e : Expr}
    {p : List Stmt} {branches : List Branch} (skipped : Breaks breaks)
    (opens : keyword.is .keyword "else") (skipped' : Breaks breaks')
    (opens' : keyword'.is .keyword "if") (condition : Expression .lowest w e) (body : Body b p)
    (rest : Branches r branches) :
    Branches (breaks ++ keyword :: (breaks' ++ keyword' :: (w ++ (b ++ r))))
      (⟨.conditionalElseIf, keyword.position, some e, p⟩ :: branches)
  | last {breaks : List Token} {keyword : Token} {b : List Token} {p : List Stmt}
    (skipped : Breaks breaks) (opens : keyword.is .keyword "else") (body : Body b p) :
    Branches (breaks ++ keyword :: b) [⟨.conditionalElse, keyword.position, none, p⟩]

end

/-! ### First tokens -/

open RatLang.Parser (OperandForm operandForm?)

theorem Leaf.first {t : Token} {e : Expr} (h : Leaf t e) : ∃ form, operandForm? t = some form := by
  cases h with
  | numeric kind | string kind | char kind | name kind => exact ⟨_, by rw [operandForm?, kind]⟩
  | null is =>
    rw [Token.is_iff] at is
    exact ⟨_, by rw [operandForm?, is.1]; exact if_pos is.2⟩

theorem operandForm?_name {t : Token} (named : t.kind = .identifier) :
    ∃ form, operandForm? t = some form :=
  ⟨_, by rw [operandForm?, named]⟩

/-- An expression begins like an operand. -/
theorem Expression.first {level : Precedence} {w : List Token} {e : Expr} :
    Expression level w e → ∃ t v form, w = t :: v ∧ operandForm? t = some form
  | .tighter _ operand => operand.first
  | .binary _ _ left _ => by
    obtain ⟨t, v, form, rfl, opens⟩ := left.first
    exact ⟨t, _, form, rfl, opens⟩
  | .unary operator _ _ => by
    obtain ⟨symbol, -, opens⟩ := Ladder.operandForm?_unary operator
    exact ⟨_, _, _, rfl, opens⟩
  | .group opens _ _ => ⟨_, _, _, rfl, Ladder.operandForm?_group opens⟩
  | .leaf single => by
    obtain ⟨form, opens⟩ := single.first
    exact ⟨_, [], form, rfl, opens⟩
  | .call named _ _ _ => by
    obtain ⟨form, opens⟩ := operandForm?_name named
    exact ⟨_, _, form, rfl, opens⟩

theorem MoreArguments.first {w : List Token} {args : List Expr} (h : MoreArguments w args) :
    ∃ t v form, w = t :: v ∧ operandForm? t = some form := by
  cases h with
  | last arg => exact arg.first
  | cons arg =>
    obtain ⟨t, v, form, rfl, opens⟩ := arg.first
    exact ⟨t, _, form, rfl, opens⟩

/-- A token that opens a statement of a form. -/
structure Opens (t : Token) (form : StatementForm) : Prop where
  form : StatementForm.ofToken? t = some form
  noTerminator : ¬t.isTerminator
  noBrace : ∀ c ∈ ['\x7b', '\x7d'], ¬t.isPunct c

/-- No statement begins with `else`. -/
theorem Opens.noElse {t : Token} {form : StatementForm} (opens : Opens t form) :
    ¬t.is .keyword "else" := by
  intro other
  rw [Token.is_iff] at other
  have none_opened := opens.form
  rw [StatementForm.ofToken?, other.1, other.2] at none_opened
  cases none_opened

theorem opens_of_kind {t : Token} {form : StatementForm}
    (opens : StatementForm.ofToken? t = some form) (visible : t.kind ≠ .statementTerminator)
    (word : t.kind ≠ .punctuator) : Opens t form := by
  refine ⟨opens, by simpa [Token.isTerminator] using visible, fun c _ brace => word ?_⟩
  exact Token.kind_of_isPunct brace

theorem opens_of_keyword {t : Token} {lexeme : String} {form : StatementForm}
    (is : t.is .keyword lexeme)
    (opens : StatementForm.ofToken? ⟨.keyword, lexeme, t.position⟩ = some form) :
    Opens t form := by
  obtain ⟨kind, spelled, position⟩ := t
  rw [Token.is_iff] at is
  obtain ⟨rfl, rfl⟩ := is
  exact opens_of_kind opens (by simp) (by simp)

theorem opens_of_type {t : Token} {type : Symbol} (named : TypeName t type) :
    Opens t .typedVariable := by
  refine opens_of_kind ?_ (by simp [named.kind]) (by simp [named.kind])
  rw [StatementForm.ofToken?, named.kind]

/-- The only mark that opens an operand is a parenthesis. -/
theorem not_isPunct_of_operandForm? {t : Token} {form : OperandForm} {c : Char}
    (h : operandForm? t = some form) (other : '(' ≠ c) : ¬t.isPunct c := by
  intro mark
  rw [operandForm?, Token.kind_of_isPunct mark] at h
  simp only [Ladder.isPunct_exclusive mark other.symm] at h
  cases h

theorem opens_of_operandForm? {t : Token} {form : OperandForm} (h : operandForm? t = some form) :
    Opens t .expression := by
  have noBrace : ∀ c ∈ ['\x7b', '\x7d'], ¬t.isPunct c := by
    intro c mem
    refine not_isPunct_of_operandForm? h ?_
    rintro rfl
    simp at mem
  obtain ⟨kind, lexeme, position⟩ := t
  cases kind with
  | keyword =>
    by_cases null : lexeme = "null"
    · subst null
      exact ⟨rfl, by simp [Token.isTerminator], noBrace⟩
    · simp only [operandForm?, null, if_false] at h
      cases h
  | numericLiteral | stringLiteral | charLiteral | identifier | operator | punctuator =>
    exact ⟨rfl, by simp [Token.isTerminator], noBrace⟩
  | type | commentSeparator | commentBody | statementTerminator => cases h

theorem Simple.first {w : List Token} {s : Stmt} (h : Simple w s) :
    ∃ t v form, w = t :: v ∧ Opens t form := by
  cases h with
  | letVariable opens => exact ⟨_, _, _, rfl, opens_of_keyword opens rfl⟩
  | opVariable opens => exact ⟨_, _, _, rfl, opens_of_keyword opens rfl⟩
  | typedVariable opens => exact ⟨_, _, _, rfl, opens_of_type opens⟩
  | ret opens => exact ⟨_, _, _, rfl, opens_of_keyword opens rfl⟩
  | rev opens => exact ⟨_, _, _, rfl, opens_of_keyword opens rfl⟩
  | expression whole =>
    obtain ⟨t, v, form, eq, opens⟩ := whole.first
    cases eq
    exact ⟨_, _, _, rfl, opens_of_operandForm? opens⟩

theorem Header.first {w : List Token} {header : FunctionHeader} (h : Header w header) :
    ∃ t v, w = t :: v ∧ Opens t .function := by
  obtain ⟨isKeyword, opens⟩ := h
  refine ⟨_, _, rfl, opens_of_kind ?_ (by simp [isKeyword]) (by simp [isKeyword])⟩
  simp only [functionKeywords, List.mem_cons, List.not_mem_nil, or_false] at opens
  rw [StatementForm.ofToken?, isKeyword]
  rcases opens with eq | eq | eq | eq <;> rw [eq] <;> rfl

theorem Statement.first {w : List Token} {s : Stmt} (h : Statement w s) :
    ∃ t v form, w = t :: v ∧ Opens t form := by
  cases h with
  | simple simple => exact simple.first
  | function front body =>
    obtain ⟨t, v, rfl, opens⟩ := front.first
    exact ⟨t, _, _, rfl, opens⟩
  | conditional opens => exact ⟨_, _, _, rfl, opens_of_keyword opens rfl⟩

/-- No sequence begins with the brace that closes a scope. -/
theorem Sequence.first {w : List Token} {p : List Stmt} (h : Sequence w p) :
    ∀ t ∈ w.head?, ¬t.isPunct '\x7d' := by
  cases h with
  | nil => simp
  | terminator ends =>
    rintro t ⟨⟩ brace
    rw [Token.isTerminator_iff] at ends
    simp [Token.isPunct, ends] at brace
  | block opens =>
    rintro t ⟨⟩
    rw [Ladder.isPunct_exclusive opens (by decide)]
    exact Bool.false_ne_true
  | statement first =>
    obtain ⟨t, v, form, rfl, opens⟩ := first.first
    rintro t' ⟨⟩
    exact opens.noBrace _ (by simp)

theorem noTerminator_of_isPunct {t : Token} {c : Char} (mark : t.isPunct c) : ¬t.isTerminator := by
  simp [Token.isTerminator, Token.kind_of_isPunct mark]

theorem not_isComment_of_isPunct {t : Token} {c : Char} (mark : t.isPunct c) : ¬t.isComment := by
  simp [Token.isComment, Token.kind_of_isPunct mark]

theorem not_is_of_isPunct {t : Token} {c : Char} {kind : TokenKind} (mark : t.isPunct c)
    (other : kind ≠ .punctuator) (lexeme : String) : ¬t.is kind lexeme := by
  simp [Token.is, Token.kind_of_isPunct mark, other.symm]

/-- Behind the terminators at the front of a sequence stands no `else`. -/
theorem Sequence.noElse {w : List Token} {p : List Stmt} :
    Sequence w p → ∀ t ∈ (w.dropWhile Token.isTerminator).head?, ¬t.is .keyword "else"
  | .nil => by simp
  | .terminator ends rest => by
    rw [List.dropWhile_cons_of_pos ends]
    exact rest.noElse
  | .block opens _ _ _ => by
    rw [List.dropWhile_cons_of_neg (noTerminator_of_isPunct opens)]
    rintro t ⟨⟩
    exact not_is_of_isPunct opens (by decide) "else"
  | .statement first _ _ => by
    obtain ⟨t, v, form, rfl, opens⟩ := first.first
    rw [List.cons_append, List.dropWhile_cons_of_neg opens.noTerminator]
    rintro t' ⟨⟩
    exact opens.noElse

/-- A body is opened by a brace, and terminators may stand before it. -/
theorem Body.first {w : List Token} {p : List Stmt} (h : Body w p) :
    ∃ t v, w = t :: v ∧ (t.isTerminator ∨ t.isPunct '\x7b') := by
  obtain @⟨breaks, _, _, _, _, skipped, opens⟩ := h
  cases breaks with
  | nil => exact ⟨_, _, rfl, .inr opens⟩
  | cons t breaks => exact ⟨t, _, rfl, .inl (skipped t (by simp))⟩

theorem breaks_nil : Breaks [] := by simp [Breaks]

theorem Sequence.breaks {v w : List Token} {p : List Stmt} (skipped : Breaks v)
    (h : Sequence w p) : Sequence (v ++ w) p := by
  induction v with
  | nil => exact h
  | cons t v ih =>
    exact .terminator (skipped t (by simp)) (ih fun t' mem => skipped t' (by simp [mem]))

theorem Body.breaks {v w : List Token} {p : List Stmt} (skipped : Breaks v) (h : Body w p) :
    Body (v ++ w) p := by
  obtain ⟨skipped', opens, inner, closes⟩ := h
  rw [← List.append_assoc]
  refine .mk (fun t mem => ?_) opens inner closes
  exact (List.mem_append.mp mem).elim (skipped t) (skipped' t)

end RatLang.Grammar
