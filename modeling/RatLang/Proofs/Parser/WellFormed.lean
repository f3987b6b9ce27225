import Mathlib
import RatLang.Proofs.Parser.Grammar.Complete
import RatLang.Proofs.Print
import RatLang.Proofs.Print.Written
import RatLang.Proofs.Symbol.Table

/-!
# Every tree is well formed

The types of the syntax trees say little about which symbols and which lexemes stand where. What
the grammar derives from the tokens of a text is a program of the language all the same, because the
lexer gives every lexeme the kind that it has, and because the table spells every symbol in one way.
-/

namespace RatLang

/-! ### The lexemes of tokens -/

/-- The lexeme of the token belongs to its kind. -/
structure Token.Lexical (t : Token) : Prop where
  name : t.kind = .identifier → IsName t.lexeme
  type : t.kind = .type → isTypeName t.lexeme
  literal : t.kind ∈ [.numericLiteral, .stringLiteral, .charLiteral] → IsLiteral t.kind t.lexeme

/-- A lexeme that is an identifier is a name, and the language does not spell it itself. -/
theorem Munch.isName_of_ofText {text chars : List Char}
    (h : ofText text = .lexeme .identifier chars) : IsName (String.ofList chars) := by
  have alone := ofText_alone h
  unfold ofText at alone
  split at alone
  · unfold ofWord at alone
    dsimp only at alone
    split at alone
    · split at alone <;> cases alone
    · split at alone
      · cases alone
      · split at alone
        · cases alone
        · rename_i keyword type
          have whole := ofGrammar_eq alone
          have name : isName (String.ofList chars) := by
            rw [← whole] at alone
            unfold ofGrammar at alone
            grind
          obtain ⟨left, inside⟩ := nameChars_of_isName name
          rw [String.toList_ofList] at left inside
          rw [List.takeWhile_eq_self_iff.mpr inside] at keyword type
          refine ⟨name, fun fixed => ?_⟩
          obtain ⟨c, rest, rfl⟩ := List.exists_cons_of_ne_nil left
          rw [isFixedLexeme_iff, fixedLexemes, List.mem_append, List.mem_append] at fixed
          rcases fixed with (mem | mem) | mem
          · exact keyword (by simpa [isKeyword] using mem)
          · exact type (by simpa [isTypeName] using mem)
          · refine not_nameChar_of_symbol _ mem c ?_ (inside c List.mem_cons_self)
            rw [String.toList_ofList]
            exact List.mem_cons_self
  · unfold ofOther at alone
    grind

/-- The tokens of a text have lexemes of their kinds. -/
theorem lexical_of_mem {text : String} {tokens : List Token} {t : Token}
    (lexed : tokenize text = .ok tokens) (mem : t ∈ tokens) : t.Lexical where
  name kind := by
    have word : ¬t.isComment := by simp [Token.isComment, kind]
    obtain ⟨behind, spells⟩ := spells_of_mem lexed mem word
    have found := Piece.munch_of_spells spells (by simp [kind])
    rw [kind] at found
    simpa using Munch.isName_of_ofText found
  type := isTypeName_of_mem lexed mem
  literal _ := ⟨text, tokens, lexed, t, mem, rfl, rfl⟩

/-! ### The operators of the ladder -/

/-- The operators that stand between operands. -/
def binaryOperators : List Symbol :=
  [.logicalOr, .logicalAnd, .comparisonEq, .comparisonNeq, .comparisonLt, .comparisonGt,
    .comparisonLte, .comparisonGte, .bitwiseSl, .bitwiseSr, .arithmeticAdd, .arithmeticSub,
    .arithmeticMul, .arithmeticDiv, .arithmeticMod]

/-- These are the operators that have a tier. -/
theorem mem_binaryOperators {op : Symbol} :
    op ∈ binaryOperators ↔ ∃ level, op.text ∈ Precedence.lexemes level := by
  have checked : ∀ s ∈ Symbol.all,
      s ∈ binaryOperators ↔ (Precedence.listing? s.text).isSome := by decide
  simp only [checked op (Symbol.mem_all op), Option.isSome_iff_exists,
    Precedence.listing?_eq_some_iff]

/-- The type of a number is a type. -/
theorem isType_numericType (lexeme : String) : (numericType lexeme).isType := by
  unfold numericType
  grind [Symbol.isType]

namespace Grammar

/-- The lexemes of the tokens belong to their kinds. -/
def Lexical (w : List Token) : Prop := ∀ t ∈ w, t.Lexical

@[simp] theorem lexical_nil : Lexical [] := List.forall_mem_nil _

@[simp] theorem lexical_cons {t : Token} {w : List Token} :
    Lexical (t :: w) ↔ t.Lexical ∧ Lexical w := List.forall_mem_cons

@[simp] theorem lexical_append {v w : List Token} :
    Lexical (v ++ w) ↔ Lexical v ∧ Lexical w := List.forall_mem_append

/-! ### Expressions -/

theorem Leaf.wellFormed {t : Token} {e : Expr} (h : Leaf t e) (lexical : t.Lexical) :
    e.WellFormed := by
  have literal := lexical.literal
  cases h with
  | numeric kind =>
    rw [kind] at literal
    exact ⟨rfl, literal (by simp)⟩
  | string kind | char kind =>
    rw [kind] at literal
    exact literal (by simp)
  | null is => trivial
  | name kind => exact lexical.name kind

theorem symbol_of_unary {op : Token} {symbol : Symbol} (operator : op.isSign)
    (spelled : Symbol.ofLexeme? op.lexeme = some symbol) :
    symbol ∈ [Symbol.arithmeticSub, .logicalNot, .bitwiseNeg] := by
  have checked : ∀ lexeme ∈ ["-", "!", "~"], ∀ s ∈ Symbol.ofLexeme? lexeme,
      s ∈ [Symbol.arithmeticSub, .logicalNot, .bitwiseNeg] := by decide
  exact checked op.lexeme (Token.isSign_iff.mp operator).2 symbol spelled

mutual

theorem Expression.wellFormed {level : Precedence} {w : List Token} {e : Expr} :
    Expression level w e → Lexical w → e.WellFormed
  | .tighter _ operand, lexical => operand.wellFormed lexical
  | .binary operator spelled left right, lexical => by
    rw [lexical_append, lexical_cons] at lexical
    have tier := (Token.isOperatorOf_iff.mp operator).2
    rw [← Symbol.text_of_ofLexeme? spelled] at tier
    exact ⟨⟨_, tier⟩, left.wellFormed lexical.1, right.wellFormed lexical.2.2⟩
  | .unary operator spelled operand, lexical => by
    rw [lexical_cons] at lexical
    exact ⟨symbol_of_unary operator spelled, operand.wellFormed lexical.2⟩
  | .group _ inner _, lexical => by
    rw [lexical_cons, lexical_append] at lexical
    exact inner.wellFormed lexical.2.1
  | .leaf single, lexical => single.wellFormed (lexical _ List.mem_cons_self)
  | .call named _ arguments _, lexical => by
    rw [lexical_cons, lexical_cons, lexical_append] at lexical
    exact ⟨lexical.1.name named, arguments.wellFormed lexical.2.2.1⟩

theorem Arguments.wellFormed {w : List Token} {args : List Expr} :
    Arguments w args → Lexical w → Expr.ArgsWellFormed args
  | .none, _ => trivial
  | .some given, lexical => given.wellFormed lexical

theorem MoreArguments.wellFormed {w : List Token} {args : List Expr} :
    MoreArguments w args → Lexical w → Expr.ArgsWellFormed args
  | .last arg, lexical => ⟨arg.wellFormed lexical, trivial⟩
  | .cons arg _ rest, lexical => by
    rw [lexical_append, lexical_cons] at lexical
    exact ⟨arg.wellFormed lexical.1, rest.wellFormed lexical.2.2⟩

end

/-! ### The parts of declarations -/

theorem Names.wellFormed {w : List Token} {names : List Identifier} (h : Names w names)
    (lexical : Lexical w) : ∀ i ∈ names, IsName i.name := by
  induction h with
  | last named =>
    rw [List.forall_mem_singleton]
    exact (lexical _ List.mem_cons_self).name named
  | cons named _ _ ih =>
    rw [lexical_cons, lexical_cons] at lexical
    rw [List.forall_mem_cons]
    exact ⟨lexical.1.name named, ih lexical.2.2⟩

theorem Parameters.wellFormed {w : List Token} {params : List Identifier} (h : Parameters w params)
    (lexical : Lexical w) : ∀ i ∈ params, IsName i.name := by
  cases h with
  | none => exact List.forall_mem_nil _
  | some given => exact given.wellFormed lexical

/-- A token that names a type spells one. -/
theorem TypeName.isType {t : Token} {type : Symbol} (h : TypeName t type) (lexical : t.Lexical) :
    type.isType :=
  (Symbol.isType_iff h.spelled).mpr (lexical.type h.kind)

theorem ReturnType.isType {w : List Token} {type : Symbol} (h : ReturnType w type)
    (lexical : Lexical w) : type.isType := by
  cases h with
  | none => rfl
  | given _ named =>
    rw [lexical_cons, lexical_cons] at lexical
    exact named.isType lexical.2.1

theorem Annotation.isType {w : List Token} {type : Option Symbol} (h : Annotation w type)
    (lexical : Lexical w) : ∀ t ∈ type, t.isType := by
  cases h with
  | none => simp
  | given _ named =>
    rw [lexical_cons, lexical_cons] at lexical
    rintro t ⟨⟩
    exact named.isType lexical.2.1

theorem Initializer.wellFormed {w : List Token} {value : Option Expr} (h : Initializer w value)
    (lexical : Lexical w) : ∀ e ∈ value, e.WellFormed := by
  cases h with
  | none => simp
  | given _ value =>
    rw [lexical_cons] at lexical
    rintro e ⟨⟩
    exact value.wellFormed lexical.2

theorem mem_functionKinds {lexeme : String} {kind : Symbol} (opens : lexeme ∈ functionKeywords)
    (spelled : Symbol.ofLexeme? lexeme = some kind) : kind ∈ functionKinds := by
  have checked : ∀ keyword ∈ functionKeywords, ∀ s ∈ Symbol.ofLexeme? keyword,
      s ∈ functionKinds := by decide
  exact checked lexeme opens kind spelled

/-! ### Statements -/

theorem Simple.wellFormed {w : List Token} {s : Stmt} (h : Simple w s) (lexical : Lexical w) :
    s.WellFormed := by
  cases h with
  | letVariable _ named annotated _ value =>
    simp only [lexical_cons, lexical_append] at lexical
    obtain ⟨-, name, type, -, initial⟩ := lexical
    refine ⟨name.name named, .inl ⟨rfl, annotated.isType type, rfl⟩, ?_⟩
    rintro e ⟨⟩
    exact value.wellFormed initial
  | opVariable _ named annotated initial =>
    simp only [lexical_cons, lexical_append] at lexical
    obtain ⟨-, name, type, value⟩ := lexical
    exact ⟨name.name named, .inr (.inl ⟨rfl, annotated.isType type⟩), initial.wellFormed value⟩
  | typedVariable opens named initial =>
    rw [lexical_cons, lexical_cons] at lexical
    obtain ⟨type, name, value⟩ := lexical
    exact ⟨name.name named, .inr (.inr ⟨opens.isType type, rfl⟩), initial.wellFormed value⟩
  | ret _ value =>
    rw [lexical_cons] at lexical
    exact .inl ⟨rfl, _, rfl, value.wellFormed lexical.2⟩
  | rev => exact .inr ⟨rfl, rfl⟩
  | expression whole => exact whole.wellFormed lexical

theorem bodyWellFormed_append {p q : List Stmt} (first : Stmt.BodyWellFormed p)
    (second : Stmt.BodyWellFormed q) : Stmt.BodyWellFormed (p ++ q) := by
  induction p with
  | nil => exact second
  | cons s p ih => exact ⟨first.1, ih first.2⟩

mutual

theorem Sequence.wellFormed {w : List Token} {p : List Stmt} :
    Sequence w p → Lexical w → Stmt.BodyWellFormed p
  | .nil, _ => trivial
  | .terminator _ rest, lexical => by
    rw [lexical_cons] at lexical
    exact rest.wellFormed lexical.2
  | .block _ inner _ rest, lexical => by
    simp only [lexical_cons, lexical_append] at lexical
    exact bodyWellFormed_append (inner.wellFormed lexical.2.1) (rest.wellFormed lexical.2.2.2)
  | .statement first _ rest, lexical => by
    rw [lexical_append] at lexical
    exact ⟨first.wellFormed lexical.1, rest.wellFormed lexical.2⟩

theorem Statement.wellFormed {w : List Token} {s : Stmt} :
    Statement w s → Lexical w → s.WellFormed
  | .simple simple, lexical => simple.wellFormed lexical
  | .function front body, lexical => by
    obtain ⟨-, opens, spelled, named, -, parameters, -, returns⟩ := front
    simp only [lexical_cons, lexical_append] at lexical
    obtain ⟨⟨-, name, -, params, -, type⟩, block⟩ := lexical
    exact ⟨mem_functionKinds opens spelled, name.name named, parameters.wellFormed params,
      returns.isType type, body.wellFormed block⟩
  | .conditional _ condition body rest, lexical => by
    simp only [lexical_cons, lexical_append] at lexical
    obtain ⟨-, guard, block, more⟩ := lexical
    exact ⟨rfl, ⟨.inr ⟨by decide, _, rfl, condition.wellFormed guard⟩, body.wellFormed block⟩,
      rest.wellFormed more⟩

theorem Body.wellFormed {w : List Token} {p : List Stmt} :
    Body w p → Lexical w → Stmt.BodyWellFormed p
  | .mk _ _ inner _, lexical => by
    simp only [lexical_cons, lexical_append] at lexical
    exact inner.wellFormed lexical.2.2.1

theorem Branches.wellFormed {w : List Token} {branches : List Branch} :
    Branches w branches → Lexical w → Branch.ChainWellFormed branches
  | .nil, _ => trivial
  | .elseIf _ _ _ _ condition body rest, lexical => by
    simp only [lexical_cons, lexical_append] at lexical
    obtain ⟨-, -, -, -, guard, block, more⟩ := lexical
    exact ⟨.inl rfl,
      ⟨.inr ⟨by decide, _, rfl, condition.wellFormed guard⟩, body.wellFormed block⟩,
      rest.wellFormed more⟩
  | .last _ _ body, lexical => by
    simp only [lexical_cons, lexical_append] at lexical
    exact ⟨.inr ⟨rfl, rfl⟩, ⟨.inl ⟨rfl, rfl⟩, body.wellFormed lexical.2.2⟩, trivial⟩

end

end Grammar

/-- Every tree that comes from a text is well formed, at every depth: it has the symbols, the parts
and the lexemes of a program of the language. The operators between operands are the fifteen of the
ladder, and the type of a number is a type. -/
theorem parse_wellFormed {text : String} {tokens : List Token} {program : List Stmt}
    (lexed : tokenize text = .ok tokens) (parsed : parse tokens = .ok program) :
    Stmt.BodyWellFormed program ∧
    (∀ op, (∃ level, op.text ∈ Precedence.lexemes level) ↔ op ∈ binaryOperators) ∧
    ∀ lexeme, (numericType lexeme).isType := by
  refine ⟨?_, fun _ => mem_binaryOperators.symm, isType_numericType⟩
  refine (derives_of_parse parsed).wellFormed fun t mem => ?_
  have inside := (mergeTerminators_sublist _).subset mem
  exact lexical_of_mem lexed (List.mem_of_mem_filter inside)

/-- A function without a type whose conditional has a branch of each kind. -/
theorem parse_wellFormed_chain :
    let tokens : List Token :=
      [⟨.keyword, "fn", ⟨1, 1⟩⟩, ⟨.identifier, "f", ⟨1, 4⟩⟩, ⟨.punctuator, "(", ⟨1, 5⟩⟩,
        ⟨.punctuator, ")", ⟨1, 6⟩⟩, ⟨.punctuator, "\x7b", ⟨1, 8⟩⟩, ⟨.keyword, "if", ⟨1, 10⟩⟩,
        ⟨.identifier, "a", ⟨1, 13⟩⟩, ⟨.punctuator, "\x7b", ⟨1, 15⟩⟩, ⟨.keyword, "ret", ⟨1, 17⟩⟩,
        ⟨.numericLiteral, "1u", ⟨1, 21⟩⟩, ⟨.punctuator, "\x7d", ⟨1, 24⟩⟩,
        ⟨.statementTerminator, ";", ⟨1, 25⟩⟩, ⟨.keyword, "else", ⟨2, 1⟩⟩,
        ⟨.keyword, "if", ⟨2, 6⟩⟩, ⟨.identifier, "b", ⟨2, 9⟩⟩, ⟨.punctuator, "\x7b", ⟨2, 11⟩⟩,
        ⟨.punctuator, "\x7d", ⟨2, 12⟩⟩, ⟨.keyword, "else", ⟨2, 14⟩⟩,
        ⟨.punctuator, "\x7b", ⟨2, 19⟩⟩, ⟨.type, "int", ⟨2, 21⟩⟩, ⟨.identifier, "c", ⟨2, 25⟩⟩,
        ⟨.punctuator, "\x7d", ⟨2, 27⟩⟩, ⟨.punctuator, "\x7d", ⟨2, 29⟩⟩]
    let program : List Stmt :=
      [.functionDecl .functionDeclarationF "f" ⟨1, 1⟩ [] .typeVoid
        [.conditional
          (.mk .conditionalIf ⟨1, 10⟩ (some (.identifier ⟨"a", ⟨1, 13⟩⟩))
            [.ret .functionReturn ⟨1, 17⟩ (some (.numeric .typeUint "1u" ⟨1, 21⟩))])
          [.mk .conditionalElseIf ⟨2, 1⟩ (some (.identifier ⟨"b", ⟨2, 9⟩⟩)) [],
            .mk .conditionalElse ⟨2, 14⟩ none
              [.variableDecl .typeInt "c" ⟨2, 21⟩ (some .typeInt) none]]]]
    tokenize "fn f() \x7b if a \x7b ret 1u \x7d\nelse if b \x7b\x7d else \x7b int c \x7d \x7d" =
        .ok tokens ∧
      parse tokens = .ok program ∧ Stmt.BodyWellFormed program := by
  refine ⟨?lexed, ?parsed, (parse_wellFormed ?lexed ?parsed).1⟩
  case lexed => decide +kernel
  case parsed => cbv

end RatLang
