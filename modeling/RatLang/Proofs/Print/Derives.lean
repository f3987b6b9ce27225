import RatLang.Proofs.Print.Written

/-!
# The words of a program form the program

The grammar derives a tree of the language from the words that are written for it. Where an operand
is in parentheses it is a group, and elsewhere its tier fits the place where it stands.
-/

namespace RatLang

open Token (word mark)
open Grammar

theorem Token.is_word (kind : TokenKind) (lexeme : String) :
    (word kind lexeme).is kind lexeme :=
  Token.is_iff.mpr ⟨rfl, rfl⟩

theorem Token.isPunct_mark {c : Char} (single : c.utf8Size = 1) : (mark c).isPunct c :=
  Token.isPunct_iff.mpr ⟨⟨rfl, rfl⟩, single⟩

open Token (is_word isPunct_mark)

/-! ### Expressions -/

theorem tighter_or_eq {level tier : Precedence} (h : level.power ≤ tier.power) :
    level = tier ∨ level ≠ .unary ∧ level.tighter.power ≤ tier.power := by
  rcases Nat.lt_or_eq_of_le h with lower | same
  · have inner : level ≠ .unary := by
      rintro rfl
      have highest : Precedence.unary.power = 6 := rfl
      have := tier.power_le
      omega
    exact .inr ⟨inner, by rw [Precedence.power_tighter inner]; omega⟩
  · exact .inl (Precedence.power_injective same)

/-- An expression of a tier is one of every lower tier. -/
theorem loosen {level tier : Precedence} {w : List Token} {e : Expr} (h : Expression tier w e)
    (lower : level.power ≤ tier.power) : Expression level w e := by
  rcases tighter_or_eq lower with rfl | ⟨inner, lower'⟩
  · exact h
  · exact .tighter inner (loosen h lower')
termination_by tier.power - level.power
decreasing_by
  have := Precedence.power_tighter inner
  omega

theorem expression_enclosed {tier level : Precedence} {w : List Token} {e : Expr} {needed : Prop}
    [Decidable needed] (h : Expression tier w e) (fits : ¬needed → level.power ≤ tier.power) :
    Expression level (enclosed needed w) e := by
  unfold enclosed
  split
  · have inside : Expression .unary (mark '(' :: (w ++ [mark ')'])) e :=
      .group (isPunct_mark rfl) (loosen h (Nat.zero_le _)) (isPunct_mark rfl)
    exact loosen inside level.power_le
  · rename_i needless
    exact loosen h (fits needless)

theorem spelled_of_mem_lexemes {op : Symbol} {level : Precedence}
    (h : op.text ∈ Precedence.lexemes level) : Symbol.ofLexeme? op.text = some op := by
  have checked : ∀ s ∈ Symbol.all, (Precedence.listing? s.text).isSome →
      Symbol.ofLexeme? s.text = some s := by decide
  rw [← Precedence.listing?_eq_some_iff] at h
  exact checked op (Symbol.mem_all op) (by rw [h]; rfl)

mutual

/-- The words of an expression form the expression. -/
theorem Expr.derives : (e : Expr) → e.WellFormed → Expression e.tier e.words e.bare
  | .binary op lhs rhs p, wf => by
    obtain ⟨⟨level, operator⟩, left, right⟩ := wf
    have listed := Precedence.listing?_eq_some_iff.mpr operator
    have tier : (Expr.binary op lhs rhs p).tier = level := Expr.tier_binary operator lhs rhs p
    rw [tier, Expr.words, listed, Option.getD_some]
    have bounds := Precedence.power_of_mem operator
    have inner : level ≠ .unary := by
      rintro rfl
      simp [Precedence.power] at bounds
    refine .binary ?_ (spelled_of_mem_lexemes operator)
      (expression_enclosed (lhs.derives left) (by omega))
      (expression_enclosed (rhs.derives right) ?_)
    · simp [Token.isOperatorOf, word, operator]
    · rw [Precedence.power_tighter inner]
      omega
  | .unary op operand p, wf => by
    obtain ⟨operator, inner⟩ := wf
    obtain ⟨spelled, unary, -⟩ := spelled_of_unary operator
    refine .unary unary spelled (expression_enclosed (operand.derives inner) ?_)
    intro fits
    rw [not_not.mp fits]
  | .numeric type value p, wf => by
    rw [wf.1]
    exact .leaf (.numeric rfl)
  | .string value p, _ => .leaf (.string rfl)
  | .char value p, _ => .leaf (.char rfl)
  | .null p, _ => .leaf (.null (is_word _ _))
  | .identifier name, _ => .leaf (.name rfl)
  | .call name args p, wf => by
    have more := Expr.derives_args args wf.2
    refine .call rfl (isPunct_mark rfl) ?_ (isPunct_mark rfl)
    cases args with
    | nil => exact .none
    | cons arg rest => exact .some (more (List.cons_ne_nil arg rest))

/-- The words of arguments form the arguments. -/
theorem Expr.derives_args : (args : List Expr) → Expr.ArgsWellFormed args → args ≠ [] →
    MoreArguments (Expr.argWords args) (Expr.mapArgs Position.forget args)
  | [], _, left => absurd rfl left
  | [arg], wf, _ => .last (loosen (arg.derives wf.1) (Nat.zero_le _))
  | arg :: next :: rest, wf, _ =>
    .cons (loosen (arg.derives wf.1) (Nat.zero_le _)) (isPunct_mark rfl)
      (Expr.derives_args (next :: rest) wf.2 (List.cons_ne_nil next rest))

end

theorem Expr.derives_lowest (e : Expr) (wf : e.WellFormed) :
    Expression .lowest e.words e.bare :=
  loosen (e.derives wf) (Nat.zero_le _)

/-! ### The parts of declarations -/

theorem typeName_of_isType {type : Symbol} (h : type.isType) :
    TypeName (word .type type.text) type :=
  ⟨rfl, (spelled_of_isType h).1⟩

theorem names_derives : (params : List Identifier) → params ≠ [] →
    Names (paramWords params) (params.map (Identifier.mapPositions Position.forget))
  | [], left => absurd rfl left
  | [_], _ => .last rfl
  | _ :: next :: rest, _ =>
    .cons rfl (isPunct_mark rfl) (names_derives (next :: rest) (List.cons_ne_nil next rest))

theorem parameters_derives (params : List Identifier) :
    Parameters (paramWords params) (params.map (Identifier.mapPositions Position.forget)) := by
  cases params with
  | nil => exact .none
  | cons i rest => exact .some (names_derives (i :: rest) (List.cons_ne_nil i rest))

theorem returnType_derives {type : Symbol} (h : type.isType) :
    ReturnType (returnWords type) type := by
  unfold returnWords
  split
  · rename_i empty
    rw [empty]
    exact .none
  · exact .given (is_word _ _) (typeName_of_isType h)

theorem annotation_derives {type : Option Symbol} (h : ∀ t ∈ type, t.isType) :
    Annotation (typeWords type) type := by
  cases type with
  | none => exact .none
  | some type => exact .given (isPunct_mark rfl) (typeName_of_isType (h type rfl))

theorem initializer_derives {value : Option Expr} (wf : ∀ e ∈ value, e.WellFormed) :
    Initializer (valueWords value) (value.map (Expr.mapPositions Position.forget)) := by
  cases value with
  | none => exact .none
  | some e => exact .given (is_word _ _) (e.derives_lowest (wf e rfl))

theorem header_derives {kind type : Symbol} (h : kind ∈ functionKinds) (h' : type.isType)
    (name : String) (params : List Identifier) :
    Header (headerWords kind name params type)
      ⟨kind, name, .start, params.map (Identifier.mapPositions Position.forget), type⟩ := by
  obtain ⟨opens, -, spelled⟩ := spelled_of_functionKind h
  exact .mk rfl opens spelled rfl (isPunct_mark rfl) (parameters_derives params) (isPunct_mark rfl)
    (returnType_derives h')

theorem variable_derives {kind : Symbol} {name : String} {type : Option Symbol}
    {value : Option Expr} (shape : VariableShape kind type value)
    (wf : ∀ e ∈ value, e.WellFormed) :
    Simple (variableWords kind name type value)
      (.variableDecl kind name .start type (value.map (Expr.mapPositions Position.forget))) := by
  unfold variableWords
  rcases shape with ⟨rfl, types, given⟩ | ⟨rfl, types⟩ | ⟨isType, rfl⟩
  · obtain ⟨e, rfl⟩ := Option.isSome_iff_exists.mp given
    exact .letVariable (is_word _ _) rfl (annotation_derives types) (is_word _ _)
      (e.derives_lowest (wf e rfl))
  · exact .opVariable (is_word _ _) rfl (annotation_derives types) (initializer_derives wf)
  · rw [if_pos isType]
    exact .typedVariable (typeName_of_isType isType) rfl (initializer_derives wf)

/-! ### Statements -/

/-- The tokens of a body in braces, whose lines stand between those of the braces. -/
def bracedTokens (body : List Stmt) : List Token :=
  mark '\x7b' :: .terminator .start :: (linesTokens (Stmt.bodyLines body) ++ [mark '\x7d'])

theorem body_of_sequence {body : List Stmt} {p : List Stmt}
    (h : Sequence (linesTokens (Stmt.bodyLines body)) p) : Body (bracedTokens body) p :=
  .mk breaks_nil (isPunct_mark rfl) (.terminator rfl h) (isPunct_mark rfl)

/-- The words of an expression form a statement. -/
theorem expression_derives {e : Expr} (wf : e.WellFormed) :
    Simple e.words (.expression e.bare .start) := by
  have whole := e.derives_lowest wf
  obtain ⟨t, v, -, eq, -⟩ := whole.first
  have written : Written t := e.written wf t (by simp [eq])
  rw [eq] at whole ⊢
  rw [← written.start]
  exact .expression whole

mutual

/-- The lines of a statement form the statement, with a terminator behind it. -/
theorem Stmt.derives : (s : Stmt) → s.WellFormed →
    ∃ w, linesTokens s.lines = w ++ [.terminator .start] ∧ Statement w s.bare
  | .functionDecl kind name p params type body, wf => by
    obtain ⟨isKind, -, -, isType, inner⟩ := wf
    refine ⟨headerWords kind name params type ++ bracedTokens body, ?_,
      .function (header_derives isKind isType name params)
        (body_of_sequence (Stmt.derives_body body inner))⟩
    simp [Stmt.lines, bracedTokens]
  | .variableDecl kind name p type value, wf => by
    obtain ⟨-, shape, valueWf⟩ := wf
    exact ⟨variableWords kind name type value, by simp [Stmt.lines],
      .simple (variable_derives shape valueWf)⟩
  | .conditional (.mk kind p condition body) rest, wf => by
    obtain ⟨isIf, ⟨given, inner⟩, more⟩ := wf
    obtain ⟨r, eq, branches⟩ := Branch.derives_chain rest more
    obtain rfl : kind = .conditionalIf := isIf
    rcases given with ⟨⟨⟩, -⟩ | ⟨-, e, rfl, valueWf⟩
    refine ⟨word .keyword "if" :: (e.words ++ (bracedTokens body ++ r)), ?_, ?_⟩
    · have words : branchWords .conditionalIf = [word .keyword "if"] := rfl
      simp [Stmt.lines, Branch.lines, Expr.wordsOf, words, eq, bracedTokens]
    · exact .conditional (is_word _ _) (e.derives_lowest valueWf)
        (body_of_sequence (Stmt.derives_body body inner)) branches
  | .ret kind p value, wf => by
    refine ⟨word .keyword kind.text :: Expr.wordsOf value, by simp [Stmt.lines], .simple ?_⟩
    rcases wf with ⟨rfl, e, rfl, valueWf⟩ | ⟨rfl, rfl⟩
    · exact .ret (is_word _ _) (e.derives_lowest valueWf)
    · exact .rev (is_word _ _)
  | .expression e p, wf => ⟨e.words, by simp [Stmt.lines], .simple (expression_derives wf)⟩

/-- The lines of statements form the statements. -/
theorem Stmt.derives_body : (p : List Stmt) → Stmt.BodyWellFormed p →
    Sequence (linesTokens (Stmt.bodyLines p)) (Stmt.bareBody p)
  | [], _ => .nil
  | s :: p, wf => by
    obtain ⟨w, eq, first⟩ := s.derives wf.1
    have rest := Stmt.derives_body p wf.2
    rw [Stmt.bodyLines, linesTokens_append, eq, List.append_assoc, List.singleton_append]
    exact .statement first (by rintro t ⟨⟩; rfl) (.terminator rfl rest)

/-- The lines of branches, behind the brace at the end of the branch before, form the branches. -/
theorem Branch.derives_chain : (rest : List Branch) → Branch.ChainWellFormed rest →
    ∃ r, linesTokens (Branch.chainLines rest) = mark '\x7d' :: (r ++ [.terminator .start]) ∧
      Branches r (Branch.mapChain Position.forget rest)
  | [], _ => ⟨[], rfl, .nil⟩
  | .mk kind p condition body :: rest, wf => by
    obtain ⟨isKind, ⟨given, inner⟩, more⟩ := wf
    have body' := body_of_sequence (Stmt.derives_body body inner)
    rcases isKind with isElseIf | ⟨isElse, rfl⟩
    · obtain rfl : kind = .conditionalElseIf := isElseIf
      rcases given with ⟨⟨⟩, -⟩ | ⟨-, e, rfl, valueWf⟩
      obtain ⟨r, eq, branches⟩ := Branch.derives_chain rest more
      refine ⟨word .keyword "else" :: word .keyword "if" :: (e.words ++ (bracedTokens body ++ r)),
        ?_, ?_⟩
      · have words : branchWords .conditionalElseIf = [word .keyword "else", word .keyword "if"] :=
          rfl
        simp [Branch.chainLines, Branch.lines, Expr.wordsOf, words, eq, bracedTokens]
      · exact .elseIf breaks_nil (is_word _ _) breaks_nil (is_word _ _) (e.derives_lowest valueWf)
          body' branches
    · obtain rfl : kind = .conditionalElse := isElse
      rcases given with ⟨-, rfl⟩ | ⟨noElse, -⟩
      · refine ⟨word .keyword "else" :: bracedTokens body, ?_, ?_⟩
        · have words : branchWords .conditionalElse = [word .keyword "else"] := rfl
          simp [Branch.chainLines, Branch.lines, Expr.wordsOf, words, bracedTokens]
        · exact .last breaks_nil (is_word _ _) body'
      · exact absurd rfl noElse

end

end RatLang
