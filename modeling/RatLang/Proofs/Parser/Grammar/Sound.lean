import RatLang.Proofs.Parser.CorrectPrefix
import RatLang.Proofs.Parser.Grammar

/-!
# What a parser accepts is derived

The tokens that a parser has taken when it succeeds form its value by the grammar. Each lemma
inverts one parsing function, and the recursive ones go by the number of tokens that are left.
-/

namespace RatLang

namespace ParseState

/-- These tokens were taken between two states. -/
def Takes (s : ParseState) (w : List Token) (s' : ParseState) : Prop := s.queue = w ++ s'.queue

namespace Takes

variable {s s' s'' : ParseState} {v w : List Token} {t t' : Token}

theorem refl (s : ParseState) : s.Takes [] s := rfl

theorem trans (first : s.Takes w s') (second : s'.Takes v s'') : s.Takes (w ++ v) s'' := by
  rw [Takes, first, second, List.append_assoc]

theorem front (h : s.Takes (t :: w) s') (front : s.peek = some t') : t = t' := by
  rw [peek, h] at front
  exact Option.some.inj front

theorem suffix (h : s.Takes w s') : s'.queue <:+ s.queue := ⟨w, h.symm⟩

/-- What is left has no terminators side by side if the queue has none. -/
theorem apart (h : s.Takes w s') (apart : s.queue.IsChain Apart) : s'.queue.IsChain Apart := by
  rw [h] at apart
  exact (List.isChain_append.mp apart).2.1

end Takes

end ParseState

namespace Parser

variable {α : Type} {s s' : ParseState} {expected : String} {test : Token → Bool}

theorem takes_of_take {accept : Token → Option α} {a : α}
    (h : take accept expected s = .ok a s') : ∃ t, s.Takes [t] s' ∧ accept t = some a := by
  cases front : s.queue with
  | nil => rw [take_nil front] at h; cases h
  | cons t rest =>
    rw [take_cons front] at h
    cases accepted : accept t with
    | none => rw [accepted] at h; cases h
    | some b =>
      rw [accepted] at h
      cases h
      exact ⟨t, front, accepted⟩

theorem takes_of_pop {t : Token} (h : take some expected s = .ok t s') : s.Takes [t] s' := by
  obtain ⟨t', taken, same⟩ := takes_of_take h
  cases same
  exact taken

/-- A token that has been looked at is taken. -/
theorem takes_of_seen {t : Token} (seen : s.peek.any test)
    (h : take some expected s = .ok t s') : s.Takes [t] s' ∧ test t := by
  have taken := takes_of_pop h
  obtain ⟨t', front, passes⟩ := (Option.any_eq_true _ _).mp seen
  rw [taken.front front]
  exact ⟨taken.front front ▸ taken, passes⟩

theorem takes_of_passing {t : Token} (h : take (passing test) expected s = .ok t s') :
    s.Takes [t] s' ∧ test t := by
  obtain ⟨t', taken, accepted⟩ := takes_of_take h
  unfold passing at accepted
  split at accepted
  · cases accepted
    exact ⟨taken, ‹_›⟩
  · cases accepted

theorem takes_of_spelling {pair : Token × Symbol}
    (h : take (spelling test) expected s = .ok pair s') :
    s.Takes [pair.1] s' ∧ test pair.1 ∧ Symbol.ofLexeme? pair.1.lexeme = some pair.2 := by
  obtain ⟨t, taken, accepted⟩ := takes_of_take h
  unfold spelling at accepted
  split at accepted
  · obtain ⟨symbol, spelled, rfl⟩ := Option.map_eq_some_iff.mp accepted
    exact ⟨taken, ‹_›, spelled⟩
  · cases accepted

theorem takes_of_skip {u : Unit} (h : run skip s = .ok u s') :
    s.Takes s.terminators s' ∧ s' = s.skipTerminators := by
  cases h
  exact ⟨s.queue_eq_terminators, rfl⟩

/-! ### Expressions -/

open Grammar

/-- What a token says of the operand that it opens. -/
theorem operandForm?_eq_some {t : Token} {form : OperandForm} (h : operandForm? t = some form) :
    match form with
    | .leaf e => Leaf t e
    | .named name => name = t ∧ t.kind = .identifier
    | .group => t.isPunct '('
    | .unary symbol op =>
      op = t ∧ t.isSign ∧ Symbol.ofLexeme? t.lexeme = some symbol := by
  unfold operandForm? at h
  split at h
  · rename_i kind
    cases h
    exact .numeric kind
  · rename_i kind
    cases h
    exact .string kind
  · rename_i kind
    cases h
    exact .char kind
  · rename_i kind
    split at h
    · rename_i null
      cases h
      exact .null (by simp [Token.is, kind, null])
    · cases h
  · rename_i kind
    cases h
    exact ⟨rfl, kind⟩
  · split at h <;> cases h
    assumption
  · split at h
    · rename_i operator
      obtain ⟨symbol, spelled, rfl⟩ := Option.map_eq_some_iff.mp h
      exact ⟨rfl, t.isUnaryOperator_eq_isSign ▸ operator, spelled⟩
    · cases h
  · cases h

theorem of_separator? {t : Token} {closes : Bool} (h : separator? t = some closes) :
    if closes then t.isPunct ')' else t.isPunct ',' := by
  unfold separator? at h
  split at h
  · cases h
    assumption
  · split at h <;> cases h
    assumption

mutual

theorem expression_of_tier (level : Precedence) {s s' : ParseState} {e : Expr}
    (h : run (Ladder.tier level) s = .ok e s') : ∃ w, s.Takes w s' ∧ Expression level w e := by
  have bound := level.power_le
  by_cases bottom : level = .unary
  · have rank : level.power = 6 := by rw [bottom]; rfl
    subst bottom
    rw [Ladder.run_tier_unary, Ladder.run_factor_eq] at h
    exact expression_of_operand h
  · by_cases lowest : level = .lowest
    · have rank : level.power = 0 ∧ Precedence.logical.power = 1 := by
        rw [lowest]
        exact ⟨rfl, rfl⟩
      subst lowest
      rw [Ladder.run_tier_lowest] at h
      obtain ⟨w, taken, derived⟩ := expression_of_tier .logical h
      exact ⟨w, taken, .tighter bottom derived⟩
    · have rank := Precedence.power_tighter bottom
      rw [Ladder.run_tier bottom lowest] at h
      obtain ⟨lhs, after, parsed, folded⟩ := ok_of_bind h
      have := left_of_run parsed
      obtain ⟨w, taken, derived⟩ := expression_of_tier level.tighter parsed
      obtain ⟨v, taken', derived'⟩ := expression_of_chain level (.tighter bottom derived) folded
      exact ⟨w ++ v, taken.trans taken', derived'⟩
termination_by 10 * s.left + (9 - level.power)

/-- The loop of a tier goes on from an expression of the tier. -/
theorem expression_of_chain (level : Precedence) {s s' : ParseState} {l : List Token}
    {lhs e : Expr} (left : Expression level l lhs)
    (h : run (Ladder.chain level lhs) s = .ok e s') :
    ∃ w, s.Takes w s' ∧ Expression level (l ++ w) e := by
  rw [Ladder.run_chain, look] at h
  split at h
  · rename_i operator
    obtain ⟨op, afterOp, popped, h⟩ := ok_of_bind h
    obtain ⟨rhs, afterRhs, parsed, h⟩ := ok_of_bind h
    have := left_of_take popped
    have := left_of_run parsed
    obtain ⟨taken, -, spelled⟩ := takes_of_spelling popped
    obtain ⟨t, front, isOperator⟩ := (Option.any_eq_true _ _).mp operator
    have same := taken.front front
    obtain ⟨r, taken', right⟩ := expression_of_tier level.tighter parsed
    obtain ⟨w, taken'', derived⟩ :=
      expression_of_chain level (.binary (same ▸ isOperator) spelled left right) h
    refine ⟨op.1 :: (r ++ w), taken.trans (taken'.trans taken''), ?_⟩
    rw [List.append_assoc, List.cons_append] at derived
    exact derived
  · cases h
    exact ⟨[], .refl s, by rw [List.append_nil]; exact left⟩
termination_by 10 * s.left

theorem expression_of_operand {s s' : ParseState} {e : Expr} (h : run operand s = .ok e s') :
    ∃ w, s.Takes w s' ∧ Expression .unary w e := by
  have rank : Precedence.lowest.power = 0 ∧ Precedence.unary.power = 6 := ⟨rfl, rfl⟩
  rw [run_operand] at h
  obtain ⟨form, after, popped, h⟩ := ok_of_bind h
  have := left_of_take popped
  obtain ⟨t, taken, accepted⟩ := takes_of_take popped
  have opened := operandForm?_eq_some accepted
  cases form with
  | leaf expr =>
    cases h
    exact ⟨[t], taken, .leaf opened⟩
  | named name =>
    obtain ⟨rfl, named⟩ := opened
    rw [operandRest, look] at h
    split at h
    · rename_i parenthesis
      obtain ⟨args, afterCall, parsed, h⟩ := ok_of_bind h
      cases h
      obtain ⟨opening, closing, w, taken', opens, derived, closes⟩ :=
        arguments_of_call parenthesis parsed
      exact ⟨_, taken.trans taken', .call named opens derived closes⟩
    · cases h
      exact ⟨[name], taken, .leaf (.name named)⟩
  | group =>
    rw [operandRest] at h
    obtain ⟨inner, afterInner, parsed, h⟩ := ok_of_bind h
    rw [← Ladder.run_tier_eq] at parsed
    obtain ⟨closing, afterClose, popped', h⟩ := ok_of_bind h
    cases h
    obtain ⟨w, taken', derived⟩ := expression_of_tier .lowest parsed
    obtain ⟨taken'', closes⟩ := takes_of_passing popped'
    exact ⟨_, taken.trans (taken'.trans taken''), .group opened derived closes⟩
  | unary symbol op =>
    obtain ⟨rfl, operator, spelled⟩ := opened
    rw [operandRest] at h
    obtain ⟨inner, afterInner, parsed, h⟩ := ok_of_bind h
    rw [← Ladder.run_tier_eq] at parsed
    cases h
    obtain ⟨w, taken', derived⟩ := expression_of_tier .unary parsed
    exact ⟨_, taken.trans taken', .unary operator spelled derived⟩
termination_by 10 * s.left

theorem arguments_of_call {s s' : ParseState} {args : List Expr}
    (parenthesis : s.peek.any (·.isPunct '(')) (h : run callArguments s = .ok args s') :
    ∃ opening closing w, s.Takes (opening :: (w ++ [closing])) s' ∧ opening.isPunct '(' ∧
      Arguments w args ∧ closing.isPunct ')' := by
  rw [run_callArguments] at h
  obtain ⟨opening, afterOpen, popped, h⟩ := ok_of_bind h
  have := left_of_take popped
  obtain ⟨taken, opens⟩ := takes_of_seen parenthesis popped
  rw [look] at h
  split at h
  · rename_i closes
    obtain ⟨closing, afterClose, popped', h⟩ := ok_of_bind h
    cases h
    obtain ⟨taken', closes⟩ := takes_of_seen closes popped'
    exact ⟨opening, closing, [], taken.trans taken', opens, .none, closes⟩
  · obtain ⟨closing, w, taken', derived, closes⟩ := arguments_of_run h
    exact ⟨opening, closing, w, taken.trans taken', opens, .some derived, closes⟩
termination_by 10 * s.left + 1

theorem arguments_of_run {s s' : ParseState} {args : List Expr}
    (h : run arguments s = .ok args s') :
    ∃ closing w, s.Takes (w ++ [closing]) s' ∧ MoreArguments w args ∧ closing.isPunct ')' := by
  have rank : Precedence.lowest.power = 0 := rfl
  rw [run_arguments] at h
  obtain ⟨arg, afterArg, parsed, h⟩ := ok_of_bind h
  rw [← Ladder.run_tier_eq] at parsed
  obtain ⟨closes, after, popped, h⟩ := ok_of_bind h
  have := left_of_run parsed
  have := left_of_take popped
  obtain ⟨w, taken, derived⟩ := expression_of_tier .lowest parsed
  obtain ⟨separator, taken', accepted⟩ := takes_of_take popped
  have separates := of_separator? accepted
  cases closes with
  | true =>
    cases h
    exact ⟨separator, w, taken.trans taken', .last derived, separates⟩
  | false =>
    obtain ⟨rest, afterRest, parsed', h⟩ := ok_of_bind h
    cases h
    obtain ⟨closing, v, taken'', derived', closes⟩ := arguments_of_run parsed'
    refine ⟨closing, w ++ separator :: v, ?_, .cons derived separates derived', closes⟩
    rw [List.append_assoc]
    exact taken.trans (taken'.trans taken'')
termination_by 10 * s.left + 10

end

theorem expression_of_run {s s' : ParseState} {e : Expr}
    (h : run (expression Precedence.lowest.power) s = .ok e s') :
    ∃ w, s.Takes w s' ∧ Expression .lowest w e := by
  rw [← Ladder.run_tier_eq] at h
  exact expression_of_tier .lowest h

/-- Whatever the threshold is, the expression is one of a tier. -/
theorem expression_of_threshold {minimum : Nat} {s s' : ParseState} {e : Expr}
    (parsed : run (expression minimum) s = .ok e s') :
    ∃ level w, s.Takes w s' ∧ Expression level w e := by
  have tier (level : Precedence) (power : level.power = minimum) :
      ∃ level w, s.Takes w s' ∧ Expression level w e := by
    subst power
    rw [← Ladder.run_tier_eq] at parsed
    obtain ⟨w, taken, derived⟩ := expression_of_tier level parsed
    exact ⟨level, w, taken, derived⟩
  match minimum with
  | 0 => exact tier .lowest rfl
  | 1 => exact tier .logical rfl
  | 2 => exact tier .comparison rfl
  | 3 => exact tier .shift rfl
  | 4 => exact tier .additive rfl
  | 5 => exact tier .term rfl
  | n + 6 =>
    rw [Ladder.run_expression_tight (by omega)] at parsed
    obtain ⟨w, taken, derived⟩ := expression_of_operand parsed
    exact ⟨.unary, w, taken, derived⟩

/-! ### The parts of declarations -/

theorem names_of_run {s s' : ParseState} {names : List Identifier}
    (h : run parameterNames s = .ok names s') : ∃ w, s.Takes w s' ∧ Names w names := by
  rw [run_parameterNames] at h
  obtain ⟨name, afterName, popped, h⟩ := ok_of_bind h
  have := left_of_take popped
  obtain ⟨taken, named⟩ := takes_of_passing popped
  rw [look] at h
  split at h
  · rename_i separated
    obtain ⟨comma, afterComma, popped', h⟩ := ok_of_bind h
    obtain ⟨rest, afterRest, parsed, h⟩ := ok_of_bind h
    cases h
    have := left_of_take popped'
    obtain ⟨taken', separates⟩ := takes_of_seen separated popped'
    obtain ⟨w, taken'', derived⟩ := names_of_run parsed
    exact ⟨_, taken.trans (taken'.trans taken''), .cons (beq_iff_eq.mp named) separates derived⟩
  · cases h
    exact ⟨[name], taken, .last (beq_iff_eq.mp named)⟩
termination_by s.left

theorem parameters_of_run {params : List Identifier} (h : run parameters s = .ok params s') :
    ∃ opening closing w, s.Takes (opening :: (w ++ [closing])) s' ∧ opening.isPunct '(' ∧
      Parameters w params ∧ closing.isPunct ')' := by
  rw [run_parameters] at h
  obtain ⟨opening, afterOpen, popped, h⟩ := ok_of_bind h
  obtain ⟨names, afterNames, parsed, h⟩ := ok_of_bind h
  obtain ⟨closing, afterClose, popped', h⟩ := ok_of_bind h
  cases h
  obtain ⟨taken, opens⟩ := takes_of_passing popped
  obtain ⟨taken', closes⟩ := takes_of_passing popped'
  rw [look] at parsed
  split at parsed
  · cases parsed
    exact ⟨opening, closing, [], taken.trans taken', opens, .none, closes⟩
  · obtain ⟨w, taken'', derived⟩ := names_of_run parsed
    exact ⟨opening, closing, w, taken.trans (taken''.trans taken'), opens, .some derived, closes⟩

theorem typeName_of_run {type : Symbol} (h : run expectType s = .ok type s') :
    ∃ t, s.Takes [t] s' ∧ TypeName t type := by
  rw [run_expectType] at h
  obtain ⟨pair, after, popped, h⟩ := ok_of_bind h
  cases h
  obtain ⟨taken, isType, spelled⟩ := takes_of_spelling popped
  exact ⟨pair.1, taken, beq_iff_eq.mp isType, spelled⟩

theorem returnType_of_run {type : Symbol} (h : run returnType s = .ok type s') :
    ∃ w, s.Takes w s' ∧ ReturnType w type := by
  rw [run_returnType, look] at h
  split at h
  · rename_i pointed
    obtain ⟨arrow, after, popped, h⟩ := ok_of_bind h
    obtain ⟨taken, points⟩ := takes_of_seen pointed popped
    obtain ⟨name, taken', named⟩ := typeName_of_run h
    exact ⟨_, taken.trans taken', .given points named⟩
  · cases h
    exact ⟨[], .refl s, .none⟩

theorem annotation_of_run {type : Option Symbol} (h : run declaredType s = .ok type s') :
    ∃ w, s.Takes w s' ∧ Annotation w type := by
  rw [run_declaredType, look] at h
  split at h
  · rename_i marked
    obtain ⟨colon, after, popped, h⟩ := ok_of_bind h
    obtain ⟨symbol, after', parsed, h⟩ := ok_of_bind h
    cases h
    obtain ⟨taken, marks⟩ := takes_of_seen marked popped
    obtain ⟨name, taken', named⟩ := typeName_of_run parsed
    exact ⟨_, taken.trans taken', .given marks named⟩
  · cases h
    exact ⟨[], .refl s, .none⟩

theorem initializer_of_run {value : Option Expr} (h : run initializer s = .ok value s') :
    ∃ w, s.Takes w s' ∧ Initializer w value := by
  rw [run_initializer, look] at h
  split at h
  · rename_i marked
    obtain ⟨equals, after, popped, h⟩ := ok_of_bind h
    obtain ⟨e, after', parsed, h⟩ := ok_of_bind h
    cases h
    obtain ⟨taken, marks⟩ := takes_of_seen marked popped
    obtain ⟨w, taken', derived⟩ := expression_of_run parsed
    exact ⟨_, taken.trans taken', .given marks derived⟩
  · cases h
    exact ⟨[], .refl s, .none⟩

theorem value_of_run {value : Option Expr} (h : run requiredInitializer s = .ok value s') :
    ∃ equals w e, s.Takes (equals :: w) s' ∧ equals.is .operator "=" ∧ Expression .lowest w e ∧
      value = some e := by
  rw [run_requiredInitializer] at h
  obtain ⟨equals, after, popped, h⟩ := ok_of_bind h
  obtain ⟨e, after', parsed, h⟩ := ok_of_bind h
  cases h
  obtain ⟨taken, marks⟩ := takes_of_passing popped
  obtain ⟨w, taken', derived⟩ := expression_of_run parsed
  exact ⟨equals, w, e, taken.trans taken', marks, derived, rfl⟩

/-! ### Simple statements -/

/-- What the form of a statement says of the token that opens it. -/
theorem ofToken?_eq_some {t : Token} {form : StatementForm}
    (h : StatementForm.ofToken? t = some form) :
    match form with
    | .function => t.kind = .keyword ∧ t.lexeme ∈ functionKeywords
    | .untypedVariable => t.is .keyword "let" ∨ t.is .keyword "op"
    | .typedVariable => t.kind = .type
    | .conditional => t.is .keyword "if"
    | .ret => t.is .keyword "ret" ∨ t.is .keyword "rev"
    | .expression => True := by
  unfold StatementForm.ofToken? at h
  split at h <;> cases h <;> simp_all [Token.is, functionKeywords]

theorem symbol_of_is {t : Token} {lexeme : String} {kind : TokenKind} {symbol symbol' : Symbol}
    (is : t.is kind lexeme) (spelled : Symbol.ofLexeme? t.lexeme = some symbol)
    (known : Symbol.ofLexeme? lexeme = some symbol') : symbol = symbol' := by
  rw [Token.is_iff] at is
  rw [is.2, known] at spelled
  exact (Option.some.inj spelled).symm

theorem ofLexeme?_let : Symbol.ofLexeme? "let" = some .variableDeclarationLet := by decide

theorem ofLexeme?_op : Symbol.ofLexeme? "op" = some .variableDeclarationOp := by decide

theorem ofLexeme?_ret : Symbol.ofLexeme? "ret" = some .functionReturn := by decide

theorem ofLexeme?_rev : Symbol.ofLexeme? "rev" = some .functionReturnVoid := by decide

theorem simple_of_variableDecl {stmt : Stmt}
    (opens : ∀ t ∈ s.peek, t.is .keyword "let" ∨ t.is .keyword "op")
    (h : run variableDecl s = .ok stmt s') : ∃ w, s.Takes w s' ∧ Simple w stmt := by
  rw [run_variableDecl] at h
  obtain ⟨⟨keyword, kind⟩, s₁, popped, h⟩ := ok_of_bind h
  obtain ⟨name, s₂, popped', h⟩ := ok_of_bind h
  obtain ⟨type, s₃, parsed, h⟩ := ok_of_bind h
  obtain ⟨value, s₄, parsed', h⟩ := ok_of_bind h
  cases h
  obtain ⟨taken, -, spelled⟩ := takes_of_spelling popped
  obtain ⟨taken', named⟩ := takes_of_passing popped'
  have named := beq_iff_eq.mp named
  obtain ⟨ts, taken₂, annotated⟩ := annotation_of_run parsed
  unfold declaredValue at parsed'
  rcases opens keyword (by rw [ParseState.peek, taken]; rfl) with isLet | isOp
  · cases symbol_of_is isLet spelled ofLexeme?_let
    rw [if_pos rfl] at parsed'
    obtain ⟨equals, w, e, taken₃, marks, derived, rfl⟩ := value_of_run parsed'
    exact ⟨keyword :: name :: (ts ++ equals :: w), taken.trans (taken'.trans (taken₂.trans taken₃)),
      .letVariable isLet named annotated marks derived⟩
  · cases symbol_of_is isOp spelled ofLexeme?_op
    rw [if_neg (by simp)] at parsed'
    obtain ⟨w, taken₃, derived⟩ := initializer_of_run parsed'
    exact ⟨keyword :: name :: (ts ++ w), taken.trans (taken'.trans (taken₂.trans taken₃)),
      .opVariable isOp named annotated derived⟩

theorem simple_of_typedVariableDecl {stmt : Stmt} (h : run typedVariableDecl s = .ok stmt s') :
    ∃ w, s.Takes w s' ∧ Simple w stmt := by
  rw [run_typedVariableDecl] at h
  obtain ⟨⟨keyword, type⟩, s₁, popped, h⟩ := ok_of_bind h
  obtain ⟨name, s₂, popped', h⟩ := ok_of_bind h
  obtain ⟨value, s₃, parsed, h⟩ := ok_of_bind h
  cases h
  obtain ⟨taken, isType, spelled⟩ := takes_of_spelling popped
  obtain ⟨taken', named⟩ := takes_of_passing popped'
  obtain ⟨w, taken'', derived⟩ := initializer_of_run parsed
  exact ⟨_, taken.trans (taken'.trans taken''),
    .typedVariable ⟨beq_iff_eq.mp isType, spelled⟩ (beq_iff_eq.mp named) derived⟩

theorem simple_of_returnStatement {stmt : Stmt}
    (opens : ∀ t ∈ s.peek, t.is .keyword "ret" ∨ t.is .keyword "rev")
    (h : run returnStatement s = .ok stmt s') : ∃ w, s.Takes w s' ∧ Simple w stmt := by
  rw [run_returnStatement] at h
  obtain ⟨⟨keyword, kind⟩, s₁, popped, h⟩ := ok_of_bind h
  obtain ⟨taken, -, spelled⟩ := takes_of_spelling popped
  rcases opens keyword (by rw [ParseState.peek, taken]; rfl) with isRet | isRev
  · cases symbol_of_is isRet spelled ofLexeme?_ret
    rw [if_pos rfl] at h
    obtain ⟨e, s₂, parsed, h⟩ := ok_of_bind h
    cases h
    obtain ⟨w, taken', derived⟩ := expression_of_run parsed
    exact ⟨_, taken.trans taken', .ret isRet derived⟩
  · cases symbol_of_is isRev spelled ofLexeme?_rev
    rw [if_neg (by simp)] at h
    cases h
    exact ⟨[keyword], taken, .rev isRev⟩

theorem simple_of_expressionStatement {stmt : Stmt}
    (h : run expressionStatement s = .ok stmt s') : ∃ w, s.Takes w s' ∧ Simple w stmt := by
  rw [run_expressionStatement, bind_of_ok (x := here) rfl] at h
  obtain ⟨e, s₁, parsed, h⟩ := ok_of_bind h
  cases h
  obtain ⟨w, taken, derived⟩ := expression_of_run parsed
  obtain ⟨first, v, -, rfl, -⟩ := derived.first
  have front : s.peek = some first := by rw [ParseState.peek, taken]; rfl
  refine ⟨first :: v, taken, ?_⟩
  rw [front]
  exact .expression derived

theorem header_of_run {header : FunctionHeader}
    (opens : ∀ t ∈ s.peek, t.kind = .keyword ∧ t.lexeme ∈ functionKeywords)
    (h : run functionHeader s = .ok header s') : ∃ w, s.Takes w s' ∧ Header w header := by
  rw [run_functionHeader] at h
  obtain ⟨⟨keyword, kind⟩, s₁, popped, h⟩ := ok_of_bind h
  obtain ⟨name, s₂, popped', h⟩ := ok_of_bind h
  obtain ⟨params, s₃, parsed, h⟩ := ok_of_bind h
  obtain ⟨type, s₄, parsed', h⟩ := ok_of_bind h
  cases h
  obtain ⟨taken, -, spelled⟩ := takes_of_spelling popped
  obtain ⟨taken', named⟩ := takes_of_passing popped'
  obtain ⟨opening, closing, w, taken₂, before, derived, behind⟩ := parameters_of_run parsed
  obtain ⟨v, taken₃, returns⟩ := returnType_of_run parsed'
  obtain ⟨isKeyword, known⟩ := opens keyword (by rw [ParseState.peek, taken]; rfl)
  refine ⟨keyword :: name :: opening :: (w ++ closing :: v), ?_,
    .mk isKeyword known spelled (beq_iff_eq.mp named) before derived behind returns⟩
  have all := taken.trans (taken'.trans (taken₂.trans taken₃))
  simpa using all

/-! ### Scopes -/

/-- What closes a scope: a brace if it is nested, and the end of the input otherwise. -/
inductive Closes : Bool → List Token → List Token → Prop where
  | brace {closing : Token} (closes : closing.isPunct '\x7d') (rest : List Token) :
    Closes true (closing :: rest) rest
  | ending : Closes false [] []

theorem Closes.nested {tail rest : List Token} (h : Closes true tail rest) :
    ∃ closing, closing.isPunct '\x7d' ∧ tail = closing :: rest := by
  cases h with
  | brace closes => exact ⟨_, closes, rfl⟩

theorem Closes.outermost {tail rest : List Token} (h : Closes false tail rest) : tail = [] := by
  cases h
  rfl

/-- A conditional without an `else` leaves the terminator behind it where it is. -/
theorem queue_skipToLastTerminator {s : ParseState} (apart : s.queue.IsChain Apart) :
    s.skipToLastTerminator.queue = s.queue := by
  have split := s.queue_eq_terminators
  unfold ParseState.skipToLastTerminator
  cases found : s.terminators.getLast? with
  | none =>
    rw [List.getLast?_eq_none_iff.mp found, List.nil_append] at split
    exact split.symm
  | some last =>
    obtain ⟨before, eq⟩ := List.getLast?_eq_some_iff.mp found
    -- A terminator before the last one would stand beside another one.
    have alone : before = [] := by
      rcases List.eq_nil_or_concat before with nil | ⟨more, t, eq'⟩
      · exact nil
      · rw [List.concat_eq_append] at eq'
        subst eq'
        have both := ParseState.isTerminator_of_mem (s := s)
        rw [eq] at both
        rw [split, eq, List.append_assoc, List.append_assoc] at apart
        have pair := (List.isChain_append.mp apart).2.1
        exact absurd (both last (by simp)) ((List.isChain_cons_cons.mp pair).1 (both t (by simp)))
    rw [alone, List.nil_append] at eq
    rw [split, eq]
    rfl

theorem of_endsStatement {t : Token} (h : endsStatement (some t)) :
    t.isTerminator ∨ t.isPunct '\x7d' := by
  simpa [endsStatement] using h

theorem ok_of_statementEnd {u : Unit} (h : run statementEnd s = .ok u s') :
    s' = s ∧ endsStatement s.peek := by
  rw [run_statementEnd, look] at h
  split at h
  · cases h
    exact ⟨rfl, ‹_›⟩
  · cases front : s.queue with
    | nil => simp only [refuse, front] at h; cases h
    | cons t rest => simp only [refuse, front] at h; cases h

mutual

theorem sequence_of_run (nested : Bool) {s s' : ParseState} {p : List Stmt}
    (apart : s.queue.IsChain Apart) (h : run (sequence nested) s = .ok p s') :
    ∃ b tail, s.queue = b ++ tail ∧ Closes nested tail s'.queue ∧ Sequence b p := by
  rw [run_sequence] at h
  obtain ⟨_, s₁, skipped, h⟩ := ok_of_bind h
  have := left_of_skip skipped
  obtain ⟨taken, rfl⟩ := takes_of_skip skipped
  obtain ⟨b, tail, eq, closes, derived⟩ := sequence_of_rest nested (taken.apart apart) h
  refine ⟨s.terminators ++ b, tail, ?_, closes, derived.breaks ParseState.isTerminator_of_mem⟩
  rw [List.append_assoc, ← eq]
  exact taken
termination_by 4 * s.left + 3

theorem sequence_of_rest (nested : Bool) {s s' : ParseState} {p : List Stmt}
    (apart : s.queue.IsChain Apart) (h : sequenceRest nested s = .ok p s') :
    ∃ b tail, s.queue = b ++ tail ∧ Closes nested tail s'.queue ∧ Sequence b p := by
  cases front : s.queue with
  | nil =>
    rw [sequenceRest, look_nil front] at h
    cases nested with
    | true =>
      simp only [if_true, refuse, front] at h
      cases h
    | false =>
      cases h
      exact ⟨[], [], rfl, front ▸ .ending, .nil⟩
  | cons t rest =>
    rw [sequenceRest, look_cons front] at h
    dsimp only at h
    split at h
    · rename_i opens
      obtain ⟨opening, s₁, popped, h⟩ := ok_of_bind h
      obtain ⟨inner, s₂, parsed, h⟩ := ok_of_bind h
      obtain ⟨more, s₃, parsed', h⟩ := ok_of_bind h
      cases h
      have := left_of_take popped
      have := left_of_run parsed
      have taken := takes_of_pop popped
      have apart₁ := taken.apart apart
      obtain ⟨b, tail, eq, closes, derived⟩ := sequence_of_run true apart₁ parsed
      obtain ⟨closing, brace, rfl⟩ := closes.nested
      have taken' : s₁.Takes (b ++ [closing]) s₂ := by
        rw [ParseState.Takes, eq, List.append_assoc]
        rfl
      obtain ⟨b', tail', eq', closes', derived'⟩ :=
        sequence_of_run nested (taken'.apart apart₁) parsed'
      have same : opening = t := taken.front (by rw [ParseState.peek, front]; rfl)
      refine ⟨opening :: (b ++ closing :: b'), tail', ?_, closes',
        .block (same ▸ opens) derived brace derived'⟩
      rw [← front, taken, eq, eq']
      simp
    · rename_i noOpening
      split at h
      · rename_i closes
        split at h
        · rename_i isNested
          obtain ⟨closing, s₁, popped, h⟩ := ok_of_bind h
          cases h
          have taken := takes_of_pop popped
          have same : closing = t := taken.front (by rw [ParseState.peek, front]; rfl)
          refine ⟨[], t :: rest, rfl, ?_, .nil⟩
          rw [ParseState.Takes, front] at taken
          injection taken with _ left
          rw [isNested, left]
          exact .brace closes _
        · simp only [refuse, front] at h
          cases h
      · obtain ⟨stmt, s₁, parsed, h⟩ := ok_of_bind h
        obtain ⟨_, s₂, recorded, h⟩ := ok_of_bind h
        obtain ⟨_, s₃, ended, h⟩ := ok_of_bind h
        obtain ⟨more, s₄, parsed', h⟩ := ok_of_bind h
        cases h
        cases recorded
        have := left_of_run parsed
        obtain ⟨rfl, ends⟩ := ok_of_statementEnd ended
        obtain ⟨w, taken, derived⟩ := statement_of_run apart parsed
        obtain ⟨b, tail, eq, closes, derived'⟩ :=
          sequence_of_run nested (s := s₁.complete stmt) (taken.apart apart) parsed'
        refine ⟨w ++ b, tail, ?_, closes, .statement derived ?_ derived'⟩
        · rw [← front, taken, List.append_assoc, ← eq]
          rfl
        · intro t' mem
          have peeked : (s₁.complete stmt).peek = some t' := by
            rw [ParseState.peek, eq, List.head?_append, mem]
            rfl
          rw [peeked] at ends
          exact (of_endsStatement ends).resolve_right (derived'.first t' mem)
termination_by 4 * s.left + 2

theorem statement_of_run {s s' : ParseState} {stmt : Stmt} (apart : s.queue.IsChain Apart)
    (h : run statement s = .ok stmt s') : ∃ w, s.Takes w s' ∧ Statement w stmt := by
  rw [run_statement, look] at h
  have simple {w : List Token} (found : s.Takes w s' ∧ Simple w stmt) :
      s.Takes w s' ∧ Statement w stmt := ⟨found.1, .simple found.2⟩
  cases found : s.peek.bind StatementForm.ofToken? with
  | none =>
    rw [found] at h
    cases front : s.queue with
    | nil => simp only [refuse, front] at h; cases h
    | cons t rest => simp only [refuse, front] at h; cases h
  | some form =>
    rw [found] at h
    have opens : ∀ t ∈ s.peek, StatementForm.ofToken? t = some form := by
      intro t front
      rw [Option.mem_def] at front
      rw [front] at found
      exact found
    cases form with
    | function =>
      exact statement_of_functionDecl apart (fun t front => ofToken?_eq_some (opens t front)) h
    | untypedVariable =>
      exact (simple_of_variableDecl (fun t front => ofToken?_eq_some (opens t front)) h).imp
        fun _ => simple
    | typedVariable => exact (simple_of_typedVariableDecl h).imp fun _ => simple
    | conditional => exact statement_of_conditional apart h
    | ret =>
      exact (simple_of_returnStatement (fun t front => ofToken?_eq_some (opens t front)) h).imp
        fun _ => simple
    | expression => exact (simple_of_expressionStatement h).imp fun _ => simple
termination_by 4 * s.left + 1

theorem statement_of_functionDecl {s s' : ParseState} {stmt : Stmt}
    (apart : s.queue.IsChain Apart)
    (opens : ∀ t ∈ s.peek, t.kind = .keyword ∧ t.lexeme ∈ functionKeywords)
    (h : run functionDecl s = .ok stmt s') : ∃ w, s.Takes w s' ∧ Statement w stmt := by
  rw [run_functionDecl] at h
  obtain ⟨header, s₁, parsed, h⟩ := ok_of_bind h
  obtain ⟨block, s₂, parsed', h⟩ := ok_of_bind h
  cases h
  have := left_of_run parsed
  obtain ⟨w, taken, front⟩ := header_of_run opens parsed
  obtain ⟨b, taken', derived⟩ := body_of_run (taken.apart apart) parsed'
  exact ⟨w ++ b, taken.trans taken', .function front derived⟩
termination_by 4 * s.left

theorem body_of_run {s s' : ParseState} {p : List Stmt} (apart : s.queue.IsChain Apart)
    (h : run body s = .ok p s') : ∃ w, s.Takes w s' ∧ Body w p := by
  rw [run_body] at h
  obtain ⟨_, s₁, skipped, h⟩ := ok_of_bind h
  obtain ⟨opening, s₂, popped, h⟩ := ok_of_bind h
  have := left_of_skip skipped
  have := left_of_take popped
  obtain ⟨taken, -⟩ := takes_of_skip skipped
  obtain ⟨taken', opens⟩ := takes_of_passing popped
  obtain ⟨b, tail, eq, closes, derived⟩ :=
    sequence_of_run true (taken'.apart (taken.apart apart)) h
  obtain ⟨closing, brace, rfl⟩ := closes.nested
  refine ⟨s.terminators ++ opening :: (b ++ [closing]), ?_,
    .mk ParseState.isTerminator_of_mem opens derived brace⟩
  have all := taken.trans taken'
  rw [ParseState.Takes, eq] at all
  simpa [ParseState.Takes] using all
termination_by 4 * s.left

theorem statement_of_conditional {s s' : ParseState} {stmt : Stmt}
    (apart : s.queue.IsChain Apart) (h : run conditional s = .ok stmt s') :
    ∃ w, s.Takes w s' ∧ Statement w stmt := by
  rw [run_conditional] at h
  obtain ⟨keyword, s₁, popped, h⟩ := ok_of_bind h
  obtain ⟨condition, s₂, parsed, h⟩ := ok_of_bind h
  obtain ⟨block, s₃, parsed', h⟩ := ok_of_bind h
  obtain ⟨rest, s₄, parsed₂, h⟩ := ok_of_bind h
  cases h
  have := left_of_take popped
  have := left_of_run parsed
  have := left_of_run parsed'
  obtain ⟨taken, opens⟩ := takes_of_passing popped
  obtain ⟨w, taken', derived⟩ := expression_of_run parsed
  have apart₂ := taken'.apart (taken.apart apart)
  obtain ⟨b, taken₂, derived'⟩ := body_of_run apart₂ parsed'
  obtain ⟨r, taken₃, derived₂⟩ := branches_of_run (taken₂.apart apart₂) parsed₂
  exact ⟨keyword :: (w ++ (b ++ r)), taken.trans (taken'.trans (taken₂.trans taken₃)),
    .conditional opens derived derived' derived₂⟩
termination_by 4 * s.left

theorem branches_of_run {s s' : ParseState} {branches : List Branch}
    (apart : s.queue.IsChain Apart) (h : run elseBranches s = .ok branches s') :
    ∃ w, s.Takes w s' ∧ Branches w branches := by
  rw [run_elseBranches] at h
  by_cases seen : s.skipTerminators.peek.any (·.is .keyword "else")
  · rw [lookPast_seen seen, elseBranch] at h
    obtain ⟨keyword, s₁, popped, h⟩ := ok_of_bind h
    obtain ⟨_, s₂, skipped, h⟩ := ok_of_bind h
    have skips : s.skipTerminators.left ≤ s.left := s.reaches_skipTerminators.suffix.length_le
    have := left_of_take popped
    have := left_of_skip skipped
    have before : s.Takes s.terminators s.skipTerminators := s.queue_eq_terminators
    obtain ⟨taken, opens⟩ := takes_of_seen seen popped
    obtain ⟨taken', -⟩ := takes_of_skip skipped
    have apart₂ := taken'.apart (taken.apart (before.apart apart))
    rw [look] at h
    split at h
    · rename_i isIf
      obtain ⟨keyword', s₃, popped', h⟩ := ok_of_bind h
      obtain ⟨condition, s₄, parsed, h⟩ := ok_of_bind h
      obtain ⟨block, s₅, parsed', h⟩ := ok_of_bind h
      obtain ⟨rest, s₆, parsed₂, h⟩ := ok_of_bind h
      cases h
      have := left_of_take popped'
      have := left_of_run parsed
      have := left_of_run parsed'
      obtain ⟨taken₂, opens'⟩ := takes_of_seen isIf popped'
      obtain ⟨w, taken₃, derived⟩ := expression_of_run parsed
      have apart₄ := taken₃.apart (taken₂.apart apart₂)
      obtain ⟨b, taken₄, derived'⟩ := body_of_run apart₄ parsed'
      obtain ⟨r, taken₅, derived₂⟩ := branches_of_run (taken₄.apart apart₄) parsed₂
      exact ⟨s.terminators ++ keyword :: (s₁.terminators ++ keyword' :: (w ++ (b ++ r))),
        before.trans (taken.trans (taken'.trans (taken₂.trans (taken₃.trans
          (taken₄.trans taken₅))))),
        .elseIf ParseState.isTerminator_of_mem opens ParseState.isTerminator_of_mem opens' derived
          derived' derived₂⟩
    · obtain ⟨block, s₃, parsed, h⟩ := ok_of_bind h
      cases h
      obtain ⟨b, taken₂, derived⟩ := body_of_run apart₂ parsed
      exact ⟨s.terminators ++ keyword :: (s₁.terminators ++ b),
        before.trans (taken.trans (taken'.trans taken₂)),
        .last ParseState.isTerminator_of_mem opens (derived.breaks ParseState.isTerminator_of_mem)⟩
  · rw [lookPast_unseen seen] at h
    cases h
    exact ⟨[], (queue_skipToLastTerminator apart).symm, .nil⟩
termination_by 4 * s.left

end

end Parser

end RatLang
