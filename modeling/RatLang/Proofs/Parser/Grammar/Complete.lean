import Mathlib
import RatLang.Proofs.Parser.Grammar.Sound

/-!
# What is derived is accepted

The tokens of a derivation make the parser succeed with the derived value, and it leaves what stands
behind them. An expression needs the token behind it not to go on with it, and a statement needs an
end. Parsing follows the derivation, so that the proofs do too.
-/

namespace RatLang

namespace Parser

open Grammar

variable {α β : Type}

/-- From every state with the queue `q` the action gives `a`, and leaves `rest`. -/
def Parses (x : Action α) (q : List Token) (a : α) (rest : List Token) : Prop :=
  ∀ s, s.queue = q → ∃ s', x s = .ok a s' ∧ s'.queue = rest

namespace Parses

variable {x : Action α} {f : α → Action β} {a : α} {b : β} {q q' rest breaks : List Token}
  {t : Token} {expected : String} {test : Token → Bool}

theorem pure (a : α) (q : List Token) : Parses (pure a) q a q :=
  fun s front => ⟨s, rfl, front⟩

theorem bind (hx : Parses x q a q') (hf : Parses (f a) q' b rest) : Parses (x >>= f) q b rest := by
  intro s front
  obtain ⟨s', eq, left⟩ := hx s front
  obtain ⟨s'', eq', left'⟩ := hf s' left
  exact ⟨s'', by rw [bind_of_ok eq, eq'], left'⟩

theorem map {g : α → β} (hx : Parses x q a rest) :
    Parses (x >>= fun a => Pure.pure (g a)) q (g a) rest :=
  hx.bind (.pure _ _)

theorem take {accept : Token → Option α} (accepted : accept t = some a) :
    Parses (take accept expected) (t :: rest) a rest :=
  fun s front => ⟨s.took t rest, take_accepts front accepted, rfl⟩

theorem passing (passes : test t) :
    Parses (Parser.take (passing test) expected) (t :: rest) t rest :=
  take (if_pos passes)

theorem ofKind {kind : TokenKind} (is : t.kind = kind) :
    Parses (Parser.take (Parser.passing (·.kind == kind)) expected) (t :: rest) t rest :=
  passing (beq_iff_eq.mpr is)

theorem spelling {symbol : Symbol} (passes : test t)
    (spelled : Symbol.ofLexeme? t.lexeme = some symbol) :
    Parses (Parser.take (spelling test) expected) (t :: rest) (t, symbol) rest :=
  take (by rw [Parser.spelling, if_pos passes, spelled, Option.map_some])

theorem look {next : Option Token → Action α} (h : Parses (next q.head?) q a rest) :
    Parses (look next) q a rest := by
  intro s front
  rw [Parser.look, ParseState.peek, front]
  exact h s front

theorem look_yes {yes no : Action α} {seen : Option Token → Bool} (passes : seen q.head?)
    (h : Parses yes q a rest) :
    Parses (Parser.look fun next => if seen next then yes else no) q a rest :=
  look (by rw [if_pos passes]; exact h)

theorem look_no {yes no : Action α} {seen : Option Token → Bool} (fails : ¬seen q.head?)
    (h : Parses no q a rest) :
    Parses (Parser.look fun next => if seen next then yes else no) q a rest :=
  look (by rw [if_neg fails]; exact h)

theorem here : Parses here (t :: rest) t.position (t :: rest) := by
  intro s front
  refine ⟨s, ?_, front⟩
  rw [Parser.here, ParseState.peek, front]
  rfl

theorem record (stmt : Stmt) (q : List Token) : Parses (record stmt) q () q :=
  fun s front => ⟨s.complete stmt, rfl, front⟩

/-- The terminators at the front of the queue are skipped. -/
theorem skip (skipped : Breaks breaks) (stops : ∀ t ∈ rest.head?, ¬t.isTerminator) :
    Parses (run skip) (breaks ++ rest) () rest := by
  intro s front
  refine ⟨s.skipTerminators, rfl, ?_⟩
  show s.queue.dropWhile Token.isTerminator = rest
  rw [front, List.dropWhile_append_of_pos skipped]
  cases rest with
  | nil => rfl
  | cons t rest => exact List.dropWhile_cons_of_neg (stops t rfl)

theorem statementEnd (ends : endsStatement q.head?) : Parses (run statementEnd) q () q := by
  rw [run_statementEnd]
  exact look_yes ends (.pure () q)

/-- What is looked for stands behind the terminators. -/
theorem lookPast_seen {otherwise : α} (skipped : Breaks breaks) (visible : ¬t.isTerminator)
    (found : test t) (h : Parses x (t :: q) a rest) :
    Parses (lookPast test x otherwise) (breaks ++ t :: q) a rest := by
  intro s front
  have past : s.skipTerminators.queue = t :: q := by
    show s.queue.dropWhile Token.isTerminator = t :: q
    rw [front, List.dropWhile_append_of_pos skipped, List.dropWhile_cons_of_neg visible]
  rw [Parser.lookPast_seen (by rw [ParseState.peek, past]; exact found)]
  exact h _ past

theorem lookPast_unseen {otherwise : α} (apart : q.IsChain Apart)
    (other : ∀ t ∈ (q.dropWhile Token.isTerminator).head?, ¬test t) :
    Parses (lookPast test x otherwise) q otherwise q := by
  intro s front
  have unseen : ¬s.skipTerminators.peek.any test := by
    rw [Option.any_eq_true]
    rintro ⟨t, mem, found⟩
    refine other t ?_ found
    rw [← front]
    exact mem
  refine ⟨s.skipToLastTerminator, Parser.lookPast_unseen unseen, ?_⟩
  rw [queue_skipToLastTerminator (front ▸ apart), front]

end Parses

/-! ### Expressions -/

/-- The queue does not go on with an expression of a tier: no parenthesis makes a call of its last
name, and no operator binds tighter than the tier. -/
structure Parts (level : Precedence) (q : List Token) : Prop where
  noCall : ¬q.head?.any (·.isPunct '(')
  weak : ∀ power, q.head?.bind Token.bindingPower? = some power → power ≤ level.power

theorem Parts.tighter {level : Precedence} {q : List Token} (inner : level ≠ .unary)
    (h : Parts level q) : Parts level.tighter q := by
  refine ⟨h.noCall, fun power front => ?_⟩
  rw [Precedence.power_tighter inner]
  exact Nat.le_succ_of_le (h.weak power front)

theorem parts_of_operator {level : Precedence} {op : Token} {q : List Token}
    (operator : op.isOperatorOf level) : Parts level (op :: q) := by
  constructor
  · simp [Token.isPunct, (Token.isOperatorOf_iff.mp operator).1]
  · intro power front
    have power := Token.isOperatorOf_iff_bindingPower?.mp operator
    rw [List.head?_cons, Option.bind_some, power] at front
    exact Nat.le_of_eq (Option.some.inj front).symm

theorem parts_of_kind {level : Precedence} {t : Token} {q : List Token}
    (word : t.kind ≠ .punctuator) (operand : t.kind ≠ .operator) : Parts level (t :: q) :=
  ⟨by simp [Token.isPunct, word], by simp [Token.bindingPower?, operand]⟩

theorem parts_of_isPunct {level : Precedence} {t : Token} {c : Char} {q : List Token}
    (mark : t.isPunct c) (other : c ≠ '(') : Parts level (t :: q) := by
  constructor
  · simp [Ladder.isPunct_exclusive mark other]
  · simp [Token.bindingPower?, Token.kind_of_isPunct mark]

/-- A statement ends in front of the queue, and so does an expression. -/
theorem parts_of_end {level : Precedence} {q : List Token} (ends : endsStatement q.head?) :
    Parts level q := by
  cases q with
  | nil => exact ⟨by simp, by simp⟩
  | cons t q =>
    rcases of_endsStatement ends with terminator | brace
    · rw [Token.isTerminator_iff] at terminator
      exact parts_of_kind (by simp [terminator]) (by simp [terminator])
    · exact parts_of_isPunct brace (by decide)

theorem operandForm?_of_leaf {t : Token} {e : Expr} (h : Leaf t e) :
    operandForm? t = some (.leaf e) ∨
      operandForm? t = some (.named t) ∧ e = .identifier ⟨t.lexeme, t.position⟩ := by
  cases h with
  | numeric kind | string kind | char kind => exact .inl (by rw [operandForm?, kind])
  | null is =>
    rw [Token.is_iff] at is
    exact .inl (by rw [operandForm?, is.1]; exact if_pos is.2)
  | name kind => exact .inr ⟨by rw [operandForm?, kind], rfl⟩

theorem parses_leaf {t : Token} {e : Expr} {q : List Token} (single : Leaf t e)
    (noCall : ¬q.head?.any (·.isPunct '(')) : Parses (run operand) (t :: q) e q := by
  rw [run_operand]
  rcases operandForm?_of_leaf single with form | ⟨form, rfl⟩
  · exact (Parses.take form).bind (.pure e q)
  · refine (Parses.take form).bind ?_
    exact Parses.look_no noCall (.pure _ q)

theorem parses_separator (closes : Bool) {t : Token} {expected : String} {q : List Token}
    (separates : if closes then t.isPunct ')' else t.isPunct ',') :
    Parses (take separator? expected) (t :: q) closes q := by
  apply Parses.take
  cases closes with
  | true => exact if_pos separates
  | false =>
    have comma : t.isPunct ',' := separates
    have open' := Ladder.isPunct_exclusive (d := ')') comma (by decide)
    simp [separator?, comma, open']

/-- An operand is followed by what is folded onto it. -/
theorem parses_expression {minimum : Nat} {e e' : Expr} {q q' rest : List Token}
    (first : Parses (run operand) q e q') (folded : Parses (run (climb minimum e)) q' e' rest) :
    Parses (run (expression minimum)) q e' rest := by
  rw [run_expression]
  exact first.bind folded

theorem parses_climb_done {level : Precedence} {e : Expr} {q : List Token} (parts : Parts level q) :
    Parses (run (climb (level.power + 1) e)) q e q := by
  intro s front
  refine ⟨s, Ladder.climb_done fun power next => ?_, front⟩
  rw [ParseState.peek, front] at next
  exact Nat.lt_succ_of_le (parts.weak power next)

theorem parses_climb_lowest {e : Expr} {q : List Token} (parts : Parts .lowest q) :
    Parses (run (climb Precedence.lowest.power e)) q e q := by
  intro s front
  refine ⟨s, Ladder.climb_done fun power next => ?_, front⟩
  have bounds := Ladder.next_bounds next
  rw [ParseState.peek, front] at next
  have weak : power ≤ 0 := parts.weak power next
  omega

theorem parses_climb_unary {e : Expr} {q : List Token} :
    Parses (run (climb Precedence.unary.power e)) q e q := by
  intro s front
  refine ⟨s, Ladder.climb_done fun power next => ?_, front⟩
  exact Nat.lt_succ_of_le (Ladder.next_bounds next).2

mutual

/-- An expression of a tier is parsed by climbing from the tier or from below it, and what follows
is then folded onto it. -/
theorem parses_climbing : {level : Precedence} → {w : List Token} → {e : Expr} →
    Expression level w e → ∀ {minimum : Nat} {q rest : List Token} {e' : Expr},
      minimum ≤ level.power → Parts level q → Parses (run (climb minimum e)) q e' rest →
      Parses (run (expression minimum)) (w ++ q) e' rest
  | level, _, _, .tighter inner operand, minimum, q, rest, e', low, parts, folded => by
    have rank := Precedence.power_tighter inner
    exact parses_climbing operand (by omega) (parts.tighter inner) folded
  | _, _, _, @Expression.binary level l r op symbol lhs rhs operator spelled left right, minimum, q,
      rest, e', low, parts, folded => by
    have power := Token.isOperatorOf_iff_bindingPower?.mp operator
    have inner : level ≠ .unary := by
      rintro rfl
      exact absurd (Ladder.bindingPower?_bounds power).2 (by decide)
    have rank := Precedence.power_tighter inner
    have operated : Parses (run (operation level.power lhs)) (op :: (r ++ q))
        (.binary symbol lhs rhs op.position) q := by
      rw [run_operation]
      refine (Parses.spelling rfl spelled).bind (Parses.map ?_)
      exact parses_climbing right (by omega) (parts.tighter inner) (parses_climb_done parts)
    rw [List.append_assoc, List.cons_append]
    refine parses_climbing left low (parts_of_operator operator) ?_
    intro s front
    have next : s.peek.bind Token.bindingPower? = some level.power := by
      rw [ParseState.peek, front]
      exact power
    rw [Ladder.climb_operates next low]
    exact operated.bind folded s front
  | _, _, _, @Expression.unary _ op symbol _ operator spelled operand, minimum, q, rest, e', low,
      parts, folded => by
    have form : operandForm? op = some (.unary symbol op) := by
      rw [operandForm?, (Token.isSign_iff.mp operator).1]
      simp only [Token.isUnaryOperator_eq_isSign, operator, if_true, spelled, Option.map_some]
    have inner := parses_climbing operand (Nat.le_refl _) parts parses_climb_unary
    refine parses_expression ?_ folded
    rw [run_operand]
    exact (Parses.take form).bind (Parses.map inner)
  | _, _, _, .group opens inner closes, minimum, q, rest, e', low, parts, folded => by
    refine parses_expression ?_ folded
    rw [run_operand, List.cons_append, List.append_assoc]
    refine (Parses.take (Ladder.operandForm?_group opens)).bind ?_
    have parts' : Parts .lowest (_ :: q) := parts_of_isPunct closes (by decide)
    refine (parses_climbing inner (Nat.le_refl _) parts' (parses_climb_lowest parts')).bind ?_
    exact Parses.map (Parses.passing closes)
  | _, _, _, .leaf single, minimum, q, rest, e', low, parts, folded =>
    parses_expression (parses_leaf single parts.noCall) folded
  | _, _, _, @Expression.call _ name _ _ _ named opens args closes, minimum, q, rest, e', low,
      parts, folded => by
    have form : operandForm? name = some (.named name) := by rw [operandForm?, named]
    refine parses_expression ?_ folded
    rw [run_operand, List.cons_append, List.cons_append, List.append_assoc]
    refine (Parses.take form).bind (Parses.look_yes opens ?_)
    exact Parses.map (parses_arguments args opens closes)

theorem parses_arguments : {w : List Token} → {args : List Expr} → Arguments w args →
    ∀ {opening closing : Token} {q : List Token}, opening.isPunct '(' → closing.isPunct ')' →
      Parses (run callArguments) (opening :: (w ++ closing :: q)) args q
  | _, _, .none, opening, closing, q, opens, closes => by
    rw [run_callArguments]
    refine (Parses.take rfl).bind (Parses.look_yes closes ?_)
    exact (Parses.take rfl).bind (.pure [] q)
  | _, _, .some given, opening, closing, q, opens, closes => by
    obtain ⟨t, v, form, eq, first⟩ := given.first
    have other : ¬t.isPunct ')' := not_isPunct_of_operandForm? first (by decide)
    rw [run_callArguments]
    refine (Parses.take rfl).bind (Parses.look_no ?_ (parses_moreArguments given closes))
    rw [eq]
    exact other

theorem parses_moreArguments : {w : List Token} → {args : List Expr} → MoreArguments w args →
    ∀ {closing : Token} {q : List Token}, closing.isPunct ')' →
      Parses (run arguments) (w ++ closing :: q) args q
  | _, _, .last arg, closing, q, closes => by
    rw [run_arguments]
    have parts : Parts .lowest (closing :: q) := parts_of_isPunct closes (by decide)
    refine (parses_climbing arg (Nat.le_refl _) parts (parses_climb_lowest parts)).bind ?_
    exact (parses_separator true closes).bind (.pure _ q)
  | _, _, @MoreArguments.cons _ more comma _ _ arg separates rest, closing, q, closes => by
    rw [run_arguments, List.append_assoc, List.cons_append]
    have parts : Parts .lowest (comma :: (more ++ closing :: q)) :=
      parts_of_isPunct separates (by decide)
    refine (parses_climbing arg (Nat.le_refl _) parts (parses_climb_lowest parts)).bind ?_
    refine (parses_separator false separates).bind ?_
    exact Parses.map (parses_moreArguments rest closes)

end

theorem parses_whole {w q : List Token} {e : Expr} (derived : Expression .lowest w e)
    (parts : Parts .lowest q) :
    Parses (run (expression Precedence.lowest.power)) (w ++ q) e q :=
  parses_climbing derived (Nat.le_refl _) parts (parses_climb_lowest parts)

/-! ### The parts of declarations -/

theorem parses_names {w : List Token} {names : List Identifier} (derived : Names w names)
    {closing : Token} (closes : closing.isPunct ')') (q : List Token) :
    Parses (run parameterNames) (w ++ closing :: q) names (closing :: q) := by
  induction derived with
  | last named =>
    rw [run_parameterNames]
    refine (Parses.ofKind named).bind ?_
    refine Parses.look_no ?_ (.pure _ _)
    simp [Ladder.isPunct_exclusive closes]
  | cons named separates rest ih =>
    rw [run_parameterNames]
    refine (Parses.ofKind named).bind ?_
    refine Parses.look_yes separates ?_
    exact (Parses.take rfl).bind (Parses.map ih)

theorem parses_parameters {w : List Token} {params : List Identifier}
    (derived : Parameters w params) {opening closing : Token} (opens : opening.isPunct '(')
    (closes : closing.isPunct ')') (q : List Token) :
    Parses (run parameters) (opening :: (w ++ closing :: q)) params q := by
  rw [run_parameters]
  refine (Parses.passing opens).bind (Parses.bind ?_ (Parses.map (Parses.passing closes)))
  cases derived with
  | none => exact Parses.look_yes closes (.pure [] _)
  | some given =>
    refine Parses.look_no ?_ (parses_names given closes q)
    cases given with
    | last named | cons named => simp [Token.isPunct, named]

theorem parses_type {t : Token} {type : Symbol} (named : TypeName t type) (q : List Token) :
    Parses (run expectType) (t :: q) type q := by
  rw [run_expectType]
  have isType : t.kind == .type := beq_iff_eq.mpr named.kind
  exact Parses.map (Parses.spelling isType named.spelled)

theorem parses_returnType {w q : List Token} {type : Symbol} (derived : ReturnType w type)
    (other : ∀ t ∈ q.head?, ¬t.is .operator "->") :
    Parses (run returnType) (w ++ q) type q := by
  rw [run_returnType]
  cases derived with
  | none =>
    refine Parses.look_no ?_ (.pure _ q)
    rw [Option.any_eq_true]
    rintro ⟨t, mem, arrow⟩
    exact other t mem arrow
  | given points named =>
    exact Parses.look_yes points ((Parses.take rfl).bind (parses_type named q))

theorem parses_declaredType {w q : List Token} {type : Option Symbol} (derived : Annotation w type)
    (other : ∀ t ∈ q.head?, ¬t.isPunct ':') :
    Parses (run declaredType) (w ++ q) type q := by
  rw [run_declaredType]
  cases derived with
  | none =>
    refine Parses.look_no ?_ (.pure _ q)
    rw [Option.any_eq_true]
    rintro ⟨t, mem, colon⟩
    exact other t mem colon
  | given marks named =>
    refine Parses.look_yes marks ((Parses.take rfl).bind ?_)
    exact Parses.map (parses_type named q)

/-- Nothing that ends a statement is an operator or a colon. -/
theorem visible_of_end {t : Token} {q : List Token} (ends : endsStatement q.head?)
    (front : t ∈ q.head?) : t.kind ≠ .operator ∧ ¬t.isPunct ':' := by
  rw [front] at ends
  rcases of_endsStatement ends with terminator | brace
  · rw [Token.isTerminator_iff] at terminator
    simp [terminator, Token.isPunct]
  · rw [Ladder.isPunct_exclusive brace (by decide)]
    simp [Token.kind_of_isPunct brace]

theorem parses_initializer {w q : List Token} {value : Option Expr}
    (derived : Initializer w value) (ends : endsStatement q.head?) :
    Parses (run initializer) (w ++ q) value q := by
  rw [run_initializer]
  cases derived with
  | none =>
    refine Parses.look_no ?_ (.pure _ q)
    rw [Option.any_eq_true]
    rintro ⟨t, front, equals⟩
    rw [Token.is_iff] at equals
    exact (visible_of_end ends front).1 equals.1
  | given marks value =>
    refine Parses.look_yes marks ((Parses.take rfl).bind ?_)
    exact Parses.map (parses_whole value (parts_of_end ends))

/-! ### Simple statements -/

theorem ofLexeme?_of_is {t : Token} {kind : TokenKind} {lexeme : String} {symbol : Symbol}
    (is : t.is kind lexeme) (known : Symbol.ofLexeme? lexeme = some symbol) :
    Symbol.ofLexeme? t.lexeme = some symbol := by
  rw [Token.is_iff] at is
  rw [is.2, known]

/-- An operator with its own spelling is no punctuation mark. -/
theorem not_isPunct_of_is {t : Token} {lexeme : String} (is : t.is .operator lexeme) (c : Char) :
    ¬t.isPunct c := by
  rw [Token.is_iff] at is
  simp [Token.isPunct, is.1]

theorem parses_statement {t : Token} {form : StatementForm} {q rest : List Token} {s : Stmt}
    (opens : Opens t form) (h : Parses (statementOf form) (t :: q) s rest) :
    Parses (run statement) (t :: q) s rest := by
  rw [run_statement]
  refine Parses.look ?_
  rw [List.head?_cons, Option.bind_some, opens.form]
  exact h

theorem parses_simple {w q : List Token} {s : Stmt} (derived : Simple w s)
    (ends : endsStatement q.head?) : Parses (run statement) (w ++ q) s q := by
  have parts : Parts .lowest q := parts_of_end ends
  cases derived with
  | letVariable opens named annotated marks value =>
    refine parses_statement (opens_of_keyword opens rfl) ?_
    rw [statementOf, run_variableDecl, List.append_eq, List.cons_append, List.append_assoc]
    refine (Parses.spelling rfl (ofLexeme?_of_is opens ofLexeme?_let)).bind ?_
    refine (Parses.ofKind named).bind ?_
    refine (parses_declaredType annotated ?_).bind (Parses.map ?_)
    · rintro t ⟨⟩
      exact not_isPunct_of_is marks ':'
    · rw [declaredValue, if_pos rfl, run_requiredInitializer]
      exact (Parses.passing marks).bind (Parses.map (parses_whole value parts))
  | opVariable opens named annotated initial =>
    refine parses_statement (opens_of_keyword opens rfl) ?_
    rw [statementOf, run_variableDecl, List.append_eq, List.cons_append, List.append_assoc]
    refine (Parses.spelling rfl (ofLexeme?_of_is opens ofLexeme?_op)).bind ?_
    refine (Parses.ofKind named).bind ?_
    refine (parses_declaredType annotated ?_).bind (Parses.map ?_)
    · cases initial with
      | none => exact fun t front => (visible_of_end ends front).2
      | given marks =>
        rintro t ⟨⟩
        exact not_isPunct_of_is marks ':'
    · rw [declaredValue, if_neg (by simp)]
      exact parses_initializer initial ends
  | @typedVariable keyword _ _ _ _ opens named initial =>
    refine parses_statement (opens_of_type opens) ?_
    have isType : keyword.kind == .type := beq_iff_eq.mpr opens.kind
    rw [statementOf, run_typedVariableDecl]
    refine (Parses.spelling isType opens.spelled).bind ?_
    refine (Parses.ofKind named).bind ?_
    exact Parses.map (parses_initializer initial ends)
  | ret opens value =>
    refine parses_statement (opens_of_keyword opens rfl) ?_
    rw [statementOf, run_returnStatement]
    refine (Parses.spelling rfl (ofLexeme?_of_is opens ofLexeme?_ret)).bind ?_
    rw [if_pos rfl]
    exact Parses.map (parses_whole value parts)
  | rev opens =>
    refine parses_statement (opens_of_keyword opens rfl) ?_
    rw [statementOf, run_returnStatement]
    refine (Parses.spelling rfl (ofLexeme?_of_is opens ofLexeme?_rev)).bind ?_
    rw [if_neg (by simp)]
    exact .pure _ q
  | expression whole =>
    obtain ⟨t, v, form, eq, opens⟩ := whole.first
    cases eq
    refine parses_statement (opens_of_operandForm? opens) ?_
    rw [statementOf, run_expressionStatement]
    exact Parses.here.bind (Parses.map (parses_whole whole parts))

theorem parses_header {w q : List Token} {header : FunctionHeader} (derived : Header w header)
    (other : ∀ t ∈ q.head?, ¬t.is .operator "->") :
    Parses (run functionHeader) (w ++ q) header q := by
  obtain ⟨-, -, spelled, named, before, parameters, behind, returns⟩ := derived
  rw [run_functionHeader, List.cons_append, List.cons_append, List.cons_append, List.append_assoc,
    List.cons_append]
  refine (Parses.spelling rfl spelled).bind ?_
  refine (Parses.ofKind named).bind ?_
  refine (parses_parameters parameters before behind _).bind ?_
  exact Parses.map (parses_returnType returns other)

/-! ### Scopes -/

/-- A statement may end in front of the queue, and no `else` goes on with it. -/
structure Finishes (q : List Token) : Prop where
  ends : endsStatement q.head?
  noElse : ∀ t ∈ (q.dropWhile Token.isTerminator).head?, ¬t.is .keyword "else"

/-- A body follows neither an arrow nor an expression that goes on. -/
theorem notArrow_of_body {w q : List Token} {p : List Stmt} (h : Body w p) :
    ∀ t ∈ (w ++ q).head?, ¬t.is .operator "->" := by
  obtain ⟨t, v, rfl, opens⟩ := h.first
  rintro t' ⟨⟩ operator
  rw [Token.is_iff] at operator
  rcases opens with terminator | brace
  · simp [Token.isTerminator, operator.1] at terminator
  · simp [Token.isPunct, operator.1] at brace

theorem parts_of_body {w q : List Token} {p : List Stmt} (h : Body w p) :
    Parts .lowest (w ++ q) := by
  obtain ⟨t, v, rfl, opens⟩ := h.first
  rcases opens with terminator | brace
  · rw [Token.isTerminator_iff] at terminator
    exact parts_of_kind (by simp [terminator]) (by simp [terminator])
  · exact parts_of_isPunct brace (by decide)

/-- A scope ends in front of its closing brace or with the input. -/
theorem Closes.finishes {nested : Bool} {tail rest : List Token} (h : Closes nested tail rest) :
    Finishes tail := by
  cases h with
  | brace closes =>
    constructor
    · simp [endsStatement, closes]
    · rw [List.dropWhile_cons_of_neg (noTerminator_of_isPunct closes)]
      rintro t ⟨⟩
      exact not_is_of_isPunct closes (by decide) "else"
  | ending => exact ⟨rfl, by simp⟩

/-- A statement of a sequence ends where the grammar says. -/
theorem finishes_of_sequence {nested : Bool} {w tail rest : List Token} {p : List Stmt}
    (ends : ∀ t ∈ w.head?, t.isTerminator) (derived : Sequence w p)
    (closes : Closes nested tail rest) : Finishes (w ++ tail) := by
  cases w with
  | nil => exact closes.finishes
  | cons t w =>
    constructor
    · simp [endsStatement, ends t rfl]
    · by_cases spent : (t :: w).dropWhile Token.isTerminator = []
      · rw [List.dropWhile_append, if_pos (by simp only [spent, List.isEmpty_nil])]
        exact closes.finishes.noElse
      · rw [List.dropWhile_append, if_neg (by simpa using spent),
          List.head?_append_of_ne_nil _ spent]
        exact derived.noElse

/-- A terminator in front of a sequence makes no difference. -/
theorem Parses.sequence_terminator {nested : Bool} {t : Token} {q rest : List Token}
    {p : List Stmt} (ends : t.isTerminator) (h : Parses (run (sequence nested)) q p rest) :
    Parses (run (sequence nested)) (t :: q) p rest := by
  intro s front
  have same : run (sequence nested) s = run (sequence nested) (s.took t q) := by
    rw [run_sequence]
    exact congrArg (sequenceRest nested) (s.skipTerminators_took front ends).symm
  rw [same]
  exact h _ rfl

theorem parses_sequenceRest {nested : Bool} {t : Token} {q rest : List Token} {p : List Stmt}
    (visible : ¬t.isTerminator) (h : Parses (sequenceRest nested) (t :: q) p rest) :
    Parses (run (sequence nested)) (t :: q) p rest := by
  rw [run_sequence]
  exact (Parses.skip breaks_nil (by rintro t' ⟨⟩; exact visible)).bind h

theorem noTerminator_of_keyword {t : Token} {lexeme : String} (is : t.is .keyword lexeme) :
    ¬t.isTerminator := by
  rw [Token.is_iff] at is
  simp [Token.isTerminator, is.1]

/-- A scope without statements. -/
theorem parses_closing {nested : Bool} {tail rest : List Token} (closes : Closes nested tail rest) :
    Parses (run (sequence nested)) tail [] rest := by
  cases closes with
  | ending =>
    rw [run_sequence]
    exact (Parses.skip breaks_nil (by simp)).bind (Parses.look (.pure [] []))
  | brace closes =>
    refine parses_sequenceRest (noTerminator_of_isPunct closes) (Parses.look ?_)
    rw [List.head?_cons]
    dsimp only
    rw [Ladder.isPunct_exclusive closes (by decide), if_neg (by simp), if_pos closes, if_pos rfl]
    exact (Parses.take rfl).bind (.pure [] rest)

/-- The body around the statements of a nested scope. -/
theorem parses_braces {breaks q rest : List Token} {opening : Token} {p : List Stmt}
    (skipped : Breaks breaks) (opens : opening.isPunct '\x7b')
    (inner : Parses (run (sequence true)) q p rest) :
    Parses (run body) (breaks ++ opening :: q) p rest := by
  rw [run_body]
  refine (Parses.skip skipped ?_).bind ((Parses.passing opens).bind inner)
  rintro t ⟨⟩
  exact noTerminator_of_isPunct opens

/-- The queue behind some tokens has no terminators side by side if the whole has none. -/
theorem apart_right {v w : List Token} (apart : (v ++ w).IsChain Apart) : w.IsChain Apart :=
  (List.isChain_append.mp apart).2.1

mutual

theorem parses_sequence : {w : List Token} → {p : List Stmt} → Sequence w p →
    ∀ {nested : Bool} {tail rest : List Token}, Closes nested tail rest →
      (w ++ tail).IsChain Apart → Parses (run (sequence nested)) (w ++ tail) p rest
  | _, _, .nil, nested, tail, rest, closes, _ => parses_closing closes
  | _, _, .terminator ends more, nested, tail, rest, closes, apart =>
    .sequence_terminator ends (parses_sequence more closes (apart_right (v := [_]) apart))
  | _, _, @Sequence.block opening closing _ w _ _ opens inner brace more, nested, tail, rest, closes,
      apart => by
    rw [List.cons_append, List.append_assoc, List.cons_append] at apart ⊢
    have apart' := apart_right (v := [opening]) apart
    refine parses_sequenceRest (noTerminator_of_isPunct opens) (Parses.look ?_)
    rw [List.head?_cons]
    dsimp only
    rw [if_pos opens]
    refine (Parses.take rfl).bind ?_
    refine (parses_sequence inner (.brace brace (w ++ tail)) apart').bind (Parses.map ?_)
    exact parses_sequence more closes (apart_right (v := [closing]) (apart_right apart'))
  | _, _, @Sequence.statement b w stmt _ first ends more, nested, tail, rest, closes, apart => by
    have finishes := finishes_of_sequence ends more closes
    rw [List.append_assoc] at apart ⊢
    have parsed := parses_stmt first finishes apart
    obtain ⟨t, v, form, rfl, opens⟩ := first.first
    rw [List.cons_append] at parsed ⊢
    refine parses_sequenceRest opens.noTerminator (Parses.look ?_)
    rw [List.head?_cons]
    dsimp only
    rw [if_neg (opens.noBrace _ (by simp)), if_neg (opens.noBrace _ (by simp))]
    refine parsed.bind ((Parses.record stmt _).bind ?_)
    refine (Parses.statementEnd finishes.ends).bind (Parses.map ?_)
    exact parses_sequence more closes (apart_right apart)

theorem parses_stmt : {w : List Token} → {s : Stmt} → Statement w s → ∀ {q : List Token},
    Finishes q → (w ++ q).IsChain Apart → Parses (run statement) (w ++ q) s q
  | _, _, .simple derived, q, finishes, _ => parses_simple derived finishes.ends
  | _, _, .function front block, q, finishes, apart => by
    rw [List.append_assoc] at apart ⊢
    have header := parses_header front (notArrow_of_body (q := q) block)
    obtain ⟨t, v, rfl, opens⟩ := front.first
    refine parses_statement opens ?_
    rw [statementOf, run_functionDecl]
    exact header.bind (Parses.map (parses_body block (apart_right apart)))
  | _, _, @Statement.conditional keyword w b r _ _ _ opens condition block branches, q, finishes,
      apart => by
    rw [List.cons_append, List.append_assoc, List.append_assoc] at apart ⊢
    have apart' := apart_right (v := keyword :: w) apart
    refine parses_statement (opens_of_keyword opens rfl) ?_
    rw [statementOf, run_conditional]
    refine (Parses.passing opens).bind ((parses_whole condition (parts_of_body block)).bind ?_)
    refine (parses_body block apart').bind (Parses.map ?_)
    exact parses_branches branches finishes (apart_right apart')

theorem parses_body : {w : List Token} → {p : List Stmt} → Body w p → ∀ {q : List Token},
    (w ++ q).IsChain Apart → Parses (run body) (w ++ q) p q
  | _, _, @Body.mk breaks b opening closing _ skipped opens inner closes, q, apart => by
    rw [List.append_assoc, List.cons_append, List.append_assoc] at apart ⊢
    have apart' := apart_right (v := [opening]) (apart_right apart)
    exact parses_braces skipped opens (parses_sequence inner (.brace closes q) apart')

theorem parses_branches : {w : List Token} → {branches : List Branch} → Branches w branches →
    ∀ {q : List Token}, Finishes q → (w ++ q).IsChain Apart →
      Parses (run elseBranches) (w ++ q) branches q
  | _, _, .nil, q, finishes, apart => by
    rw [run_elseBranches]
    exact Parses.lookPast_unseen apart finishes.noElse
  | _, _, @Branches.elseIf _ breaks' keyword keyword' w _ _ _ _ _ skipped opens skipped' opens'
      condition block branches, q, finishes, apart => by
    simp only [List.append_assoc, List.cons_append] at apart ⊢
    have apart' := apart_right (v := keyword' :: w)
      (apart_right (v := keyword :: breaks') (apart_right apart))
    rw [run_elseBranches]
    refine Parses.lookPast_seen skipped (noTerminator_of_keyword opens) opens ?_
    refine (Parses.take rfl).bind ?_
    refine (Parses.skip skipped' ?_).bind ?_
    · rintro t ⟨⟩
      exact noTerminator_of_keyword opens'
    · refine Parses.look_yes opens' ((Parses.take rfl).bind ?_)
      refine (parses_whole condition (parts_of_body block)).bind ?_
      refine (parses_body block apart').bind (Parses.map ?_)
      exact parses_branches branches finishes (apart_right apart')
  | _, _, @Branches.last _ keyword _ _ skipped opens
      (@Body.mk breaks' _ opening _ _ skipped' opens' inner closes), q, finishes, apart => by
    simp only [List.append_assoc, List.cons_append, List.nil_append] at apart ⊢
    have apart' := apart_right (v := [opening])
      (apart_right (v := keyword :: breaks') (apart_right apart))
    have inner' := parses_sequence inner (.brace closes q) apart'
    rw [run_elseBranches]
    refine Parses.lookPast_seen skipped (noTerminator_of_keyword opens) opens ?_
    refine (Parses.take rfl).bind ?_
    -- The terminators in front of the brace are gone before the body is parsed.
    refine (Parses.skip skipped' ?_).bind ?_
    · rintro t ⟨⟩
      exact noTerminator_of_isPunct opens'
    · have notIf : ¬opening.is .keyword "if" := by
        exact not_is_of_isPunct opens' (by decide) "if"
      refine Parses.look_no notIf (Parses.map ?_)
      exact parses_braces breaks_nil opens' inner'

end

end Parser

/-! ### The language of the parser -/

theorem derives_of_parse {tokens : List Token} {program : List Stmt}
    (h : parse tokens = .ok program) : Grammar.Sequence (significant tokens) program := by
  rw [Parser.parse_eq] at h
  cases parsed : Parser.run (Parser.sequence false) (ParseState.start (significant tokens)) with
  | error cause s' =>
    rw [parsed] at h
    cases h
  | ok value s' =>
    rw [parsed] at h
    cases h
    obtain ⟨b, tail, eq, closes, derived⟩ :=
      Parser.sequence_of_run false (tidy_significant tokens).apart parsed
    rw [closes.outermost, List.append_nil] at eq
    subst eq
    exact derived

theorem parse_of_derives {tokens : List Token} {program : List Stmt}
    (h : Grammar.Sequence (significant tokens) program) : parse tokens = .ok program := by
  have apart : (significant tokens ++ []).IsChain Apart := by
    rw [List.append_nil]
    exact (tidy_significant tokens).apart
  have parsed := Parser.parses_sequence h .ending apart
  obtain ⟨s', eq, -⟩ :=
    parsed (ParseState.start (significant tokens)) (List.append_nil (significant tokens)).symm
  rw [Parser.parse_eq, eq]
  rfl

/-- The parser accepts the tokens of the grammar and gives the tree of their derivation, of which
there is only one. -/
theorem parse_eq_ok_iff_derives (tokens : List Token) :
    (∀ program, parse tokens = .ok program ↔ Grammar.Sequence (significant tokens) program) ∧
    ∀ program program', Grammar.Sequence (significant tokens) program →
      Grammar.Sequence (significant tokens) program' → program = program' := by
  refine ⟨fun program => ⟨derives_of_parse, parse_of_derives⟩, ?_⟩
  intro program program' first second
  have same : Except.ok program = Except.ok program' :=
    (parse_of_derives first).symm.trans (parse_of_derives second)
  injection same

/-- All operators in one expression: each tier leans to the left, and the tighter ones are inside.
The expression stands in a bare block, whose statement belongs to the scope around it. -/
theorem parse_eq_ok_iff_derives_tiers :
    let name (lexeme : String) (column : Nat) : Token := ⟨.identifier, lexeme, ⟨1, column⟩⟩
    let op (lexeme : String) (column : Nat) : Token := ⟨.operator, lexeme, ⟨1, column⟩⟩
    let mark (lexeme : String) (column : Nat) : Token := ⟨.punctuator, lexeme, ⟨1, column⟩⟩
    let leaf (lexeme : String) (column : Nat) : Expr := .identifier ⟨lexeme, ⟨1, column⟩⟩
    let tokens : List Token :=
      [mark "\x7b" 1, ⟨.keyword, "ret", ⟨1, 3⟩⟩, name "a" 7, op "||" 9, op "!" 12, name "b" 13,
        op "&&" 15, name "c" 18, op "==" 20, name "d" 23, op "!=" 25, name "e" 28, op "<" 30,
        name "f" 32, op ">" 34, name "g" 36, op "<=" 38, name "h" 41, op ">=" 43, name "i" 46,
        op "<<" 48, name "j" 51, op ">>" 53, name "k" 56, op "+" 58, name "l" 60, op "-" 62,
        name "m" 64, op "*" 66, name "n" 68, op "/" 70, op "~" 72, name "o" 73, op "%" 75,
        op "-" 77, name "p" 78, ⟨.statementTerminator, ";", ⟨1, 80⟩⟩, mark "\x7d" 82, name "x" 84]
    let term : Expr := .binary .arithmeticMod (.binary .arithmeticDiv
      (.binary .arithmeticMul (leaf "m" 64) (leaf "n" 68) ⟨1, 66⟩)
      (.unary .bitwiseNeg (leaf "o" 73) ⟨1, 72⟩) ⟨1, 70⟩)
      (.unary .arithmeticSub (leaf "p" 78) ⟨1, 77⟩) ⟨1, 75⟩
    let sum : Expr := .binary .arithmeticSub
      (.binary .arithmeticAdd (leaf "k" 56) (leaf "l" 60) ⟨1, 58⟩) term ⟨1, 62⟩
    let shift : Expr := .binary .bitwiseSr
      (.binary .bitwiseSl (leaf "i" 46) (leaf "j" 51) ⟨1, 48⟩) sum ⟨1, 53⟩
    let equality : Expr := .binary .comparisonNeq
      (.binary .comparisonEq (leaf "c" 18) (leaf "d" 23) ⟨1, 20⟩) (leaf "e" 28) ⟨1, 25⟩
    let comparison : Expr := .binary .comparisonGte (.binary .comparisonLte (.binary .comparisonGt
      (.binary .comparisonLt equality (leaf "f" 32) ⟨1, 30⟩) (leaf "g" 36) ⟨1, 34⟩)
      (leaf "h" 41) ⟨1, 38⟩) shift ⟨1, 43⟩
    let value : Expr := .binary .logicalAnd
      (.binary .logicalOr (leaf "a" 7) (.unary .logicalNot (leaf "b" 13) ⟨1, 12⟩) ⟨1, 9⟩)
      comparison ⟨1, 15⟩
    let program : List Stmt :=
      [.ret .functionReturn ⟨1, 3⟩ (some value), .expression (leaf "x" 84) ⟨1, 84⟩]
    parse tokens = .ok program ∧ Grammar.Sequence (significant tokens) program := by
  intro name op mark leaf tokens term sum shift equality comparison value program
  have parsed : parse tokens = .ok program := by cbv
  exact ⟨parsed, ((parse_eq_ok_iff_derives tokens).1 program).mp parsed⟩

end RatLang
