import Mathlib
import RatLang.Proofs.Parser.Equations
import RatLang.Proofs.Precedence

/-!
# The ladder of expressions

The grammar of expressions is a ladder: a logical expression joins comparisons, a comparison joins
shifts, and so on down to the factors, and on each tier the operators associate to the left.
`Ladder.tier` parses by this grammar, with one loop for each tier and no binding powers. Precedence
climbing is the same parser: one loop with a threshold takes the place of the five, and both come to
the same tree or the same error and reach the same state.
-/

namespace RatLang

namespace Ladder

open RatLang.Parser

mutual

/-- Parses an expression of a tier. Below the terms stand the factors, and what may stand anywhere
is a logical expression. -/
def tier (level : Precedence) (state : ParseState) : Step state.left Expr :=
  if level = .unary then factor state
  else if level = .lowest then tier .logical state
  else
    (tier level.tighter state).bind fun lhs afterOperand taken =>
      (chain level lhs afterOperand).weaken taken
termination_by 10 * state.left + (9 - level.power)
decreasing_by
  · have := level.power_le
    omega
  · rename_i lowest
    have := level.power_le
    subst lowest
    simp only [Precedence.power]
    omega
  · rename_i inner _
    rw [Precedence.power_tighter inner]
    have := level.power_le
    omega
  · omega

/-- Folds the operators of a tier that follow onto `lhs`, from the left. -/
def chain (level : Precedence) (lhs : Expr) (state : ParseState) : Step (state.left + 1) Expr :=
  if state.peek.any (·.isOperatorOf level) then
    (popSymbol (fun _ => true) "a binary operator" state).bind fun (op, symbol) afterOp taken =>
      (tier level.tighter afterOp).bind fun rhs afterRhs takenRhs =>
        (chain level (.binary symbol lhs rhs op.position) afterRhs).weaken
          (ParseState.left_succ_le_succ_trans taken takenRhs)
  else state.done lhs
termination_by 10 * state.left

/-- Parses an operator with its operand, an expression in parentheses, or a primary expression. -/
def factor (state : ParseState) : Step state.left Expr :=
  if state.peek.any Token.isSign then
    (popSymbol (fun _ => true) "a unary operator" state).bind fun (op, symbol) afterOp taken =>
      (factor afterOp).bind fun inner afterInner takenInner =>
        .ok (.unary symbol inner op.position) afterInner
          (ParseState.left_lt_trans taken takenInner)
  else if state.isAtPunct '(' then
    (pop "'('" state).bind fun _ afterOpen taken =>
      (tier .lowest afterOpen).bind fun inner afterInner takenInner =>
        (expectPunct ')' "')'" afterInner).bind fun _ afterClose takenClose =>
          .ok inner afterClose (ParseState.left_lt_trans₃ taken takenInner takenClose)
  else primary state
termination_by 10 * state.left + 1

/-- Parses a literal, a name or a call. -/
def primary (state : ParseState) : Step state.left Expr :=
  (pop "an expression" state).bind fun token afterToken taken =>
    match token.kind with
    | .numericLiteral =>
      .ok (.numeric (numericType token.lexeme) token.lexeme token.position) afterToken taken
    | .stringLiteral => .ok (.string token.lexeme token.position) afterToken taken
    | .charLiteral => .ok (.char token.lexeme token.position) afterToken taken
    | .identifier =>
      if afterToken.isAtPunct '(' then
        (pop "'('" afterToken).bind fun _ afterOpen takenOpen =>
          (arguments afterOpen).bind fun args afterCall takenCall =>
            .ok (.call token.lexeme args token.position) afterCall
              (ParseState.left_lt_trans₃ taken takenOpen takenCall)
      else .ok (.identifier ⟨token.lexeme, token.position⟩) afterToken taken
    | _ =>
      if token.is .keyword "null" then .ok (.null token.position) afterToken taken
      else .error (.unexpected token "an expression") afterToken
termination_by 10 * state.left

/-- Parses the arguments of a call behind its opening parenthesis, and the closing one. -/
def arguments (state : ParseState) : Step state.left (List Expr) :=
  if state.isAtPunct ')' then
    (pop "')'" state).bind fun _ afterClose taken => .ok [] afterClose taken
  else moreArguments state
termination_by 10 * state.left + 11

/-- Parses at least one argument, those that follow behind commas, and the closing parenthesis. -/
def moreArguments (state : ParseState) : Step state.left (List Expr) :=
  (tier .lowest state).bind fun arg afterArg takenArg =>
    (pop "',' or ')'" afterArg).bind fun separator afterSeparator takenSeparator =>
      if separator.isPunct ',' then
        (moreArguments afterSeparator).bind fun rest afterRest takenRest =>
          .ok (arg :: rest) afterRest
            (ParseState.left_lt_trans₃ takenArg takenSeparator takenRest)
      else if separator.isPunct ')' then
        .ok [arg] afterSeparator (ParseState.left_lt_trans takenArg takenSeparator)
      else .error (.unexpected separator "',' or ')'") afterSeparator
termination_by 10 * state.left + 10

end

/-! ### The equations of the ladder -/

theorem run_tier {level : Precedence} (inner : level ≠ .unary) (notLowest : level ≠ .lowest) :
    run (tier level) = (do
      let lhs ← run (tier level.tighter)
      run (chain level lhs)) := by
  funext state
  rw [run, tier, if_neg inner, if_neg notLowest]
  exact outcome_then fun _ _ _ => Step.outcome_weaken _ _

theorem run_tier_lowest : run (tier .lowest) = run (tier .logical) := by
  funext state
  rw [run, tier, if_neg (by decide), if_pos rfl]
  rfl

theorem run_tier_unary : run (tier .unary) = run factor := by
  funext state
  rw [run, tier, if_pos rfl]
  rfl

theorem run_chain (level : Precedence) (lhs : Expr) :
    run (chain level lhs) = (look fun next =>
      if next.any (·.isOperatorOf level) then do
        let op ← take (spelling fun _ => true) "a binary operator"
        let rhs ← run (tier level.tighter)
        run (chain level (.binary op.2 lhs rhs op.1.position))
      else pure lhs) := by
  funext state
  rw [run, chain, ← run_popSymbol]
  refine outcome_look ?_ rfl
  apply outcome_then
  intro _ _ _
  exact outcome_then fun _ _ _ => Step.outcome_weaken _ _

theorem run_factor :
    run factor = (look fun next =>
      if next.any Token.isSign then do
        let op ← take (spelling fun _ => true) "a unary operator"
        let inner ← run factor
        pure (.unary op.2 inner op.1.position)
      else look fun next =>
        if next.any (·.isPunct '(') then do
          let _ ← take some "'('"
          let inner ← run (tier .lowest)
          let _ ← take (passing (·.isPunct ')')) "')'"
          pure inner
        else run primary) := by
  funext state
  rw [run, factor, ← run_popSymbol, ← run_pop, ← run_expectPunct]
  refine outcome_look ?_ (outcome_look ?_ rfl)
  · exact outcome_then fun _ _ _ => outcome_then fun _ _ _ => rfl
  · apply outcome_then
    intro _ _ _
    exact outcome_then fun _ _ _ => outcome_then fun _ _ _ => rfl

/-- The part of a primary expression behind its first token. -/
def primaryRest (token : Token) : Action Expr :=
  match token.kind with
  | .numericLiteral => pure (.numeric (numericType token.lexeme) token.lexeme token.position)
  | .stringLiteral => pure (.string token.lexeme token.position)
  | .charLiteral => pure (.char token.lexeme token.position)
  | .identifier => look fun next =>
    if next.any (·.isPunct '(') then do
      let _ ← take some "'('"
      let args ← run arguments
      pure (.call token.lexeme args token.position)
    else pure (.identifier ⟨token.lexeme, token.position⟩)
  | _ =>
    if token.is .keyword "null" then pure (.null token.position)
    else throw (.unexpected token "an expression")

theorem run_primary : run primary = take some "an expression" >>= primaryRest := by
  funext state
  rw [run, primary, ← run_pop]
  apply outcome_then
  intro token after taken
  unfold primaryRest
  cases kind : token.kind
  case identifier =>
    rw [← run_pop]
    refine outcome_look (outcome_then fun _ _ _ => ?_) rfl
    exact outcome_then fun _ _ _ => rfl
  case numericLiteral => rfl
  case stringLiteral => rfl
  case charLiteral => rfl
  all_goals
    simp only
    split <;> rfl

theorem run_arguments :
    run arguments = (look fun next =>
      if next.any (·.isPunct ')') then do
        let _ ← take some "')'"
        pure []
      else run moreArguments) := by
  funext state
  rw [run, arguments, ← run_pop]
  exact outcome_look (outcome_then fun _ _ _ => rfl) rfl

/-- A comma is no parenthesis. -/
theorem isPunct_exclusive {token : Token} {c d : Char} (h : token.isPunct c) (ne : c ≠ d) :
    token.isPunct d = false := by
  simp only [Token.isPunct, Token.lexeme_of_isPunct h, Bool.and_eq_false_iff, beq_eq_false_iff_ne]
  exact .inl (.inr fun eq => ne (by simpa using congrArg String.toList eq))

theorem run_moreArguments :
    run moreArguments = (do
      let arg ← run (tier .lowest)
      let closes ← take separator? "',' or ')'"
      if closes then pure [arg]
      else do
        let rest ← run moreArguments
        pure (arg :: rest)) := by
  funext state
  rw [run, moreArguments]
  apply outcome_then
  intro arg afterArg taken
  rw [← take_bind_form, ← run_pop]
  apply outcome_then
  intro separator after taken
  by_cases comma : separator.isPunct ','
  · have open' := isPunct_exclusive (d := ')') comma (by decide)
    simp only [separator?, open', comma, if_true, given]
    exact outcome_then fun _ _ _ => rfl
  · by_cases closes : separator.isPunct ')'
    · simp only [separator?, closes, comma, if_true, given, pure_bind]
      rfl
    · simp only [separator?, closes, comma]
      rfl

/-! ### Operators and their tiers -/

theorem bindingPower?_bounds {token : Token} {power : Nat}
    (h : token.bindingPower? = some power) : 1 ≤ power ∧ power ≤ 5 := by
  unfold Token.bindingPower? at h
  split at h
  · obtain ⟨tier, found, rfl⟩ := Option.map_eq_some_iff.mp h
    exact Precedence.power_of_mem (Precedence.ofBinary?_eq_some_iff.mp found)
  · cases h

theorem next_bounds {next : Option Token} {power : Nat}
    (h : next.bind Token.bindingPower? = some power) : 1 ≤ power ∧ power ≤ 5 := by
  obtain ⟨token, -, found⟩ := Option.bind_eq_some_iff.mp h
  exact bindingPower?_bounds found

theorem next_isOperatorOf {next : Option Token} {level : Precedence} :
    next.any (·.isOperatorOf level) ↔ next.bind Token.bindingPower? = some level.power := by
  cases next with
  | none => simp
  | some token => simpa using Token.isOperatorOf_iff_bindingPower?

/-! ### Climbing stops where it should -/

theorem climb_done {minimum : Nat} {lhs : Expr} {s : ParseState}
    (weak : ∀ power, s.peek.bind Token.bindingPower? = some power → power < minimum) :
    run (climb minimum lhs) s = .ok lhs s := by
  rw [run_climb]
  simp only [look]
  cases front : s.peek.bind Token.bindingPower? with
  | none => rfl
  | some power =>
    simp only [weak power front, if_true]
    rfl

theorem climb_operates {minimum power : Nat} {lhs : Expr} {s : ParseState}
    (front : s.peek.bind Token.bindingPower? = some power) (strong : minimum ≤ power) :
    run (climb minimum lhs) s = (run (operation power lhs) >>= run ∘ climb minimum) s := by
  rw [run_climb]
  simp only [look, front, Nat.not_lt.mpr strong, if_false]
  rfl

theorem chain_done {level : Precedence} {lhs : Expr} {s : ParseState}
    (other : s.peek.bind Token.bindingPower? ≠ some level.power) :
    run (chain level lhs) s = .ok lhs s := by
  rw [run_chain]
  simp only [look, mt next_isOperatorOf.mp other]
  rfl

theorem chain_operates {level : Precedence} {lhs : Expr} {s : ParseState}
    (front : s.peek.bind Token.bindingPower? = some level.power) :
    run (chain level lhs) s = (take (spelling fun _ => true) "a binary operator" >>= fun op =>
      run (tier level.tighter) >>= fun rhs =>
        run (chain level (.binary op.2 lhs rhs op.1.position))) s := by
  rw [run_chain]
  simp only [look, next_isOperatorOf.mpr front, if_true]

/-- Behind an expression of some strength stands no operator that is at least as strong. -/
theorem climb_stops {minimum : Nat} {lhs e : Expr} {s s' : ParseState}
    (h : run (climb minimum lhs) s = .ok e s') {power : Nat}
    (next : s'.peek.bind Token.bindingPower? = some power) : power < minimum := by
  by_cases strong : ∃ first, s.peek.bind Token.bindingPower? = some first ∧ minimum ≤ first
  · obtain ⟨first, front, strong⟩ := strong
    rw [climb_operates front strong] at h
    obtain ⟨folded, after, operated, climbed⟩ := ok_of_bind h
    have := left_of_run operated
    exact climb_stops climbed next
  · have weak : ∀ first, s.peek.bind Token.bindingPower? = some first → first < minimum :=
      fun first front => Nat.lt_of_not_le fun le => strong ⟨first, front, le⟩
    rw [climb_done weak] at h
    cases h
    exact weak power next
termination_by s.left

theorem expression_stops {minimum : Nat} {e : Expr} {s s' : ParseState}
    (h : run (expression minimum) s = .ok e s') {power : Nat}
    (next : s'.peek.bind Token.bindingPower? = some power) : power < minimum := by
  rw [run_expression] at h
  obtain ⟨lhs, after, -, climbed⟩ := ok_of_bind h
  exact climb_stops climbed next

/-- The threshold matters only by the operators that it lets pass. -/
theorem climb_threshold {m n : Nat}
    (same : ∀ power, 1 ≤ power → power ≤ 5 → (m ≤ power ↔ n ≤ power)) (lhs : Expr)
    (s : ParseState) : run (climb m lhs) s = run (climb n lhs) s := by
  by_cases strong : ∃ first, s.peek.bind Token.bindingPower? = some first ∧ m ≤ first
  · obtain ⟨first, front, strong⟩ := strong
    have bounds := next_bounds front
    have strong' := (same first bounds.1 bounds.2).mp strong
    rw [climb_operates front strong, climb_operates front strong']
    apply bind_congr_at rfl
    intro folded after operated
    have := left_of_run operated
    exact climb_threshold same folded after
  · have weak : ∀ first, s.peek.bind Token.bindingPower? = some first → first < m :=
      fun first front => Nat.lt_of_not_le fun le => strong ⟨first, front, le⟩
    rw [climb_done weak, climb_done]
    intro first front
    have bounds := next_bounds front
    have := same first bounds.1 bounds.2
    have := weak first front
    omega
termination_by s.left

/-- No operator binds as tightly as an operand. -/
theorem run_expression_tight {minimum : Nat} (tight : 5 < minimum) :
    run (expression minimum) = run operand := by
  funext s
  rw [run_expression]
  cases eq : run operand s with
  | error cause after => rw [bind_of_error eq]
  | ok lhs after =>
    rw [bind_of_ok eq]
    exact climb_done fun power front => Nat.lt_of_le_of_lt (next_bounds front).2 tight

theorem run_expression_unary : run (expression Precedence.unary.power) = run operand :=
  run_expression_tight (by decide)

theorem run_expression_lowest :
    run (expression Precedence.lowest.power) = run (expression Precedence.logical.power) := by
  funext s
  rw [run_expression, run_expression]
  refine bind_congr_at rfl fun lhs after _ => climb_threshold ?_ lhs after
  intro power positive _
  simp only [Precedence.power]
  omega

/-! ### Both parsers agree -/

theorem operandForm?_unary {token : Token} (h : token.isSign) :
    ∃ symbol, spelling (fun _ => true) token = some (token, symbol) ∧
      operandForm? token = some (.unary symbol token) := by
  have operator := (Token.isSign_iff.mp h).1
  rw [← Token.isUnaryOperator_eq_isSign] at h
  obtain ⟨symbol, spelled⟩ := symbol_of_isUnaryOperator h
  exact ⟨symbol, by simp [spelling, spelled], by simp [operandForm?, operator, h, spelled]⟩

theorem operandForm?_group {token : Token} (h : token.isPunct '(') :
    operandForm? token = some .group := by
  simp [operandForm?, Token.kind_of_isPunct h, h]

mutual

/-- An expression of a tier is an expression whose operators are at least as strong as the tier. -/
theorem run_tier_eq (level : Precedence) (s : ParseState) :
    run (tier level) s = run (expression level.power) s := by
  have bound := level.power_le
  by_cases bottom : level = .unary
  · have rank : level.power = 6 := by rw [bottom]; rfl
    rw [bottom, run_tier_unary, run_expression_unary]
    exact run_factor_eq s
  · by_cases lowest : level = .lowest
    · have rank : level.power = 0 ∧ Precedence.logical.power = 1 := by rw [lowest]; exact ⟨rfl, rfl⟩
      rw [lowest, run_tier_lowest, run_expression_lowest]
      exact run_tier_eq .logical s
    · have rank := Precedence.power_tighter bottom
      have operands := run_tier_eq level.tighter s
      rw [rank] at operands
      rw [run_tier bottom lowest, run_expression]
      calc (run (tier level.tighter) >>= run ∘ chain level) s
          = (run (expression (level.power + 1)) >>= run ∘ chain level) s :=
            bind_congr_at operands fun _ _ _ => rfl
        _ = (run operand >>= fun lhs =>
              run (climb (level.power + 1) lhs) >>= run ∘ chain level) s := by
            rw [run_expression, bind_assoc]
        _ = (run operand >>= fun lhs => run (climb level.power lhs)) s := by
            apply bind_congr_at rfl
            intro lhs after parsed
            have := left_of_run parsed
            exact climb_chain level bottom lhs after
termination_by 10 * s.left + (9 - level.power)

/-- Climbing to a tier is climbing to the tighter one and then folding the operators of the tier. -/
theorem climb_chain (level : Precedence) (inner : level ≠ .unary) (lhs : Expr) (s : ParseState) :
    (run (climb (level.power + 1) lhs) >>= run ∘ chain level) s =
      run (climb level.power lhs) s := by
  have rank := Precedence.power_tighter inner
  by_cases here : s.peek.bind Token.bindingPower? = some level.power
  · -- The tighter loop stops at once, and both sides take the operator with the same right operand.
    have stops : run (climb (level.power + 1) lhs) s = .ok lhs s := by
      apply climb_done
      intro power front
      cases here.symm.trans front
      exact Nat.lt_succ_self _
    rw [bind_of_ok stops, climb_operates here (Nat.le_refl _), run_operation, bind_assoc]
    refine (chain_operates here).trans (bind_congr_at rfl fun op afterOp taken => ?_)
    have := left_of_take taken
    have operands := run_tier_eq level.tighter afterOp
    rw [rank] at operands
    rw [bind_assoc]
    apply bind_congr_at operands
    intro rhs after parsed
    have := left_of_run parsed
    rw [operands] at parsed
    rw [pure_bind, Function.comp, ← climb_chain level inner _ after]
    rw [bind_of_ok (climb_done fun power front => expression_stops parsed front)]
    rfl
  · by_cases strong : ∃ power, s.peek.bind Token.bindingPower? = some power ∧ level.power ≤ power
    · obtain ⟨power, front, le⟩ := strong
      have lt : level.power + 1 ≤ power := Nat.lt_of_le_of_ne le fun eq => here (eq ▸ front)
      calc (run (climb (level.power + 1) lhs) >>= run ∘ chain level) s
          = ((run (operation power lhs) >>= run ∘ climb (level.power + 1)) >>=
              run ∘ chain level) s :=
            bind_congr_at (climb_operates front lt) fun _ _ _ => rfl
        _ = (run (operation power lhs) >>= run ∘ climb level.power) s := by
            rw [bind_assoc]
            apply bind_congr_at rfl
            intro folded after operated
            have := left_of_run operated
            exact climb_chain level inner folded after
        _ = run (climb level.power lhs) s := (climb_operates front le).symm
    · have weak : ∀ power, s.peek.bind Token.bindingPower? = some power → power < level.power :=
        fun power front => Nat.lt_of_not_le fun le => strong ⟨power, front, le⟩
      rw [bind_of_ok (climb_done fun power front => Nat.lt_succ_of_lt (weak power front)),
        climb_done weak]
      exact chain_done here
termination_by 10 * s.left

/-- A factor is an operand. -/
theorem run_factor_eq (s : ParseState) : run factor s = run operand s := by
  rw [run_factor, run_operand]
  cases front : s.queue with
  | nil =>
    rw [look_nil front, Option.any_none, if_neg (by decide), look_nil front, Option.any_none,
      if_neg (by decide), run_primary, bind_of_error (take_nil front),
      bind_of_error (take_nil front)]
  | cons token rest =>
    have shorter := left_took front
    rw [look_cons front, Option.any_some]
    by_cases unary : token.isSign
    · obtain ⟨symbol, spelled, form⟩ := operandForm?_unary unary
      rw [if_pos unary, bind_of_ok (take_accepts front spelled),
        bind_of_ok (take_accepts front form), operandRest, run_expression_unary]
      exact bind_congr_at (run_factor_eq (s.took token rest)) fun _ _ _ => rfl
    · rw [if_neg unary, look_cons front, Option.any_some]
      by_cases group : token.isPunct '('
      · have rank : Precedence.lowest.power = 0 := rfl
        rw [if_pos group, bind_of_ok (take_accepts front rfl),
          bind_of_ok (take_accepts front (operandForm?_group group)), operandRest]
        exact bind_congr_at (run_tier_eq .lowest (s.took token rest)) fun _ _ _ => rfl
      · rw [if_neg group, run_primary, bind_of_ok (take_accepts front rfl), ← take_bind_form,
          bind_of_ok (take_accepts front rfl)]
        exact primaryRest_eq token unary group (s.took token rest)
termination_by 10 * s.left + 1

/-- Behind a token that is neither an operator nor a parenthesis, both go on alike. -/
theorem primaryRest_eq (token : Token) (unary : ¬token.isSign)
    (group : ¬token.isPunct '(') (s : ParseState) :
    primaryRest token s =
      (given token "an expression" (operandForm? token) >>= operandRest) s := by
  unfold primaryRest operandForm?
  cases kind : token.kind
  case identifier =>
    simp only [given, pure_bind, operandRest, run_callArguments, bind_assoc]
    cases front : s.queue with
    | nil => rw [look_nil front, look_nil front]; rfl
    | cons next rest =>
      have shorter := left_took front
      rw [look_cons front, look_cons front, Option.any_some]
      split
      · rw [bind_of_ok (take_accepts front rfl), bind_of_ok (take_accepts front rfl)]
        exact bind_congr_at (run_arguments_eq (s.took next rest)) fun _ _ _ => rfl
      · rfl
  case keyword =>
    simp only [Token.is, kind, beq_self_eq_true, Bool.true_and, beq_iff_eq]
    split <;> rfl
  case operator =>
    simp only [Token.isUnaryOperator_eq_isSign, unary, Token.is, kind]
    rfl
  case punctuator => simp only [group, Token.is, kind]; rfl
  all_goals
    simp only [Token.is, kind]
    rfl
termination_by 10 * s.left + 5

theorem run_arguments_eq (s : ParseState) :
    run Ladder.arguments s = look (fun next =>
      if next.any (·.isPunct ')') then do
        let _ ← take some "')'"
        pure []
      else run Parser.arguments) s := by
  rw [run_arguments, look, look]
  split
  · rfl
  · exact run_moreArguments_eq s
termination_by 10 * s.left + 11

theorem run_moreArguments_eq (s : ParseState) :
    run moreArguments s = run Parser.arguments s := by
  have rank : Precedence.lowest.power = 0 := rfl
  rw [run_moreArguments, Parser.run_arguments]
  apply bind_congr_at (run_tier_eq .lowest s)
  intro arg afterArg parsed
  have := left_of_run parsed
  apply bind_congr_at rfl
  intro closes after taken
  have := left_of_take taken
  split
  · rfl
  · exact bind_congr_at (run_moreArguments_eq after) fun _ _ _ => rfl
termination_by 10 * s.left + 10

end

/-- Precedence climbing with a threshold and recursive descent from the tier of the threshold give
the same tree, or the same error, and reach the same state. From six on only an operator in front of
an operand is strong enough. -/
theorem expression_eq_tier (minimum : Nat) (state : ParseState) :
    expression minimum state = tier (.ofPower minimum) state := by
  apply Step.outcome_injective
  refine Eq.trans ?_ (run_tier_eq (.ofPower minimum) state).symm
  by_cases tight : 5 < minimum
  · rw [Precedence.ofPower_of_lt tight, run_expression_unary]
    exact congrFun (run_expression_tight tight) state
  · rw [Precedence.power_ofPower (by omega)]
    rfl

/-- From the additive tier a difference is read up to the operator that binds less, and the product
in it is its right operand. From the tier of terms the difference is not read either. -/
theorem expression_eq_tier_difference :
    let name (lexeme : String) (column : Nat) : Token := ⟨.identifier, lexeme, ⟨1, column⟩⟩
    let operator (lexeme : String) (column : Nat) : Token := ⟨.operator, lexeme, ⟨1, column⟩⟩
    let shift : List Token := [operator "<<" 7, operator "-" 10, name "d" 11]
    let rest : List Token := operator "-" 2 :: name "b" 3 :: operator "*" 4 :: name "c" 5 :: shift
    let state : ParseState := ⟨name "a" 1 :: rest, .start, []⟩
    let leaf (lexeme : String) (column : Nat) : Expr := .identifier ⟨lexeme, ⟨1, column⟩⟩
    let product : Expr := .binary .arithmeticMul (leaf "b" 3) (leaf "c" 5) ⟨1, 4⟩
    (tier .additive state).outcome =
        .ok (.binary .arithmeticSub (leaf "a" 1) product ⟨1, 2⟩) ⟨shift, ⟨1, 5⟩, []⟩ ∧
      (tier .term state).outcome = .ok (leaf "a" 1) ⟨rest, ⟨1, 1⟩, []⟩ := by
  intro name operator shift rest state leaf product
  have additive : expression 4 state = tier .additive state := expression_eq_tier 4 state
  have term : expression 5 state = tier .term state := expression_eq_tier 5 state
  rw [← additive, ← term]
  constructor
  · cbv
  · cbv

end Ladder

end RatLang
