import RatLang.Proofs.Parser.Equations
import RatLang.Proofs.Parser.Incremental

/-!
# Expressions with more input to come

Every function that parses a part of an expression is incremental. An expression that is not
complete is completed by names and closing marks, so that a token may follow which closes something.
-/

namespace RatLang

/-- A mark on its own. -/
def Token.mark (c : Char) : Token := ⟨.punctuator, String.singleton c, .start⟩

/-- A name that stands for whatever name was meant. -/
def Token.anyName : Token := ⟨.identifier, "x", .start⟩

theorem Token.plain_mark (c : Char) : (Token.mark c).Plain :=
  ⟨Bool.false_ne_true, Bool.false_ne_true⟩

theorem Token.plain_anyName : Token.anyName.Plain := ⟨by decide, by decide⟩

namespace Parser

variable {α β : Type}

/-- Only a mark that closes something may follow, or the brace that opens a body. -/
def Closing : Option Token → Prop := fun next =>
  ∀ t ∈ next, t.isPunct ')' ∨ t.isPunct ',' ∨ t.isPunct '\x7b' ∨ t.isPunct '\x7d'

namespace Closing

theorem kind {next : Option Token} (h : Closing next) : ∀ t ∈ next, t.kind = .punctuator := by
  intro t mem
  rcases h t mem with is | is | is | is <;> exact Token.kind_of_isPunct is

theorem not_isPunct {next : Option Token} (h : Closing next) {c : Char}
    (other : c ∉ [')', ',', '\x7b', '\x7d']) : ¬next.any (·.isPunct c) := by
  intro found
  obtain ⟨t, mem, is⟩ := (Option.any_eq_true _ _).mp found
  have spelled := Token.lexeme_of_isPunct is
  apply other
  rcases h t mem with is' | is' | is' | is' <;>
    simp [← String.singleton_inj.mp ((Token.lexeme_of_isPunct is').symm.trans spelled)]

theorem not_is {next : Option Token} (h : Closing next) {kind : TokenKind} {lexeme : String}
    (other : kind ≠ .punctuator) : ¬next.any (·.is kind lexeme) := by
  intro found
  obtain ⟨t, mem, is⟩ := (Option.any_eq_true _ _).mp found
  rw [Token.is_iff] at is
  exact other (is.1 ▸ h.kind t mem)

theorem no_operator {next : Option Token} (h : Closing next) :
    next.bind Token.bindingPower? = none := by
  cases next with
  | none => rfl
  | some t => simp [Token.bindingPower?, h.kind t rfl]

theorem mark {c : Char} (h : c ∈ [')', ',', '\x7b', '\x7d']) :
    ∀ next, next = some (Token.mark c) → Closing next := by
  intro next eq t mem
  rw [eq, Option.mem_some] at mem
  rw [← mem]
  simp only [List.mem_cons, List.not_mem_nil, or_false] at h
  rcases h with rfl | rfl | rfl | rfl <;> decide

end Closing

/-! ### Completions -/

section Completions

variable {s : ParseState} (empty : s.queue = [])
include empty

theorem completes_climb (minimum : Nat) (lhs : Expr) :
    Completes Closing Used Closing (run (climb minimum lhs)) s := by
  have done : Completes Closing Used Closing (pure lhs) s := .pure lhs empty
  rw [run_climb]
  apply done.look empty
  intro next closing
  rw [closing.no_operator]

theorem completes_name (name : Token) :
    Completes Closing Used Closing (operandRest (.named name)) s := by
  exact .optional _ empty empty fun next closing => closing.not_isPunct (by decide)

theorem completes_expression (minimum : Nat) :
    Completes (· = some .anyName) Used Closing (run (expression minimum)) s := by
  rw [run_expression, run_operand, bind_assoc]
  refine Completes.take_bind (a := .named .anyName) rfl Token.plain_anyName empty ?_
  intro s' used
  refine Completes.anyhow ((completes_name used .anyName).bind ?_)
  intro lhs s'' used'
  exact completes_climb used' minimum lhs

/-- A mark that closes is taken. -/
theorem completes_close {accept : Token → Option α} {f : α → Action β} {a : α} {expected : String}
    {follow : Option Token → Prop} {c : Char} (closes : c ∈ [')', ',', '\x7b', '\x7d'])
    (accepted : accept (.mark c) = some a)
    (h : ∀ s', s'.queue = [] → Completes Anything Used follow (f a) s') :
    Completes Closing Used follow (take accept expected >>= f) s :=
  (Completes.take_bind accepted (Token.plain_mark c) empty h).imp (Closing.mark closes)

theorem completes_arguments :
    Completes (· = some .anyName) Used Anything (run arguments) s := by
  rw [run_arguments]
  apply (completes_expression empty _).bind
  intro arg s' used
  refine completes_close used (c := ')') (a := true) (by decide) (by decide) fun s'' used' => ?_
  exact Completes.pure [arg] used'

/-- What stands behind an argument and what separates it from the next one. -/
theorem completes_moreArguments (arg : Expr) (closes : Bool) :
    Completes Anything Used Anything
      (if closes then pure [arg]
      else do
        let rest ← run arguments
        pure (arg :: rest)) s := by
  cases closes with
  | true => exact .pure [arg] empty
  | false =>
    exact ((completes_arguments empty).bind_pure fun rest => arg :: rest).anyhow

theorem completes_operandRest (form : OperandForm) :
    Completes Anything Used Closing (operandRest form) s := by
  cases form with
  | leaf expr => exact Completes.anyhow (.pure expr empty)
  | named name => exact (completes_name empty name).anyhow
  | group =>
    refine Completes.anyhow ((completes_expression empty _).bind fun inner s' used => ?_)
    refine completes_close used (c := ')') (a := .mark ')') (by decide) (by decide) ?_
    intro s'' used'
    exact Completes.anyhow (.pure inner used')
  | unary symbol op =>
    exact ((completes_expression empty _).bind_pure _).anyhow

end Completions

/-- What stands behind the parenthesis of a call. -/
def behindOpen : Action (List Expr) :=
  look fun next =>
    if next.any (·.isPunct ')') then do
      let _ ← take some "')'"
      pure []
    else run arguments

theorem completes_behindOpen {s : ParseState} (empty : s.queue = []) :
    Completes (· = some (.mark ')')) Used Anything behindOpen s := by
  have closes : Completes (· = some (.mark ')')) Used Anything
      (do let _ ← take some "')'"; pure ([] : List Expr)) s := by
    refine Completes.take_bind rfl (Token.plain_mark _) empty fun s' used => ?_
    exact Completes.pure [] used
  apply closes.look empty
  rintro next rfl
  rfl

/-! ### The functions -/

mutual

theorem incremental_expression (minimum : Nat) (s : ParseState) :
    Incremental Used Closing (run (expression minimum)) s := by
  rw [run_expression]
  refine (incremental_operand s).bind ?_ ?_ rfl
  · intro lhs s' parsed
    have := left_of_run parsed
    exact incremental_climb minimum lhs s'
  · intro lhs s' used
    exact completes_climb used minimum lhs
termination_by 3 * s.left + 1

theorem incremental_climb (minimum : Nat) (lhs : Expr) (s : ParseState) :
    Incremental Used Closing (run (climb minimum lhs)) s := by
  have restart := fun empty => (completes_climb (s := s) empty minimum lhs).anyhow
  rw [run_climb] at restart ⊢
  refine Incremental.look rfl (.pure lhs s) restart fun t rest front => ?_
  rw [Option.bind_some]
  cases t.bindingPower? with
  | none => exact .pure lhs s
  | some power =>
    by_cases low : power < minimum
    · simp only [low, if_true]
      exact .pure lhs s
    · simp only [low, if_false]
      refine (incremental_operation power lhs s).bind ?_ ?_ rfl
      · intro folded s' operated
        have := left_of_run operated
        exact incremental_climb minimum folded s'
      · intro folded s' used
        exact completes_climb used minimum folded
termination_by 3 * s.left + 1

theorem incremental_operation (power : Nat) (lhs : Expr) (s : ParseState) :
    Incremental Used Closing (run (operation power lhs)) s := by
  rw [run_operation]
  have plus : spelling (fun _ => true) ⟨.operator, "+", .start⟩ =
    some (⟨.operator, "+", .start⟩, .arithmeticAdd) := by decide
  refine (Incremental.take plus ⟨by decide, by decide⟩ _ s).bind ?_ ?_ rfl
  · intro op s' taken
    have := left_of_take taken
    exact (incremental_expression (power + 1) s').bind_pure _
  · intro op s' used
    exact ((completes_expression used _).bind_pure _).anyhow
termination_by 3 * s.left

theorem incremental_operand (s : ParseState) : Incremental Used Closing (run operand) s := by
  rw [run_operand]
  have name : operandForm? .anyName = some (.named .anyName) := rfl
  refine (Incremental.take name Token.plain_anyName _ s).bind ?_ ?_ rfl
  · intro form s' taken
    have := left_of_take taken
    cases form with
    | leaf expr => exact .pure expr s'
    | named name =>
      refine Incremental.optional _ rfl (fun next closing => closing.not_isPunct (by decide)) ?_
      intro t rest _ _
      exact ((incremental_callArguments s').bind_pure _).narrow fun _ _ => trivial
    | group =>
      have close : passing (·.isPunct ')') (.mark ')') = some (.mark ')') := by decide
      refine (incremental_expression _ s').bind ?_ ?_ rfl
      · intro inner s'' _
        have closed :=
          (Incremental.take close (Token.plain_mark _) "')'" s'').bind_pure fun _ => inner
        exact closed.narrow fun _ _ => trivial
      · intro inner s'' used
        apply completes_close used (by decide) close
        intro s₃ used'
        exact Completes.anyhow (.pure inner used')
    | unary symbol op =>
      exact (incremental_expression _ s').bind_pure _
  · intro form s' used
    exact completes_operandRest used form
termination_by 3 * s.left

theorem incremental_callArguments (s : ParseState) :
    Incremental Used Anything (run callArguments) s := by
  rw [run_callArguments]
  have opened : (some : Token → Option Token) (.mark '(') = some (.mark '(') := rfl
  refine (Incremental.take opened (Token.plain_mark _) _ s).bind ?_ ?_ rfl
  · intro _ s' taken
    have := left_of_take taken
    have restart := fun empty => (completes_behindOpen (s := s') empty).anyhow
    refine Incremental.look rfl (incremental_arguments s').disciplined restart ?_
    intro t rest front
    rw [Option.any_some]
    by_cases closes : t.isPunct ')'
    · rw [if_pos closes]
      have closed : (some : Token → Option Token) (.mark ')') = some (.mark ')') := rfl
      exact (Incremental.take closed (Token.plain_mark _) _ s').bind_pure fun _ => []
    · rw [if_neg closes]
      exact incremental_arguments s'
  · intro _ s' used
    exact (completes_behindOpen used).anyhow
termination_by 3 * s.left

theorem incremental_arguments (s : ParseState) :
    Incremental Used Anything (run arguments) s := by
  rw [run_arguments]
  refine (incremental_expression _ s).bind ?_ ?_ rfl
  · intro arg s' parsed
    have := left_of_run parsed
    have closed : separator? (.mark ')') = some true := by decide
    refine (Incremental.take closed (Token.plain_mark _) _ s').bind ?_ ?_ rfl
    · intro closes s'' taken
      have := left_of_take taken
      cases closes with
      | true => exact .pure [arg] s''
      | false =>
        exact (incremental_arguments s'').bind_pure _
    · intro closes s'' used
      exact completes_moreArguments used arg closes
  · intro arg s' used
    refine completes_close used (c := ')') (a := true) (by decide) (by decide) fun s'' used' => ?_
    exact Completes.pure [arg] used'
termination_by 3 * s.left + 2

end

end Parser

end RatLang
