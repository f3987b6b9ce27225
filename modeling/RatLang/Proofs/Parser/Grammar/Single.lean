import RatLang.Proofs.Parser.Grammar.Complete
import RatLang.Proofs.Parser.Position

/-!
# Single expressions

Where tokens are read as one expression, terminators may stand around it and nothing else.
-/

namespace RatLang

namespace Grammar

/-- An expression with terminators around it. -/
inductive Single : List Token → Expr → Prop where
  | mk {before w behind : List Token} {e : Expr} (skipped : Breaks before)
    (inner : Expression .lowest w e) (skipped' : Breaks behind) :
    Single (before ++ (w ++ behind)) e

/-- The same words at other places form the same expression, up to positions. -/
theorem Single.relocate {w w' : List Token} {e : Expr} (derived : Single w e)
    (h : SameWords w' w) : ∃ e', Single w' e' ∧ e'.bare = e.bare := by
  obtain ⟨skipped, inner, skipped'⟩ := derived
  obtain ⟨before, v, rfl, hb, h₁⟩ := sameWords_append h
  obtain ⟨u, behind, rfl, hu, hb'⟩ := sameWords_append h₁
  obtain ⟨e', inner', same⟩ := inner.relocate hu
  exact ⟨e', .mk (skipped.relocate hb) inner' (skipped'.relocate hb'), same⟩

end Grammar

namespace Parser

open Grammar ParseState

/-- Parses an expression and the terminators around it, up to the end of the input. -/
def singleExpression : Action Expr :=
  run skip >>= fun _ => run anyExpression >>= fun e => run skip >>= fun _ =>
    look fun next => if next.isNone then pure e else refuse "end of expression"

theorem parseExpression_eq (tokens : List Token) :
    parseExpression tokens = verdict (singleExpression (start (significant tokens))) := by
  have same : parseExpression tokens =
      verdict (singleExpression (ParseState.ofTokens tokens)) := by
    have skipped (s : ParseState) : run skip s = .ok () s.skipTerminators := rfl
    unfold parseExpression singleExpression
    rw [bind_of_ok (skipped _)]
    cases parsed : anyExpression (ParseState.ofTokens tokens).skipTerminators with
    | error cause s =>
      have failed : run anyExpression (ParseState.ofTokens tokens).skipTerminators =
          .error cause s := congrArg Step.outcome parsed
      rw [bind_of_error failed]
      rfl
    | ok e s taken =>
      have found : run anyExpression (ParseState.ofTokens tokens).skipTerminators = .ok e s :=
        congrArg Step.outcome parsed
      rw [bind_of_ok found, bind_of_ok (skipped s)]
      cases front : s.skipTerminators.queue with
      | nil =>
        rw [look_nil front]
        simp only [peek, front]
        rfl
      | cons t rest =>
        rw [look_cons front]
        simp only [peek, front, refuse, Option.isNone_some, Bool.false_eq_true, if_false]
        rfl
  exact same

/-- What is read as a single expression is derived. -/
theorem single_of_run {s s' : ParseState} {e : Expr} (h : singleExpression s = .ok e s') :
    Single s.queue e := by
  obtain ⟨_, s₁, skipped, h⟩ := ok_of_bind h
  obtain ⟨e', s₂, parsed, h⟩ := ok_of_bind h
  obtain ⟨_, s₃, skipped', h⟩ := ok_of_bind h
  obtain ⟨before, -⟩ := takes_of_skip skipped
  obtain ⟨w, inner, derived⟩ := expression_of_run parsed
  obtain ⟨behind, -⟩ := takes_of_skip skipped'
  cases front : s₃.queue with
  | nil =>
    rw [look_nil front] at h
    cases h
    have taken := before.trans (inner.trans behind)
    rw [Takes, front, List.append_nil] at taken
    rw [taken]
    exact .mk isTerminator_of_mem derived isTerminator_of_mem
  | cons t rest =>
    rw [look_cons front] at h
    simp only [Option.isNone_some, Bool.false_eq_true, if_false, refuse, front] at h
    cases h

/-- What is derived is read as a single expression. -/
theorem parses_single {w : List Token} {e : Expr} (derived : Single w e) :
    Parses singleExpression w e [] := by
  obtain @⟨before, w, behind, _, skipped, inner, skipped'⟩ := derived
  have visible : ∀ t ∈ (w ++ behind).head?, ¬t.isTerminator := by
    obtain ⟨t, v, form, rfl, opens⟩ := inner.first
    rintro t' ⟨⟩
    exact (opens_of_operandForm? opens).noTerminator
  have parts : Parts .lowest behind := by
    refine parts_of_end ?_
    cases behind with
    | nil => rfl
    | cons t behind => simp [endsStatement, skipped' t List.mem_cons_self]
  have ended : Parses (run skip) (behind ++ []) () [] := .skip skipped' (by simp)
  rw [List.append_nil] at ended
  refine (Parses.skip skipped visible).bind ((parses_whole inner parts).bind (ended.bind ?_))
  exact Parses.look (.pure e [])

end Parser

/-- The tokens are read as an expression if they form one between terminators, and the expression
that they give is the one that they form. -/
theorem parseExpression_eq_ok_iff {tokens : List Token} {e : Expr} :
    parseExpression tokens = .ok e ↔ Grammar.Single (significant tokens) e := by
  rw [Parser.parseExpression_eq]
  constructor
  · intro h
    cases parsed : Parser.singleExpression (ParseState.start (significant tokens)) with
    | error cause s' =>
      rw [parsed] at h
      cases h
    | ok value s' =>
      rw [parsed] at h
      cases h
      exact Parser.single_of_run parsed
  · intro derived
    obtain ⟨s', eq, -⟩ := Parser.parses_single derived (.start (significant tokens)) rfl
    rw [eq]
    rfl

end RatLang
