import Mathlib
import RatLang.Proofs.Parser.Grammar.Single

/-!
# The two entry points of the parser

A list of tokens is read as a program or as a single expression. What is an expression is a program
too, which consists of the expression alone. The other way round a program that is an expression
alone is read as this expression, unless braces stand around it.
-/

namespace RatLang

/-! ### The first token that counts -/

/-- Merging keeps the first token that is no terminator. -/
theorem find?_mergeTerminators (q : List Token) :
    (mergeTerminators q).find? (fun t => !t.isTerminator) = q.find? fun t => !t.isTerminator := by
  induction q with
  | nil => rfl
  | cons t q ih =>
    rcases mergeTerminators_cases t q with kept | ⟨next, more, ends, ends', merged, dropped⟩
    · rw [kept, List.find?_cons, List.find?_cons, ih]
    · rw [merged, List.find?_cons_of_neg (by simp [ends'])] at ih
      rw [dropped, List.find?_cons_of_neg (by simp [ends]),
        List.find?_cons_of_neg (by simp [ends]), ih]

theorem find?_significant (tokens : List Token) :
    (significant tokens).find? (fun t => !t.isTerminator) =
      tokens.find? fun t => !t.isTerminator && !t.isComment := by
  rw [significant, find?_mergeTerminators, List.find?_filter]
  refine congrArg (List.find? · tokens) (funext fun t => ?_)
  rw [Bool.decide_and, Bool.decide_eq_true, Bool.decide_eq_true, Bool.and_comm]

namespace Grammar

/-! ### Expressions and sequences -/

/-- Without a block, a sequence that holds no statement is a list of terminators. -/
theorem Sequence.breaks_of_nil {w : List Token} {p : List Stmt} :
    Sequence w p → (∀ t ∈ w, ¬t.isPunct '\x7b') → p = [] → Breaks w
  | .nil, _, _ => breaks_nil
  | .terminator ends rest, noBlock, empty => by
    have behind := rest.breaks_of_nil (fun t mem => noBlock t (List.mem_cons_of_mem _ mem)) empty
    intro t mem
    rcases List.mem_cons.mp mem with rfl | mem
    · exact ends
    · exact behind t mem
  | .block opens _ _ _, noBlock, _ => absurd opens (noBlock _ List.mem_cons_self)

/-- A terminator in front changes nothing. -/
theorem Single.terminator {t : Token} {w : List Token} {e : Expr} (ends : t.isTerminator)
    (h : Single w e) : Single (t :: w) e := by
  obtain ⟨skipped, inner, skipped'⟩ := h
  have skipped_all : Breaks (t :: _) := fun u mem => by
    rcases List.mem_cons.mp mem with rfl | mem
    · exact ends
    · exact skipped u mem
  exact .mk skipped_all inner skipped'

/-- Without a block, a sequence that is one expression statement is a single expression. -/
theorem Sequence.single {w : List Token} {p : List Stmt} {e : Expr} {position : Position} :
    Sequence w p → (∀ t ∈ w, ¬t.isPunct '\x7b') → p = [.expression e position] → Single w e
  | .terminator ends rest, noBlock, alone =>
    (rest.single (fun t mem => noBlock t (List.mem_cons_of_mem _ mem)) alone).terminator ends
  | .block opens _ _ _, noBlock, _ => absurd opens (noBlock _ List.mem_cons_self)
  | @Sequence.statement b w s p first _ rest, noBlock, alone => by
    injection alone with same empty
    subst same
    have behind : Breaks w :=
      rest.breaks_of_nil (fun t mem => noBlock t (List.mem_append_right b mem)) empty
    cases first with
    | simple simple =>
      cases simple with
      | expression whole => exact .mk breaks_nil whole behind

/-- A single expression is a sequence of one statement, which stands where its first token does. -/
theorem Single.sequence {w : List Token} {e : Expr} (h : Single w e) :
    ∃ first, w.find? (fun t => !t.isTerminator) = some first ∧
      Sequence w [.expression e first.position] := by
  obtain @⟨before, v, behind, _, skipped, inner, skipped'⟩ := h
  obtain ⟨first, u, form, rfl, opens⟩ := inner.first
  have visible := (opens_of_operandForm? opens).noTerminator
  refine ⟨first, ?_, ?_⟩
  · have none_before : before.find? (fun t => !t.isTerminator) = none := by
      rw [List.find?_eq_none]
      intro t mem
      simp [skipped t mem]
    rw [List.find?_append, none_before, Option.none_or]
    exact List.find?_cons_of_pos (by simpa using visible)
  · have rest : Sequence (behind ++ []) [] := Sequence.breaks skipped' .nil
    rw [List.append_nil] at rest
    refine Sequence.breaks skipped (.statement (.simple (.expression inner)) ?_ rest)
    intro t front
    exact skipped' t (List.mem_of_mem_head? front)

end Grammar

/-- Tokens that are read as an expression are a program that is this expression alone, at the place
of the first token that is neither a terminator nor part of a comment. A program without braces that
is an expression alone is read as this expression. -/
theorem entryPoints_agree (tokens : List Token) :
    (∀ e, parseExpression tokens = .ok e →
      ∃ first, tokens.find? (fun t => !t.isTerminator && !t.isComment) = some first ∧
        parse tokens = .ok [.expression e first.position]) ∧
    ((∀ t ∈ tokens, ¬t.isPunct '\x7b' ∧ ¬t.isPunct '\x7d') →
      ∀ e position, parse tokens = .ok [.expression e position] →
        parseExpression tokens = .ok e) := by
  constructor
  · intro e parsed
    obtain ⟨first, found, derived⟩ := (parseExpression_eq_ok_iff.mp parsed).sequence
    rw [find?_significant] at found
    exact ⟨first, found, parse_of_derives derived⟩
  · intro noBraces e position parsed
    have noBlock : ∀ t ∈ significant tokens, ¬t.isPunct '\x7b' := by
      intro t mem
      have inside := List.mem_of_mem_filter ((mergeTerminators_sublist _).subset mem)
      exact (noBraces t inside).1
    exact parseExpression_eq_ok_iff.mpr ((derives_of_parse parsed).single noBlock rfl)

-- A block is no part of an expression.
example : parseExpression [⟨.punctuator, "\x7b", ⟨1, 1⟩⟩, ⟨.identifier, "a", ⟨1, 2⟩⟩,
    ⟨.punctuator, "\x7d", ⟨1, 3⟩⟩] = .error (.unexpectedToken "\x7b" "an expression" ⟨1, 1⟩) := by
  cbv

/-- A call behind a comment and an empty line. -/
theorem entryPoints_agree_call :
    let tokens : List Token :=
      [⟨.commentSeparator, "//", ⟨1, 1⟩⟩, ⟨.commentBody, " call", ⟨1, 3⟩⟩,
        ⟨.statementTerminator, ";", ⟨1, 8⟩⟩, ⟨.identifier, "f", ⟨3, 1⟩⟩, ⟨.punctuator, "(", ⟨3, 2⟩⟩,
        ⟨.operator, "-", ⟨3, 3⟩⟩, ⟨.numericLiteral, "1", ⟨3, 4⟩⟩, ⟨.punctuator, ")", ⟨3, 5⟩⟩,
        ⟨.statementTerminator, ";", ⟨3, 6⟩⟩]
    let e : Expr := .call "f" [.unary .arithmeticSub (.numeric .typeInt "1" ⟨3, 4⟩) ⟨3, 3⟩] ⟨3, 1⟩
    parseExpression tokens = .ok e ∧
      (∀ t ∈ tokens, ¬t.isPunct '\x7b' ∧ ¬t.isPunct '\x7d') ∧
      parse tokens = .ok [.expression e ⟨3, 1⟩] := by
  intro tokens e
  have noBraces : ∀ t ∈ tokens, ¬t.isPunct '\x7b' ∧ ¬t.isPunct '\x7d' := by decide
  have program : parse tokens = .ok [.expression e ⟨3, 1⟩] := by cbv
  have parsed := (entryPoints_agree tokens).2 noBraces e ⟨3, 1⟩ program
  obtain ⟨first, found, agreed⟩ := (entryPoints_agree tokens).1 e parsed
  cases found
  exact ⟨parsed, noBraces, agreed⟩

end RatLang
