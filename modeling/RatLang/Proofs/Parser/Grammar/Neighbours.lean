import RatLang.Proofs.Parser.Grammar.Single

/-!
# What stands side by side in an expression

Behind an operator stands the beginning of an operand, and behind a literal or a name stands an
operator, a punctuation mark or a terminator. Nothing else stands side by side, unless there is a
mark in front.
-/

namespace RatLang.Grammar

open RatLang.Parser (OperandForm operandForm?)

/-- A punctuation mark, or the end of a statement. -/
def IsMark (t : Token) : Prop := t.kind = .punctuator ∨ t.kind = .statementTerminator

/-- A token that can stand behind an operand. -/
def Follows (u : Token) : Prop := u.kind = .operator ∨ IsMark u

/-- Two tokens that can stand side by side in an expression. -/
inductive Neighbours (t u : Token) : Prop where
  | mark (mark : IsMark t)
  | operator {form : OperandForm} (operator : t.kind = .operator)
    (operand : operandForm? u = some form)
  | leaf {e : Expr} (single : Leaf t e) (follows : Follows u)

/-- A token that can stand in front of one that follows. -/
inductive Closing (t : Token) : Prop where
  | mark (mark : IsMark t)
  | leaf {e : Expr} (single : Leaf t e)

theorem Closing.neighbours {t u : Token} (closes : Closing t) (follows : Follows u) :
    Neighbours t u := by
  cases closes with
  | mark mark => exact .mark mark
  | leaf single => exact .leaf single follows

/-- Tokens that can stand side by side, with an end behind which others can follow. -/
structure Linked (w : List Token) : Prop where
  chain : w.IsChain Neighbours
  last : ∀ t ∈ w.getLast?, Closing t

namespace Linked

variable {t u : Token} {v w : List Token}

theorem nil : Linked [] := ⟨.nil, by simp⟩

theorem singleton (closes : Closing t) : Linked [t] := ⟨.singleton t, by simpa using closes⟩

/-- A token in front, which is no end of an operand itself. -/
theorem cons (left : w ≠ []) (beside : ∀ u ∈ w.head?, Neighbours t u) (h : Linked w) :
    Linked (t :: w) := by
  refine ⟨List.isChain_cons.mpr ⟨beside, h.chain⟩, ?_⟩
  rw [← List.singleton_append, List.getLast?_append_of_ne_nil _ left]
  exact h.last

/-- A token that follows, and what it leads to. -/
theorem join (front : Linked v) (follows : Follows u) (behind : Linked (u :: w)) :
    Linked (v ++ u :: w) := by
  refine ⟨List.isChain_append.mpr ⟨front.chain, behind.chain, ?_⟩, ?_⟩
  · rintro t last _ ⟨⟩
    exact (front.last t last).neighbours follows
  · rw [List.getLast?_append_of_ne_nil _ (List.cons_ne_nil u w)]
    exact behind.last

/-- A mark in front. -/
theorem mark (mark : IsMark t) (h : Linked w) : Linked (t :: w) := by
  cases w with
  | nil => exact singleton (.mark mark)
  | cons u w => exact h.cons (by simp) fun _ _ => .mark mark

theorem group {opening closing : Token} {c d : Char} (opens : opening.isPunct c)
    (h : Linked w) (closes : closing.isPunct d) : Linked (opening :: (w ++ [closing])) := by
  have closed : IsMark closing := .inl (Token.kind_of_isPunct closes)
  exact (h.join (.inr closed) (singleton (.mark closed))).mark (.inl (Token.kind_of_isPunct opens))

/-- Terminators in front. -/
theorem breaks (skipped : Breaks v) (h : Linked w) : Linked (v ++ w) := by
  induction v with
  | nil => exact h
  | cons t v ih =>
    have ends : IsMark t := .inr (Token.isTerminator_iff.mp (skipped t List.mem_cons_self))
    exact (ih fun u mem => skipped u (List.mem_cons_of_mem t mem)).mark ends

end Linked

/-- An operator stands in front of an operand. -/
theorem Expression.linked_behind {level : Precedence} {w : List Token} {op : Token} {e : Expr}
    (derived : Expression level w e) (operator : op.kind = .operator) (h : Linked w) :
    Linked (op :: w) := by
  obtain ⟨t, v, form, rfl, operand⟩ := derived.first
  refine h.cons (by simp) ?_
  rintro u ⟨⟩
  exact .operator operator operand

mutual

theorem Expression.linked {level : Precedence} {w : List Token} {e : Expr} :
    Expression level w e → Linked w
  | .tighter _ operand => operand.linked
  | .binary operator _ left right => by
    have kind := (Token.isOperatorOf_iff.mp operator).1
    exact left.linked.join (.inl kind) (right.linked_behind kind right.linked)
  | .unary operator _ operand =>
    operand.linked_behind (Token.isSign_iff.mp operator).1 operand.linked
  | .group opens inner closes => inner.linked.group opens closes
  | .leaf single => .singleton (.leaf single)
  | .call named opens arguments closes => by
    refine (arguments.linked.group opens closes).cons (by simp) ?_
    rintro u ⟨⟩
    exact .leaf (.name named) (.inr (.inl (Token.kind_of_isPunct opens)))

theorem Arguments.linked {w : List Token} {args : List Expr} : Arguments w args → Linked w
  | .none => .nil
  | .some given => given.linked

theorem MoreArguments.linked {w : List Token} {args : List Expr} : MoreArguments w args → Linked w
  | .last arg => arg.linked
  | .cons arg separates rest => by
    have comma : IsMark _ := .inl (Token.kind_of_isPunct separates)
    exact arg.linked.join (.inr comma) (rest.linked.mark comma)

end

/-- All tokens that stand side by side in a single expression are neighbours. -/
theorem Single.linked {w : List Token} {e : Expr} (derived : Single w e) : Linked w := by
  obtain @⟨before, w, behind, _, skipped, inner, skipped'⟩ := derived
  refine Linked.breaks skipped ?_
  cases behind with
  | nil =>
    rw [List.append_nil]
    exact inner.linked
  | cons t behind =>
    have ends : IsMark t := .inr (Token.isTerminator_iff.mp (skipped' t List.mem_cons_self))
    have rest : Linked (t :: behind ++ []) := Linked.breaks skipped' .nil
    rw [List.append_nil] at rest
    exact inner.linked.join (.inr ends) rest

end RatLang.Grammar
