import RatLang.Proofs.Parser.Grammar.Complete

/-!
# Terminators have no place in a tree

No node of a tree is named after a terminator. So two lists of tokens that differ in nothing but the
places of their terminators form the same trees.
-/

namespace RatLang

/-- The token without its place, if it is a terminator. -/
def Token.unplaced (t : Token) : Token :=
  if t.isTerminator then ⟨.statementTerminator, String.singleton terminatorMark, .start⟩ else t

namespace Token

variable {t u : Token}

theorem unplaced_of_visible (visible : ¬t.isTerminator) : t.unplaced = t := if_neg visible

theorem isTerminator_unplaced (t : Token) : t.unplaced.isTerminator = t.isTerminator := by
  unfold unplaced
  split
  · rename_i ends
    rw [ends]
    rfl
  · rfl

theorem unplaced_of_terminators (ends : t.isTerminator) (ends' : u.isTerminator) :
    t.unplaced = u.unplaced := by
  rw [unplaced, unplaced, if_pos ends, if_pos ends']

theorem isTerminator_congr (same : t.unplaced = u.unplaced) :
    t.isTerminator = u.isTerminator := by
  rw [← isTerminator_unplaced t, same, isTerminator_unplaced]

/-- Only terminators are told apart by their places alone. -/
theorem eq_of_unplaced (same : t.unplaced = u.unplaced) (visible : ¬u.isTerminator) : t = u := by
  have visible' : ¬t.isTerminator := by rwa [isTerminator_congr same]
  rwa [unplaced_of_visible visible, unplaced_of_visible visible'] at same

end Token

theorem mergeTerminators_unplaced (q : List Token) :
    mergeTerminators (q.map Token.unplaced) = (mergeTerminators q).map Token.unplaced := by
  induction q with
  | nil => rfl
  | cons t q ih =>
    rw [List.map_cons]
    cases merged : mergeTerminators q with
    | nil =>
      rw [merged] at ih
      simp only [mergeTerminators, merged, ih, List.map_nil, List.map_cons]
    | cons next more =>
      rw [merged, List.map_cons] at ih
      rw [mergeTerminators_cons ih, mergeTerminators_cons merged, Token.isTerminator_unplaced,
        Token.isTerminator_unplaced]
      split <;> rfl

namespace Grammar

/-! ### Terminators stand between the parts of statements -/

/-- There is no terminator in the list. -/
def Visible (w : List Token) : Prop := ∀ t ∈ w, ¬t.isTerminator

@[simp] theorem visible_nil : Visible [] := List.forall_mem_nil _

@[simp] theorem visible_cons {t : Token} {w : List Token} :
    Visible (t :: w) ↔ ¬t.isTerminator ∧ Visible w := List.forall_mem_cons

@[simp] theorem visible_append {v w : List Token} : Visible (v ++ w) ↔ Visible v ∧ Visible w :=
  List.forall_mem_append

theorem visible_of_kind {t : Token} {kind : TokenKind} (is : t.kind = kind)
    (other : kind ≠ .statementTerminator) : ¬t.isTerminator := by
  simpa [Token.isTerminator, is] using other

theorem visible_of_is {t : Token} {kind : TokenKind} {lexeme : String} (is : t.is kind lexeme)
    (other : kind ≠ .statementTerminator) : ¬t.isTerminator := by
  rw [Token.is_iff] at is
  exact visible_of_kind is.1 other

theorem visible_of_operator {t : Token} {level : Precedence} (operator : t.isOperatorOf level) :
    ¬t.isTerminator :=
  visible_of_kind (Token.isOperatorOf_iff.mp operator).1 (by decide)

theorem visible_of_unary {t : Token} (operator : t.isSign) : ¬t.isTerminator :=
  visible_of_kind (Token.isSign_iff.mp operator).1 (by decide)

theorem Leaf.visible {t : Token} {e : Expr} (h : Leaf t e) : ¬t.isTerminator := by
  cases h with
  | numeric kind | string kind | char kind | name kind => exact visible_of_kind kind (by decide)
  | null is => exact visible_of_is is (by decide)

mutual

theorem Expression.visible {level : Precedence} {w : List Token} {e : Expr} :
    Expression level w e → Visible w
  | .tighter _ operand => operand.visible
  | .binary operator _ left right => by
    simp [left.visible, visible_of_operator operator, right.visible]
  | .unary operator _ operand => by simp [visible_of_unary operator, operand.visible]
  | .group opens inner closes => by
    simp [noTerminator_of_isPunct opens, inner.visible,
      noTerminator_of_isPunct closes]
  | .leaf single => by simp [single.visible]
  | .call named opens arguments closes => by
    simp [visible_of_kind named, noTerminator_of_isPunct opens, arguments.visible,
      noTerminator_of_isPunct closes]

theorem Arguments.visible {w : List Token} {args : List Expr} : Arguments w args → Visible w
  | .none => visible_nil
  | .some given => given.visible

theorem MoreArguments.visible {w : List Token} {args : List Expr} :
    MoreArguments w args → Visible w
  | .last arg => arg.visible
  | .cons arg separates rest => by
    simp [arg.visible, noTerminator_of_isPunct separates, rest.visible]

end

theorem Names.visible {w : List Token} {names : List Identifier} (h : Names w names) :
    Visible w := by
  induction h with
  | last named => simp [visible_of_kind named]
  | cons named separates _ ih =>
    simp [visible_of_kind named, noTerminator_of_isPunct separates, ih]

theorem Parameters.visible {w : List Token} {params : List Identifier} (h : Parameters w params) :
    Visible w := by
  cases h with
  | none => exact visible_nil
  | some given => exact given.visible

theorem ReturnType.visible {w : List Token} {type : Symbol} (h : ReturnType w type) :
    Visible w := by
  cases h with
  | none => exact visible_nil
  | given points named => simp [visible_of_is points, visible_of_kind named.kind]

theorem Annotation.visible {w : List Token} {type : Option Symbol} (h : Annotation w type) :
    Visible w := by
  cases h with
  | none => exact visible_nil
  | given marks named =>
    simp [noTerminator_of_isPunct marks, visible_of_kind named.kind]

theorem Initializer.visible {w : List Token} {value : Option Expr} (h : Initializer w value) :
    Visible w := by
  cases h with
  | none => exact visible_nil
  | given marks value => simp [visible_of_is marks, value.visible]

theorem Header.visible {w : List Token} {header : FunctionHeader} (h : Header w header) :
    Visible w := by
  obtain ⟨isKeyword, -, -, named, before, parameters, behind, returns⟩ := h
  simp [visible_of_kind isKeyword, visible_of_kind named, noTerminator_of_isPunct before,
    parameters.visible, noTerminator_of_isPunct behind, returns.visible]

theorem Simple.visible {w : List Token} {s : Stmt} (h : Simple w s) : Visible w := by
  cases h with
  | letVariable opens named annotated marks value =>
    simp [visible_of_is opens, visible_of_kind named, annotated.visible, visible_of_is marks,
      value.visible]
  | opVariable opens named annotated initial =>
    simp [visible_of_is opens, visible_of_kind named, annotated.visible, initial.visible]
  | typedVariable opens named initial =>
    simp [visible_of_kind opens.kind, visible_of_kind named, initial.visible]
  | ret opens value => simp [visible_of_is opens, value.visible]
  | rev opens => simp [visible_of_is opens]
  | expression whole => exact whole.visible

/-! ### Other places -/

/-- The lists differ in nothing but the places of their terminators. -/
def Alike (w w' : List Token) : Prop := w.map Token.unplaced = w'.map Token.unplaced

theorem Alike.eq {w w' : List Token} (h : Alike w w') (visible : Visible w') : w = w' := by
  induction w' generalizing w with
  | nil => exact List.map_eq_nil_iff.mp h
  | cons t w' ih =>
    obtain ⟨u, v, rfl, same, more⟩ := List.map_eq_cons_iff.mp h
    rw [visible_cons] at visible
    rw [Token.eq_of_unplaced same visible.1, ih more visible.2]

theorem Breaks.alike {w w' : List Token} (skipped : Breaks w') (h : Alike w w') : Breaks w := by
  intro t mem
  have mem' : t.unplaced ∈ w'.map Token.unplaced := h ▸ List.mem_map_of_mem mem
  obtain ⟨u, inside, same⟩ := List.mem_map.mp mem'
  rw [← Token.isTerminator_congr same]
  exact skipped u inside

theorem alike_append {w u v : List Token} (h : Alike w (u ++ v)) :
    ∃ u' v', w = u' ++ v' ∧ Alike u' u ∧ Alike v' v := by
  rw [Alike, List.map_append] at h
  exact List.map_eq_append_iff.mp h

/-- A token that is no terminator stands where it stands. -/
theorem alike_cons {w v : List Token} {t : Token} (h : Alike w (t :: v))
    (visible : ¬t.isTerminator) : ∃ v', w = t :: v' ∧ Alike v' v := by
  obtain ⟨u, v', rfl, same, more⟩ := List.map_eq_cons_iff.mp h
  exact ⟨v', by rw [Token.eq_of_unplaced same visible], more⟩

mutual

theorem Sequence.alike {w w' : List Token} {p : List Stmt} (h : Alike w w') :
    Sequence w' p → Sequence w p
  | .nil => by
    rw [List.map_eq_nil_iff.mp h]
    exact .nil
  | .terminator ends rest => by
    obtain ⟨u, v, rfl, same, more⟩ := List.map_eq_cons_iff.mp h
    exact .terminator (by rwa [Token.isTerminator_congr same]) (rest.alike more)
  | .block opens inner closes rest => by
    obtain ⟨v, rfl, inside⟩ := alike_cons h (noTerminator_of_isPunct opens)
    obtain ⟨b, v, rfl, block, behind⟩ := alike_append inside
    obtain ⟨v, rfl, more⟩ := alike_cons behind (noTerminator_of_isPunct closes)
    exact .block opens (inner.alike block) closes (rest.alike more)
  | .statement first ends rest => by
    obtain ⟨b, v, rfl, front, more⟩ := alike_append h
    refine .statement (first.alike front) (fun t head => ?_) (rest.alike more)
    cases v with
    | nil => cases head
    | cons u v =>
      cases head
      obtain ⟨t, v, rfl, same, -⟩ := List.map_eq_cons_iff.mp more.symm
      rw [← Token.isTerminator_congr same]
      exact ends t rfl

theorem Statement.alike {w w' : List Token} {s : Stmt} (h : Alike w w') :
    Statement w' s → Statement w s
  | .simple simple => by
    rw [h.eq simple.visible]
    exact .simple simple
  | .function front body => by
    obtain ⟨u, b, rfl, same, behind⟩ := alike_append h
    rw [same.eq front.visible]
    exact .function front (body.alike behind)
  | .conditional opens condition body rest => by
    obtain ⟨v, rfl, front⟩ := alike_cons h (visible_of_is opens (by decide))
    obtain ⟨u, v, rfl, same, behind⟩ := alike_append front
    obtain ⟨b, r, rfl, block, more⟩ := alike_append behind
    rw [same.eq condition.visible]
    exact .conditional opens condition (body.alike block) (rest.alike more)

theorem Body.alike {w w' : List Token} {p : List Stmt} (h : Alike w w') : Body w' p → Body w p
  | .mk skipped opens inner closes => by
    obtain ⟨u, v, rfl, breaks, behind⟩ := alike_append h
    obtain ⟨v, rfl, inside⟩ := alike_cons behind (noTerminator_of_isPunct opens)
    obtain ⟨b, v, rfl, block, last⟩ := alike_append inside
    rw [last.eq (by simp [noTerminator_of_isPunct closes])]
    exact .mk (skipped.alike breaks) opens (inner.alike block) closes

theorem Branches.alike {w w' : List Token} {branches : List Branch} (h : Alike w w') :
    Branches w' branches → Branches w branches
  | .nil => by
    rw [List.map_eq_nil_iff.mp h]
    exact .nil
  | .elseIf skipped opens skipped' opens' condition body rest => by
    obtain ⟨u, v, rfl, breaks, h₁⟩ := alike_append h
    obtain ⟨v, rfl, h₂⟩ := alike_cons h₁ (visible_of_is opens (by decide))
    obtain ⟨u', v, rfl, breaks', h₃⟩ := alike_append h₂
    obtain ⟨v, rfl, h₄⟩ := alike_cons h₃ (visible_of_is opens' (by decide))
    obtain ⟨w, v, rfl, same, h₅⟩ := alike_append h₄
    obtain ⟨b, r, rfl, block, more⟩ := alike_append h₅
    rw [same.eq condition.visible]
    exact .elseIf (skipped.alike breaks) opens (skipped'.alike breaks') opens' condition
      (body.alike block) (rest.alike more)
  | .last skipped opens body => by
    obtain ⟨u, v, rfl, breaks, behind⟩ := alike_append h
    obtain ⟨b, rfl, block⟩ := alike_cons behind (visible_of_is opens (by decide))
    exact .last (skipped.alike breaks) opens (body.alike block)

end

end Grammar

/-! ### Parsing -/

theorem Token.isComment_unplaced (t : Token) : t.unplaced.isComment = t.isComment := by
  unfold unplaced
  split
  · rename_i ends
    rw [isTerminator_iff] at ends
    simp [isComment, ends]
  · rfl

/-- Comments have no part in where terminators stand. -/
theorem significant_alike {ts us : List Token} (alike : Grammar.Alike ts us) :
    Grammar.Alike (significant ts) (significant us) := by
  have comments : (fun t : Token => !t.isComment) ∘ Token.unplaced = fun t => !t.isComment :=
    funext fun t => congrArg not t.isComment_unplaced
  have kept (q : List Token) : (q.filter fun t => !t.isComment).map Token.unplaced =
      (q.map Token.unplaced).filter fun t => !t.isComment := by
    rw [List.filter_map, comments]
  rw [Grammar.Alike, significant, significant, ← mergeTerminators_unplaced,
    ← mergeTerminators_unplaced, kept, kept, alike]

theorem parse_alike {ts us : List Token} {program : List Stmt}
    (alike : Grammar.Alike (significant ts) (significant us)) (h : parse us = .ok program) :
    parse ts = .ok program :=
  parse_of_derives ((derives_of_parse h).alike alike)

/-- Where terminators stand makes no difference to the program. -/
theorem toOption_parse_congr {ts us : List Token}
    (alike : Grammar.Alike (significant ts) (significant us)) :
    (parse ts).toOption = (parse us).toOption := by
  cases right : parse us with
  | ok program => rw [parse_alike alike right]
  | error cause =>
    cases left : parse ts with
    | error cause' => rfl
    | ok program =>
      rw [parse_alike (Eq.symm alike) left] at right
      cases right

end RatLang
