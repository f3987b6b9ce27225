import RatLang.Proofs.Parser.Position
import RatLang.Proofs.Parser.Grammar.Complete

/-!
# The same program at other places

Tokens that are moved form the tree that is moved in the same way, whatever the way is: a parser
copies positions, and does nothing else with them.
-/

namespace RatLang

/-- The token with another position. -/
def Token.mapPosition (f : Position → Position) (t : Token) : Token :=
  { t with position := f t.position }

/-- Moving tokens merges the same terminators. -/
theorem mergeTerminators_mapPosition (f : Position → Position) (q : List Token) :
    mergeTerminators (q.map (Token.mapPosition f)) =
      (mergeTerminators q).map (Token.mapPosition f) := by
  induction q with
  | nil => rfl
  | cons t q ih =>
    rw [List.map_cons]
    cases merged : mergeTerminators q with
    | nil =>
      rw [merged] at ih
      simp only [mergeTerminators, merged, ih, List.map_nil, List.map_cons]
    | cons next more =>
      have kinds : ((t.mapPosition f).isTerminator && (next.mapPosition f).isTerminator) =
          (t.isTerminator && next.isTerminator) := rfl
      rw [merged, List.map_cons] at ih
      rw [mergeTerminators_cons ih, mergeTerminators_cons merged, kinds]
      split <;> rfl

theorem significant_mapPosition (f : Position → Position) (q : List Token) :
    significant (q.map (Token.mapPosition f)) = (significant q).map (Token.mapPosition f) := by
  rw [significant, List.filter_map, mergeTerminators_mapPosition]
  rfl

namespace Grammar

variable {f : Position → Position}

theorem Breaks.move {w : List Token} (skipped : Breaks w) :
    Breaks (w.map (Token.mapPosition f)) := by
  intro t mem
  obtain ⟨u, inside, rfl⟩ := List.mem_map.mp mem
  exact skipped u inside

theorem TypeName.move {t : Token} {type : Symbol} (named : TypeName t type) :
    TypeName (t.mapPosition f) type :=
  ⟨named.kind, named.spelled⟩

/-! ### Expressions -/

theorem Leaf.move {t : Token} {e : Expr} (h : Leaf t e) :
    Leaf (t.mapPosition f) (e.mapPositions f) := by
  cases h with
  | numeric kind => exact .numeric kind
  | string kind => exact .string kind
  | char kind => exact .char kind
  | null is => exact .null is
  | name kind => exact .name kind

mutual

theorem Expression.move {level : Precedence} {w : List Token} {e : Expr} :
    Expression level w e → Expression level (w.map (Token.mapPosition f)) (e.mapPositions f)
  | .tighter inner operand => .tighter inner operand.move
  | .binary operator spelled left right => by
    rw [List.map_append, List.map_cons]
    exact .binary operator spelled left.move right.move
  | .unary operator spelled operand => .unary operator spelled operand.move
  | .group opens inner closes => by
    rw [List.map_cons, List.map_append]
    exact .group opens inner.move closes
  | .leaf single => .leaf single.move
  | .call named opens arguments closes => by
    rw [List.map_cons, List.map_cons, List.map_append]
    exact .call named opens arguments.move closes

theorem Arguments.move {w : List Token} {args : List Expr} :
    Arguments w args → Arguments (w.map (Token.mapPosition f)) (Expr.mapArgs f args)
  | .none => .none
  | .some given => .some given.move

theorem MoreArguments.move {w : List Token} {args : List Expr} :
    MoreArguments w args → MoreArguments (w.map (Token.mapPosition f)) (Expr.mapArgs f args)
  | .last arg => .last arg.move
  | .cons arg separates rest => by
    rw [List.map_append, List.map_cons]
    exact .cons arg.move separates rest.move

end

/-! ### The parts of declarations -/

theorem Names.move {w : List Token} {names : List Identifier} (h : Names w names) :
    Names (w.map (Token.mapPosition f)) (names.map (Identifier.mapPositions f)) := by
  induction h with
  | last named => exact .last named
  | cons named separates _ ih => exact .cons named separates ih

theorem Parameters.move {w : List Token} {params : List Identifier} (h : Parameters w params) :
    Parameters (w.map (Token.mapPosition f)) (params.map (Identifier.mapPositions f)) := by
  cases h with
  | none => exact .none
  | some given => exact .some given.move

theorem ReturnType.move {w : List Token} {type : Symbol} (h : ReturnType w type) :
    ReturnType (w.map (Token.mapPosition f)) type := by
  cases h with
  | none => exact .none
  | given points named => exact .given points named.move

theorem Annotation.move {w : List Token} {type : Option Symbol} (h : Annotation w type) :
    Annotation (w.map (Token.mapPosition f)) type := by
  cases h with
  | none => exact .none
  | given marks named => exact .given marks named.move

theorem Initializer.move {w : List Token} {value : Option Expr} (h : Initializer w value) :
    Initializer (w.map (Token.mapPosition f)) (value.map (Expr.mapPositions f)) := by
  cases h with
  | none => exact .none
  | given marks value => exact .given marks value.move

/-- The header of a function with other positions. -/
def moveHeader (f : Position → Position) (header : FunctionHeader) : FunctionHeader :=
  ⟨header.kind, header.name, f header.position,
    header.params.map (Identifier.mapPositions f), header.returnType⟩

theorem Header.move {w : List Token} {header : FunctionHeader} (h : Header w header) :
    Header (w.map (Token.mapPosition f)) (moveHeader f header) := by
  obtain ⟨isKeyword, opens, spelled, named, before, parameters, behind, returns⟩ := h
  simp only [List.map_cons, List.map_append]
  exact .mk isKeyword opens spelled named before parameters.move behind returns.move

/-! ### Statements -/

theorem Simple.move {w : List Token} {s : Stmt} (h : Simple w s) :
    Simple (w.map (Token.mapPosition f)) (s.mapPositions f) := by
  cases h with
  | letVariable opens named annotated marks value =>
    simp only [List.map_cons, List.map_append]
    exact .letVariable opens named annotated.move marks value.move
  | opVariable opens named annotated initial =>
    simp only [List.map_cons, List.map_append]
    exact .opVariable opens named annotated.move initial.move
  | typedVariable opens named initial => exact .typedVariable opens.move named initial.move
  | ret opens value => exact .ret opens value.move
  | rev opens => exact .rev opens
  | expression whole => exact .expression whole.move

mutual

theorem Sequence.move {w : List Token} {p : List Stmt} :
    Sequence w p → Sequence (w.map (Token.mapPosition f)) (Stmt.mapBody f p)
  | .nil => .nil
  | .terminator ends rest => .terminator ends rest.move
  | .block opens inner closes rest => by
    rw [List.map_cons, List.map_append, List.map_cons, Stmt.mapBody_append]
    exact .block opens inner.move closes rest.move
  | .statement first ends rest => by
    rw [List.map_append]
    refine .statement first.move ?_ rest.move
    intro t moved
    rw [List.head?_map] at moved
    obtain ⟨u, front, rfl⟩ := Option.map_eq_some_iff.mp moved
    exact ends u front

theorem Statement.move {w : List Token} {s : Stmt} :
    Statement w s → Statement (w.map (Token.mapPosition f)) (s.mapPositions f)
  | .simple simple => .simple simple.move
  | .function front body => by
    rw [List.map_append]
    exact .function front.move body.move
  | .conditional opens condition body rest => by
    simp only [List.map_cons, List.map_append]
    exact .conditional opens condition.move body.move rest.move

theorem Body.move {w : List Token} {p : List Stmt} :
    Body w p → Body (w.map (Token.mapPosition f)) (Stmt.mapBody f p)
  | .mk skipped opens inner closes => by
    simp only [List.map_cons, List.map_append]
    exact .mk skipped.move opens inner.move closes

theorem Branches.move {w : List Token} {branches : List Branch} :
    Branches w branches →
      Branches (w.map (Token.mapPosition f)) (Branch.mapChain f branches)
  | .nil => .nil
  | .elseIf skipped opens skipped' opens' condition body rest => by
    simp only [List.map_cons, List.map_append]
    exact .elseIf skipped.move opens skipped'.move opens' condition.move body.move rest.move
  | .last skipped opens body => by
    simp only [List.map_cons, List.map_append]
    exact .last skipped.move opens body.move

end

end Grammar

/-- Tokens that are moved give the program that is moved in the same way. -/
theorem parse_mapPosition (f : Position → Position) {tokens : List Token} {program : List Stmt}
    (parsed : parse tokens = .ok program) :
    parse (tokens.map (Token.mapPosition f)) = .ok (Stmt.mapBody f program) := by
  apply parse_of_derives
  rw [significant_mapPosition]
  exact (derives_of_parse parsed).move

end RatLang
