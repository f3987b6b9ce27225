import RatLang.Proofs.Parser.Grammar

/-!
# Trees up to positions

The grammar does not look at the positions of tokens. So the same words at other places form the
same trees, up to the positions that the trees take from their tokens.
-/

namespace RatLang

/-! ### Other positions -/

/-- The name with another position. -/
def Identifier.mapPositions (f : Position → Position) (i : Identifier) : Identifier :=
  ⟨i.name, f i.position⟩

mutual

/-- The expression with other positions. -/
def Expr.mapPositions (f : Position → Position) : Expr → Expr
  | .binary op lhs rhs p => .binary op (lhs.mapPositions f) (rhs.mapPositions f) (f p)
  | .unary op operand p => .unary op (operand.mapPositions f) (f p)
  | .numeric type value p => .numeric type value (f p)
  | .string value p => .string value (f p)
  | .char value p => .char value (f p)
  | .null p => .null (f p)
  | .identifier name => .identifier (name.mapPositions f)
  | .call name args p => .call name (Expr.mapArgs f args) (f p)

/-- The arguments with other positions. -/
def Expr.mapArgs (f : Position → Position) : List Expr → List Expr
  | [] => []
  | arg :: rest => arg.mapPositions f :: Expr.mapArgs f rest

end

mutual

/-- The statement with other positions. -/
def Stmt.mapPositions (f : Position → Position) : Stmt → Stmt
  | .functionDecl kind name p params type body =>
    .functionDecl kind name (f p) (params.map (Identifier.mapPositions f)) type
      (Stmt.mapBody f body)
  | .variableDecl kind name p type value =>
    .variableDecl kind name (f p) type (value.map (Expr.mapPositions f))
  | .conditional first rest => .conditional (first.mapPositions f) (Branch.mapChain f rest)
  | .ret kind p value => .ret kind (f p) (value.map (Expr.mapPositions f))
  | .expression e p => .expression (e.mapPositions f) (f p)

/-- The statements with other positions. -/
def Stmt.mapBody (f : Position → Position) : List Stmt → List Stmt
  | [] => []
  | stmt :: rest => stmt.mapPositions f :: Stmt.mapBody f rest

/-- The branch with other positions. -/
def Branch.mapPositions (f : Position → Position) : Branch → Branch
  | .mk kind p condition body =>
    .mk kind (f p) (condition.map (Expr.mapPositions f)) (Stmt.mapBody f body)

/-- The branches with other positions. -/
def Branch.mapChain (f : Position → Position) : List Branch → List Branch
  | [] => []
  | branch :: rest => branch.mapPositions f :: Branch.mapChain f rest

end

theorem Stmt.mapBody_append (f : Position → Position) (p q : List Stmt) :
    Stmt.mapBody f (p ++ q) = Stmt.mapBody f p ++ Stmt.mapBody f q := by
  induction p with
  | nil => rfl
  | cons s p ih => rw [List.cons_append, Stmt.mapBody, ih, Stmt.mapBody, List.cons_append]

mutual

theorem Expr.mapPositions_mapPositions (f g : Position → Position) :
    (e : Expr) → (e.mapPositions f).mapPositions g = e.mapPositions (g ∘ f)
  | .binary op lhs rhs p => by
    simp only [Expr.mapPositions, lhs.mapPositions_mapPositions f g,
      rhs.mapPositions_mapPositions f g, Function.comp_apply]
  | .unary op operand p => by
    simp only [Expr.mapPositions, operand.mapPositions_mapPositions f g, Function.comp_apply]
  | .numeric .. | .string .. | .char .. | .null .. | .identifier .. => rfl
  | .call name args p => by
    simp only [Expr.mapPositions, Expr.mapArgs_mapArgs f g args, Function.comp_apply]

theorem Expr.mapArgs_mapArgs (f g : Position → Position) :
    (args : List Expr) → Expr.mapArgs g (Expr.mapArgs f args) = Expr.mapArgs (g ∘ f) args
  | [] => rfl
  | arg :: rest => by
    simp only [Expr.mapArgs, arg.mapPositions_mapPositions f g, Expr.mapArgs_mapArgs f g rest]

end

theorem Identifier.map_mapPositions (f g : Position → Position) (names : List Identifier) :
    (names.map (Identifier.mapPositions f)).map (Identifier.mapPositions g) =
      names.map (Identifier.mapPositions (g ∘ f)) :=
  List.map_map

theorem Expr.map_mapPositions (f g : Position → Position) (value : Option Expr) :
    (value.map (Expr.mapPositions f)).map (Expr.mapPositions g) =
      value.map (Expr.mapPositions (g ∘ f)) := by
  cases value with
  | none => rfl
  | some e => exact congrArg some (e.mapPositions_mapPositions f g)

mutual

theorem Stmt.mapPositions_mapPositions (f g : Position → Position) :
    (s : Stmt) → (s.mapPositions f).mapPositions g = s.mapPositions (g ∘ f)
  | .functionDecl kind name p params type body => by
    simp only [Stmt.mapPositions, Identifier.map_mapPositions, Stmt.mapBody_mapBody f g body,
      Function.comp_apply]
  | .variableDecl kind name p type value => by
    simp only [Stmt.mapPositions, Expr.map_mapPositions, Function.comp_apply]
  | .conditional first rest => by
    simp only [Stmt.mapPositions, first.mapPositions_mapPositions f g,
      Branch.mapChain_mapChain f g rest]
  | .ret kind p value => by
    simp only [Stmt.mapPositions, Expr.map_mapPositions, Function.comp_apply]
  | .expression e p => by
    simp only [Stmt.mapPositions, e.mapPositions_mapPositions f g, Function.comp_apply]

theorem Stmt.mapBody_mapBody (f g : Position → Position) :
    (p : List Stmt) → Stmt.mapBody g (Stmt.mapBody f p) = Stmt.mapBody (g ∘ f) p
  | [] => rfl
  | s :: p => by
    simp only [Stmt.mapBody, s.mapPositions_mapPositions f g, Stmt.mapBody_mapBody f g p]

theorem Branch.mapPositions_mapPositions (f g : Position → Position) :
    (branch : Branch) → (branch.mapPositions f).mapPositions g = branch.mapPositions (g ∘ f)
  | .mk kind p condition body => by
    simp only [Branch.mapPositions, Expr.map_mapPositions, Stmt.mapBody_mapBody f g body,
      Function.comp_apply]

theorem Branch.mapChain_mapChain (f g : Position → Position) :
    (rest : List Branch) → Branch.mapChain g (Branch.mapChain f rest) = Branch.mapChain (g ∘ f) rest
  | [] => rfl
  | branch :: rest => by
    simp only [Branch.mapChain, branch.mapPositions_mapPositions f g,
      Branch.mapChain_mapChain f g rest]

end

/-- Forgets a position. -/
def Position.forget (_ : Position) : Position := .start

/-- The token without its place. -/
def Token.bare (t : Token) : Token := ⟨t.kind, t.lexeme, .start⟩

/-- The expression without positions. -/
def Expr.bare (e : Expr) : Expr := e.mapPositions Position.forget

/-- The statement without positions. -/
def Stmt.bare (s : Stmt) : Stmt := s.mapPositions Position.forget

/-- The program without positions. -/
def Stmt.bareBody (p : List Stmt) : List Stmt := Stmt.mapBody Position.forget p

/-! ### The same words -/

/-- The lists hold the same words in the same order. -/
def SameWords (w w' : List Token) : Prop := w.map Token.bare = w'.map Token.bare

namespace Grammar

theorem sameWords_append {w u v : List Token} (h : SameWords w (u ++ v)) :
    ∃ u' v', w = u' ++ v' ∧ SameWords u' u ∧ SameWords v' v := by
  rw [SameWords, List.map_append] at h
  exact List.map_eq_append_iff.mp h

theorem sameWords_cons {w v : List Token} {t : Token} (h : SameWords w (t :: v)) :
    ∃ q v', w = ⟨t.kind, t.lexeme, q⟩ :: v' ∧ SameWords v' v := by
  obtain ⟨u, v', rfl, same, more⟩ := List.map_eq_cons_iff.mp h
  obtain ⟨kind, lexeme, q⟩ := u
  injection same with kind_eq lexeme_eq
  subst kind_eq lexeme_eq
  exact ⟨q, v', rfl, more⟩

theorem sameWords_nil {w : List Token} (h : SameWords w []) : w = [] := List.map_eq_nil_iff.mp h

theorem sameWords_singleton {w : List Token} {t : Token} (h : SameWords w [t]) :
    ∃ q, w = [⟨t.kind, t.lexeme, q⟩] := by
  obtain ⟨q, v, rfl, more⟩ := sameWords_cons h
  exact ⟨q, by rw [sameWords_nil more]⟩

theorem Breaks.relocate {w w' : List Token} (skipped : Breaks w) (h : SameWords w' w) :
    Breaks w' := by
  induction w generalizing w' with
  | nil =>
    rw [sameWords_nil h]
    exact breaks_nil
  | cons t w ih =>
    obtain ⟨q, v, rfl, more⟩ := sameWords_cons h
    intro u mem
    rcases List.mem_cons.mp mem with rfl | mem
    · exact skipped t List.mem_cons_self
    · exact ih (fun u mem => skipped u (List.mem_cons_of_mem t mem)) more u mem

/-! ### Expressions -/

theorem Leaf.relocate {t : Token} {e : Expr} (h : Leaf t e) (q : Position) :
    ∃ e', Leaf ⟨t.kind, t.lexeme, q⟩ e' ∧ e'.bare = e.bare := by
  cases h with
  | numeric kind => exact ⟨_, .numeric kind, rfl⟩
  | string kind => exact ⟨_, .string kind, rfl⟩
  | char kind => exact ⟨_, .char kind, rfl⟩
  | null is => exact ⟨_, .null is, rfl⟩
  | name kind => exact ⟨_, .name kind, rfl⟩

mutual

theorem Expression.relocate {level : Precedence} {w w' : List Token} {e : Expr} :
    Expression level w e → SameWords w' w → ∃ e', Expression level w' e' ∧ e'.bare = e.bare
  | .tighter inner operand, h => by
    obtain ⟨e', derived, same⟩ := operand.relocate h
    exact ⟨e', .tighter inner derived, same⟩
  | .binary operator spelled left right, h => by
    obtain ⟨l, v, rfl, hl, h₁⟩ := sameWords_append h
    obtain ⟨q, r, rfl, hr⟩ := sameWords_cons h₁
    obtain ⟨lhs, left', same⟩ := left.relocate hl
    obtain ⟨rhs, right', same'⟩ := right.relocate hr
    simp only [Expr.bare] at same same'
    refine ⟨_, .binary operator spelled left' right', ?_⟩
    simp only [Expr.bare, Expr.mapPositions, same, same', Position.forget]
  | .unary operator spelled operand, h => by
    obtain ⟨q, v, rfl, hv⟩ := sameWords_cons h
    obtain ⟨e', derived, same⟩ := operand.relocate hv
    simp only [Expr.bare] at same
    refine ⟨_, .unary operator spelled derived, ?_⟩
    simp only [Expr.bare, Expr.mapPositions, same, Position.forget]
  | .group opens inner closes, h => by
    obtain ⟨q, v, rfl, h₁⟩ := sameWords_cons h
    obtain ⟨u, v, rfl, hu, h₂⟩ := sameWords_append h₁
    obtain ⟨q', rfl⟩ := sameWords_singleton h₂
    obtain ⟨e', derived, same⟩ := inner.relocate hu
    exact ⟨e', .group opens derived closes, same⟩
  | .leaf single, h => by
    obtain ⟨q, rfl⟩ := sameWords_singleton h
    obtain ⟨e', derived, same⟩ := single.relocate q
    exact ⟨e', .leaf derived, same⟩
  | .call named opens arguments closes, h => by
    obtain ⟨q, v, rfl, h₁⟩ := sameWords_cons h
    obtain ⟨q', v, rfl, h₂⟩ := sameWords_cons h₁
    obtain ⟨u, v, rfl, hu, h₃⟩ := sameWords_append h₂
    obtain ⟨q'', rfl⟩ := sameWords_singleton h₃
    obtain ⟨args, derived, same⟩ := arguments.relocate hu
    refine ⟨_, .call named opens derived closes, ?_⟩
    simp only [Expr.bare, Expr.mapPositions, same, Position.forget]

theorem Arguments.relocate {w w' : List Token} {args : List Expr} :
    Arguments w args → SameWords w' w → ∃ args', Arguments w' args' ∧
      Expr.mapArgs Position.forget args' = Expr.mapArgs Position.forget args
  | .none, h => by
    rw [sameWords_nil h]
    exact ⟨_, .none, rfl⟩
  | .some given, h => by
    obtain ⟨args', derived, same⟩ := given.relocate h
    exact ⟨args', .some derived, same⟩

theorem MoreArguments.relocate {w w' : List Token} {args : List Expr} :
    MoreArguments w args → SameWords w' w → ∃ args', MoreArguments w' args' ∧
      Expr.mapArgs Position.forget args' = Expr.mapArgs Position.forget args
  | .last arg, h => by
    obtain ⟨e', derived, same⟩ := arg.relocate h
    simp only [Expr.bare] at same
    exact ⟨_, .last derived, by simp only [Expr.mapArgs, same]⟩
  | .cons arg separates rest, h => by
    obtain ⟨u, v, rfl, hu, h₁⟩ := sameWords_append h
    obtain ⟨q, v, rfl, hv⟩ := sameWords_cons h₁
    obtain ⟨e', derived, same⟩ := arg.relocate hu
    obtain ⟨args', derived', same'⟩ := rest.relocate hv
    simp only [Expr.bare] at same
    exact ⟨_, .cons derived separates derived', by simp only [Expr.mapArgs, same, same']⟩

end

/-! ### The parts of declarations -/

theorem Names.relocate {w w' : List Token} {names : List Identifier} (derived : Names w names)
    (h : SameWords w' w) : ∃ names', Names w' names' ∧
      names'.map (Identifier.mapPositions Position.forget) =
        names.map (Identifier.mapPositions Position.forget) := by
  induction derived generalizing w' with
  | last named =>
    obtain ⟨q, rfl⟩ := sameWords_singleton h
    exact ⟨_, .last named, rfl⟩
  | cons named separates _ ih =>
    obtain ⟨q, v, rfl, h₁⟩ := sameWords_cons h
    obtain ⟨q', v, rfl, h₂⟩ := sameWords_cons h₁
    obtain ⟨names', derived, same⟩ := ih h₂
    refine ⟨_, .cons named separates derived, ?_⟩
    rw [List.map_cons, List.map_cons, same]
    rfl

theorem Parameters.relocate {w w' : List Token} {params : List Identifier}
    (derived : Parameters w params) (h : SameWords w' w) : ∃ params', Parameters w' params' ∧
      params'.map (Identifier.mapPositions Position.forget) =
        params.map (Identifier.mapPositions Position.forget) := by
  cases derived with
  | none =>
    rw [sameWords_nil h]
    exact ⟨_, .none, rfl⟩
  | some given =>
    obtain ⟨params', derived, same⟩ := given.relocate h
    exact ⟨params', .some derived, same⟩

theorem ReturnType.relocate {w w' : List Token} {type : Symbol} (derived : ReturnType w type)
    (h : SameWords w' w) : ReturnType w' type := by
  cases derived with
  | none =>
    rw [sameWords_nil h]
    exact .none
  | given points named =>
    obtain ⟨q, v, rfl, h₁⟩ := sameWords_cons h
    obtain ⟨q', rfl⟩ := sameWords_singleton h₁
    exact .given points ⟨named.kind, named.spelled⟩

theorem Annotation.relocate {w w' : List Token} {type : Option Symbol}
    (derived : Annotation w type) (h : SameWords w' w) : Annotation w' type := by
  cases derived with
  | none =>
    rw [sameWords_nil h]
    exact .none
  | given marks named =>
    obtain ⟨q, v, rfl, h₁⟩ := sameWords_cons h
    obtain ⟨q', rfl⟩ := sameWords_singleton h₁
    exact .given marks ⟨named.kind, named.spelled⟩

theorem Initializer.relocate {w w' : List Token} {value : Option Expr}
    (derived : Initializer w value) (h : SameWords w' w) : ∃ value', Initializer w' value' ∧
      value'.map (Expr.mapPositions Position.forget) =
        value.map (Expr.mapPositions Position.forget) := by
  cases derived with
  | none =>
    rw [sameWords_nil h]
    exact ⟨_, .none, rfl⟩
  | given marks value =>
    obtain ⟨q, v, rfl, h₁⟩ := sameWords_cons h
    obtain ⟨e', derived, same⟩ := value.relocate h₁
    exact ⟨_, .given marks derived, congrArg some same⟩

theorem Header.relocate {w w' : List Token} {header : FunctionHeader} (derived : Header w header)
    (h : SameWords w' w) : ∃ (q : Position) (params : List Identifier),
      Header w' ⟨header.kind, header.name, q, params, header.returnType⟩ ∧
      params.map (Identifier.mapPositions Position.forget) =
        header.params.map (Identifier.mapPositions Position.forget) := by
  obtain ⟨isKeyword, opens, spelled, named, before, parameters, behind, returns⟩ := derived
  obtain ⟨q, v, rfl, h₁⟩ := sameWords_cons h
  obtain ⟨q', v, rfl, h₂⟩ := sameWords_cons h₁
  obtain ⟨q'', v, rfl, h₃⟩ := sameWords_cons h₂
  obtain ⟨u, v, rfl, hu, h₄⟩ := sameWords_append h₃
  obtain ⟨q₃, ts, rfl, h₅⟩ := sameWords_cons h₄
  obtain ⟨params', parameters', same⟩ := parameters.relocate hu
  exact ⟨q, params', .mk isKeyword opens spelled named before parameters' behind
    (returns.relocate h₅), same⟩

/-! ### Statements -/

theorem Simple.relocate {w w' : List Token} {s : Stmt} (derived : Simple w s)
    (h : SameWords w' w) : ∃ s', Simple w' s' ∧ s'.bare = s.bare := by
  cases derived with
  | letVariable opens named annotated marks value =>
    obtain ⟨q, v, rfl, h₁⟩ := sameWords_cons h
    obtain ⟨q', v, rfl, h₂⟩ := sameWords_cons h₁
    obtain ⟨ts, v, rfl, hts, h₃⟩ := sameWords_append h₂
    obtain ⟨q'', v, rfl, h₄⟩ := sameWords_cons h₃
    obtain ⟨e', value', same⟩ := value.relocate h₄
    refine ⟨_, .letVariable opens named (annotated.relocate hts) marks value', ?_⟩
    simp only [Expr.bare] at same
    simp only [Stmt.bare, Stmt.mapPositions, Option.map_some, same, Position.forget]
  | opVariable opens named annotated initial =>
    obtain ⟨q, v, rfl, h₁⟩ := sameWords_cons h
    obtain ⟨q', v, rfl, h₂⟩ := sameWords_cons h₁
    obtain ⟨ts, v, rfl, hts, h₃⟩ := sameWords_append h₂
    obtain ⟨value', initial', same⟩ := initial.relocate h₃
    refine ⟨_, .opVariable opens named (annotated.relocate hts) initial', ?_⟩
    simp only [Stmt.bare, Stmt.mapPositions, same, Position.forget]
  | typedVariable opens named initial =>
    obtain ⟨q, v, rfl, h₁⟩ := sameWords_cons h
    obtain ⟨q', v, rfl, h₂⟩ := sameWords_cons h₁
    obtain ⟨value', initial', same⟩ := initial.relocate h₂
    refine ⟨_, .typedVariable ⟨opens.kind, opens.spelled⟩ named initial', ?_⟩
    simp only [Stmt.bare, Stmt.mapPositions, same, Position.forget]
  | ret opens value =>
    obtain ⟨q, v, rfl, h₁⟩ := sameWords_cons h
    obtain ⟨e', value', same⟩ := value.relocate h₁
    refine ⟨_, .ret opens value', ?_⟩
    simp only [Expr.bare] at same
    simp only [Stmt.bare, Stmt.mapPositions, Option.map_some, same, Position.forget]
  | rev opens =>
    obtain ⟨q, rfl⟩ := sameWords_singleton h
    exact ⟨_, .rev opens, rfl⟩
  | expression whole =>
    obtain ⟨e', whole', same⟩ := whole.relocate h
    obtain ⟨q, v, rfl, -⟩ := sameWords_cons h
    refine ⟨_, .expression whole', ?_⟩
    simp only [Expr.bare] at same
    simp only [Stmt.bare, Stmt.mapPositions, same, Position.forget]

mutual

theorem Sequence.relocate {w w' : List Token} {p : List Stmt} :
    Sequence w p → SameWords w' w → ∃ p', Sequence w' p' ∧ Stmt.bareBody p' = Stmt.bareBody p
  | .nil, h => by
    rw [sameWords_nil h]
    exact ⟨[], .nil, rfl⟩
  | .terminator ends rest, h => by
    obtain ⟨q, v, rfl, h₁⟩ := sameWords_cons h
    obtain ⟨p', derived, same⟩ := rest.relocate h₁
    exact ⟨p', .terminator ends derived, same⟩
  | .block opens inner closes rest, h => by
    obtain ⟨q, v, rfl, h₁⟩ := sameWords_cons h
    obtain ⟨b, v, rfl, hb, h₂⟩ := sameWords_append h₁
    obtain ⟨q', v, rfl, h₃⟩ := sameWords_cons h₂
    obtain ⟨p', inner', same⟩ := inner.relocate hb
    obtain ⟨p'', rest', same'⟩ := rest.relocate h₃
    refine ⟨p' ++ p'', .block opens inner' closes rest', ?_⟩
    simp only [Stmt.bareBody] at same same'
    simp only [Stmt.bareBody, Stmt.mapBody_append, same, same']
  | .statement first ends rest, h => by
    obtain ⟨b, v, rfl, hb, hv⟩ := sameWords_append h
    obtain ⟨s', first', same⟩ := first.relocate hb
    obtain ⟨p', rest', same'⟩ := rest.relocate hv
    refine ⟨s' :: p', .statement first' (fun t front => ?_) rest', ?_⟩
    · cases v with
      | nil => cases front
      | cons u v =>
        cases front
        obtain ⟨q, more, rfl, -⟩ := sameWords_cons (Eq.symm hv)
        exact ends ⟨_, _, q⟩ rfl
    · simp only [Stmt.bare, Stmt.bareBody] at same same'
      simp only [Stmt.bareBody, Stmt.mapBody, same, same']

theorem Statement.relocate {w w' : List Token} {s : Stmt} :
    Statement w s → SameWords w' w → ∃ s', Statement w' s' ∧ s'.bare = s.bare
  | .simple simple, h => by
    obtain ⟨s', simple', same⟩ := simple.relocate h
    exact ⟨s', .simple simple', same⟩
  | .function front body, h => by
    obtain ⟨u, b, rfl, hu, hb⟩ := sameWords_append h
    obtain ⟨q, params, front', same⟩ := front.relocate hu
    obtain ⟨p', body', same'⟩ := body.relocate hb
    refine ⟨_, .function front' body', ?_⟩
    simp only [Stmt.bareBody] at same'
    simp only [Stmt.bare, Stmt.mapPositions, same, same', Position.forget]
  | .conditional opens condition body rest, h => by
    obtain ⟨q, v, rfl, h₁⟩ := sameWords_cons h
    obtain ⟨u, v, rfl, hu, h₂⟩ := sameWords_append h₁
    obtain ⟨b, r, rfl, hb, hr⟩ := sameWords_append h₂
    obtain ⟨e', condition', same⟩ := condition.relocate hu
    obtain ⟨p', body', same'⟩ := body.relocate hb
    obtain ⟨branches', rest', same''⟩ := rest.relocate hr
    refine ⟨_, .conditional opens condition' body' rest', ?_⟩
    simp only [Expr.bare, Stmt.bareBody] at same same'
    simp only [Stmt.bare, Stmt.mapPositions, Branch.mapPositions, Option.map_some, same, same',
      same'', Position.forget]

theorem Body.relocate {w w' : List Token} {p : List Stmt} :
    Body w p → SameWords w' w → ∃ p', Body w' p' ∧ Stmt.bareBody p' = Stmt.bareBody p
  | .mk skipped opens inner closes, h => by
    obtain ⟨u, v, rfl, hu, h₁⟩ := sameWords_append h
    obtain ⟨q, v, rfl, h₂⟩ := sameWords_cons h₁
    obtain ⟨b, v, rfl, hb, h₃⟩ := sameWords_append h₂
    obtain ⟨q', rfl⟩ := sameWords_singleton h₃
    obtain ⟨p', inner', same⟩ := inner.relocate hb
    exact ⟨p', .mk (skipped.relocate hu) opens inner' closes, same⟩

theorem Branches.relocate {w w' : List Token} {branches : List Branch} :
    Branches w branches → SameWords w' w → ∃ branches', Branches w' branches' ∧
      Branch.mapChain Position.forget branches' = Branch.mapChain Position.forget branches
  | .nil, h => by
    rw [sameWords_nil h]
    exact ⟨[], .nil, rfl⟩
  | .elseIf skipped opens skipped' opens' condition body rest, h => by
    obtain ⟨u, v, rfl, hu, h₁⟩ := sameWords_append h
    obtain ⟨q, v, rfl, h₂⟩ := sameWords_cons h₁
    obtain ⟨u', v, rfl, hu', h₃⟩ := sameWords_append h₂
    obtain ⟨q', v, rfl, h₄⟩ := sameWords_cons h₃
    obtain ⟨x, v, rfl, hx, h₅⟩ := sameWords_append h₄
    obtain ⟨b, r, rfl, hb, hr⟩ := sameWords_append h₅
    obtain ⟨e', condition', same⟩ := condition.relocate hx
    obtain ⟨p', body', same'⟩ := body.relocate hb
    obtain ⟨branches', rest', same''⟩ := rest.relocate hr
    refine ⟨_, .elseIf (skipped.relocate hu) opens (skipped'.relocate hu') opens' condition' body'
      rest', ?_⟩
    simp only [Expr.bare, Stmt.bareBody] at same same'
    simp only [Branch.mapChain, Branch.mapPositions, Option.map_some, same, same', same'',
      Position.forget]
  | .last skipped opens body, h => by
    obtain ⟨u, v, rfl, hu, h₁⟩ := sameWords_append h
    obtain ⟨q, b, rfl, hb⟩ := sameWords_cons h₁
    obtain ⟨p', body', same⟩ := body.relocate hb
    refine ⟨_, .last (skipped.relocate hu) opens body', ?_⟩
    simp only [Stmt.bareBody] at same
    simp only [Branch.mapChain, Branch.mapPositions, Option.map_none, same, Position.forget]

end

end Grammar

end RatLang
