import Mathlib.Data.List.Basic
import RatLang.Syntax.Shape

/-!
# Dumps tell values apart

The JSON dumps of two values agree only if the values do: no two variants have one name, a value
that is missing is dumped like no value that is given, and the dump of a branch ends where the chain
of branches does.
-/

namespace RatLang

open Shape Function

/-! ### Names -/

theorem Symbol.ofName?_name (s : Symbol) : ofName? s.name = some s := by
  cases s <;> decide

theorem Symbol.name_injective : Injective Symbol.name := fun s t same =>
  Option.some.inj ((ofName?_name s).symm.trans (same ▸ ofName?_name t))

theorem TokenKind.mem_all (k : TokenKind) : k ∈ all := by
  cases k <;> decide

theorem TokenKind.name_injective : Injective TokenKind.name := by
  have distinct : ∀ k ∈ all, ∀ l ∈ all, k.name = l.name → k = l := by decide
  exact fun k l same => distinct k (mem_all k) l (mem_all l) same

/-! ### Parts -/

@[simp] theorem Symbol.toJson_inj {s t : Symbol} :
    s.shape.toJson = t.shape.toJson ↔ s = t := by
  simp [shape, toJson, name_injective.eq_iff]

@[simp] theorem Position.toJson_inj {p q : Position} :
    p.shape.toJson = q.shape.toJson ↔ p = q := by
  cases p
  cases q
  simp [shape, toJson, fieldsToJson]

@[simp] theorem Identifier.toJson_inj {i j : Identifier} :
    i.shape.toJson = j.shape.toJson ↔ i = j := by
  cases i
  cases j
  simp [shape, toJson, fieldsToJson]

@[simp] theorem Token.toJson_inj {t u : Token} : t.shape.toJson = u.shape.toJson ↔ t = u := by
  cases t
  cases u
  simp [shape, toJson, fieldsToJson, TokenKind.name_injective.eq_iff]

@[simp] theorem Shape.length_itemsToJson (items : List Shape) :
    (itemsToJson items).length = items.length := by
  induction items with
  | nil => rfl
  | cons item items ih => rw [itemsToJson, List.length_cons, List.length_cons, ih]

/-- A list is told apart by its items. -/
theorem Shape.itemsToJson_map_inj {α : Type} {shape : α → Shape}
    (apart : ∀ {a b}, (shape a).toJson = (shape b).toJson ↔ a = b) :
    ∀ {as bs : List α}, itemsToJson (as.map shape) = itemsToJson (bs.map shape) ↔ as = bs
  | [], [] | [], _ :: _ | _ :: _, [] => by simp [itemsToJson]
  | a :: as, b :: bs => by simp [itemsToJson, apart, itemsToJson_map_inj apart]

/-- A value that may be missing is told apart if the value is, which is never dumped as null. -/
theorem Shape.toJson_ofOption_inj {α : Type} {shape : α → Shape}
    (apart : ∀ {a b}, (shape a).toJson = (shape b).toJson ↔ a = b)
    (present : ∀ a, (shape a).toJson ≠ .null) {x y : Option α} :
    (ofOption shape x).toJson = (ofOption shape y).toJson ↔ x = y := by
  cases x <;> cases y <;> simp [ofOption, toJson, apart, present, (present _).symm]

/-! ### Expressions -/

mutual

/-- The dump of an expression names its variant and holds the dump of each part. -/
theorem Expr.eq_of_toJson : (e e' : Expr) → e.shape.toJson = e'.shape.toJson → e = e'
  | .binary op lhs rhs position, e', same => by
    cases e' with
    | binary op' lhs' rhs' position' =>
      have parts : op = op' ∧ lhs.shape.toJson = lhs'.shape.toJson ∧
          rhs.shape.toJson = rhs'.shape.toJson ∧ position = position' := by
        simpa [Expr.shape, toJson, fieldsToJson] using same
      obtain ⟨rfl, left, right, rfl⟩ := parts
      rw [Expr.eq_of_toJson lhs lhs' left, Expr.eq_of_toJson rhs rhs' right]
    | _ => simp [Expr.shape, toJson] at same
  | .unary op operand position, e', same => by
    cases e' with
    | unary op' operand' position' =>
      have parts : op = op' ∧ operand.shape.toJson = operand'.shape.toJson ∧
          position = position' := by
        simpa [Expr.shape, toJson, fieldsToJson] using same
      obtain ⟨rfl, inner, rfl⟩ := parts
      rw [Expr.eq_of_toJson operand operand' inner]
    | _ => simp [Expr.shape, toJson] at same
  | .call name args position, e', same => by
    cases e' with
    | call name' args' position' =>
      have parts : name = name' ∧
          itemsToJson (Expr.shapes args) = itemsToJson (Expr.shapes args') ∧
          position = position' := by
        simpa [Expr.shape, toJson, fieldsToJson] using same
      obtain ⟨rfl, inner, rfl⟩ := parts
      rw [Expr.eq_of_itemsToJson args args' inner]
    | _ => simp [Expr.shape, toJson] at same
  -- an expression without others in it
  | .numeric .., e', same | .string .., e', same | .char .., e', same | .null .., e', same
  | .identifier .., e', same => by
    cases e' <;> simp_all [Expr.shape, toJson, fieldsToJson]

theorem Expr.eq_of_itemsToJson : (es es' : List Expr) →
    itemsToJson (Expr.shapes es) = itemsToJson (Expr.shapes es') → es = es'
  | [], [], _ => rfl
  | [], _ :: _, same | _ :: _, [], same => by simp [Expr.shapes, itemsToJson] at same
  | e :: es, e' :: es', same => by
    have parts : e.shape.toJson = e'.shape.toJson ∧
        itemsToJson (Expr.shapes es) = itemsToJson (Expr.shapes es') := by
      simpa [Expr.shapes, itemsToJson] using same
    rw [Expr.eq_of_toJson e e' parts.1, Expr.eq_of_itemsToJson es es' parts.2]

end

@[simp] theorem Expr.toJson_inj {e e' : Expr} : e.shape.toJson = e'.shape.toJson ↔ e = e' :=
  ⟨Expr.eq_of_toJson e e', fun same => by rw [same]⟩

/-- No expression is dumped as null, not even a null literal. -/
theorem Expr.toJson_ne_null (e : Expr) : e.shape.toJson ≠ .null := by
  cases e <;> simp [Expr.shape, toJson]

@[simp] theorem Expr.toJson_ofOption_inj {e e' : Option Expr} :
    (ofOption Expr.shape e).toJson = (ofOption Expr.shape e').toJson ↔ e = e' :=
  Shape.toJson_ofOption_inj Expr.toJson_inj Expr.toJson_ne_null

@[simp] theorem Symbol.toJson_ofOption_inj {s t : Option Symbol} :
    (ofOption Symbol.shape s).toJson = (ofOption Symbol.shape t).toJson ↔ s = t :=
  Shape.toJson_ofOption_inj Symbol.toJson_inj (by simp [Symbol.shape, toJson])

/-! ### Statements -/

@[simp] theorem Stmt.length_shapes (program : List Stmt) :
    (Stmt.shapes program).length = program.length := by
  induction program with
  | nil => rfl
  | cons stmt program ih => rw [Stmt.shapes, List.length_cons, List.length_cons, ih]

mutual

/-- The dump of a statement names its variant and holds the dump of each part. -/
theorem Stmt.eq_of_toJson : (s s' : Stmt) → s.shape.toJson = s'.shape.toJson → s = s'
  | .functionDecl kind name position params returnType body, s', same => by
    cases s' with
    | functionDecl kind' name' position' params' returnType' body' =>
      have parts : kind = kind' ∧ name = name' ∧ position = position' ∧
          itemsToJson (params.map Identifier.shape) =
            itemsToJson (params'.map Identifier.shape) ∧
          returnType = returnType' ∧
          itemsToJson (Stmt.shapes body) = itemsToJson (Stmt.shapes body') := by
        simpa [Stmt.shape, toJson, fieldsToJson] using same
      obtain ⟨rfl, rfl, rfl, sameParams, rfl, inner⟩ := parts
      rw [(Shape.itemsToJson_map_inj Identifier.toJson_inj).mp sameParams,
        Stmt.eq_of_itemsToJson body body' inner]
    | _ => simp [Stmt.shape, toJson] at same
  | .conditional first rest, s', same => by
    cases s' with
    | conditional first' rest' =>
      have whole : (first.shape (Branch.chainShape rest)).toJson =
          (first'.shape (Branch.chainShape rest')).toJson := by
        simpa [Stmt.shape, toJson] using same
      obtain ⟨rfl, more⟩ := Branch.eq_of_toJson first first' _ _ whole
      rw [Branch.eq_of_chainToJson rest rest' more]
    | _ => simp [Stmt.shape, toJson] at same
  -- a statement without others in it
  | .variableDecl .., s', same | .ret .., s', same | .expression .., s', same => by
    cases s' <;> simp_all [Stmt.shape, toJson, fieldsToJson]

theorem Stmt.eq_of_itemsToJson : (ss ss' : List Stmt) →
    itemsToJson (Stmt.shapes ss) = itemsToJson (Stmt.shapes ss') → ss = ss'
  | [], [], _ => rfl
  | [], _ :: _, same | _ :: _, [], same => by simp [Stmt.shapes, itemsToJson] at same
  | s :: ss, s' :: ss', same => by
    have parts : s.shape.toJson = s'.shape.toJson ∧
        itemsToJson (Stmt.shapes ss) = itemsToJson (Stmt.shapes ss') := by
      simpa [Stmt.shapes, itemsToJson] using same
    rw [Stmt.eq_of_toJson s s' parts.1, Stmt.eq_of_itemsToJson ss ss' parts.2]

theorem Branch.eq_of_toJson : (b b' : Branch) → (next next' : Shape) →
    (b.shape next).toJson = (b'.shape next').toJson → b = b' ∧ next.toJson = next'.toJson
  | .mk kind position condition body, .mk kind' position' condition' body', next, next', same => by
    have parts : kind = kind' ∧ position = position' ∧ condition = condition' ∧
        itemsToJson (Stmt.shapes body) = itemsToJson (Stmt.shapes body') ∧
        next.toJson = next'.toJson := by
      simpa [Branch.shape, toJson, fieldsToJson] using same
    obtain ⟨rfl, rfl, rfl, inner, more⟩ := parts
    rw [Stmt.eq_of_itemsToJson body body' inner]
    exact ⟨rfl, more⟩

/-- Behind the last branch stands null, and behind any other one an object. -/
theorem Branch.eq_of_chainToJson : (bs bs' : List Branch) →
    (Branch.chainShape bs).toJson = (Branch.chainShape bs').toJson → bs = bs'
  | [], [], _ => rfl
  | [], .mk .. :: _, same | .mk .. :: _, [], same => by
    simp [Branch.chainShape, Branch.shape, toJson] at same
  | b :: bs, b' :: bs', same => by
    have whole : (b.shape (Branch.chainShape bs)).toJson =
        (b'.shape (Branch.chainShape bs')).toJson := by
      simpa [Branch.chainShape, toJson] using same
    obtain ⟨rfl, more⟩ := Branch.eq_of_toJson b b' _ _ whole
    rw [Branch.eq_of_chainToJson bs bs' more]

end

end RatLang
