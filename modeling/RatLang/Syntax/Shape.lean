import RatLang.Shape
import RatLang.Syntax
import RatLang.Token

/-!
# Shapes of tokens and trees

The outlines from which tokens and syntax trees are dumped. The branches of a conditional are
dumped as a chain in which each branch holds the next one.
-/

namespace RatLang

/-- The outline of a position. -/
def Position.shape (p : Position) : Shape :=
  .record "Position" [("line", .number p.line), ("column", .number p.column)]

/-- The outline of a symbol. -/
def Symbol.shape (s : Symbol) : Shape := .bare s.name

/-- The outline of a token. -/
def Token.shape (t : Token) : Shape :=
  .record "Token"
    [("kind", .bare t.kind.name), ("lexeme", .text t.lexeme), ("position", t.position.shape)]

/-- The outline of a name. -/
def Identifier.shape (i : Identifier) : Shape :=
  .record "Identifier" [("name", .text i.name), ("position", i.position.shape)]

mutual

/-- The outline of an expression. -/
def Expr.shape : Expr → Shape
  | .binary op lhs rhs position =>
    .recordVariant "Binary"
      [("op", op.shape), ("lhs", lhs.shape), ("rhs", rhs.shape), ("position", position.shape)]
  | .unary op operand position =>
    .recordVariant "Unary"
      [("op", op.shape), ("operand", operand.shape), ("position", position.shape)]
  | .numeric type value position =>
    .recordVariant "Numeric"
      [("ty", type.shape), ("value", .text value), ("position", position.shape)]
  | .string value position =>
    .recordVariant "String" [("value", .text value), ("position", position.shape)]
  | .char value position =>
    .recordVariant "Char" [("value", .text value), ("position", position.shape)]
  | .null position => .recordVariant "Null" [("position", position.shape)]
  | .identifier name => .variant "Identifier" name.shape
  | .call name args position =>
    .recordVariant "Call"
      [("name", .text name), ("args", .list (Expr.shapes args)), ("position", position.shape)]

/-- The outlines of expressions. -/
def Expr.shapes : List Expr → List Shape
  | [] => []
  | expr :: rest => expr.shape :: Expr.shapes rest

end

mutual

/-- The outline of a statement. -/
def Stmt.shape : Stmt → Shape
  | .functionDecl kind name position params returnType body =>
    .variant "FunctionDecl" <| .record "FunctionDecl"
      [("kind", kind.shape), ("name", .text name), ("position", position.shape),
       ("params", .list (params.map Identifier.shape)), ("return_type", returnType.shape),
       ("body", .list (Stmt.shapes body))]
  | .variableDecl kind name position type value =>
    .variant "VariableDecl" <| .record "VariableDecl"
      [("kind", kind.shape), ("name", .text name), ("position", position.shape),
       ("ty", .ofOption Symbol.shape type), ("value", .ofOption Expr.shape value)]
  | .conditional first rest => .variant "Conditional" (first.shape (Branch.chainShape rest))
  | .ret kind position value =>
    .variant "Return" <| .record "ReturnStatement"
      [("kind", kind.shape), ("position", position.shape),
       ("value", .ofOption Expr.shape value)]
  | .expression expr position =>
    .variant "Expression" <| .record "ExpressionStatement"
      [("expr", expr.shape), ("position", position.shape)]

/-- The outlines of statements. -/
def Stmt.shapes : List Stmt → List Shape
  | [] => []
  | stmt :: rest => stmt.shape :: Stmt.shapes rest

/-- The outline of a branch that holds the outline of those after it. -/
def Branch.shape (next : Shape) : Branch → Shape
  | .mk kind position condition body =>
    .record "ConditionalStatement"
      [("kind", kind.shape), ("position", position.shape),
       ("condition", .ofOption Expr.shape condition), ("body", .list (Stmt.shapes body)),
       ("next", next)]

/-- The outline of the branches after one. -/
def Branch.chainShape : List Branch → Shape
  | [] => .missing
  | branch :: rest => .given (branch.shape (Branch.chainShape rest))

end

end RatLang
