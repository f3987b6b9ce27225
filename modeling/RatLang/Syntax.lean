import RatLang.Position
import RatLang.Symbol.Table

/-!
# Syntax trees

A program is a list of statements. Every node carries the position of the token that it is named
after: the operator of an operation, the name of a call, the keyword or the type that opens a
declaration. Which symbols may stand where is not part of these types.
-/

namespace RatLang

/-- A name where it is used or declared. -/
structure Identifier where
  name : String
  position : Position
deriving DecidableEq, Repr

/-- An expression. The values of literals are lexemes, with their quotes and suffixes. -/
inductive Expr where
  | binary (op : Symbol) (lhs rhs : Expr) (position : Position)
  | unary (op : Symbol) (operand : Expr) (position : Position)
  | numeric (type : Symbol) (value : String) (position : Position)
  | string (value : String) (position : Position)
  | char (value : String) (position : Position)
  | null (position : Position)
  | identifier (name : Identifier)
  | call (name : String) (args : List Expr) (position : Position)
deriving Repr

namespace Expr

/-- The symbol that classifies the root of an expression. -/
def symbol : Expr → Symbol
  | binary op _ _ _ | unary op _ _ => op
  | numeric type _ _ => type
  | string _ _ => .typeString
  | char _ _ => .typeChar
  | null _ => .nullLiteral
  | identifier _ => .variableId
  | call _ _ _ => .functionId

/-- The position of the root of an expression. -/
def position : Expr → Position
  | binary _ _ _ p | unary _ _ p | numeric _ _ p | string _ p | char _ p | null p | call _ _ p => p
  | identifier name => name.position

mutual

/-- The expression with every operator and call in front of its operands, in parentheses. -/
def text : Expr → String
  | binary op lhs rhs _ => "(" ++ op.text ++ " " ++ lhs.text ++ " " ++ rhs.text ++ ")"
  | unary op operand _ => "(" ++ op.text ++ " " ++ operand.text ++ ")"
  | numeric _ value _ | string value _ | char value _ => value
  | null _ => "null"
  | identifier name => name.name
  | call name args _ => "(" ++ name ++ argsText args ++ ")"

/-- The arguments of a call, each behind a space. -/
def argsText : List Expr → String
  | [] => ""
  | arg :: rest => " " ++ arg.text ++ argsText rest

end

end Expr

mutual

/-- A statement. -/
inductive Stmt where
  /-- A function; `returnType` is `typeVoid` if none is given. -/
  | functionDecl (kind : Symbol) (name : String) (position : Position)
      (params : List Identifier) (returnType : Symbol) (body : List Stmt)
  /-- A variable; `kind` is the keyword, or the type that takes its place. -/
  | variableDecl (kind : Symbol) (name : String) (position : Position)
      (type : Option Symbol) (value : Option Expr)
  /-- The branch of an `if` and those of the `else`s that follow it. -/
  | conditional (first : Branch) (rest : List Branch)
  /-- A return, with the value that it gives back. -/
  | ret (kind : Symbol) (position : Position) (value : Option Expr)
  /-- An expression on its own. -/
  | expression (expr : Expr) (position : Position)
deriving Repr

/-- A branch of a conditional. The branch of a bare `else` has no condition. -/
inductive Branch where
  | mk (kind : Symbol) (position : Position) (condition : Option Expr) (body : List Stmt)
deriving Repr

end

namespace Branch

/-- The symbol that says which of `if`, `else if` and `else` opens the branch. -/
def kind : Branch → Symbol
  | mk kind _ _ _ => kind

/-- The position of the keyword that opens the branch. -/
def position : Branch → Position
  | mk _ position _ _ => position

/-- The condition under which the branch is taken. -/
def condition : Branch → Option Expr
  | mk _ _ condition _ => condition

/-- The statements of the branch. -/
def body : Branch → List Stmt
  | mk _ _ _ body => body

end Branch

namespace Stmt

/-- The position of a statement. -/
def position : Stmt → Position
  | functionDecl _ _ p _ _ _ | variableDecl _ _ p _ _ | ret _ p _ | expression _ p => p
  | conditional first _ => first.position

/-- What a statement is called in a log. -/
def kindName : Stmt → String
  | functionDecl .. => "function declaration"
  | variableDecl .. => "variable declaration"
  | conditional .. => "conditional"
  | ret .. => "return"
  | expression .. => "expression statement"

end Stmt

end RatLang
