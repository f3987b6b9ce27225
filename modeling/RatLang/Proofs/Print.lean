import RatLang.Proofs.Lexer.Spaced
import RatLang.Proofs.Parser.Incremental.Expression
import RatLang.Syntax

/-!
# Programs as text

Which trees are programs of the language, and how such a tree is written: one statement a line, one
space between the words of a line, bodies in braces, and parentheses where the ladder of expressions
needs them and nowhere else.
-/

namespace RatLang

/-! ### Programs of the language -/

/-- Names are identifiers that the language does not spell itself. -/
def IsName (name : String) : Prop := isName name ∧ ¬isFixedLexeme name

/-- The lexeme of a literal is one that some text gives as a token of that kind. -/
def IsLiteral (kind : TokenKind) (lexeme : String) : Prop :=
  ∃ text tokens, tokenize text = .ok tokens ∧ ∃ t ∈ tokens, t.kind = kind ∧ t.lexeme = lexeme

mutual

/-- An expression of the language. -/
def Expr.WellFormed : Expr → Prop
  | .binary op lhs rhs _ =>
    (∃ level, op.text ∈ Precedence.lexemes level) ∧ lhs.WellFormed ∧ rhs.WellFormed
  | .unary op operand _ =>
    op ∈ [Symbol.arithmeticSub, .logicalNot, .bitwiseNeg] ∧ operand.WellFormed
  | .numeric type value _ => type = numericType value ∧ IsLiteral .numericLiteral value
  | .string value _ => IsLiteral .stringLiteral value
  | .char value _ => IsLiteral .charLiteral value
  | .null _ => True
  | .identifier name => IsName name.name
  | .call name args _ => IsName name ∧ Expr.ArgsWellFormed args

/-- Arguments of the language. -/
def Expr.ArgsWellFormed : List Expr → Prop
  | [] => True
  | arg :: rest => arg.WellFormed ∧ Expr.ArgsWellFormed rest

end

/-- The symbols that open functions. -/
def functionKinds : List Symbol :=
  [.functionDeclarationF, .functionDeclarationFVoid, .functionDeclarationFOptional,
    .functionDeclarationFLambda]

/-- Which parts a variable of a kind has: `let` has a value, `let` and `op` may have a type, and a
type that stands for the keyword is the type of the variable. -/
def VariableShape (kind : Symbol) (type : Option Symbol) (value : Option Expr) : Prop :=
  kind = .variableDeclarationLet ∧ (∀ t ∈ type, t.isType) ∧ value.isSome ∨
  kind = .variableDeclarationOp ∧ (∀ t ∈ type, t.isType) ∨
  kind.isType ∧ type = some kind

mutual

/-- A statement of the language. -/
def Stmt.WellFormed : Stmt → Prop
  | .functionDecl kind name _ params type body =>
    kind ∈ functionKinds ∧ IsName name ∧ (∀ i ∈ params, IsName i.name) ∧ type.isType ∧
      Stmt.BodyWellFormed body
  | .variableDecl kind name _ type value =>
    IsName name ∧ VariableShape kind type value ∧ ∀ e ∈ value, e.WellFormed
  | .conditional first rest =>
    first.kind = .conditionalIf ∧ first.WellFormed ∧ Branch.ChainWellFormed rest
  | .ret kind _ value =>
    kind = .functionReturn ∧ (∃ e, value = some e ∧ e.WellFormed) ∨
      kind = .functionReturnVoid ∧ value = none
  | .expression e _ => e.WellFormed

/-- Statements of the language. -/
def Stmt.BodyWellFormed : List Stmt → Prop
  | [] => True
  | stmt :: rest => stmt.WellFormed ∧ Stmt.BodyWellFormed rest

/-- A branch of the language. Only `else` has no condition. -/
def Branch.WellFormed : Branch → Prop
  | .mk kind _ condition body =>
    (kind = .conditionalElse ∧ condition = none ∨
      kind ≠ .conditionalElse ∧ ∃ e, condition = some e ∧ e.WellFormed) ∧
      Stmt.BodyWellFormed body

/-- The branches behind the first one. Only the last one may be an `else`. -/
def Branch.ChainWellFormed : List Branch → Prop
  | [] => True
  | branch :: rest =>
    (branch.kind = .conditionalElseIf ∨ branch.kind = .conditionalElse ∧ rest = []) ∧
      branch.WellFormed ∧ Branch.ChainWellFormed rest

end

/-! ### Words -/

/-- A word that is written. -/
def Token.word (kind : TokenKind) (lexeme : String) : Token := ⟨kind, lexeme, .start⟩

open Token (word mark)

/-- The tier of the root of an expression. -/
def Expr.tier : Expr → Precedence
  | .binary op _ _ _ => (Precedence.listing? op.text).getD .lowest
  | _ => .unary

theorem Expr.tier_binary {op : Symbol} {level : Precedence}
    (listed : op.text ∈ Precedence.lexemes level) (lhs rhs : Expr) (p : Position) :
    (Expr.binary op lhs rhs p).tier = level := by
  rw [Expr.tier, Precedence.listing?_eq_some_iff.mpr listed, Option.getD_some]

/-- Words in parentheses, if they are needed. -/
def enclosed (needed : Prop) [Decidable needed] (w : List Token) : List Token :=
  if needed then mark '(' :: (w ++ [mark ')']) else w

mutual

/-- The words of an expression. A left operand of a lower tier is put in parentheses, and so are a
right operand of a lower or equal tier and a binary operand of a unary operator. -/
def Expr.words : Expr → List Token
  | .binary op lhs rhs _ =>
    let tier := (Precedence.listing? op.text).getD .lowest
    enclosed (lhs.tier.power < tier.power) lhs.words ++ word .operator op.text ::
      enclosed (rhs.tier.power ≤ tier.power) rhs.words
  | .unary op operand _ => word .operator op.text :: enclosed (operand.tier ≠ .unary) operand.words
  | .numeric _ value _ => [word .numericLiteral value]
  | .string value _ => [word .stringLiteral value]
  | .char value _ => [word .charLiteral value]
  | .null _ => [word .keyword "null"]
  | .identifier name => [word .identifier name.name]
  | .call name args _ =>
    word .identifier name :: mark '(' :: (Expr.argWords args ++ [mark ')'])

/-- The words of arguments, with commas between them. -/
def Expr.argWords : List Expr → List Token
  | [] => []
  | [arg] => arg.words
  | arg :: next :: rest => arg.words ++ mark ',' :: Expr.argWords (next :: rest)

end

/-- The words of parameters, with commas between them. -/
def paramWords : List Identifier → List Token
  | [] => []
  | [i] => [word .identifier i.name]
  | i :: next :: rest => word .identifier i.name :: mark ',' :: paramWords (next :: rest)

/-- The words of the type that a function returns; `void` is not written. -/
def returnWords (type : Symbol) : List Token :=
  if type = .typeVoid then [] else [word .operator "->", word .type type.text]

/-- The words of the type that a declaration gives. -/
def typeWords : Option Symbol → List Token
  | none => []
  | some type => [mark ':', word .type type.text]

/-- The words of the value that a declaration gives. -/
def valueWords : Option Expr → List Token
  | none => []
  | some e => word .operator "=" :: e.words

/-- The words of an expression that may be missing. -/
def Expr.wordsOf : Option Expr → List Token
  | none => []
  | some e => e.words

/-- The words that open a branch. -/
def branchWords (kind : Symbol) : List Token :=
  if kind = .conditionalElseIf then [word .keyword "else", word .keyword "if"]
  else [word .keyword kind.text]

/-- The words of a variable. A type that stands for the keyword is not written again. -/
def variableWords (kind : Symbol) (name : String) (type : Option Symbol) (value : Option Expr) :
    List Token :=
  if kind.isType then word .type kind.text :: word .identifier name :: valueWords value
  else word .keyword kind.text :: word .identifier name :: (typeWords type ++ valueWords value)

/-- The words in front of the body of a function. -/
def headerWords (kind : Symbol) (name : String) (params : List Identifier) (type : Symbol) :
    List Token :=
  word .keyword kind.text :: word .identifier name :: mark '(' ::
    (paramWords params ++ mark ')' :: returnWords type)

/-! ### Lines -/

mutual

/-- The lines of a statement. -/
def Stmt.lines : Stmt → List (List Token)
  | .functionDecl kind name _ params type body =>
    (headerWords kind name params type ++ [mark '\x7b']) ::
      (Stmt.bodyLines body ++ [[mark '\x7d']])
  | .variableDecl kind name _ type value => [variableWords kind name type value]
  | .conditional first rest => first.lines [] ++ Branch.chainLines rest
  | .ret kind _ value => [word .keyword kind.text :: Expr.wordsOf value]
  | .expression e _ => [e.words]

/-- The lines of statements. -/
def Stmt.bodyLines : List Stmt → List (List Token)
  | [] => []
  | stmt :: rest => stmt.lines ++ Stmt.bodyLines rest

/-- The lines of a branch, but for the brace at its end. The first line begins with the given
words. -/
def Branch.lines (before : List Token) : Branch → List (List Token)
  | .mk kind _ condition body =>
    (before ++ (branchWords kind ++ (Expr.wordsOf condition ++ [mark '\x7b']))) ::
      Stmt.bodyLines body

/-- The lines of branches, each behind the brace at the end of the branch before it. -/
def Branch.chainLines : List Branch → List (List Token)
  | [] => [[mark '\x7d']]
  | branch :: rest => branch.lines [mark '\x7d'] ++ Branch.chainLines rest

end

/-- The text of a program. -/
def printProgram (p : List Stmt) : String := linesText (Stmt.bodyLines p)

end RatLang
