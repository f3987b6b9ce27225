/-!
# Symbols

The constituents of the language: every built-in type, keyword, punctuation mark and operator, and
the two tags `variableId` and `functionId` that only name nodes of a syntax tree.
-/

namespace RatLang

/-- A constituent of the language. -/
inductive Symbol where
  | variableId | functionId
  | typeInt | typeFloat | typeDouble | typeBool | typeChar | typeLong | typeShort | typePointer
  | typeUint | typeUlong | typeUshort | typeUchar | typeString | typeVoid
  | nullLiteral
  | variableDeclarationLet | variableDeclarationOp
  | functionDeclarationF | functionDeclarationFVoid
  | functionDeclarationFOptional | functionDeclarationFLambda
  | functionReturn | functionReturnVoid
  | conditionalIf | conditionalElse | conditionalElseIf
  | patternMatch
  | colon | singleQuote | doubleQuote | comma | bracketOpen | bracketClose
  | braceOpen | braceClose | parenthesesOpen | parenthesesClose
  | commentLine | commentBlockOpen | commentBlockClose | newline
  | assignment
  | arithmeticAdd | arithmeticSub | arithmeticMul | arithmeticDiv | arithmeticMod
  | comparisonEq | comparisonNeq | comparisonLt | comparisonGt | comparisonLte | comparisonGte
  | logicalAnd | logicalOr | logicalNot
  | bitwiseAnd | bitwiseOr | bitwiseXor | bitwiseNeg | bitwiseSl | bitwiseSr
  | arrow | fatArrow
deriving DecidableEq, Repr

namespace Symbol

/-- Does the symbol name a built-in type? -/
def isType : Symbol → Bool
  | typeInt | typeFloat | typeDouble | typeBool | typeChar | typeLong | typeShort | typePointer
  | typeUint | typeUlong | typeUshort | typeUchar | typeString | typeVoid => true
  | _ => false

/-- The name under which a symbol is written in a dump. -/
def name : Symbol → String
  | variableId => "VariableId"
  | functionId => "FunctionId"
  | typeInt => "TypeInt"
  | typeFloat => "TypeFloat"
  | typeDouble => "TypeDouble"
  | typeBool => "TypeBool"
  | typeChar => "TypeChar"
  | typeLong => "TypeLong"
  | typeShort => "TypeShort"
  | typePointer => "TypePointer"
  | typeUint => "TypeUint"
  | typeUlong => "TypeUlong"
  | typeUshort => "TypeUshort"
  | typeUchar => "TypeUchar"
  | typeString => "TypeString"
  | typeVoid => "TypeVoid"
  | nullLiteral => "NullLiteral"
  | variableDeclarationLet => "VariableDeclarationLet"
  | variableDeclarationOp => "VariableDeclarationOp"
  | functionDeclarationF => "FunctionDeclarationF"
  | functionDeclarationFVoid => "FunctionDeclarationFVoid"
  | functionDeclarationFOptional => "FunctionDeclarationFOptional"
  | functionDeclarationFLambda => "FunctionDeclarationFLambda"
  | functionReturn => "FunctionReturn"
  | functionReturnVoid => "FunctionReturnVoid"
  | conditionalIf => "ConditionalIf"
  | conditionalElse => "ConditionalElse"
  | conditionalElseIf => "ConditionalElseIf"
  | patternMatch => "PatternMatch"
  | colon => "Colon"
  | singleQuote => "SingleQuote"
  | doubleQuote => "DoubleQuote"
  | comma => "Comma"
  | bracketOpen => "BracketOpen"
  | bracketClose => "BracketClose"
  | braceOpen => "BraceOpen"
  | braceClose => "BraceClose"
  | parenthesesOpen => "ParenthesesOpen"
  | parenthesesClose => "ParenthesesClose"
  | commentLine => "CommentLine"
  | commentBlockOpen => "CommentBlockOpen"
  | commentBlockClose => "CommentBlockClose"
  | newline => "Newline"
  | assignment => "Assignment"
  | arithmeticAdd => "ArithmeticAdd"
  | arithmeticSub => "ArithmeticSub"
  | arithmeticMul => "ArithmeticMul"
  | arithmeticDiv => "ArithmeticDiv"
  | arithmeticMod => "ArithmeticMod"
  | comparisonEq => "ComparisonEq"
  | comparisonNeq => "ComparisonNeq"
  | comparisonLt => "ComparisonLt"
  | comparisonGt => "ComparisonGt"
  | comparisonLte => "ComparisonLte"
  | comparisonGte => "ComparisonGte"
  | logicalAnd => "LogicalAnd"
  | logicalOr => "LogicalOr"
  | logicalNot => "LogicalNot"
  | bitwiseAnd => "BitwiseAnd"
  | bitwiseOr => "BitwiseOr"
  | bitwiseXor => "BitwiseXor"
  | bitwiseNeg => "BitwiseNeg"
  | bitwiseSl => "BitwiseSl"
  | bitwiseSr => "BitwiseSr"
  | arrow => "Arrow"
  | fatArrow => "FatArrow"

/-- Every symbol, in the order of the definition. -/
def all : List Symbol :=
  [variableId, functionId,
   typeInt, typeFloat, typeDouble, typeBool, typeChar, typeLong, typeShort, typePointer,
   typeUint, typeUlong, typeUshort, typeUchar, typeString, typeVoid,
   nullLiteral,
   variableDeclarationLet, variableDeclarationOp,
   functionDeclarationF, functionDeclarationFVoid,
   functionDeclarationFOptional, functionDeclarationFLambda,
   functionReturn, functionReturnVoid,
   conditionalIf, conditionalElse, conditionalElseIf,
   patternMatch,
   colon, singleQuote, doubleQuote, comma, bracketOpen, bracketClose,
   braceOpen, braceClose, parenthesesOpen, parenthesesClose,
   commentLine, commentBlockOpen, commentBlockClose, newline,
   assignment,
   arithmeticAdd, arithmeticSub, arithmeticMul, arithmeticDiv, arithmeticMod,
   comparisonEq, comparisonNeq, comparisonLt, comparisonGt, comparisonLte, comparisonGte,
   logicalAnd, logicalOr, logicalNot,
   bitwiseAnd, bitwiseOr, bitwiseXor, bitwiseNeg, bitwiseSl, bitwiseSr,
   arrow, fatArrow]

theorem mem_all (s : Symbol) : s ∈ all := by
  cases s <;> decide

/-- The symbol of a name, if there is one. -/
def ofName? (n : String) : Option Symbol :=
  all.find? (·.name == n)

end Symbol

end RatLang
