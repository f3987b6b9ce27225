/-!
# The fixed lexemes

The lexemes that the language itself spells: keywords, built-in types, operators, punctuation marks
and the mark of a line comment. A lexeme that is in one of these lists is never a name.
-/

namespace RatLang

/-- The keywords. -/
def keywords : List String :=
  ["let", "op", "if", "else", "fn", "fn_", "fn?", "fn/", "null", "ret", "rev"]

/-- The names of the built-in types. -/
def types : List String :=
  ["int", "float", "double", "bool", "char", "long", "short", "pointer", "uint", "ulong",
   "ushort", "uchar", "string", "void"]

/-- The operators, those that only occur in declarations included. -/
def operators : List String :=
  ["=", "+", "-", "*", "/", "%", "==", "!=", "<", ">", "<=", ">=", "&&", "||", "!", "&", "|",
   "^", "~", "<<", ">>", "->", "=>"]

/-- The punctuation marks. The two quotes among them open literals. -/
def punctuators : List Char :=
  [':', '\'', '"', '[', ']', '\x7b', '\x7d', '(', ')', ',']

/-- The characters that may follow the backslash of a char literal. -/
def escapes : List Char :=
  ['n', 't', 'r', 'b', 'f', 'v', 'a', '\\', '?', '\'', '"', '0']

/-- The mark that opens a line comment. -/
def commentMark : String := "//"

/-- The mark that ends a statement; a newline ends one too. -/
def terminatorMark : Char := ';'

/-- Is the lexeme a keyword? -/
def isKeyword (lexeme : String) : Bool := keywords.contains lexeme

/-- Is the lexeme the name of a built-in type? -/
def isTypeName (lexeme : String) : Bool := types.contains lexeme

/-- Is the lexeme an operator? -/
def isOperator (lexeme : String) : Bool := operators.contains lexeme

/-- Is the lexeme the mark of a line comment? -/
def isCommentMark (lexeme : String) : Bool := lexeme == commentMark

/-- Is the character a punctuation mark? -/
def isPunctuator (c : Char) : Bool := punctuators.contains c

/-- May the character follow the backslash of a char literal? -/
def isEscape (c : Char) : Bool := escapes.contains c

/-- Is the lexeme one that the language itself spells with a keyword, a type, an operator or the
comment mark? -/
def isFixedLexeme (lexeme : String) : Bool :=
  isKeyword lexeme || isTypeName lexeme || isCommentMark lexeme || isOperator lexeme

end RatLang
