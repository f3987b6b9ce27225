import RatLang.Position
import RatLang.Vocabulary

/-!
# Tokens

A token is a lexeme with its kind and the position of its first character.
-/

namespace RatLang

/-- The kinds of lexemes. -/
inductive TokenKind where
  | identifier | keyword
  | numericLiteral | stringLiteral | charLiteral
  | punctuator | operator | type
  | commentSeparator | commentBody
  | statementTerminator
deriving DecidableEq, Repr

namespace TokenKind

/-- The kind as it is listed for a reader. -/
def text : TokenKind → String
  | identifier => "IDENTIFIER"
  | keyword => "KEYWORD"
  | numericLiteral => "NUMERIC_LITERAL"
  | stringLiteral => "STRING_LITERAL"
  | charLiteral => "CHAR_LITERAL"
  | punctuator => "PUNCTUATOR"
  | operator => "OPERATOR"
  | type => "TYPE"
  | commentSeparator => "COMMENT_SEPARATOR"
  | commentBody => "COMMENT_BODY"
  | statementTerminator => "STATEMENT_TERMINATOR"

/-- The name under which the kind is written in a dump. -/
def name : TokenKind → String
  | identifier => "Identifier"
  | keyword => "Keyword"
  | numericLiteral => "NumericLiteral"
  | stringLiteral => "StringLiteral"
  | charLiteral => "CharLiteral"
  | punctuator => "Punctuator"
  | operator => "Operator"
  | type => "Type"
  | commentSeparator => "CommentSeparator"
  | commentBody => "CommentBody"
  | statementTerminator => "StatementTerminator"

/-- Every kind, in the order of the definition. -/
def all : List TokenKind :=
  [identifier, keyword, numericLiteral, stringLiteral, charLiteral, punctuator, operator, type,
   commentSeparator, commentBody, statementTerminator]

end TokenKind

/-- A lexeme with its kind and the position of its first character. -/
structure Token where
  kind : TokenKind
  lexeme : String
  position : Position
deriving DecidableEq, Repr

namespace Token

/-- Has the token this kind and this spelling? -/
def is (t : Token) (kind : TokenKind) (lexeme : String) : Bool :=
  t.kind == kind && t.lexeme == lexeme

theorem is_iff {t : Token} {kind : TokenKind} {lexeme : String} :
    t.is kind lexeme ↔ t.kind = kind ∧ t.lexeme = lexeme := by
  simp [is]

/-- Does the token end a statement? -/
def isTerminator (t : Token) : Bool := t.kind == .statementTerminator

theorem isTerminator_iff {t : Token} : t.isTerminator ↔ t.kind = .statementTerminator := by
  simp [isTerminator]

/-- Is the token the mark or the body of a comment? -/
def isComment (t : Token) : Bool := t.kind == .commentSeparator || t.kind == .commentBody

/-- Is the token this punctuation mark? Only a lexeme of a single byte is. -/
def isPunct (t : Token) (c : Char) : Bool :=
  t.kind == .punctuator && t.lexeme == String.singleton c && c.utf8Size == 1

theorem isPunct_iff {t : Token} {c : Char} :
    t.isPunct c ↔ (t.kind = .punctuator ∧ t.lexeme = String.singleton c) ∧ c.utf8Size = 1 := by
  simp [isPunct]

theorem kind_of_isPunct {t : Token} {c : Char} (h : t.isPunct c) : t.kind = .punctuator :=
  (isPunct_iff.mp h).1.1

theorem lexeme_of_isPunct {t : Token} {c : Char} (h : t.isPunct c) :
    t.lexeme = String.singleton c :=
  (isPunct_iff.mp h).1.2

/-- The token as it is listed for a reader. -/
def text (t : Token) : String :=
  t.kind.text ++ " '" ++ t.lexeme ++ "' @ " ++ t.position.text

end Token

/-- A list without the terminators that directly follow another terminator. -/
def mergeTerminators : List Token → List Token
  | [] => []
  | t :: rest =>
    match mergeTerminators rest with
    | [] => [t]
    | next :: more =>
      if t.isTerminator && next.isTerminator then t :: more else t :: next :: more

end RatLang
