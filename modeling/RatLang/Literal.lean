import RatLang.Symbol
import RatLang.Text.Class
import RatLang.Vocabulary

/-!
# Names and literals

Which lexemes are names, numbers and char literals, which characters may stand in a literal, and
which type the suffix of a number gives it.
-/

namespace RatLang

/-- May the character stand inside a name? -/
def isNameChar (c : Char) : Bool := c.isAlphanum || c == '_'

/-- May the character open a name? Digits may not. -/
def isNameStart (c : Char) : Bool := c.isAlpha || c == '_'

/-- May the character stand inside a string literal? -/
def isStringChar (c : Char) : Bool := !Text.isControl c || Text.isBlank c

/-- May the character stand inside a char literal? -/
def isCharLiteralChar (c : Char) : Bool := !Text.isControl c

/-- Is the lexeme a name by its characters? Keywords and types are too. -/
def isName (lexeme : String) : Bool :=
  match lexeme.toList with
  | [] => false
  | first :: rest => isNameStart first && rest.all isNameChar

namespace Numeric

/-- What may follow the digits of a floating number or of a plain one: a point, more digits and
the mark `f` or `d`, each of them optional. -/
def isFloatTail (tail : List Char) : Bool :=
  let fraction := match tail with
    | '.' :: rest => rest
    | _ => tail
  match fraction.dropWhile Char.isDigit with
  | [] => true
  | [c] => c == 'd' || c == 'f'
  | _ => false

/-- What may follow the digits of an integer: the mark `u` and a width, both optional. -/
def isIntegerTail (tail : List Char) : Bool :=
  let width := match tail with
    | 'u' :: rest => rest
    | _ => tail
  match width with
  | [] => true
  | [c] => c == 'i' || c == 'c' || c == 'l' || c == 's'
  | _ => false

/-- Digits, followed by one of the two tails. -/
def hasShape (chars : List Char) : Bool :=
  let tail := chars.dropWhile Char.isDigit
  !(chars.takeWhile Char.isDigit).isEmpty && (isFloatTail tail || isIntegerTail tail)

end Numeric

/-- Is the lexeme a number? The unsigned mark excludes every sign of a floating number. -/
def isNumeric (lexeme : String) : Bool :=
  let chars := lexeme.toList
  let unsigned := chars.contains 'u'
  let floating := chars.contains 'f' || chars.contains 'd' || chars.contains '.'
  Numeric.hasShape chars && !(unsigned && floating)

/-- The type that the suffix of a number gives it. Without a suffix a point makes a double, and
its absence an int. -/
def numericType (lexeme : String) : Symbol :=
  let chars := lexeme.toList
  let unsigned := chars.contains 'u'
  match chars.getLast? with
  | some 'f' => .typeFloat
  | some 'd' => .typeDouble
  | last =>
    if chars.contains '.' then .typeDouble
    else match last, unsigned with
      | some 'l', true => .typeUlong
      | some 'l', false => .typeLong
      | some 's', true => .typeUshort
      | some 's', false => .typeShort
      | some 'c', true => .typeUchar
      | some 'c', false => .typeChar
      | _, true => .typeUint
      | _, false => .typeInt

/-- Is the lexeme a char literal: one character other than a backslash, or a backslash and an
escape, between quotes? -/
def isCharLiteral (lexeme : String) : Bool :=
  match lexeme.toList with
  | [opening, c, closing] => opening == '\'' && c != '\\' && closing == '\''
  | [opening, mark, e, closing] =>
    opening == '\'' && mark == '\\' && isEscape e && closing == '\''
  | _ => false

end RatLang
