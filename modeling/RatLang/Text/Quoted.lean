import RatLang.Text.DefaultIgnorable
import RatLang.Text.GraphemeExtend
import RatLang.Text.Unprintable

/-!
# Quoted text

The form in which a text is shown inside a listing: between double quotes, with a backslash before
quotes and backslashes, short escapes for the usual controls, and the number of every character
that would not be seen by itself: one that has no picture, one that is not shown, and one that is
drawn upon its neighbor.
-/

namespace RatLang.Text

/-- The digits of a number in base sixteen, in lower case and without leading zeros. -/
def hexDigits (n : Nat) : String := String.ofList (Nat.toDigits 16 n)

/-- A character by its number. -/
def numbered (c : Char) : String := "\\u\x7b" ++ hexDigits c.toNat ++ "\x7d"

/-- Is the character drawn upon the one before it? The halfwidth sound marks of Katakana extend
that one as well, but they stand in a place of their own. -/
def isDrawnUpon (c : Char) : Bool :=
  isGraphemeExtend c && c != '\uff9e' && c != '\uff9f'

/-- Is the character not seen when it stands by itself? -/
def isHidden (c : Char) : Bool :=
  isDrawnUpon c || isDefaultIgnorable c || isUnprintable c

/-- A character as it is written between quotes of the given kind. -/
def escaped (quote c : Char) : String :=
  if c = '\x00' then "\\0"
  else if c = '\t' then "\\t"
  else if c = '\r' then "\\r"
  else if c = '\n' then "\\n"
  else if c = quote || c = '\\' then String.ofList ['\\', c]
  else if ' ' ≤ c && c ≤ '~' then String.singleton c
  else if isHidden c then numbered c
  else String.singleton c

/-- A text between double quotes. -/
def quoted (text : String) : String :=
  "\"" ++ String.join (text.toList.map (escaped '"')) ++ "\""

/-- A character between single quotes. -/
def quotedChar (c : Char) : String :=
  "'" ++ escaped '\'' c ++ "'"

example : quoted "\uff8a\uff9e\u3164" = "\"\uff8a\uff9e\\u\x7b3164\x7d\"" := by
  decide +kernel

end RatLang.Text
