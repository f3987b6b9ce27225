/-!
# Classes of characters

Membership in the two Unicode properties that the lexical rules refer to: `White_Space` and the
general category `Cc` (control). Both are small and closed: the standard promises that `Cc` never
changes, and `White_Space` has been stable since version 6.3.
-/

namespace RatLang.Text

/-- Is the character a member of `White_Space`? -/
def isBlank (c : Char) : Bool :=
  let n := c.toNat
  (9 ≤ n && n ≤ 13) || n == 32 || n == 0x85 || n == 0xA0 || n == 0x1680 ||
  (0x2000 ≤ n && n ≤ 0x200A) || n == 0x2028 || n == 0x2029 || n == 0x202F || n == 0x205F ||
  n == 0x3000

/-- Is the character a member of the category `Cc`? -/
def isControl (c : Char) : Bool :=
  let n := c.toNat
  n ≤ 0x1F || (0x7F ≤ n && n ≤ 0x9F)

end RatLang.Text
