/-!
# JSON documents

The values of JSON that the program writes, and their two written forms: on one line, and spread
over lines with two spaces of indentation a level. In a string only quotes, backslashes and the
characters below the space are escaped.
-/

namespace RatLang

/-- A JSON value without booleans and fractions. The members of an object keep their order. -/
inductive Json where
  | null
  | number (n : Nat)
  | string (s : String)
  | array (items : List Json)
  | object (members : List (String × Json))
deriving Repr

namespace Json

/-- A number below 256 by two hexadecimal digits. -/
def hexByte (n : Nat) : String :=
  String.ofList [Nat.digitChar (n / 16), Nat.digitChar (n % 16)]

/-- A character as it is written in a string. -/
def escaped (c : Char) : String :=
  if c = '"' then "\\\""
  else if c = '\\' then "\\\\"
  else if c = '\x08' then "\\b"
  else if c = '\t' then "\\t"
  else if c = '\n' then "\\n"
  else if c = '\x0c' then "\\f"
  else if c = '\r' then "\\r"
  else if c.toNat < 0x20 then "\\u00" ++ hexByte c.toNat
  else String.singleton c

/-- A string between quotes. -/
def quoted (s : String) : String :=
  "\"" ++ String.join (s.toList.map escaped) ++ "\""

mutual

/-- The form on one line, without any space. -/
def compact : Json → String
  | null => "null"
  | number n => toString n
  | string s => quoted s
  | array items => "[" ++ String.intercalate "," (compactItems items) ++ "]"
  | object members => "\x7b" ++ String.intercalate "," (compactMembers members) ++ "\x7d"

/-- The items of an array, each on its own. -/
def compactItems : List Json → List String
  | [] => []
  | item :: rest => item.compact :: compactItems rest

/-- The members of an object, each on its own. -/
def compactMembers : List (String × Json) → List String
  | [] => []
  | (key, value) :: rest => (quoted key ++ ":" ++ value.compact) :: compactMembers rest

end

/-- The start of a line at the given depth. -/
def lineStart (depth : Nat) : String :=
  "\n" ++ String.ofList (List.replicate (2 * depth) ' ')

/-- The parts of an array or an object, each on its own line, between brackets. -/
def block (opening closing : String) (depth : Nat) (parts : List String) : String :=
  if parts.isEmpty then opening ++ closing
  else
    opening ++ lineStart (depth + 1) ++
      String.intercalate ("," ++ lineStart (depth + 1)) parts ++ lineStart depth ++ closing

mutual

/-- The form over several lines, as it stands inside a document at the given depth. -/
def prettyAt (depth : Nat) : Json → String
  | null => "null"
  | number n => toString n
  | string s => quoted s
  | array items => block "[" "]" depth (prettyItems (depth + 1) items)
  | object members => block "\x7b" "\x7d" depth (prettyMembers (depth + 1) members)

/-- The items of an array, each on its own. -/
def prettyItems (depth : Nat) : List Json → List String
  | [] => []
  | item :: rest => item.prettyAt depth :: prettyItems depth rest

/-- The members of an object, each on its own. -/
def prettyMembers (depth : Nat) : List (String × Json) → List String
  | [] => []
  | (key, value) :: rest =>
    (quoted key ++ ": " ++ value.prettyAt depth) :: prettyMembers depth rest

end

/-- The form over several lines. -/
def pretty (json : Json) : String := json.prettyAt 0

/-- A document as it is written to a stream: the form over several lines and a newline. -/
def document (json : Json) : String := json.pretty ++ "\n"

/-- A number, or null in its absence. -/
def ofNat? : Option Nat → Json
  | some n => .number n
  | none => .null

end Json

end RatLang
