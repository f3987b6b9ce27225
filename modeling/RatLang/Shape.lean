import RatLang.Json
import RatLang.Text.Quoted

/-!
# Shapes of values

A shape is the outline of a value for the two dumps that are made of it. The one is JSON, where a
record is an object and a variant an object with a single member, or a string if it holds nothing.
The other is a listing for readers, with names in front of records and variants and one part a
line.
-/

namespace RatLang

/-- The outline of a value. -/
inductive Shape where
  /-- A variant that holds nothing. -/
  | bare (name : String)
  | text (s : String)
  | number (n : Nat)
  /-- A value that may be missing, and is. -/
  | missing
  /-- A value that may be missing, and is not. -/
  | given (content : Shape)
  | list (items : List Shape)
  | record (name : String) (fields : List (String × Shape))
  /-- A variant that holds one value. -/
  | variant (name : String) (content : Shape)
  /-- A variant that holds fields. -/
  | recordVariant (name : String) (fields : List (String × Shape))
deriving Repr

namespace Shape

/-- The outline of a value that may be missing. -/
def ofOption {α : Type} (shape : α → Shape) : Option α → Shape
  | none => missing
  | some value => given (shape value)

mutual

/-- The JSON dump. -/
def toJson : Shape → Json
  | bare name => .string name
  | text s => .string s
  | number n => .number n
  | missing => .null
  | given content => content.toJson
  | list items => .array (itemsToJson items)
  | record _ fields => .object (fieldsToJson fields)
  | variant name content => .object [(name, content.toJson)]
  | recordVariant name fields => .object [(name, .object (fieldsToJson fields))]

/-- The JSON dumps of the items of a list. -/
def itemsToJson : List Shape → List Json
  | [] => []
  | item :: rest => item.toJson :: itemsToJson rest

/-- The members that the fields of a record become. -/
def fieldsToJson : List (String × Shape) → List (String × Json)
  | [] => []
  | (name, value) :: rest => (name, value.toJson) :: fieldsToJson rest

end

/-- The indentation of a listing at the given depth. -/
def indentation (depth : Nat) : String :=
  String.ofList (List.replicate (4 * depth) ' ')

/-- Parts between brackets, each on its own line with a comma behind it. -/
def listingBlock (opening closing : String) (depth : Nat) (parts : List String) : String :=
  opening ++ "\n" ++
    String.join (parts.map fun part => indentation (depth + 1) ++ part ++ ",\n") ++
    indentation depth ++ closing

mutual

/-- The listing, as it stands inside another one at the given depth. -/
def listingAt (depth : Nat) : Shape → String
  | bare name => name
  | text s => Text.quoted s
  | number n => toString n
  | missing => "None"
  | given content => listingBlock "Some(" ")" depth [content.listingAt (depth + 1)]
  | list items =>
    if items.isEmpty then "[]"
    else listingBlock "[" "]" depth (itemListings (depth + 1) items)
  | record name fields | recordVariant name fields =>
    listingBlock (name ++ " \x7b") "\x7d" depth (fieldListings (depth + 1) fields)
  | variant name content =>
    listingBlock (name ++ "(") ")" depth [content.listingAt (depth + 1)]

/-- The listings of the items of a list. -/
def itemListings (depth : Nat) : List Shape → List String
  | [] => []
  | item :: rest => item.listingAt depth :: itemListings depth rest

/-- The listings of fields, each behind its name. -/
def fieldListings (depth : Nat) : List (String × Shape) → List String
  | [] => []
  | (name, value) :: rest =>
    (name ++ ": " ++ value.listingAt depth) :: fieldListings depth rest

end

/-- The listing for readers. -/
def listing (shape : Shape) : String := shape.listingAt 0

end Shape

end RatLang
