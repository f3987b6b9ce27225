/-!
# TOML values

What a TOML document says once it is read: tables of named values. The values that no setting uses
keep no more than their kind.
-/

namespace RatLang

/-- A TOML value. The names in a table are distinct. -/
inductive Toml where
  | string (s : String)
  | integer (n : Int)
  | float
  | boolean (b : Bool)
  | datetime
  | array (items : List Toml)
  | table (entries : List (String × Toml))
deriving Repr

end RatLang
