import RatLang.Diagnostic
import RatLang.LogLevel
import RatLang.Toml.Document

/-!
# Settings

What a user can set, and how settings are read from a TOML document. A document may leave out any
part; what it leaves out has its default, and what it says beyond the known parts is ignored.
-/

namespace RatLang

/-- The form in which results are written. -/
inductive OutputFormat where
  | pretty | json
deriving DecidableEq, Repr

namespace OutputFormat

/-- The name of a format. -/
def text : OutputFormat → String
  | pretty => "pretty"
  | json => "json"

/-- The format of an exact name. -/
def ofText? (name : String) : Option OutputFormat :=
  match name with
  | "pretty" => some pretty
  | "json" => some json
  | _ => none

end OutputFormat

/-- What a user can set. -/
structure Settings where
  /-- The level of the log. -/
  level : LogLevel := .info
  /-- How reports are shown. -/
  style : ReportStyle := {}
  /-- The form in which results are written. -/
  format : OutputFormat := .pretty
deriving DecidableEq, Repr

namespace Settings

/-- The entries of a section whose fields have the given names. A section may also list the values
of its fields in order. A date holds nothing that a section knows. -/
def section? (names : List String) : Toml → Option (List (String × Toml))
  | .table entries => some entries
  | .array items => some (names.zip items)
  | .datetime => some []
  | _ => none

/-- What a section of a document says. A section that is missing says what it does by default. -/
def sectionOf {α : Type} (names : List String) (read : List (String × Toml) → Option α)
    (default : α) (entries : List (String × Toml)) (name : String) : Option α :=
  match entries.lookup name with
  | none => some default
  | some value => (section? names value).bind read

/-- The value of a field, or its default if it is missing. -/
def field {α : Type} (read : Toml → Option α) (default : α) (entries : List (String × Toml))
    (name : String) : Option α :=
  match entries.lookup name with
  | none => some default
  | some value => read value

/-- A word that chooses between alternatives: a string, or the only name of a table that gives it
nothing. -/
def choice? : Toml → Option String
  | .string word => some word
  | .table [(word, .table [])] | .table [(word, .array [])] => some word
  | _ => none

/-- The level that a value names. -/
def level? (value : Toml) : Option LogLevel := (choice? value).bind LogLevel.ofText?

/-- The format that a value names. -/
def format? (value : Toml) : Option OutputFormat := (choice? value).bind OutputFormat.ofText?

/-- A truth value. -/
def flag? : Toml → Option Bool
  | .boolean b => some b
  | _ => none

/-- A single character. -/
def character? : Toml → Option Char
  | .string s =>
    match s.toList with
    | [c] => some c
    | _ => none
  | _ => none

/-- The level that the section of the log sets. -/
def levelOf (fields : List (String × Toml)) : Option LogLevel := field level? .info fields "level"

/-- What holds for a truth value that the section of reports leaves out. -/
def defaultFlag : Bool := true

/-- The indicator if the section of reports leaves it out. -/
def defaultIndicator : Char := '^'

/-- How the section of reports has them shown. -/
def styleOf (fields : List (String × Toml)) : Option ReportStyle := do
  return {
    colors := ← field flag? defaultFlag fields "colors"
    showSource := ← field flag? defaultFlag fields "show_source"
    indicator := ← field character? defaultIndicator fields "indicator" }

/-- The format that the section of the output sets. -/
def formatOf (fields : List (String × Toml)) : Option OutputFormat :=
  field format? .pretty fields "format"

/-- The settings that a document describes. A known part with a value that it cannot have spoils
the document. -/
def decode (entries : List (String × Toml)) : Option Settings := do
  return {
    level := ← sectionOf ["level"] levelOf .info entries "log"
    style := ← sectionOf ["colors", "show_source", "indicator"] styleOf {} entries "diagnostics"
    format := ← sectionOf ["format"] formatOf .pretty entries "output" }

/-- Reads settings from the text of a document. -/
def parse (text : String) : Option Settings := (Toml.parse text).bind decode

end Settings

end RatLang
