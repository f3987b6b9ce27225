/-!
# Levels of the log

The severity of a line of the log. A level admits the lines of its own severity and of every
graver one.
-/

namespace RatLang

/-- The severity of a line of the log, the least grave first. -/
inductive LogLevel where
  | trace | debug | info | warn | error
deriving DecidableEq, Repr

namespace LogLevel

/-- The name of a level, as settings and messages write it. -/
def text : LogLevel → String
  | trace => "trace"
  | debug => "debug"
  | info => "info"
  | warn => "warn"
  | error => "error"

/-- The name of a level in capitals, as the log writes it. -/
def label : LogLevel → String
  | trace => "TRACE"
  | debug => "DEBUG"
  | info => "INFO"
  | warn => "WARN"
  | error => "ERROR"

/-- The rank of a level; graver levels rank higher. -/
def rank : LogLevel → Nat
  | trace => 0
  | debug => 1
  | info => 2
  | warn => 3
  | error => 4

/-- Does a log of this level show lines of the other one? -/
def admits (threshold level : LogLevel) : Bool := threshold.rank ≤ level.rank

/-- The level of an exact name. -/
def ofText? (name : String) : Option LogLevel :=
  match name with
  | "trace" => some trace
  | "debug" => some debug
  | "info" => some info
  | "warn" => some warn
  | "error" => some error
  | _ => none

/-- Why a word names no level: the word in lower case. -/
structure Unknown where
  word : String
deriving DecidableEq, Repr

/-- The wording of the error. -/
def Unknown.message (unknown : Unknown) : String :=
  "unknown log level '" ++ unknown.word ++ "'"

/-- Reads the name of a level. Only Latin letters are compared without regard to case, and
`warning` is another name of `warn`. -/
def parse (word : String) : Except Unknown LogLevel :=
  let lower := String.ofList (word.toList.map Char.toLower)
  if lower = "warning" then .ok warn
  else
    match ofText? lower with
    | some level => .ok level
    | none => .error ⟨lower⟩

theorem ofText?_text (level : LogLevel) : ofText? level.text = some level := by
  cases level <;> rfl

end LogLevel

end RatLang
