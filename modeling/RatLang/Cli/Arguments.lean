import RatLang.Settings

/-!
# Arguments of the command line

A command line has options, a subcommand, and a file. The options may stand in front of the
subcommand or behind it, and each may be given once in either place; the place behind the subcommand
wins. The value of an option and the file are checked when the next part of the line has been
understood, so a request for help that comes first is answered first.
-/

namespace RatLang.Cli

/-- What the program is asked to do with a file. -/
inductive Command where
  | tokens | parse | check
deriving DecidableEq, Repr

/-- The command of a name. -/
def Command.ofName? (name : String) : Option Command :=
  match name with
  | "tokens" => some .tokens
  | "parse" => some .parse
  | "check" => some .check
  | _ => none

/-- The options that hold for a run. -/
structure Options where
  verbose : Bool := false
  noColor : Bool := false
  config : Option String := none
  format : Option OutputFormat := none
deriving DecidableEq, Repr

/-- A command line that asks for a run. -/
structure Invocation where
  options : Options
  command : Command
  file : String
deriving DecidableEq, Repr

/-- Why a command line asks for no run. -/
inductive Stop where
  | misuse | help | version
deriving DecidableEq, Repr

/-- The parts of a command line that hold a value. -/
inductive Slot where
  | config | format | file
deriving DecidableEq, Repr

/-- What the last part of the line has left open. -/
inductive Pending where
  /-- An option that still needs its value. -/
  | awaits (slot : Slot)
  /-- A value that has not been checked. -/
  | unchecked (slot : Slot) (value : String)
deriving DecidableEq, Repr

/-- What has been read of one part of the line, in front of the subcommand or behind it. -/
structure Reading where
  options : Options := {}
  file : Option String := none
  pending : Option Pending := none
  /-- Is every part that follows a file, whatever it looks like? -/
  onlyFiles : Bool := false
deriving DecidableEq, Repr

namespace Reading

/-- Puts a value into its slot. A slot takes one value, and the empty text is none. -/
def store (reading : Reading) (slot : Slot) (value : String) : Except Stop Reading :=
  let options := reading.options
  match slot with
  | .config =>
    if options.config.isSome || value.isEmpty then .error .misuse
    else .ok { reading with options := { options with config := some value } }
  | .format =>
    match options.format, OutputFormat.ofText? value with
    | none, some format => .ok { reading with options := { options with format := some format } }
    | _, _ => .error .misuse
  | .file =>
    if reading.file.isSome || value.isEmpty then .error .misuse
    else .ok { reading with file := some value }

/-- Closes what the last part of the line has left open. -/
def settle (reading : Reading) : Except Stop Reading :=
  let closed := { reading with pending := none }
  match reading.pending with
  | none => .ok closed
  | some (.awaits _) => .error .misuse
  | some (.unchecked slot value) => closed.store slot value

/-- Sets the flag for more talk, which may be set once. -/
def setVerbose (reading : Reading) : Except Stop Reading := do
  let reading ← reading.settle
  if reading.options.verbose then .error .misuse
  else .ok { reading with options := { reading.options with verbose := true } }

/-- Sets the flag against colors, which may be set once. -/
def setNoColor (reading : Reading) : Except Stop Reading := do
  let reading ← reading.settle
  if reading.options.noColor then .error .misuse
  else .ok { reading with options := { reading.options with noColor := true } }

/-- Answers a request that ends the reading. -/
def stopWith (reading : Reading) (stop : Stop) : Except Stop Reading := do
  let _ ← reading.settle
  .error stop

/-- Opens an option that takes a value. A value that is attached is stored at once. -/
def openOption (reading : Reading) (slot : Slot) (attached : Option String) :
    Except Stop Reading := do
  let reading ← reading.settle
  match attached with
  | some value => reading.store slot value
  | none => .ok { reading with pending := some (.awaits slot) }

/-- Reads an option by its long name. Flags take no value. -/
def longOption (reading : Reading) (atRoot : Bool) (name : String) (attached : Option String) :
    Except Stop Reading :=
  match name, attached with
  | "verbose", none => reading.setVerbose
  | "no-color", none => reading.setNoColor
  | "help", none => reading.stopWith .help
  | "version", none => if atRoot then reading.stopWith .version else .error .misuse
  | "config", attached => reading.openOption .config attached
  | "format", attached => reading.openOption .format attached
  | _, _ => .error .misuse

/-- Reads flags by their letters. -/
def shortOptions (atRoot : Bool) : Reading → List Char → Except Stop Reading
  | reading, [] => .ok reading
  | reading, letter :: rest =>
    if letter = 'v' then do
      let reading ← reading.setVerbose
      reading.shortOptions atRoot rest
    else if letter = 'h' then reading.stopWith .help
    else if letter = 'V' && atRoot then reading.stopWith .version
    else .error .misuse

/-- Reads a part that is no option. -/
def plain (reading : Reading) (atRoot : Bool) (part : String) : Except Stop Reading :=
  match reading.onlyFiles, reading.pending with
  | false, some (.awaits slot) => .ok { reading with pending := some (.unchecked slot part) }
  | _, _ => do
    let reading ← reading.settle
    if atRoot || reading.file.isSome then .error .misuse
    else .ok { reading with pending := some (.unchecked .file part) }

/-- Splits a long option at its first equals sign. -/
def splitAttached (option : List Char) : String × Option String :=
  let name := option.takeWhile (· != '=')
  match option.drop name.length with
  | [] => (String.ofList name, none)
  | _ :: value => (String.ofList name, some (String.ofList value))

/-- Reads one part of the line. -/
def step (reading : Reading) (atRoot : Bool) (part : String) : Except Stop Reading :=
  if reading.onlyFiles then reading.plain atRoot part
  else
    match part.toList with
    | ['-', '-'] => .ok { reading with onlyFiles := true }
    | '-' :: '-' :: option =>
      let (name, attached) := splitAttached option
      reading.longOption atRoot name attached
    | '-' :: c :: letters => reading.shortOptions atRoot (c :: letters)
    | _ => reading.plain atRoot part

/-- Can the next part be a subcommand? It cannot where a value is awaited. -/
def expectsCommand (reading : Reading) : Bool :=
  !reading.onlyFiles &&
    match reading.pending with
    | some (.awaits _) => false
    | _ => true

end Reading

/-- Reads the parts behind the subcommand. -/
def readArguments : Reading → List String → Except Stop Reading
  | reading, [] => reading.settle
  | reading, part :: rest => do
    let reading ← reading.step false part
    readArguments reading rest

/-- The answer to a request for help, with the names of the subcommands that it asks about. -/
def helpRequest : List String → Stop
  | [] => .help
  | [name] => if name = "help" || (Command.ofName? name).isSome then .help else .misuse
  | _ => .misuse

/-- The options of both places together. -/
def Options.override (outer inner : Options) : Options where
  verbose := outer.verbose || inner.verbose
  noColor := outer.noColor || inner.noColor
  config := inner.config <|> outer.config
  format := inner.format <|> outer.format

/-- Reads a command line from the part where the subcommand may stand. -/
def readInvocation : Reading → List String → Except Stop Invocation
  | _, [] => .error .misuse
  | outer, part :: rest =>
    if outer.expectsCommand && part = "help" then .error (helpRequest rest)
    else
      match outer.expectsCommand, Command.ofName? part with
      | true, some command => do
        let inner ← readArguments {} rest
        let outer ← outer.settle
        match inner.file with
        | some file => .ok ⟨outer.options.override inner.options, command, file⟩
        | none => .error .misuse
      | _, _ => do
        let outer ← outer.step true part
        readInvocation outer rest

/-- Reads a command line. -/
def parseArguments (args : List String) : Except Stop Invocation := readInvocation {} args

end RatLang.Cli
