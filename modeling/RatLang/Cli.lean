import RatLang.Cli.Arguments
import RatLang.Settings.Load

/-!
# The command line

A run of the program as a function from its arguments and its world to an exit code and the texts
for both output streams. Results go to standard output, or reports in JSON; the log and reports for
readers go to standard error.
-/

namespace RatLang.Cli

/-- The name of the program. -/
def programName : String := "ratc"

/-- The version of the program. -/
def version : String := "0.1.0"

/-- The system for which the program is made. -/
def system : String := "linux"

/-- What a run leaves behind. -/
structure Exit where
  code : Nat
  stdout : String := ""
  stderr : String := ""
deriving DecidableEq, Repr

/-- A short account of how the program is called. -/
def usage : String :=
  "Usage: ratc [-v|--verbose] [--config PATH] [--format pretty|json] [--no-color] COMMAND FILE\n" ++
  "\n" ++
  "Commands:\n" ++
  "  tokens  Print the token stream of a source file\n" ++
  "  parse   Print the syntax tree of a source file\n" ++
  "  check   Lex and parse a source file, reporting only errors\n"

/-- A character of a message as the log shows it. Characters that could steer a terminal are
written by their numbers. -/
def logChar (c : Char) : String :=
  if c = '\x1b' ∨ c = '\x07' ∨ c = '\x08' ∨ c = '\x0c' ∨ c = '\x7f' then
    "\\x" ++ Json.hexByte c.toNat
  else if 0x80 ≤ c.toNat ∧ c.toNat ≤ 0x9f then Text.numbered c
  else String.singleton c

/-- A line of the log, with its level at the right of five columns. -/
def logText (line : LogLine) : String :=
  let label := line.level.label
  String.ofList (List.replicate (5 - label.length) ' ') ++ label ++ " " ++
    String.join (line.message.toList.map logChar) ++ "\n"

/-- The lines of a log that a threshold admits. -/
def logTexts (threshold : LogLevel) (log : List LogLine) : String :=
  String.join ((log.filter fun line => threshold.admits line.level).map logText)

/-- The settings with the options of the command line applied to them. -/
def applyOptions (settings : Settings) (options : Options) : Settings where
  level := if options.verbose then .debug else settings.level
  style := if options.noColor then { settings.style with colors := false } else settings.style
  format := options.format.getD settings.format

/-- The settings for a run. -/
def resolveSettings (world : World) (options : Options) : Except Settings.LoadError Settings :=
  (Settings.load options.config world).map fun settings => applyOptions settings options

/-- What is printed when a command succeeds. -/
def output (world : World) (format : OutputFormat) (command : Command) (file : String) :
    Compile String :=
  match command with
  | .tokens => do
    let tokens ← Compile.fileTokens world file
    return match format with
      | .pretty => String.join (tokens.map fun token => token.text ++ "\n")
      | .json => (Shape.list (tokens.map Token.shape)).toJson.document
  | .parse => do
    let program ← Compile.fileProgram world file
    let shape := Shape.list (Stmt.shapes program)
    return match format with
      | .pretty => shape.listing ++ "\n"
      | .json => shape.toJson.document
  | .check => do
    let tokens ← Compile.fileTokens world file
    let program ← Compile.program tokens
    return match format with
      | .pretty =>
        "ok: " ++ file ++ " (" ++ toString tokens.length ++ " tokens, " ++
          toString program.length ++ " statements)\n"
      | .json =>
        (Json.object
          [("file", .string file), ("statements", .number program.length),
           ("tokens", .number tokens.length)]).document

/-- The source that a report quotes from. A file that cannot be opened has no lines. -/
def reportSource (world : World) (file : String) : Source × List LogLine :=
  match (Compile.openSource world file).outcome with
  | (.ok source, log) => (source, log)
  | (.error _, log) => (.ofString file "", log)

/-- The report of an error for readers, behind the log that is kept while it is made. -/
def report (world : World) (settings : Settings) (file : String) (diagnostic : Diagnostic) :
    String :=
  let (source, log) := reportSource world file
  let missing := (diagnostic.missingLine? settings.style source).toList.map fun cause =>
    (⟨.debug, "no snippet: " ++ cause.message⟩ : LogLine)
  logTexts settings.level (log ++ missing) ++ (diagnostic.render settings.style source).1

/-- Runs a command with the settings that hold for it. -/
def runCommand (world : World) (settings : Settings) (command : Command) (file : String) : Exit :=
  let opening : LogLine := ⟨.debug, programName ++ " " ++ version ++ " on " ++ system⟩
  let (result, log) := (output world settings.format command file).outcome
  let logged := logTexts settings.level (opening :: log)
  match result with
  | .ok text => ⟨0, text, logged⟩
  | .error error =>
    let diagnostic := error.diagnostic
    match settings.format with
    | .pretty => ⟨1, "", logged ++ report world settings file diagnostic⟩
    | .json => ⟨1, (diagnostic.toJson file).document, logged⟩

/-- A cause in a list of causes. Its further lines are indented below the first. -/
def numberedCause (number : Nat) (cause : String) : String :=
  "    " ++ toString number ++ ": " ++
    String.join (cause.toList.map fun c =>
      if c = '\n' then "\n       " else String.singleton c) ++ "\n"

/-- The account of settings that cannot be loaded. -/
def settingsFailure (error : Settings.LoadError) : String :=
  "Error: Failed to load configuration\n\nCaused by:\n" ++
    numberedCause 0 error.message ++ numberedCause 1 error.cause

/-- What a command line without a run leaves behind. -/
def stopped : Stop → Exit
  | .misuse => ⟨2, "", usage⟩
  | .help => ⟨0, usage, ""⟩
  | .version => ⟨0, programName ++ " " ++ version ++ "\n", ""⟩

/-- A whole run. -/
def run (args : List String) (world : World) : Exit :=
  match parseArguments args with
  | .error stop => stopped stop
  | .ok invocation =>
    match resolveSettings world invocation.options with
    | .error error => ⟨1, "", settingsFailure error⟩
    | .ok settings => runCommand world settings invocation.command invocation.file

/-- The environment variables that a run may look at. -/
def variableNames : List String :=
  [Settings.pathVariable, "XDG_CONFIG_HOME", "HOME", "APPDATA"]

/-- The paths that a run may look at, given the environment variables that are set. -/
def pathsOfInterest (args : List String) (environment : List (String × String)) : List String :=
  match parseArguments args with
  | .error _ => []
  | .ok invocation =>
    let world : World := ⟨environment, fun _ => .missing .notFound⟩
    [invocation.file, Settings.projectFile] ++ invocation.options.config.toList ++
      (world.env? Settings.pathVariable).toList ++ (Settings.userFile? world).toList

end RatLang.Cli
