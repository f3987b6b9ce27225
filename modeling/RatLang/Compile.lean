import RatLang.Lexer
import RatLang.LogLevel
import RatLang.Parser
import RatLang.Path
import RatLang.World

/-!
# Compiling a source

The way from a file or a text to its tokens and its program, with the errors that end it and the
log that is kept on the way. The stages are those of reading, lexing and parsing; an error names the
stage that has found it.
-/

namespace RatLang

/-- The extension of source files. -/
def sourceExtension : String := "rat"

/-- Why a file cannot be opened as a source. -/
inductive OpenError where
  | invalidExtension (path : String)
  | openFailed (path : String) (cause : ReadError)
deriving DecidableEq, Repr

/-- The wording of the error. -/
def OpenError.message : OpenError → String
  | invalidExtension path =>
    "invalid file extension: " ++ path ++ " (expected a ." ++ sourceExtension ++ " file)"
  | openFailed path cause => "unable to open file " ++ path ++ ": " ++ cause.message

/-- Why there is no program. -/
inductive CompileError where
  | opening (cause : OpenError)
  | lexing (cause : LexError)
  | parsing (cause : ParseError)
deriving DecidableEq, Repr

namespace CompileError

/-- The wording of the error. -/
def message : CompileError → String
  | opening cause => cause.message
  | lexing cause => cause.message
  | parsing cause => cause.message

/-- The place the error points at. -/
def position? : CompileError → Option Position
  | opening _ => none
  | lexing cause => cause.position?
  | parsing cause => some cause.position

/-- The stage that has found the error. -/
def stage : CompileError → String
  | opening _ | lexing (.seek _) => "source"
  | lexing _ => "lexer"
  | parsing _ => "parser"

end CompileError

/-- A line of the log. -/
structure LogLine where
  level : LogLevel
  message : String
deriving DecidableEq, Repr

/-- A computation that keeps a log and may end with an error. The log is kept in both cases. -/
abbrev Compile (α : Type) := ExceptT CompileError (StateM (List LogLine)) α

namespace Compile

/-- What a computation comes to, and its log. -/
def outcome {α : Type} (computation : Compile α) : Except CompileError α × List LogLine :=
  computation.run.run []

/-- What a computation comes to. -/
def result {α : Type} (computation : Compile α) : Except CompileError α :=
  computation.outcome.1

/-- Adds lines to the log. -/
def logAll (lines : List LogLine) : Compile Unit :=
  modify (· ++ lines)

/-- Adds a line for those who follow the work of the program. -/
def note (message : String) : Compile Unit :=
  logAll [⟨.debug, message⟩]

/-- The text of a source file. The extension is checked before the file is looked at. -/
def openSource (world : World) (path : String) : Compile Source := do
  if Path.extension? path ≠ some sourceExtension then
    throw (.opening (.invalidExtension path))
  match world.readText path with
  | .error cause => throw (.opening (.openFailed path cause))
  | .ok text =>
    note ("Opened " ++ path ++ " (" ++ toString text.utf8ByteSize ++ " bytes)")
    return .ofString path text

/-- The tokens of a source. -/
def tokens (source : Source) : Compile (List Token) := do
  note ("lexing " ++ source.name)
  let outcome := (Lexer.ofSource source).run
  let lexer := match outcome with
    | .ok _ lexer | .error _ lexer => lexer
  logAll (lexer.tokens.toList.map fun token => ⟨.trace, token.text⟩)
  match outcome with
  | .error cause _ => throw (.lexing cause)
  | .ok _ lexer =>
    let count := toString lexer.tokens.size
    note ("lexing complete: " ++ count ++ " tokens from " ++
      toString lexer.source.lineCount ++ " lines")
    note ("Tokenized into " ++ count ++ " tokens")
    return lexer.tokens.toList

/-- The program that tokens form. -/
def program (tokens : List Token) : Compile (List Stmt) := do
  note ("parsing " ++ toString tokens.length ++ " tokens")
  let outcome := (Parser.sequence false (.ofTokens tokens)).outcome
  let state := match outcome with
    | .ok _ state | .error _ state => state
  logAll (state.completed.reverse.map fun stmt =>
    ⟨.trace, "parsed " ++ stmt.kindName ++ " at " ++ stmt.position.text⟩)
  match outcome with
  | .error cause _ => throw (.parsing cause)
  | .ok program _ =>
    let count := toString program.length
    note ("parsing complete: " ++ count ++ " statements")
    note ("Parsing successful, got " ++ count ++ " statements")
    return program

/-- The tokens of a source file. -/
def fileTokens (world : World) (path : String) : Compile (List Token) := do
  tokens (← openSource world path)

/-- The program of a source file. -/
def fileProgram (world : World) (path : String) : Compile (List Stmt) := do
  program (← fileTokens world path)

/-- The program of a text. -/
def textProgram (name text : String) : Compile (List Stmt) := do
  note ("Compiling " ++ name ++ " (" ++ toString text.utf8ByteSize ++ " bytes)")
  program (← tokens (.ofString name text))

end Compile

/-- The program of a text, or the first error. -/
def compile (name text : String) : Except CompileError (List Stmt) :=
  (Compile.textProgram name text).result

end RatLang
