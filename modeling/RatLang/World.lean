/-!
# The world around a run

What a run can see of its surroundings: environment variables and files. The world is a value, so
everything the program does with it is a function.
-/

namespace RatLang

/-- Why a file cannot be read. -/
inductive ReadError where
  | notFound
  | notDirectory
  | isDirectory
  | nameTooLong
  /-- A path cannot hold the character zero. -/
  | zeroInName
  /-- The bytes are no text. -/
  | notText
  /-- Anything else, in the words of the system. -/
  | other (description : String)
deriving DecidableEq, Repr

/-- The wording of the error. -/
def ReadError.message : ReadError → String
  | notFound => "No such file or directory (os error 2)"
  | notDirectory => "Not a directory (os error 20)"
  | isDirectory => "Is a directory (os error 21)"
  | nameTooLong => "File name too long (os error 36)"
  | zeroInName => "file name contained an unexpected NUL byte"
  | notText => "stream did not contain valid UTF-8"
  | other description => description

/-- What a path leads to. -/
inductive Entry where
  | file (content : ByteArray)
  /-- Something is there, but it is no file that can be read. -/
  | unreadable (cause : ReadError)
  /-- Nothing is there. -/
  | missing (cause : ReadError)

/-- The surroundings of a run. -/
structure World where
  /-- The environment variables that are set. -/
  environment : List (String × String)
  /-- What each path leads to. -/
  entry : String → Entry

namespace World

/-- The value of an environment variable. -/
def env? (world : World) (name : String) : Option String :=
  world.environment.lookup name

/-- Does a path lead to something? -/
def hasEntry (world : World) (path : String) : Bool :=
  match world.entry path with
  | .file _ | .unreadable _ => true
  | .missing _ => false

/-- The bytes of a file. -/
def readBytes (world : World) (path : String) : Except ReadError ByteArray :=
  match world.entry path with
  | .file content => .ok content
  | .unreadable cause | .missing cause => .error cause

/-- The text of a file in UTF-8. -/
def readText (world : World) (path : String) : Except ReadError String :=
  match world.readBytes path with
  | .error cause => .error cause
  | .ok content =>
    match String.fromUTF8? content with
    | some text => .ok text
    | none => .error .notText

end World

end RatLang
