import RatLang.Path
import RatLang.Settings
import RatLang.World

/-!
# Finding the settings

Settings come from one source: the path given on the command line, the path in the environment, the
file of the project, the file of the user, or nowhere. The first of these that is there is used, and
if it cannot be read the later ones are not looked at.
-/

namespace RatLang.Settings

/-- The environment variable that names a file of settings. -/
def pathVariable : String := "RATC_CONFIG"

/-- The file of settings in the working directory. -/
def projectFile : String := "ratc.toml"

/-- Why settings cannot be loaded. -/
inductive LoadError where
  | unreadable (path : String) (cause : ReadError)
  | malformed (path : String)
deriving DecidableEq, Repr

namespace LoadError

/-- The cause behind the error. -/
def cause : LoadError → String
  | unreadable _ cause => cause.message
  | malformed path => "the settings in " ++ path ++ " are malformed"

/-- The wording of the error. -/
def message : LoadError → String
  | unreadable path cause => "cannot read config " ++ path ++ ": " ++ cause.message
  | malformed path => "config parse error: " ++ (malformed path).cause

end LoadError

/-- The directory for the settings of the user. -/
def userDirectory? (world : World) : Option String :=
  match world.env? "XDG_CONFIG_HOME" with
  | some directory => some (Path.join directory "ratc")
  | none =>
    match world.env? "HOME" with
    | some home => some (Path.join (Path.join home ".config") "ratc")
    | none => (world.env? "APPDATA").map (Path.join · "ratc")

/-- The file with the settings of the user. -/
def userFile? (world : World) : Option String :=
  (userDirectory? world).map (Path.join · "config.toml")

/-- The file that settings are to be read from. Without one, the defaults hold. -/
def chosenFile? (explicit : Option String) (world : World) : Option String :=
  match explicit with
  | some path => some path
  | none =>
    match world.env? pathVariable with
    | some path => some path
    | none =>
      if world.hasEntry projectFile then some projectFile
      else (userFile? world).filter world.hasEntry

/-- Reads settings from a file. -/
def loadFile (world : World) (path : String) : Except LoadError Settings :=
  match world.readText path with
  | .error cause => .error (.unreadable path cause)
  | .ok text =>
    match parse text with
    | some settings => .ok settings
    | none => .error (.malformed path)

/-- The settings of the first source that is there. -/
def load (explicit : Option String) (world : World) : Except LoadError Settings :=
  match chosenFile? explicit world with
  | some path => loadFile world path
  | none => .ok {}

end RatLang.Settings
