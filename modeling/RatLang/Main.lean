import RatLang.Cli

/-!
# The program

Looks up the environment variables and the files that a run may look at, and hands them over.
-/

namespace RatLang.Main

/-- What a path leads to. -/
def lookUp (path : String) : IO Entry := do
  match ← EIO.toBaseIO (IO.FS.readBinFile path) with
  | .ok content => return .file content
  | .error (.noFileOrDirectory ..) => return .missing .notFound
  | .error (.inappropriateType (some _) _ _) => return .missing .notDirectory
  | .error (.inappropriateType none _ _) => return .unreadable .isDirectory
  | .error cause => return .unreadable (.other (toString cause))

/-- The environment variables that are set among those a run may look at. -/
def lookUpVariables : IO (List (String × String)) := do
  let found ← Cli.variableNames.mapM fun name => return (name, ← IO.getEnv name)
  return found.filterMap fun (name, value) => value.map fun value => (name, value)

/-- The part of the world that a run may look at. -/
def lookUpWorld (args : List String) : IO World := do
  let environment ← lookUpVariables
  let entries ← (Cli.pathsOfInterest args environment).mapM fun path =>
    return (path, ← lookUp path)
  return ⟨environment, fun path => (entries.lookup path).getD (.missing .notFound)⟩

end RatLang.Main

/-- Runs the program on the arguments of the command line. -/
def main (args : List String) : IO UInt32 := do
  let exit := RatLang.Cli.run args (← RatLang.Main.lookUpWorld args)
  (← IO.getStdout).putStr exit.stdout
  (← IO.getStderr).putStr exit.stderr
  return UInt32.ofNat exit.code
