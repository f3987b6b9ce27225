/-!
# Paths

Paths are texts whose parts are separated by slashes. Empty parts and single dots add nothing, so
they are left out when a path is taken apart, but a path is shown and opened as it was written.
-/

namespace RatLang.Path

/-- The parts between the slashes of a path, empty ones included. -/
def parts (path : String) : List String :=
  (path.toList.splitOn '/').map String.ofList

/-- The name of what a path leads to: its last part, if that is a name. -/
def fileName? (path : String) : Option String :=
  match ((parts path).filter fun part => part ≠ "" ∧ part ≠ ".").getLast? with
  | some ".." => none
  | last => last

/-- What follows the last dot of a name. A dot at the front of a name opens no extension. -/
def extensionOf? (name : String) : Option String :=
  let chars := name.toList
  let reversed := chars.reverse.takeWhile (· != '.')
  if reversed.length + 1 < chars.length then some (String.ofList reversed.reverse) else none

/-- The extension of the file that a path leads to. -/
def extension? (path : String) : Option String :=
  (fileName? path).bind extensionOf?

/-- The path of a name below a directory. -/
def join (directory name : String) : String :=
  if directory.isEmpty then name
  else if directory.toList.getLast? = some '/' then directory ++ name
  else directory ++ "/" ++ name

end RatLang.Path
