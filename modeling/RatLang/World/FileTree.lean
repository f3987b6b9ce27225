import RatLang.Path
import RatLang.World

/-!
# File trees

A tree of files below a working directory, and how paths lead through it. Outside of the tree there
are only directories in which nothing is found.
-/

namespace RatLang

/-- The files below a directory, each by the names that lead to it. Directories on the way to a
file need not be listed. -/
structure FileTree where
  files : List (List String × ByteArray)
  directories : List (List String)

namespace FileTree

/-- Where a path has led so far: to a file, to a directory of the tree, or out of the tree. -/
inductive Place where
  | file (content : ByteArray)
  | directory (names : List String)
  | outside

/-- What the names lead to. -/
def find? (tree : FileTree) (names : List String) : Option Place :=
  match tree.files.lookup names with
  | some content => some (.file content)
  | none =>
    let isAbove (other : List String) : Bool := names.isPrefixOf other
    if names.isEmpty || tree.directories.any isAbove || tree.files.any fun file => isAbove file.1
    then some (.directory names)
    else none

/-- The longest name that a file can have, in bytes. -/
def maxNameSize : Nat := 255

/-- The longest path that can be followed, in bytes. -/
def maxPathSize : Nat := 4095

/-- Follows one part of a path. An empty part or a dot stays in place, but only a directory can be
stayed in. -/
def step (tree : FileTree) (place : Place) (part : String) : Except ReadError Place :=
  match place with
  | .file _ => .error .notDirectory
  | .outside =>
    if part = "" ∨ part = "." ∨ part = ".." then .ok .outside
    else if maxNameSize < part.utf8ByteSize then .error .nameTooLong
    else .error .notFound
  | .directory names =>
    if part = "" ∨ part = "." then .ok place
    else if part = ".." then
      if names.isEmpty then .ok .outside else .ok (.directory names.dropLast)
    else if maxNameSize < part.utf8ByteSize then .error .nameTooLong
    else
      match tree.find? (names ++ [part]) with
      | some next => .ok next
      | none => .error .notFound

/-- Follows the parts of a path. -/
def walk (tree : FileTree) : Place → List String → Except ReadError Place
  | place, [] => .ok place
  | place, part :: rest =>
    match tree.step place part with
    | .ok next => tree.walk next rest
    | .error cause => .error cause

/-- What a path leads to from the working directory. -/
def entry (tree : FileTree) (path : String) : Entry :=
  if path.toList.contains '\x00' then .missing .zeroInName
  else if path.isEmpty then .missing .notFound
  else if maxPathSize < path.utf8ByteSize then .missing .nameTooLong
  else
    let start : Place := if path.startsWith "/" then .outside else .directory []
    match tree.walk start (Path.parts path) with
    | .ok (.file content) => .file content
    | .ok _ => .unreadable .isDirectory
    | .error cause => .missing cause

end FileTree

end RatLang
