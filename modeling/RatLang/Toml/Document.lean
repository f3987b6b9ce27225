import RatLang.Toml.Scalar
import RatLang.Toml.Table

/-!
# TOML documents

Reading a whole document: values that hold others, keys, headers and lines. `Toml.parse` gives the
table that a document describes, or nothing if it is not well formed. Values nest up to a fixed
depth.
-/

namespace RatLang.Toml

namespace Read

/-- Values, and the parts of a key, nest less deep than this. -/
def maxDepth : Nat := 80

/-- Drops spaces and tabs. -/
def skipBlanks (chars : List Char) : List Char := chars.dropWhile isInlineBlank

/-- Drops blanks, newlines and comments. `comment` says that the characters belong to a
comment. -/
def skipLines (comment : Bool) : List Char → List Char
  | [] => []
  | '\n' :: rest => skipLines false rest
  | '\r' :: '\n' :: rest => skipLines false rest
  | c :: rest =>
    if comment then
      if isCommentChar c then skipLines true rest else c :: rest
    else if isInlineBlank c then skipLines false rest
    else if c = '#' then skipLines true rest
    else c :: rest

/-- Reads the parts of a key, with dots between them. -/
def keyParts (chars : List Char) : Option (List String × List Char) :=
  match keyPart (skipBlanks chars) with
  | none => none
  | some (part, rest) =>
    match skipBlanks rest with
    | '.' :: more =>
      if more.length < chars.length then
        (keyParts more).map fun (parts, rest) => (part :: parts, rest)
      else none
    | rest => some ([part], rest)
termination_by chars.length

/-- Reads a key that has not too many parts. -/
def key : Reader (List String) := fun chars => do
  let (parts, rest) ← keyParts chars
  if parts.length < maxDepth then some (parts, rest) else none

/-- Reads the items of an array up to its closing bracket. A comma may follow the last item. -/
def arrayItems (item : Reader Toml) (chars : List Char) : Option (List Toml × List Char) :=
  match item chars with
  | none => none
  | some (value, rest) =>
    match skipLines false rest with
    | ']' :: rest => some ([value], rest)
    | ',' :: rest =>
      match skipLines false rest with
      | ']' :: rest => some ([value], rest)
      | more =>
        if more.length < chars.length then
          (arrayItems item more).map fun (values, rest) => (value :: values, rest)
        else none
    | _ => none
termination_by chars.length

/-- Reads an array after its opening bracket. -/
def array (item : Reader Toml) : Reader Toml := fun chars =>
  match skipLines false chars with
  | ']' :: rest => some (.array [], rest)
  | chars => (arrayItems item chars).map (·.map Toml.array id)

/-- Reads a key and its value. -/
def keyValue (item : Reader Toml) : Reader (List String × Toml) := fun chars => do
  let (path, rest) ← key chars
  let (_, rest) ← exactly '=' rest
  let (value, rest) ← item (skipBlanks rest)
  return ((path, value), rest)

/-- Gives a value to a key of a table. -/
def assignKey (table : Table) (path : List String) (value : Toml) : Option Table :=
  path.getLast?.bind fun name => table.assign path.dropLast name value

/-- Reads the members of an inline table up to its closing brace. No comma follows the last one. -/
def inlineMembers (item : Reader Toml) (table : Table) (chars : List Char) :
    Option (Table × List Char) :=
  match keyValue item chars with
  | none => none
  | some ((path, value), rest) =>
    match assignKey table path value with
    | none => none
    | some larger =>
      match skipBlanks rest with
      | '\x7d' :: rest => some (larger, rest)
      | ',' :: more =>
        if more.length < chars.length then inlineMembers item larger more else none
      | _ => none
termination_by chars.length

/-- Reads an inline table after its opening brace. -/
def inlineTable (item : Reader Toml) : Reader Toml := fun chars =>
  match skipBlanks chars with
  | '\x7d' :: rest => some (.table [], rest)
  | chars => (inlineMembers item (.empty .defined) chars).map (·.map Table.toToml id)

/-- Reads a value that holds others to less than the given depth. -/
def value : Nat → Reader Toml
  | 0 => scalar
  | depth + 1 => fun chars =>
    match chars with
    | '[' :: rest => if depth = 0 then none else array (value depth) rest
    | '\x7b' :: rest => if depth = 0 then none else inlineTable (value depth) rest
    | chars => scalar chars

/-- Reads to the end of a line on which only blanks and a comment are left. -/
def lineEnd (chars : List Char) : Option (List Char) :=
  let rest := match skipBlanks chars with
    | '#' :: rest => rest.dropWhile isCommentChar
    | rest => rest
  match rest with
  | [] => some []
  | '\n' :: rest => some rest
  | '\r' :: '\n' :: rest => some rest
  | _ => none

end Read

/-- A line that says something. -/
inductive Line where
  | header (path : List String)
  | arrayHeader (path : List String)
  | assignment (path : List String) (value : Toml)

namespace Read

/-- Reads a header after its opening bracket. -/
def header : Reader Line
  | '[' :: rest => do
    let (path, rest) ← key rest
    let (_, rest) ← exactly ']' rest
    let (_, rest) ← exactly ']' rest
    return (.arrayHeader path, rest)
  | chars => do
    let (path, rest) ← key chars
    let (_, rest) ← exactly ']' rest
    return (.header path, rest)

/-- Reads a line, which may be empty. -/
def line (chars : List Char) : Option (Option Line × List Char) :=
  match skipBlanks chars with
  | [] => some (none, [])
  | '[' :: rest => do
    let (found, rest) ← header rest
    let rest ← lineEnd rest
    return (some found, rest)
  | c :: rest =>
    if c = '#' ∨ c = '\n' ∨ c = '\r' then (lineEnd (c :: rest)).map fun rest => (none, rest)
    else do
      let ((path, value), rest) ← keyValue (value maxDepth) (c :: rest)
      let rest ← lineEnd rest
      return (some (.assignment path value), rest)

/-- Reads lines to the end of the text. -/
def lines (chars : List Char) : Option (List Line) :=
  match chars with
  | [] => some []
  | c :: rest =>
    match line (c :: rest) with
    | none => none
    | some (found, more) =>
      if more.length < rest.length + 1 then (lines more).map fun all => found.toList ++ all
      else none
termination_by chars.length

/-- Drops the mark with which a text in UTF-8 may open. -/
def dropByteOrderMark : List Char → List Char
  | '\ufeff' :: rest => rest
  | chars => chars

end Read

/-- A document while it is read: its table, and the path of the header that was read last. -/
structure Draft where
  root : Table
  current : List String

/-- Adds what a line says. -/
def Draft.add (draft : Draft) : Line → Option Draft
  | .header path => do
    let name ← path.getLast?
    let root ← draft.root.update .implied (Table.openTable name) path.dropLast
    return ⟨root, path⟩
  | .arrayHeader path => do
    let name ← path.getLast?
    let root ← draft.root.update .implied (Table.openArrayTable name) path.dropLast
    return ⟨root, path⟩
  | .assignment path value => do
    let root ← draft.root.update .implied (fun table => Read.assignKey table path value) draft.current
    return { draft with root }

/-- The entries of the table that a document describes. -/
def parse (text : String) : Option (List (String × Toml)) := do
  let found ← Read.lines (Read.dropByteOrderMark text.toList)
  let draft ← found.foldlM Draft.add ⟨.empty .defined, []⟩
  return Item.entriesToToml draft.root.entries

end RatLang.Toml
