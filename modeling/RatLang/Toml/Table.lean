import RatLang.Toml

/-!
# Building tables

A document defines its tables piece by piece: headers and dotted keys name tables that may not be
there yet, and what was defined in one way may not be extended in another. The tables of this module
remember how they came to be, until `Table.toToml` forgets it.
-/

namespace RatLang.Toml

/-- How a table came to be. -/
inductive Origin where
  /-- A header, or the braces of an inline table. -/
  | defined
  /-- A longer header that leads through it. -/
  | implied
  /-- A dotted key that leads through it. -/
  | dotted
deriving DecidableEq, Repr

mutual

/-- What a name stands for while a document is read. -/
inductive Item where
  | value (v : Toml)
  | table (t : Table)
  /-- The tables of an array that is written table by table, the last one first. -/
  | tables (current : Table) (earlier : List Table)

/-- A table that may still grow. -/
inductive Table where
  | mk (origin : Origin) (entries : List (String × Item))

end

namespace Table

/-- How the table came to be. -/
def origin : Table → Origin
  | mk origin _ => origin

/-- The names of the table and what they stand for. -/
def entries : Table → List (String × Item)
  | mk _ entries => entries

/-- The table without entries. -/
def empty (origin : Origin) : Table := mk origin []

/-- What a name stands for. -/
def find? (table : Table) (name : String) : Option Item :=
  table.entries.lookup name

/-- Replaces what a name stands for, or adds the name. -/
def set (table : Table) (name : String) (item : Item) : Table :=
  let rec replace : List (String × Item) → List (String × Item)
    | [] => [(name, item)]
    | (other, old) :: rest =>
      if other = name then (name, item) :: rest else (other, old) :: replace rest
  mk table.origin (replace table.entries)

/-- Changes the table that a path leads to. Tables that are missing on the way come to be in the
given way. A dotted key leads through no table that a header has defined, and nothing leads through
a value. -/
def update (missing : Origin) (change : Table → Option Table) :
    List String → Table → Option Table
  | [], outer => change outer
  | name :: path, outer =>
    match outer.find? name with
    | none =>
      (update missing change path (empty missing)).map fun inner => outer.set name (.table inner)
    | some (.value _) => none
    | some (.table inner) =>
      if missing = .dotted ∧ inner.origin = .defined then none
      else (update missing change path inner).map fun inner => outer.set name (.table inner)
    | some (.tables current earlier) =>
      (update missing change path current).map fun current =>
        outer.set name (.tables current earlier)

/-- Gives a new name a value. A table can only take names in the way in which it came to be: by
dotted keys, or by its own lines. -/
def define (name : String) (value : Toml) (dotted : Bool) (table : Table) : Option Table :=
  if (table.origin == .dotted) != dotted then none
  else
    match table.find? name with
    | some _ => none
    | none => some (table.set name (.value value))

/-- Gives the value to a key, whose last part is the name. -/
def assign (path : List String) (name : String) (value : Toml) (table : Table) : Option Table :=
  update .dotted (define name value (!path.isEmpty)) path table

/-- Opens the table of a header. It may be there already if only longer headers have led through
it. -/
def openTable (name : String) (table : Table) : Option Table :=
  match table.find? name with
  | none => some (table.set name (.table (empty .defined)))
  | some (.table (mk .implied entries)) => some (table.set name (.table (mk .defined entries)))
  | some _ => none

/-- Opens one more table of an array. -/
def openArrayTable (name : String) (table : Table) : Option Table :=
  match table.find? name with
  | none => some (table.set name (.tables (empty .defined) []))
  | some (.tables current earlier) =>
    some (table.set name (.tables (empty .defined) (current :: earlier)))
  | some _ => none

end Table

mutual

/-- The value that an item has become. -/
def Item.toToml : Item → Toml
  | .value v => v
  | .table t => t.toToml
  | .tables current earlier => .array (Table.toTomls earlier [current.toToml])

/-- The value that a table has become. -/
def Table.toToml : Table → Toml
  | .mk _ entries => .table (Item.entriesToToml entries)

/-- The values that entries have become. -/
def Item.entriesToToml : List (String × Item) → List (String × Toml)
  | [] => []
  | (name, item) :: rest => (name, item.toToml) :: Item.entriesToToml rest

/-- The values of tables that are listed last one first, in front of those that follow. -/
def Table.toTomls : List Table → List Toml → List Toml
  | [], following => following
  | first :: rest, following => Table.toTomls rest (first.toToml :: following)

end

end RatLang.Toml
