/-!
# Positions in a source text

A position names a character of a text by its line and its column, both counted from one. Columns
count characters, not bytes, and positions are ordered as the characters they name.
-/

namespace RatLang

/-- The line and the column of a character, both counted from one. -/
structure Position where
  line : Nat
  column : Nat
deriving DecidableEq, Repr

namespace Position

/-- The position of the first character of a text. -/
def start : Position := ⟨1, 1⟩

instance : Inhabited Position := ⟨start⟩

/-- Lines come before columns. -/
instance : Ord Position :=
  ⟨fun a b => (compare a.line b.line).then (compare a.column b.column)⟩

/-- The written form, `line:column`. -/
def text (p : Position) : String :=
  toString p.line ++ ":" ++ toString p.column

/-- The position of the character that follows `c`, if `c` stands at `p`: only a newline opens
a line. -/
def next (p : Position) (c : Char) : Position :=
  if c = '\n' then ⟨p.line + 1, 1⟩ else ⟨p.line, p.column + 1⟩

/-- The position that is reached from `p` by reading the given characters. -/
def after (p : Position) (chars : List Char) : Position :=
  chars.foldl next p

@[simp] theorem after_nil (p : Position) : p.after [] = p := rfl

@[simp] theorem after_cons (p : Position) (c : Char) (chars : List Char) :
    p.after (c :: chars) = (p.next c).after chars := rfl

theorem after_append (p : Position) (a b : List Char) :
    p.after (a ++ b) = (p.after a).after b := by
  simp [after]

end Position

end RatLang
