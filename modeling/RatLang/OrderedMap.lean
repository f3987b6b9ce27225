/-!
# Maps that keep their order

A map gives each of its keys one value and lists its entries in the order in which the keys came.
A key that comes again gets a new value at its old place, and the value that it had is given back.
-/

namespace RatLang

/-- The entries of a map, in their order. No key occurs twice. -/
@[ext]
structure OrderedMap (κ α : Type) where
  entries : List (κ × α)
  nodup : (entries.map Prod.fst).Nodup

namespace OrderedMap

variable {κ α : Type} [DecidableEq κ]

/-- The map without entries. -/
def empty : OrderedMap κ α := ⟨[], List.nodup_nil⟩

/-- The number of entries. -/
def size (map : OrderedMap κ α) : Nat := map.entries.length

/-- Is there no entry? -/
def isEmpty (map : OrderedMap κ α) : Bool := map.entries.isEmpty

/-- The value of a key. -/
def get? (map : OrderedMap κ α) (key : κ) : Option α := map.entries.lookup key

/-- The entries with a value for the key, which stays where it is or comes last. -/
def put (key : κ) (value : α) : List (κ × α) → List (κ × α)
  | [] => [(key, value)]
  | entry :: rest => if entry.1 = key then (key, value) :: rest else entry :: put key value rest

theorem mem_keys_put {key k : κ} {value : α} {entries : List (κ × α)} :
    k ∈ (put key value entries).map Prod.fst ↔ k = key ∨ k ∈ entries.map Prod.fst := by
  induction entries with
  | nil => simp [put]
  | cons entry rest ih =>
    rw [put]
    split
    · rename_i same
      simp [← same]
    · rw [List.map_cons, List.mem_cons, ih, List.map_cons, List.mem_cons, or_left_comm]

theorem nodup_keys_put {key : κ} {value : α} {entries : List (κ × α)}
    (nodup : (entries.map Prod.fst).Nodup) : ((put key value entries).map Prod.fst).Nodup := by
  induction entries with
  | nil => simp [put]
  | cons entry rest ih =>
    rw [List.map_cons, List.nodup_cons] at nodup
    rw [put]
    split
    · rename_i same
      exact List.nodup_cons.mpr ⟨same ▸ nodup.1, nodup.2⟩
    · rename_i other
      refine List.nodup_cons.mpr ⟨fun mem => ?_, ih nodup.2⟩
      exact (mem_keys_put.mp mem).elim other nodup.1

/-- The map with a value for the key, and the value that the key had before. -/
def insert (map : OrderedMap κ α) (key : κ) (value : α) : Option α × OrderedMap κ α :=
  (map.get? key, ⟨put key value map.entries, nodup_keys_put map.nodup⟩)

end OrderedMap

end RatLang
