import Mathlib
import RatLang.Proofs.OrderedMap
import RatLang.Toml.Document

/-!
# Names in tables

No table of a document has a name twice, at whatever depth it is. A draft may be changed in many
ways, and each of them looks a name up before it adds it.
-/

namespace RatLang.Toml

/-- No table of the value has a name twice. -/
inductive Distinct : Toml → Prop where
  | string (s : String) : Distinct (.string s)
  | integer (n : Int) : Distinct (.integer n)
  | float : Distinct .float
  | boolean (b : Bool) : Distinct (.boolean b)
  | datetime : Distinct .datetime
  | array {items : List Toml} (items_distinct : ∀ item ∈ items, Distinct item) :
    Distinct (.array items)
  | table {entries : List (String × Toml)} (names : (entries.map Prod.fst).Nodup)
    (values : ∀ entry ∈ entries, Distinct entry.2) : Distinct (.table entries)

theorem Distinct.nodup {entries : List (String × Toml)} (distinct : Distinct (.table entries)) :
    (entries.map Prod.fst).Nodup := by
  cases distinct with
  | table names values => exact names

theorem Distinct.of_mem {entries : List (String × Toml)} {name : String} {value : Toml}
    (distinct : Distinct (.table entries)) (mem : (name, value) ∈ entries) : Distinct value := by
  cases distinct with
  | table names values => exact values _ mem

/-! ### Drafts -/

theorem entriesToToml_eq_map (entries : List (String × Item)) :
    Item.entriesToToml entries = entries.map fun entry => (entry.1, entry.2.toToml) := by
  induction entries with
  | nil => rw [Item.entriesToToml, List.map_nil]
  | cons entry rest ih => rw [Item.entriesToToml, List.map_cons, ih]

theorem mem_toTomls {value : Toml} {tables : List Table} {following : List Toml} :
    value ∈ Table.toTomls tables following ↔
      (∃ table ∈ tables, table.toToml = value) ∨ value ∈ following := by
  induction tables generalizing following with
  | nil => simp [Table.toTomls]
  | cons table rest ih =>
    rw [Table.toTomls, ih]
    simp only [List.mem_cons, exists_eq_or_imp, eq_comm (a := table.toToml)]
    rw [or_assoc, or_left_comm]

/-- An item stands for a value without repeated names. -/
def Item.Sound (item : Item) : Prop := Distinct item.toToml

/-- A table stands for a value without repeated names. -/
def Table.Sound (table : Table) : Prop := Distinct table.toToml

theorem Item.sound_table {table : Table} : (Item.table table).Sound ↔ table.Sound := by
  rw [Item.Sound, Item.toToml, Table.Sound]

theorem Item.sound_tables {current : Table} {earlier : List Table} :
    (Item.tables current earlier).Sound ↔ current.Sound ∧ ∀ table ∈ earlier, table.Sound := by
  rw [Item.Sound, Item.toToml]
  constructor
  · intro distinct
    cases distinct with
    | array items =>
      refine ⟨items _ (mem_toTomls.mpr (.inr List.mem_cons_self)), fun table mem => ?_⟩
      exact items _ (mem_toTomls.mpr (.inl ⟨table, mem, rfl⟩))
  · rintro ⟨sound, before⟩
    refine .array fun value mem => ?_
    rcases mem_toTomls.mp mem with ⟨table, inside, rfl⟩ | last
    · exact before table inside
    · rw [List.mem_singleton.mp last]
      exact sound

namespace Table

variable {table : Table} {name : String} {item : Item}

theorem sound_iff :
    table.Sound ↔ (table.entries.map Prod.fst).Nodup ∧ ∀ entry ∈ table.entries, entry.2.Sound := by
  obtain ⟨origin, entries⟩ := table
  have names : (entries.map fun entry => (entry.1, entry.2.toToml)).map Prod.fst =
      entries.map Prod.fst := List.map_map
  rw [Sound, toToml, entriesToToml_eq_map, Table.entries]
  constructor
  · intro distinct
    cases distinct with
    | table nodup values =>
      exact ⟨names ▸ nodup, fun entry mem => values _ (List.mem_map_of_mem mem)⟩
  · rintro ⟨nodup, items⟩
    refine .table (names ▸ nodup) fun value mem => ?_
    obtain ⟨entry, inside, rfl⟩ := List.mem_map.mp mem
    exact items entry inside

theorem sound_empty (origin : Origin) : (empty origin).Sound :=
  sound_iff.mpr ⟨List.nodup_nil, by simp [empty, entries]⟩

theorem Sound.find? (sound : table.Sound) (found : table.find? name = some item) :
    item.Sound := by
  obtain ⟨front, behind, split, -⟩ := List.lookup_eq_some_iff.mp found
  exact (sound_iff.mp sound).2 (name, item) (by simp [split])

/-- Replacing adds at most the new name, behind the others. -/
theorem names_replace (entries : List (String × Item)) :
    (set.replace name item entries).map Prod.fst =
      if name ∈ entries.map Prod.fst then entries.map Prod.fst
      else entries.map Prod.fst ++ [name] := by
  induction entries with
  | nil => rfl
  | cons entry rest ih =>
    obtain ⟨other, old⟩ := entry
    rw [set.replace]
    by_cases same : other = name
    · simp [same]
    · rw [if_neg same, List.map_cons, ih]
      split <;> simp_all [eq_comm]

theorem mem_of_mem_replace {entries : List (String × Item)} {entry : String × Item}
    (mem : entry ∈ set.replace name item entries) : entry = (name, item) ∨ entry ∈ entries := by
  induction entries with
  | nil => exact .inl (List.mem_singleton.mp mem)
  | cons first rest ih =>
    obtain ⟨other, old⟩ := first
    rw [set.replace] at mem
    split at mem
    · rcases List.mem_cons.mp mem with new | inside
      · exact .inl new
      · exact .inr (List.mem_cons_of_mem _ inside)
    · rcases List.mem_cons.mp mem with rfl | inside
      · exact .inr List.mem_cons_self
      · exact (ih inside).imp_right (List.mem_cons_of_mem _)

theorem Sound.set (sound : table.Sound) (new : item.Sound) : (table.set name item).Sound := by
  obtain ⟨nodup, items⟩ := sound_iff.mp sound
  refine sound_iff.mpr ⟨?names, ?items⟩
  case names =>
    rw [Table.set, entries, names_replace]
    split
    · exact nodup
    · next fresh =>
      exact nodup.append (List.nodup_singleton name) (List.disjoint_singleton.mpr fresh)
  case items =>
    intro entry mem
    rcases mem_of_mem_replace mem with rfl | inside
    · exact new
    · exact items entry inside

/-- A change of tables that repeats no name. -/
def Keeps (change : Table → Option Table) : Prop :=
  ∀ {table larger : Table}, table.Sound → change table = some larger → larger.Sound

theorem keeps_update (missing : Origin) {change : Table → Option Table} (keeps : Keeps change)
    (path : List String) : Keeps (update missing change path) := by
  induction path with
  | nil => exact keeps
  | cons name path ih =>
    intro outer larger sound updated
    rw [update] at updated
    cases found : outer.find? name with
    | none =>
      rw [found] at updated
      obtain ⟨inner, changed, rfl⟩ := Option.map_eq_some_iff.mp updated
      exact sound.set (ih (sound_empty missing) changed)
    | some item =>
      have inside := sound.find? found
      rw [found] at updated
      cases item with
      | value v => cases updated
      | table inner =>
        dsimp only at updated
        split at updated
        · cases updated
        · obtain ⟨inner', changed, rfl⟩ := Option.map_eq_some_iff.mp updated
          rw [Item.sound_table] at inside
          exact sound.set (Item.sound_table.mpr (ih inside changed))
      | tables current earlier =>
        obtain ⟨current', changed, rfl⟩ := Option.map_eq_some_iff.mp updated
        obtain ⟨sound', before⟩ := Item.sound_tables.mp inside
        exact sound.set (Item.sound_tables.mpr ⟨ih sound' changed, before⟩)

theorem keeps_define {value : Toml} (distinct : Distinct value) (dotted : Bool) :
    Keeps (define name value dotted) := by
  intro table larger sound defined
  rw [define] at defined
  split at defined
  · cases defined
  · split at defined
    · cases defined
    · obtain rfl := Option.some.inj defined
      exact sound.set distinct

theorem keeps_assign {value : Toml} (distinct : Distinct value) (path : List String) :
    Keeps (assign path name value) := by
  exact keeps_update .dotted (keeps_define distinct _) path

theorem keeps_openTable : Keeps (openTable name) := by
  intro table larger sound opened
  rw [openTable] at opened
  split at opened
  · obtain rfl := Option.some.inj opened
    exact sound.set (Item.sound_table.mpr (sound_empty .defined))
  · next entries found =>
    obtain rfl := Option.some.inj opened
    have inside := Item.sound_table.mp (sound.find? found)
    exact sound.set (Item.sound_table.mpr (sound_iff.mpr (sound_iff.mp inside)))
  · cases opened

theorem keeps_openArrayTable : Keeps (openArrayTable name) := by
  intro table larger sound opened
  rw [openArrayTable] at opened
  split at opened
  · obtain rfl := Option.some.inj opened
    exact sound.set (Item.sound_tables.mpr ⟨sound_empty .defined, by simp⟩)
  · next current earlier found =>
    obtain rfl := Option.some.inj opened
    obtain ⟨sound', before⟩ := Item.sound_tables.mp (sound.find? found)
    refine sound.set (Item.sound_tables.mpr ⟨sound_empty .defined, ?_⟩)
    exact List.forall_mem_cons.mpr ⟨sound', before⟩
  · cases opened

end Table

theorem Read.keeps_assignKey {value : Toml} (distinct : Distinct value) (path : List String) :
    Table.Keeps fun table => assignKey table path value := by
  intro table larger sound assigned
  obtain ⟨name, -, assigned'⟩ := Option.bind_eq_some_iff.mp assigned
  exact Table.keeps_assign distinct _ sound assigned'

namespace Read

/-! ### Readers -/

/-- What has been read, if anything has, repeats no name. -/
def Clean (outcome : Option (Toml × List Char)) : Prop :=
  ∀ value rest, outcome = some (value, rest) → Distinct value

theorem clean_none : Clean none := by
  intro value rest read
  cases read

theorem clean_some {value : Toml} {rest : List Char} (distinct : Distinct value) :
    Clean (some (value, rest)) := by
  intro value' rest' read
  obtain ⟨rfl, -⟩ := Prod.mk.inj (Option.some.inj read)
  exact distinct

theorem clean_bind {α : Type} {x : Option α} {f : α → Option (Toml × List Char)}
    (clean : ∀ a, x = some a → Clean (f a)) : Clean (x.bind f) := by
  intro value rest read
  obtain ⟨a, found, read'⟩ := Option.bind_eq_some_iff.mp read
  exact clean a found value rest read'

theorem clean_map {α : Type} {x : Option α} {f : α → Toml × List Char}
    (distinct : ∀ a, x = some a → Distinct (f a).1) : Clean (x.map f) := by
  intro value rest read
  obtain ⟨a, found, same⟩ := Option.map_eq_some_iff.mp read
  have first := distinct a found
  rwa [same] at first

theorem clean_orElse {x y : Option (Toml × List Char)} (clean : Clean x) (clean' : Clean y) :
    Clean (x <|> y) := by
  cases x with
  | none => exact clean'
  | some found => exact clean

theorem clean_datetime (chars : List Char) : Clean (datetime chars) := by
  rw [datetime]
  split
  · exact clean_some .datetime
  · exact clean_map fun _ _ => .datetime

theorem clean_decimalFloat (chars : List Char) : Clean (decimalFloat chars) := by
  have last (overflow : Bool) (rest : List Char) :
      Clean (if overflow then none else some (.float, rest)) := by
    split
    · exact clean_none
    · exact clean_some .float
  unfold decimalFloat
  refine clean_bind fun _ _ => ?_
  dsimp only
  split
  · refine clean_bind fun _ _ => ?_
    split <;> exact last _ _
  · exact clean_bind fun _ _ => last _ _

theorem clean_specialFloat (chars : List Char) : Clean (specialFloat chars) := by
  rw [specialFloat]
  split
  · exact clean_some .float
  · exact clean_some .float
  · exact clean_none

theorem distinct_of_integer? {n : Int} {value : Toml} (found : integer? n = some value) :
    Distinct value := by
  rw [integer?] at found
  split at found
  · obtain rfl := Option.some.inj found
    exact .integer n
  · cases found

theorem clean_basedInteger (base : Nat) (isDigit : Char → Bool) (chars : List Char) :
    Clean (basedInteger base isDigit chars) :=
  clean_bind fun _ _ => clean_bind fun _ found => clean_some (distinct_of_integer? found)

theorem clean_integer (chars : List Char) : Clean (integer chars) := by
  unfold integer
  split
  · exact clean_basedInteger _ _ _
  · exact clean_basedInteger _ _ _
  · exact clean_basedInteger _ _ _
  · exact clean_bind fun _ _ => clean_bind fun _ found => clean_some (distinct_of_integer? found)

theorem clean_word (chars : List Char) : Clean (word chars) := by
  unfold word
  split
  · exact clean_some (.boolean true)
  · exact clean_some (.boolean false)
  · exact clean_specialFloat _

theorem clean_scalar (chars : List Char) : Clean (scalar chars) := by
  have number : Clean (numberOrDate chars) :=
    clean_orElse (clean_datetime chars) (clean_orElse (clean_decimalFloat chars)
      (clean_orElse (clean_specialFloat chars) (clean_integer chars)))
  exact clean_orElse (clean_map fun _ _ => .string _) (clean_orElse number (clean_word chars))

section

variable {item : Reader Toml} (clean : ∀ chars, Clean (item chars))

include clean

theorem distinct_of_arrayItems {chars rest : List Char} {values : List Toml}
    (read : arrayItems item chars = some (values, rest)) : ∀ value ∈ values, Distinct value := by
  fun_induction arrayItems item chars generalizing values rest with
  | case1 | case5 | case6 => cases read
  | case2 chars first behind found | case3 chars first behind found =>
    obtain ⟨rfl, -⟩ := Prod.mk.inj (Option.some.inj read)
    exact List.forall_mem_singleton.mpr (clean _ _ _ found)
  | case4 chars first behind found more comma open_ shorter ih =>
    obtain ⟨⟨others, behind'⟩, found', same⟩ := Option.map_eq_some_iff.mp read
    obtain ⟨rfl, -⟩ := Prod.mk.inj same
    exact List.forall_mem_cons.mpr ⟨clean _ _ _ found, ih found'⟩

theorem distinct_of_keyValue {chars rest : List Char} {path : List String} {value : Toml}
    (read : keyValue item chars = some ((path, value), rest)) : Distinct value := by
  simp only [keyValue, Option.bind_eq_bind, Option.bind_eq_some_iff] at read
  obtain ⟨_, _, _, _, ⟨value', rest'⟩, found, done⟩ := read
  obtain ⟨same, -⟩ := Prod.mk.inj (Option.some.inj done)
  obtain ⟨-, rfl⟩ := Prod.mk.inj same
  exact clean _ _ _ found

theorem sound_of_inlineMembers {table larger : Table} {chars rest : List Char}
    (sound : table.Sound) (read : inlineMembers item table chars = some (larger, rest)) :
    larger.Sound := by
  fun_induction inlineMembers item table chars generalizing larger rest with
  | case1 | case2 | case5 | case6 => cases read
  | case3 table chars path value behind found table' assigned =>
    obtain ⟨rfl, -⟩ := Prod.mk.inj (Option.some.inj read)
    exact keeps_assignKey (distinct_of_keyValue clean found) path sound assigned
  | case4 table chars path value behind found table' assigned more comma shorter ih =>
    exact ih (keeps_assignKey (distinct_of_keyValue clean found) path sound assigned) read

theorem clean_array (chars : List Char) : Clean (array item chars) := by
  rw [array]
  split
  · exact clean_some (.array (by simp))
  · exact clean_map fun _ found => .array (distinct_of_arrayItems clean found)

theorem clean_inlineTable (chars : List Char) : Clean (inlineTable item chars) := by
  rw [inlineTable]
  split
  · exact clean_some (.table List.nodup_nil (by simp))
  · exact clean_map fun _ found =>
      sound_of_inlineMembers clean (Table.sound_empty .defined) found

end

/-- The induction is on the depth, as a value is read with a reader of the values in it. -/
theorem clean_value (depth : Nat) (chars : List Char) : Clean (value depth chars) := by
  induction depth generalizing chars with
  | zero => exact clean_scalar chars
  | succ depth ih =>
    rw [value.eq_def]
    dsimp only
    split
    · split
      · exact clean_none
      · exact clean_array ih _
    · split
      · exact clean_none
      · exact clean_inlineTable ih _
    · exact clean_scalar _

end Read

/-! ### Documents -/

/-- What a line gives to a key repeats no name. -/
def Line.Sound : Line → Prop
  | .assignment _ value => Distinct value
  | .header _ | .arrayHeader _ => True

namespace Read

theorem sound_of_header {chars rest : List Char} {found : Line}
    (read : header chars = some (found, rest)) : found.Sound := by
  unfold header at read
  split at read <;>
    simp only [Option.bind_eq_bind, Option.bind_eq_some_iff] at read
  · obtain ⟨_, _, _, _, _, _, done⟩ := read
    obtain ⟨rfl, -⟩ := Prod.mk.inj (Option.some.inj done)
    trivial
  · obtain ⟨_, _, _, _, done⟩ := read
    obtain ⟨rfl, -⟩ := Prod.mk.inj (Option.some.inj done)
    trivial

theorem sound_of_line {chars rest : List Char} {found : Line}
    (read : line chars = some (some found, rest)) : found.Sound := by
  unfold line at read
  split at read
  · cases read
  · simp only [Option.bind_eq_bind, Option.bind_eq_some_iff] at read
    obtain ⟨⟨found', _⟩, opened, _, _, done⟩ := read
    obtain ⟨same, -⟩ := Prod.mk.inj (Option.some.inj done)
    obtain rfl := Option.some.inj same
    exact sound_of_header opened
  · split at read
    · obtain ⟨_, _, same⟩ := Option.map_eq_some_iff.mp read
      cases same
    · simp only [Option.bind_eq_bind, Option.bind_eq_some_iff] at read
      obtain ⟨⟨⟨path, value⟩, _⟩, assigned, _, _, done⟩ := read
      obtain ⟨same, -⟩ := Prod.mk.inj (Option.some.inj done)
      obtain rfl := Option.some.inj same
      exact distinct_of_keyValue (clean_value maxDepth) assigned

theorem sound_of_lines {chars : List Char} {found : List Line} (read : lines chars = some found) :
    ∀ line ∈ found, line.Sound := by
  fun_induction lines chars generalizing found with
  | case1 =>
    obtain rfl := Option.some.inj read
    simp
  | case2 | case4 => cases read
  | case3 c rest first more found' shorter ih =>
    obtain ⟨others, read', rfl⟩ := Option.map_eq_some_iff.mp read
    refine List.forall_mem_append.mpr ⟨fun line mem => ?_, ih read'⟩
    rw [Option.mem_toList.mp mem] at found'
    exact sound_of_line found'

end Read

theorem Draft.sound_add {draft larger : Draft} {line : Line} (sound : draft.root.Sound)
    (inside : line.Sound) (added : draft.add line = some larger) : larger.root.Sound := by
  cases line <;> simp only [add, Option.bind_eq_bind, Option.bind_eq_some_iff] at added
  case header path =>
    obtain ⟨name, -, root, updated, done⟩ := added
    obtain rfl := Option.some.inj done
    exact Table.keeps_update .implied Table.keeps_openTable _ sound updated
  case arrayHeader path =>
    obtain ⟨name, -, root, updated, done⟩ := added
    obtain rfl := Option.some.inj done
    exact Table.keeps_update .implied Table.keeps_openArrayTable _ sound updated
  case assignment path value =>
    obtain ⟨root, updated, done⟩ := added
    obtain rfl := Option.some.inj done
    exact Table.keeps_update .implied (Read.keeps_assignKey inside path) _ sound updated

theorem Draft.sound_foldlM {lines : List Line} {draft larger : Draft} (sound : draft.root.Sound)
    (inside : ∀ line ∈ lines, line.Sound) (added : lines.foldlM Draft.add draft = some larger) :
    larger.root.Sound := by
  induction lines generalizing draft with
  | nil =>
    obtain rfl := Option.some.inj added
    exact sound
  | cons line rest ih =>
    obtain ⟨first, others⟩ := List.forall_mem_cons.mp inside
    rw [List.foldlM_cons] at added
    obtain ⟨next, added', added''⟩ := Option.bind_eq_some_iff.mp added
    exact ih (sound_add sound first added') others added''

/-- Every table of a document has distinct names. -/
theorem distinct_of_parse {text : String} {entries : List (String × Toml)}
    (read : parse text = some entries) : Distinct (.table entries) := by
  simp only [parse, Option.bind_eq_bind, Option.bind_eq_some_iff] at read
  obtain ⟨lines, found, draft, added, done⟩ := read
  obtain rfl := Option.some.inj done
  have sound := Draft.sound_foldlM (Table.sound_empty .defined) (Read.sound_of_lines found) added
  obtain ⟨⟨origin, entries⟩, current⟩ := draft
  rwa [Table.Sound, Table.toToml] at sound

end RatLang.Toml
