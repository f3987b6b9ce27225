import Mathlib
import RatLang.Proofs.Settings.Fields

/-!
# Documents that say the same

A document can be changed in many ways without a change of the settings that are read from it: its
entries can stand in another order, what settings do not know can come and go, and so can empty
sections and keys with their default. What a known key is given is read as a whole, so only its order
is free.
-/

namespace RatLang.Settings

/-! ### Changes -/

/-- The names that lead to the key. -/
def Key.path (key : Key) : List String := [key.sectionName, key.name]

/-- The path leads neither to a known key nor to a table that may hold one. -/
def Unlisted (path : List String) : Prop := ∀ key : Key, ¬path <+: key.path

/-- The path is unlisted, and it does not lead into the value of a known key either. -/
def Unread (path : List String) : Prop := Unlisted path ∧ ∀ key : Key, ¬key.path <+: path

/-- A value, to which the path leads, is changed in one place. The entries of a table are put in
another order, or one is added to them: an unknown one, an empty section, or a known key with its
default. The items of an array have the path of the array. -/
inductive Edit (Unknown : List String → Prop) : List String → Toml → Toml → Prop where
  | reorder {path : List String} {entries entries' : List (String × Toml)}
    (same : entries.Perm entries') : Edit Unknown path (.table entries) (.table entries')
  | unknown {path : List String} {name : String} {value : Toml} {entries : List (String × Toml)}
    (foreign : Unknown (path ++ [name])) :
    Edit Unknown path (.table entries) (.table ((name, value) :: entries))
  | vacantSection {entries : List (String × Toml)} (key : Key) :
    Edit Unknown [] (.table entries) (.table ((key.sectionName, .table []) :: entries))
  | default {key : Key} {value : Toml} {entries : List (String × Toml)}
    (sets : key.Sets value {}) :
    Edit Unknown [key.sectionName] (.table entries) (.table ((key.name, value) :: entries))
  | entry {path : List String} {name : String} {value value' : Toml}
    {entries : List (String × Toml)} (edit : Edit Unknown (path ++ [name]) value value') :
    Edit Unknown path (.table ((name, value) :: entries)) (.table ((name, value') :: entries))
  | item {path : List String} {front behind : List Toml} {value value' : Toml}
    (edit : Edit Unknown path value value') :
    Edit Unknown path (.array (front ++ value :: behind)) (.array (front ++ value' :: behind))

/-- The second document is the first one after a change. -/
def Document.Edited (Unknown : List String → Prop) (document changed : Document) : Prop :=
  Edit Unknown [] (.table document.entries) (.table changed.entries)

/-! ### Values of known keys -/

variable {key : Key} {path : List String} {value value' : Toml} {word : String}
  {settings : Settings}

theorem vacant_table_iff {entries : List (String × Toml)} :
    Vacant (.table entries) ↔ entries = [] := by
  simp [Vacant]

theorem chooses_table_iff {entries : List (String × Toml)} :
    Chooses word (.table entries) ↔ ∃ value, entries = [(word, value)] ∧ Vacant value := by
  constructor
  · intro chooses
    cases chooses with
    | entry vacant => exact ⟨_, rfl, vacant⟩
  · rintro ⟨value, rfl, vacant⟩
    exact .entry vacant

namespace Edit

/-- Inside of what a known key is given nothing is added. -/
theorem not_unread (below : key.path <+: path) (name : String) : ¬Unread (path ++ [name]) :=
  fun unread => unread.2 key (below.trans (List.prefix_append path [name]))

theorem vacant_iff (edit : Edit Unread path value value') (below : key.path <+: path) :
    Vacant value ↔ Vacant value' := by
  cases edit with
  | reorder same =>
    rw [vacant_table_iff, vacant_table_iff]
    exact ⟨fun nothing => by rwa [nothing, List.nil_perm] at same,
      fun nothing => by rwa [nothing, List.perm_nil] at same⟩
  | unknown foreign => exact absurd foreign (not_unread below _)
  | vacantSection other => simp [Key.path] at below
  | default sets => simp [Key.path, List.cons_prefix_cons] at below
  | entry edit => simp [vacant_table_iff]
  | item edit => simp [Vacant]

theorem chooses_iff (edit : Edit Unread path value value') (below : key.path <+: path) :
    Chooses word value ↔ Chooses word value' := by
  cases edit with
  | reorder same =>
    rw [chooses_table_iff, chooses_table_iff]
    refine exists_congr fun given => and_congr_left fun _ => ?_
    exact ⟨fun only => by rwa [only, List.singleton_perm, eq_comm] at same,
      fun only => by rwa [only, List.perm_singleton] at same⟩
  | unknown foreign => exact absurd foreign (not_unread below _)
  | vacantSection other => simp [Key.path] at below
  | default sets => simp [Key.path, List.cons_prefix_cons] at below
  | @entry _ name inner inner' entries edit =>
    have inside := edit.vacant_iff (below.trans (List.prefix_append path [name]))
    simp [chooses_table_iff, inside, and_assoc]
  | item edit => constructor <;> rintro ⟨⟩

/-- Only what holds other values can be changed. -/
theorem not_scalar {Unknown : List String → Prop} (edit : Edit Unknown path value value') :
    ((∀ b, value ≠ .boolean b) ∧ ∀ b, value' ≠ .boolean b) ∧
      (∀ s, value ≠ .string s) ∧ ∀ s, value' ≠ .string s := by
  cases edit <;> simp

/-- What a known key is given says the same after a change inside of it. -/
theorem sets_iff (edit : Edit Unread key.path value value') :
    key.Sets value settings ↔ key.Sets value' settings := by
  obtain ⟨⟨boolean, boolean'⟩, string, string'⟩ := edit.not_scalar
  cases key with
  | level | format => exact edit.chooses_iff (List.prefix_refl _)
  | colors | showSource => exact iff_of_false (boolean _) (boolean' _)
  | indicator => exact iff_of_false (string _) (string' _)

end Edit

/-! ### Sections -/

variable {fields fields' : List (String × Toml)}

theorem Key.fits_congr
    (same : ∀ value, (key.name, value) ∈ fields ↔ (key.name, value) ∈ fields') :
    key.Fits fields settings ↔ key.Fits fields' settings := by
  simp only [Key.Fits, same]

/-- Entries of other names do not matter. -/
theorem mem_cons_of_name_ne {name other : String} {entries : List (String × Toml)}
    (different : name ≠ other) :
    (name, value) ∈ (other, value') :: entries ↔ (name, value) ∈ entries := by
  simp [different]

theorem Key.fits_cons (fresh : ∀ value, (key.name, value) ∉ fields) :
    key.Fits ((key.name, value) :: fields) settings ↔ key.Sets value settings := by
  simp [Key.Fits, fresh]

theorem fresh_of_nodup {name : String} {entries : List (String × Toml)}
    (nodup : (((name, value) :: entries).map Prod.fst).Nodup) (value' : Toml) :
    (name, value') ∉ entries :=
  fun mem => (List.nodup_cons.mp nodup).1 (List.mem_map.mpr ⟨_, mem, rfl⟩)

/-- A change of a section leaves the fields of settings as they are. -/
theorem Edit.fits_iff (edit : Edit Unread [key.sectionName] (.table fields) (.table fields'))
    (nodup : (fields.map Prod.fst).Nodup) (nodup' : (fields'.map Prod.fst).Nodup) :
    key.Fits fields settings ↔ key.Fits fields' settings := by
  generalize home : [key.sectionName] = path at edit
  cases edit with
  | reorder same => exact Key.fits_congr fun value => same.mem_iff
  | @unknown _ name value _ foreign =>
    subst home
    have different : key.name ≠ name := by
      rintro rfl
      exact foreign.1 key (List.prefix_refl _)
    exact Key.fits_congr fun value' => (mem_cons_of_name_ne different).symm
  | vacantSection other => cases home
  | @default other value _ sets =>
    -- a field whose key is missing has its default, and so it has if the key is there and says it
    by_cases same : key.name = other.name
    · obtain rfl := Key.eq_of_name same
      have fresh := fresh_of_nodup nodup'
      rw [Key.fits_cons fresh, sets.iff_agrees]
      simp [Key.Fits, fresh]
    · exact Key.fits_congr fun value' => (mem_cons_of_name_ne same).symm
  | @entry _ name value value' entries edit =>
    subst home
    by_cases same : key.name = name
    · subst same
      have inside : Edit Unread key.path value value' := edit
      rw [Key.fits_cons (fresh_of_nodup nodup), Key.fits_cons (fresh_of_nodup nodup')]
      exact inside.sets_iff
    · exact Key.fits_congr fun other => by
        rw [mem_cons_of_name_ne same, mem_cons_of_name_ne same]

/-! ### Documents -/

namespace Document

variable {document changed : Document}

theorem fields_congr {name : String}
    (same : ∀ value, (name, value) ∈ document.entries ↔ (name, value) ∈ changed.entries) :
    document.fields name = changed.fields name := by
  have lookup : document.entries.lookup name = changed.entries.lookup name :=
    Option.ext fun value => by rw [lookup_eq_some_iff, lookup_eq_some_iff, same]
  rw [fields, fields, lookup]

/-- A change of a document leaves the fields of settings as they are. -/
theorem Edited.fits_iff (edited : document.Edited Unread changed) (key : Key) :
    key.Fits (document.fields key.sectionName) settings ↔
      key.Fits (changed.fields key.sectionName) settings := by
  have elsewhere (same : ∀ value, (key.sectionName, value) ∈ document.entries ↔
      (key.sectionName, value) ∈ changed.entries) :
      key.Fits (document.fields key.sectionName) settings ↔
        key.Fits (changed.fields key.sectionName) settings := by
    rw [fields_congr same]
  rw [Edited] at edited
  generalize before : document.entries = entries, after : changed.entries = entries' at edited
  cases edited with
  | reorder same => exact elsewhere fun value => by rw [before, after, same.mem_iff]
  | @unknown _ name value _ foreign =>
    have different : key.sectionName ≠ name := by
      rintro rfl
      exact foreign.1 key ⟨[key.name], rfl⟩
    exact elsewhere fun value' => by rw [before, after, mem_cons_of_name_ne different]
  | vacantSection other =>
    by_cases same : key.sectionName = other.sectionName
    · have nodup := changed.distinct.nodup
      rw [after] at nodup
      have absent : document.fields key.sectionName = [] :=
        fields_of_absent (by rw [before, same]; exact fresh_of_nodup nodup)
      have empty : changed.fields key.sectionName = [] :=
        fields_of_mem (by rw [after, same]; exact List.mem_cons_self)
      rw [absent, empty]
    · exact elsewhere fun value' => by rw [before, after, mem_cons_of_name_ne same]
  | @entry _ name value value' rest edit =>
    -- no other entry has the name of the section, so its fields are those of the changed table
    by_cases same : key.sectionName = name
    · subst same
      have mem : (key.sectionName, value) ∈ document.entries := before ▸ List.mem_cons_self
      have mem' : (key.sectionName, value') ∈ changed.entries := after ▸ List.mem_cons_self
      obtain ⟨fields, rfl⟩ := document.tables key value mem
      obtain ⟨fields', rfl⟩ := changed.tables key value' mem'
      rw [fields_of_mem mem, fields_of_mem mem']
      exact edit.fits_iff (document.distinct.of_mem mem).nodup (changed.distinct.of_mem mem').nodup
    · exact elsewhere fun other => by
        rw [before, after, mem_cons_of_name_ne same, mem_cons_of_name_ne same]

/-- Settings do not change when a document is changed without a change of what they read. -/
theorem Edited.decode_eq (edited : document.Edited Unread changed) :
    decode changed.entries = decode document.entries := by
  refine Option.ext fun settings => ?_
  rw [decode_eq_some_iff, decode_eq_some_iff, describes_iff, describes_iff]
  exact forall_congr' fun key => (edited.fits_iff key).symm

theorem decode_eq_of_eqvGen (related : Relation.EqvGen (Edited Unread) document changed) :
    decode changed.entries = decode document.entries := by
  induction related with
  | rel _ _ edited => exact edited.decode_eq
  | refl _ => rfl
  | symm _ _ _ ih => exact ih.symm
  | trans _ _ _ _ _ ih ih' => exact ih'.trans ih

end Document

/-- The text of a document is read by decoding the document. -/
theorem parse_eq_decode {text : String} {entries : List (String × Toml)}
    (read : Toml.parse text = some entries) : parse text = decode entries := by
  rw [parse, read]
  rfl

/-- A text whose sections are tables is the text of a document. It gives settings exactly if every
known key in it has a value that the key can have, and these are the settings that have the values of
the keys that are there and the defaults in all other fields. Another text gives the same if its
document comes from this one by changes of what is not read, by empty sections, by keys with their
defaults and by another order. -/
theorem parse_fieldwise :
    (∀ text entries, Toml.parse text = some entries →
      (∀ (key : Key) (value : Toml), (key.sectionName, value) ∈ entries →
        ∃ fields, value = .table fields) →
      ∃ document : Document, document.entries = entries) ∧
    ∀ (document : Document) (text : String), Toml.parse text = some document.entries →
      ((∃ settings, parse text = some settings) ↔
        ∀ (key : Key) (value : Toml), document.Holds key value → key.Admits value) ∧
      (∀ settings, parse text = some settings ↔ document.Describes settings) ∧
      ∀ (changed : Document) (text' : String), Toml.parse text' = some changed.entries →
        Relation.EqvGen (Document.Edited Unread) document changed → parse text' = parse text := by
  refine ⟨?document, fun document text read => ⟨?admits, ?describes, ?changed⟩⟩
  case document =>
    intro text entries read tables
    exact ⟨⟨entries, Toml.distinct_of_parse read, tables⟩, rfl⟩
  case admits =>
    rw [← Document.exists_describes_iff, parse_eq_decode read]
    exact exists_congr fun settings => decode_eq_some_iff
  case describes =>
    intro settings
    rw [parse_eq_decode read]
    exact decode_eq_some_iff
  case changed =>
    intro changed text' read' related
    rw [parse_eq_decode read, parse_eq_decode read']
    exact Document.decode_eq_of_eqvGen related

/-- The level is set to its default in a section that was empty. -/
theorem parse_fieldwise_default :
    let text := "[log]\n[diagnostics]\ncolors = false\n"
    let text' := "[log]\nlevel = \"info\"\n[diagnostics]\ncolors = false\n"
    ∃ document changed : Document, Toml.parse text = some document.entries ∧
      Toml.parse text' = some changed.entries ∧ document.Edited Unread changed ∧
      parse text' = parse text ∧ parse text = some { style := { colors := false } } := by
  intro text text'
  have read : Toml.parse text = some
      [("log", .table []), ("diagnostics", .table [("colors", .boolean false)])] := by cbv
  have read' : Toml.parse text' = some
      [("log", .table [("level", .string "info")]),
        ("diagnostics", .table [("colors", .boolean false)])] := by cbv
  have described : parse text = some { style := { colors := false } } :=
    (parse_eq_decode read).trans rfl
  have tables {log diagnostics : List (String × Toml)} (key : Key) (value : Toml)
      (mem : (key.sectionName, value) ∈
        [("log", Toml.table log), ("diagnostics", Toml.table diagnostics)]) :
      ∃ fields, value = .table fields := by
    rcases List.mem_pair.mp mem with found | found <;> exact ⟨_, (Prod.mk.inj found).2⟩
  obtain ⟨document, same⟩ := parse_fieldwise.1 text _ read tables
  obtain ⟨changed, same'⟩ := parse_fieldwise.1 text' _ read' tables
  have edited : document.Edited Unread changed := by
    rw [Document.Edited, same, same']
    exact .entry (@Edit.default _ .level (.string "info") [] .word)
  rw [← same] at read
  rw [← same'] at read'
  have unchanged := (parse_fieldwise.2 document text read).2.2 changed text' read' (.rel _ _ edited)
  exact ⟨document, changed, read, read', edited, unchanged, described⟩

/-- A level can be given by a table with its name as the only entry. What settings do not know
spoils that table. -/
theorem unlisted_entry_spoils_level :
    let text := "[log.level]\ndebug = \x7b\x7d\n"
    let text' := "[log.level]\nx = true\ndebug = \x7b\x7d\n"
    ∃ document changed : Document, Toml.parse text = some document.entries ∧
      Toml.parse text' = some changed.entries ∧ document.Edited Unlisted changed ∧
      parse text = some { level := .debug } ∧ parse text' = none := by
  intro text text'
  have read : Toml.parse text = some
      [("log", .table [("level", .table [("debug", .table [])])])] := by cbv
  have read' : Toml.parse text' = some
      [("log", .table [("level", .table [("x", .boolean true), ("debug", .table [])])])] := by cbv
  have unlisted : Unlisted ["log", "level", "x"] := by
    intro key
    cases key <;> decide
  refine ⟨⟨_, Toml.distinct_of_parse read, by simp⟩, ⟨_, Toml.distinct_of_parse read', by simp⟩,
    read, read', ?_, ?_, ?_⟩
  · exact .entry (.entry (.unknown unlisted))
  · exact (parse_eq_decode read).trans rfl
  · exact (parse_eq_decode read').trans rfl

end RatLang.Settings
