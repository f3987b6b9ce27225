import Mathlib
import RatLang.Settings
import RatLang.Proofs.Toml.Distinct

/-!
# Settings field by field

Every field of the settings has a key in a section of a document. A document describes settings that
have the value of each key that it holds, and the default in every other field. It is decoded exactly
if there are such settings, and then to these.
-/

namespace RatLang

theorem LogLevel.ofText?_eq_some_iff {name : String} {level : LogLevel} :
    ofText? name = some level ↔ name = level.text := by
  constructor
  · intro found
    unfold ofText? at found
    split at found <;> cases found <;> rfl
  · rintro rfl
    exact ofText?_text level

theorem OutputFormat.ofText?_eq_some_iff {name : String} {format : OutputFormat} :
    ofText? name = some format ↔ name = format.text := by
  constructor
  · intro found
    unfold ofText? at found
    split at found <;> cases found <;> rfl
  · rintro rfl
    cases format <;> rfl

namespace Settings

/-! ### Values -/

/-- A table or an array that holds nothing. -/
def Vacant (value : Toml) : Prop := value = .table [] ∨ value = .array []

/-- A value chooses a word if it is the word, or a table in which the word is the only name and is
given nothing. -/
inductive Chooses (word : String) : Toml → Prop where
  | word : Chooses word (.string word)
  | entry {value : Toml} (vacant : Vacant value) : Chooses word (.table [(word, value)])

theorem choice?_eq_some_iff {value : Toml} {word : String} :
    choice? value = some word ↔ Chooses word value := by
  constructor
  · intro chosen
    unfold choice? at chosen
    split at chosen
    · obtain rfl := Option.some.inj chosen
      exact .word
    · obtain rfl := Option.some.inj chosen
      exact .entry (.inl rfl)
    · obtain rfl := Option.some.inj chosen
      exact .entry (.inr rfl)
    · cases chosen
  · intro chooses
    cases chooses with
    | word => rfl
    | entry vacant => rcases vacant with rfl | rfl <;> rfl

theorem level?_eq_some_iff {value : Toml} {level : LogLevel} :
    level? value = some level ↔ Chooses level.text value := by
  simp only [level?, Option.bind_eq_some_iff, LogLevel.ofText?_eq_some_iff, exists_eq_right,
    choice?_eq_some_iff]

theorem format?_eq_some_iff {value : Toml} {format : OutputFormat} :
    format? value = some format ↔ Chooses format.text value := by
  simp only [format?, Option.bind_eq_some_iff, OutputFormat.ofText?_eq_some_iff, exists_eq_right,
    choice?_eq_some_iff]

theorem flag?_eq_some_iff {value : Toml} {b : Bool} :
    flag? value = some b ↔ value = .boolean b := by
  constructor
  · intro read
    unfold flag? at read
    split at read
    · rw [Option.some.inj read]
    · cases read
  · rintro rfl
    rfl

theorem character?_eq_some_iff {value : Toml} {c : Char} :
    character? value = some c ↔ value = .string (String.singleton c) := by
  constructor
  · intro read
    unfold character? at read
    split at read
    · next s =>
      split at read
      · next found =>
        obtain rfl := Option.some.inj read
        rw [← String.ofList_toList (s := s), found]
        rfl
      · cases read
    · cases read
  · rintro rfl
    simp [character?]

/-! ### Keys -/

/-- A key that settings know. -/
inductive Key where
  | level | colors | showSource | indicator | format
deriving DecidableEq, Repr

namespace Key

/-- The section in which the key stands. -/
def sectionName : Key → String
  | level => "log"
  | colors | showSource | indicator => "diagnostics"
  | format => "output"

/-- The name of the key in its section. -/
def name : Key → String
  | level => "level"
  | colors => "colors"
  | showSource => "show_source"
  | indicator => "indicator"
  | format => "format"

/-- The value says what the settings have in the field of the key. -/
def Sets (key : Key) (value : Toml) (settings : Settings) : Prop :=
  match key with
  | level => Chooses settings.level.text value
  | colors => value = .boolean settings.style.colors
  | showSource => value = .boolean settings.style.showSource
  | indicator => value = .string (String.singleton settings.style.indicator)
  | format => Chooses settings.format.text value

/-- The key can have the value. -/
def Admits (key : Key) (value : Toml) : Prop := ∃ settings, key.Sets value settings

/-- Both settings have the same in the field of the key. -/
def Agrees (key : Key) (settings other : Settings) : Prop :=
  match key with
  | level => settings.level = other.level
  | colors => settings.style.colors = other.style.colors
  | showSource => settings.style.showSource = other.style.showSource
  | indicator => settings.style.indicator = other.style.indicator
  | format => settings.format = other.format

variable {key other : Key} {value : Toml} {settings settings' : Settings}

/-- No two keys have the same name, not even in different sections. -/
theorem eq_of_name (same : key.name = other.name) : key = other := by
  cases key <;> cases other <;> simp [name] at same ⊢

/-- A value can say only one thing of a field. -/
theorem Sets.agrees (sets : key.Sets value settings) (sets' : key.Sets value settings') :
    key.Agrees settings settings' := by
  cases key with
  | level =>
    exact Option.some.inj ((level?_eq_some_iff.mpr sets).symm.trans (level?_eq_some_iff.mpr sets'))
  | colors | showSource =>
    exact Option.some.inj ((flag?_eq_some_iff.mpr sets).symm.trans (flag?_eq_some_iff.mpr sets'))
  | indicator =>
    exact Option.some.inj
      ((character?_eq_some_iff.mpr sets).symm.trans (character?_eq_some_iff.mpr sets'))
  | format =>
    exact Option.some.inj ((format?_eq_some_iff.mpr sets).symm.trans (format?_eq_some_iff.mpr sets'))

theorem Agrees.symm (agrees : key.Agrees settings settings') : key.Agrees settings' settings := by
  cases key <;> exact Eq.symm agrees

/-- A value speaks of no other field. -/
theorem Agrees.sets (agrees : key.Agrees settings settings') (sets : key.Sets value settings) :
    key.Sets value settings' := by
  cases key <;> simp only [Agrees] at agrees <;> simpa only [Sets, agrees] using sets

theorem Sets.iff_agrees (sets : key.Sets value settings') :
    key.Sets value settings ↔ key.Agrees settings settings' :=
  ⟨fun sets' => sets'.agrees sets, fun agrees => agrees.symm.sets sets⟩

end Key

/-! ### Documents -/

/-- A document whose sections are tables, as far as they are there. No table has a name twice. -/
structure Document where
  entries : List (String × Toml)
  distinct : Toml.Distinct (.table entries)
  tables : ∀ (key : Key) (value : Toml), (key.sectionName, value) ∈ entries →
    ∃ fields, value = .table fields

/-- The entries of a section say what the settings have in the field of the key: what the key is
given, or the default if it is missing. -/
def Key.Fits (key : Key) (fields : List (String × Toml)) (settings : Settings) : Prop :=
  (∀ value, (key.name, value) ∈ fields → key.Sets value settings) ∧
    ((∀ value, (key.name, value) ∉ fields) → key.Agrees settings {})

namespace Document

variable {document : Document} {key : Key} {value : Toml} {settings : Settings}

/-- The key is given the value. -/
def Holds (document : Document) (key : Key) (value : Toml) : Prop :=
  ∃ fields, (key.sectionName, .table fields) ∈ document.entries ∧ (key.name, value) ∈ fields

/-- The settings have what the document gives to keys, and defaults where it gives nothing. -/
def Describes (document : Document) (settings : Settings) : Prop :=
  ∀ key : Key, (∀ value, document.Holds key value → key.Sets value settings) ∧
    ((∀ value, ¬document.Holds key value) → key.Agrees settings {})

/-- The entries of a section. A section that is missing has none. -/
def fields (document : Document) (name : String) : List (String × Toml) :=
  match document.entries.lookup name with
  | some (.table fields) => fields
  | _ => []

theorem lookup_eq_some_iff {name : String} :
    document.entries.lookup name = some value ↔ (name, value) ∈ document.entries :=
  lookup_eq_some_iff_mem document.distinct.nodup

theorem fields_of_mem {name : String} {entries : List (String × Toml)}
    (mem : (name, .table entries) ∈ document.entries) : document.fields name = entries := by
  rw [fields, lookup_eq_some_iff.mpr mem]

theorem fields_of_absent {name : String} (absent : ∀ value, (name, value) ∉ document.entries) :
    document.fields name = [] := by
  rw [fields, lookup_eq_none_iff_notMem.mpr absent]

/-- What a section says is read from its fields, whether it is there or not, if without fields it
says the same as when it is missing. -/
theorem sectionOf_eq {α : Type} {names : List String} {read : List (String × Toml) → Option α}
    {default : α} (key : Key) (agree : read [] = some default) :
    sectionOf names read default document.entries key.sectionName =
      read (document.fields key.sectionName) := by
  rw [sectionOf]
  cases found : document.entries.lookup key.sectionName with
  | none => rw [fields_of_absent (lookup_eq_none_iff_notMem.mp found), agree]
  | some value =>
    have mem := lookup_eq_some_iff.mp found
    obtain ⟨entries, rfl⟩ := document.tables key value mem
    rw [fields_of_mem mem]
    rfl

theorem holds_iff :
    document.Holds key value ↔ (key.name, value) ∈ document.fields key.sectionName := by
  constructor
  · rintro ⟨entries, mem, inside⟩
    rwa [fields_of_mem mem]
  · intro inside
    unfold fields at inside
    split at inside
    · next entries found => exact ⟨entries, lookup_eq_some_iff.mp found, inside⟩
    · cases inside

theorem nodup_fields (document : Document) (name : String) :
    ((document.fields name).map Prod.fst).Nodup := by
  unfold fields
  split
  · next entries found => exact (document.distinct.of_mem (lookup_eq_some_iff.mp found)).nodup
  · exact List.nodup_nil

theorem describes_iff : document.Describes settings ↔
    ∀ key : Key, key.Fits (document.fields key.sectionName) settings := by
  simp only [Describes, Key.Fits, holds_iff]

end Document

/-! ### Decoding -/

/-- A field is read from its key, or has its default. -/
theorem field_eq_some_iff {α : Type} {read : Toml → Option α} {default x : α} {name : String}
    {fields : List (String × Toml)} {means : Toml → Prop}
    (nodup : (fields.map Prod.fst).Nodup) (reads : ∀ value, read value = some x ↔ means value) :
    field read default fields name = some x ↔
      (∀ value, (name, value) ∈ fields → means value) ∧
        ((∀ value, (name, value) ∉ fields) → x = default) := by
  rw [field]
  cases found : fields.lookup name with
  | none =>
    have absent := lookup_eq_none_iff_notMem.mp found
    simp [absent, eq_comm]
  | some value =>
    have mem := (lookup_eq_some_iff_mem nodup).mp found
    have only (value' : Toml) (mem' : (name, value') ∈ fields) : value' = value :=
      Option.some.inj (((lookup_eq_some_iff_mem nodup).mpr mem').symm.trans found)
    constructor
    · intro read'
      refine ⟨fun value' mem' => ?_, fun absent => absurd mem (absent value)⟩
      rw [only value' mem']
      exact (reads value).mp read'
    · rintro ⟨inside, -⟩
      exact (reads value).mpr (inside value mem)

/-- Decoding finds what the settings have in the field of the key. -/
def Key.Decodes (key : Key) (fields : List (String × Toml)) (settings : Settings) : Prop :=
  match key with
  | level => field level? .info fields "level" = some settings.level
  | colors => field flag? defaultFlag fields "colors" = some settings.style.colors
  | showSource => field flag? defaultFlag fields "show_source" = some settings.style.showSource
  | indicator =>
    field character? defaultIndicator fields "indicator" = some settings.style.indicator
  | format => field format? .pretty fields "format" = some settings.format

theorem Key.decodes_iff_fits {key : Key} {fields : List (String × Toml)} {settings : Settings}
    (nodup : (fields.map Prod.fst).Nodup) :
    key.Decodes fields settings ↔ key.Fits fields settings := by
  cases key with
  | level => exact field_eq_some_iff nodup fun value => level?_eq_some_iff
  | colors | showSource => exact field_eq_some_iff nodup fun value => flag?_eq_some_iff
  | indicator => exact field_eq_some_iff nodup fun value => character?_eq_some_iff
  | format => exact field_eq_some_iff nodup fun value => format?_eq_some_iff

variable {document : Document} {settings : Settings}

/-- Fields that are left out have the defaults that a section has when it is missing. -/
theorem defaults_agree : levelOf [] = some ({} : Settings).level ∧
    styleOf [] = some ({} : Settings).style ∧ formatOf [] = some ({} : Settings).format :=
  ⟨rfl, rfl, rfl⟩

theorem decode_eq_some_iff_decodes : decode document.entries = some settings ↔
    ∀ key : Key, key.Decodes (document.fields key.sectionName) settings := by
  obtain ⟨agree, agree', agree''⟩ := defaults_agree
  have log : sectionOf ["level"] levelOf .info document.entries "log" =
      levelOf (document.fields "log") := Document.sectionOf_eq .level agree
  have diagnostics : sectionOf ["colors", "show_source", "indicator"] styleOf {} document.entries
      "diagnostics" = styleOf (document.fields "diagnostics") :=
    Document.sectionOf_eq .colors agree'
  have output : sectionOf ["format"] formatOf .pretty document.entries "output" =
      formatOf (document.fields "output") := Document.sectionOf_eq .format agree''
  simp only [decode, log, diagnostics, output, styleOf, Option.bind_eq_bind,
    Option.bind_eq_some_iff]
  constructor
  · rintro ⟨_, level, _, ⟨_, colors, _, showSource, _, indicator, shown⟩, _, format, done⟩ key
    obtain rfl := Option.some.inj shown
    obtain rfl := Option.some.inj done
    cases key with
    | level => exact level
    | colors => exact colors
    | showSource => exact showSource
    | indicator => exact indicator
    | format => exact format
  · intro decodes
    exact ⟨_, decodes .level, _, ⟨_, decodes .colors, _, decodes .showSource, _,
      decodes .indicator, rfl⟩, _, decodes .format, rfl⟩

/-- A document is decoded to the settings that it describes. -/
theorem decode_eq_some_iff :
    decode document.entries = some settings ↔ document.Describes settings := by
  rw [decode_eq_some_iff_decodes, Document.describes_iff]
  exact forall_congr' fun key => Key.decodes_iff_fits (document.nodup_fields _)

/-! ### Documents that describe settings -/

theorem Document.Holds.unique {key : Key} {value value' : Toml} (holds : document.Holds key value)
    (holds' : document.Holds key value') : value = value' := by
  have nodup := document.nodup_fields key.sectionName
  have found := (lookup_eq_some_iff_mem nodup).mpr (holds_iff.mp holds)
  exact Option.some.inj (found.symm.trans
    ((lookup_eq_some_iff_mem nodup).mpr (holds_iff.mp holds')))

/-- The fields of settings can be chosen one by one. -/
theorem exists_agrees (part : Key → Settings) :
    ∃ settings : Settings, ∀ key : Key, key.Agrees settings (part key) :=
  ⟨{ level := (part .level).level
     style := {
       colors := (part .colors).style.colors
       showSource := (part .showSource).style.showSource
       indicator := (part .indicator).style.indicator }
     format := (part .format).format }, fun key => by cases key <;> rfl⟩

/-- A document describes settings if every key that it holds can have the value that it is
given. -/
theorem Document.exists_describes_iff : (∃ settings, document.Describes settings) ↔
    ∀ (key : Key) (value : Toml), document.Holds key value → key.Admits value := by
  constructor
  · rintro ⟨settings, describes⟩ key value holds
    exact ⟨settings, (describes key).1 value holds⟩
  · intro admits
    have part (key : Key) : ∃ settings, ∀ settings', key.Agrees settings' settings →
        (∀ value, document.Holds key value → key.Sets value settings') ∧
          ((∀ value, ¬document.Holds key value) → key.Agrees settings' {}) := by
      by_cases held : ∃ value, document.Holds key value
      · obtain ⟨value, holds⟩ := held
        obtain ⟨settings, sets⟩ := admits key value holds
        refine ⟨settings, fun settings' agrees => ⟨fun value' holds' => ?_, fun absent => ?_⟩⟩
        · rw [holds'.unique holds]
          exact agrees.symm.sets sets
        · exact absurd holds (absent value)
      · refine ⟨{}, fun settings' agrees => ⟨fun value holds => ?_, fun _ => agrees⟩⟩
        exact absurd ⟨value, holds⟩ held
    choose part described using part
    obtain ⟨settings, agrees⟩ := exists_agrees part
    exact ⟨settings, fun key => described key settings (agrees key)⟩

end Settings

end RatLang
