import Mathlib
import RatLang.Cli

/-!
# Where settings come from

In every situation there is exactly one place that settings come from, and what is found there is
all that counts. Two situations with the same place and the same content in it have the same
settings. What has less priority than the place can change neither, and a file that has been chosen
is read or it is an error.
-/

namespace RatLang

namespace World

/-- Something is there, be it a file or not. -/
def Holds (world : World) (path : String) : Prop :=
  ∀ cause, world.entry path ≠ .missing cause

theorem hasEntry_iff {world : World} {path : String} :
    world.hasEntry path = true ↔ world.Holds path := by
  rw [hasEntry, Holds]
  cases world.entry path <;> simp

theorem hasEntry_eq_false {world : World} {path : String} (nothing : ¬world.Holds path) :
    world.hasEntry path = false :=
  Bool.eq_false_iff.mpr fun there => nothing (hasEntry_iff.mp there)

end World

/-- Bytes are a text if they are the text in UTF-8. -/
theorem fromUTF8?_eq_some_iff {content : ByteArray} {text : String} :
    String.fromUTF8? content = some text ↔ content = text.toUTF8 := by
  constructor
  · intro decoded
    unfold String.fromUTF8? at decoded
    split at decoded
    · obtain rfl := Option.some.inj decoded
      rfl
    · cases decoded
  · rintro rfl
    exact dif_pos text.isValidUTF8

namespace Path

/-- What stands below a directory has this text in front of its name: the directory and a slash. A
directory that ends in a slash needs no other one, and one without a name needs none. -/
inductive Leads : String → String → Prop where
  | nowhere : Leads "" ""
  | slash (directory : String) : Leads (directory ++ "/") (directory ++ "/")
  | named {directory : String} (some_name : directory ≠ "")
    (bare : ∀ front, directory ≠ front ++ "/") : Leads directory (directory ++ "/")

theorem exists_leads (directory : String) : ∃ front, Leads directory front := by
  by_cases empty : directory = ""
  · exact ⟨"", empty ▸ .nowhere⟩
  · by_cases slash : ∃ front, directory = front ++ "/"
    · obtain ⟨front, rfl⟩ := slash
      exact ⟨_, .slash front⟩
    · exact ⟨_, .named empty (not_exists.mp slash)⟩

/-- What is joined to a directory stands below it. -/
theorem Leads.join_eq {directory front : String} (leads : Leads directory front) (name : String) :
    join directory name = front ++ name := by
  unfold join
  cases leads with
  | nowhere => simp
  | slash directory => simp
  | named some_name bare =>
    rw [if_neg (by simpa using some_name), if_neg]
    intro last
    obtain ⟨before, eq⟩ := List.getLast?_eq_some_iff.mp last
    exact bare (.ofList before) (by simp [String.ext_iff, eq])

/-- Below a name the path goes on with a slash. -/
theorem leads_of_last {name : String} {c : Char} (last : name.toList.getLast? = some c)
    (other : c ≠ '/') (front : String) : Leads (front ++ name) (front ++ name ++ "/") := by
  obtain ⟨before, eq⟩ := List.getLast?_eq_some_iff.mp last
  refine .named ?_ fun directory slash => ?_
  · rintro empty
    simpa [eq] using congrArg String.toList empty
  · have ends := congrArg (fun path => path.toList.getLast?) slash
    simp [eq] at ends
    exact other ends

end Path

namespace Settings

/-! ### Places -/

/-- What decides where settings come from. -/
structure Situation where
  /-- The path on the command line, if one is given. -/
  explicit : Option String
  world : World

/-- A place that settings can come from, the one with the most priority first. -/
inductive Origin where
  | commandLine (path : String)
  | environment (path : String)
  | project
  | user (path : String)
  | defaults
deriving DecidableEq, Repr

/-- The file of a place. -/
def Origin.file? : Origin → Option String
  | commandLine path | environment path | user path => some path
  | project => some "ratc.toml"
  | defaults => none

/-- The file of the user is below a directory that the first variable that is set leads to. -/
inductive UserFile (world : World) : String → Prop where
  | configHome {directory front : String} (set : world.env? "XDG_CONFIG_HOME" = some directory)
    (leads : Path.Leads directory front) : UserFile world (front ++ "ratc/config.toml")
  | home {directory front : String} (unset : world.env? "XDG_CONFIG_HOME" = none)
    (set : world.env? "HOME" = some directory) (leads : Path.Leads directory front) :
    UserFile world (front ++ ".config/ratc/config.toml")
  | appData {directory front : String} (unset : world.env? "XDG_CONFIG_HOME" = none)
    (homeless : world.env? "HOME" = none) (set : world.env? "APPDATA" = some directory)
    (leads : Path.Leads directory front) : UserFile world (front ++ "ratc/config.toml")

/-- The place that settings come from: the first one that is there. What is named on the command
line or by the variable counts even if nothing is in that place. -/
inductive Selects (situation : Situation) : Origin → Prop where
  | commandLine {path : String} (given : situation.explicit = some path) :
    Selects situation (.commandLine path)
  | environment {path : String} (silent : situation.explicit = none)
    (set : situation.world.env? "RATC_CONFIG" = some path) : Selects situation (.environment path)
  | project (silent : situation.explicit = none)
    (unset : situation.world.env? "RATC_CONFIG" = none)
    (there : situation.world.Holds "ratc.toml") : Selects situation .project
  | user {path : String} (silent : situation.explicit = none)
    (unset : situation.world.env? "RATC_CONFIG" = none)
    (bare : ¬situation.world.Holds "ratc.toml") (place : UserFile situation.world path)
    (there : situation.world.Holds path) : Selects situation (.user path)
  | defaults (silent : situation.explicit = none)
    (unset : situation.world.env? "RATC_CONFIG" = none)
    (bare : ¬situation.world.Holds "ratc.toml")
    (nowhere : ∀ path, UserFile situation.world path → ¬situation.world.Holds path) :
    Selects situation .defaults

/-- The file of the user below a directory. -/
theorem join_config {directory front : String} (leads : Path.Leads directory front) :
    Path.join (Path.join directory "ratc") "config.toml" = front ++ "ratc/config.toml" := by
  have below := Path.leads_of_last (rfl : "ratc".toList.getLast? = some 'c') (by decide) front
  rw [leads.join_eq, below.join_eq, String.append_assoc, String.append_assoc]
  rfl

/-- The file of the user below a home directory. -/
theorem join_home {directory front : String} (leads : Path.Leads directory front) :
    Path.join (Path.join (Path.join directory ".config") "ratc") "config.toml" =
      front ++ ".config/ratc/config.toml" := by
  have below := Path.leads_of_last (rfl : ".config".toList.getLast? = some 'g') (by decide) front
  rw [leads.join_eq, join_config below, String.append_assoc, String.append_assoc]
  rfl

theorem userFile_iff {world : World} {path : String} :
    UserFile world path ↔ userFile? world = some path := by
  rw [userFile?, userDirectory?]
  constructor
  · intro place
    cases place with
    | configHome set leads => rw [set, ← join_config leads]; rfl
    | home unset set leads => rw [unset, set, ← join_home leads]; rfl
    | appData unset homeless set leads => rw [unset, homeless, set, ← join_config leads]; rfl
  · intro found
    cases configHome : world.env? "XDG_CONFIG_HOME" with
    | some directory =>
      obtain ⟨front, leads⟩ := Path.exists_leads directory
      rw [configHome] at found
      obtain rfl := (join_config leads).symm.trans (Option.some.inj found)
      exact .configHome configHome leads
    | none =>
      cases homeDirectory : world.env? "HOME" with
      | some directory =>
        obtain ⟨front, leads⟩ := Path.exists_leads directory
        rw [configHome, homeDirectory] at found
        obtain rfl := (join_home leads).symm.trans (Option.some.inj found)
        exact .home configHome homeDirectory leads
      | none =>
        rw [configHome, homeDirectory] at found
        cases appData : world.env? "APPDATA" with
        | none =>
          rw [appData] at found
          cases found
        | some directory =>
          obtain ⟨front, leads⟩ := Path.exists_leads directory
          rw [appData] at found
          obtain rfl := (join_config leads).symm.trans (Option.some.inj found)
          exact .appData configHome homeDirectory appData leads

theorem UserFile.unique {world : World} {path path' : String} (place : UserFile world path)
    (place' : UserFile world path') : path = path' :=
  Option.some.inj ((userFile_iff.mp place).symm.trans (userFile_iff.mp place'))

variable {situation other : Situation} {origin origin' : Origin}

theorem exists_selects (situation : Situation) : ∃ origin, Selects situation origin := by
  cases silent : situation.explicit with
  | some path => exact ⟨_, .commandLine silent⟩
  | none =>
    cases unset : situation.world.env? "RATC_CONFIG" with
    | some path => exact ⟨_, .environment silent unset⟩
    | none =>
      by_cases bare : situation.world.Holds "ratc.toml"
      · exact ⟨_, .project silent unset bare⟩
      · by_cases place : ∃ path, UserFile situation.world path ∧ situation.world.Holds path
        · obtain ⟨path, place, there⟩ := place
          exact ⟨_, .user silent unset bare place there⟩
        · exact ⟨_, .defaults silent unset bare fun path found there => place ⟨path, found, there⟩⟩

/-- The file that is read is that of the place. -/
theorem Selects.chosenFile? (selected : Selects situation origin) :
    chosenFile? situation.explicit situation.world = origin.file? := by
  unfold Settings.chosenFile? pathVariable projectFile
  cases selected with
  | commandLine given => rw [given]; rfl
  | environment silent set => rw [silent, set]; rfl
  | project silent unset there => rw [silent, unset, World.hasEntry_iff.mpr there]; rfl
  | user silent unset bare place there =>
    rw [silent, unset, World.hasEntry_eq_false bare, userFile_iff.mp place]
    exact Option.filter_some_pos (World.hasEntry_iff.mpr there)
  | defaults silent unset bare nowhere =>
    rw [silent, unset, World.hasEntry_eq_false bare]
    refine Option.filter_eq_none_iff.mpr fun path found there => ?_
    exact nowhere path (userFile_iff.mpr found) (World.hasEntry_iff.mp there)

/-! ### What has priority -/

/-- Two situations agree on whatever has at least the priority of the place. Nothing else is
compared. -/
def Origin.AgreeAbove (situation other : Situation) : Origin → Prop
  | commandLine _ => other.explicit = situation.explicit
  | environment _ => other.explicit = situation.explicit ∧
    other.world.env? "RATC_CONFIG" = situation.world.env? "RATC_CONFIG"
  | project => other.explicit = situation.explicit ∧
    other.world.env? "RATC_CONFIG" = situation.world.env? "RATC_CONFIG" ∧
    (other.world.Holds "ratc.toml" ↔ situation.world.Holds "ratc.toml")
  | user _ | defaults => other.explicit = situation.explicit ∧
    other.world.env? "RATC_CONFIG" = situation.world.env? "RATC_CONFIG" ∧
    (other.world.Holds "ratc.toml" ↔ situation.world.Holds "ratc.toml") ∧
    (∀ path, UserFile other.world path ↔ UserFile situation.world path) ∧
    ∀ path, UserFile situation.world path →
      (other.world.Holds path ↔ situation.world.Holds path)

/-- What has less priority than the place does not make another place count. -/
theorem Selects.transfer (selected : Selects situation origin)
    (agree : origin.AgreeAbove situation other) : Selects other origin := by
  cases selected with
  | commandLine given => exact .commandLine (agree.trans given)
  | environment silent set =>
    obtain ⟨explicit, env⟩ := agree
    exact .environment (explicit.trans silent) (env.trans set)
  | project silent unset there =>
    obtain ⟨explicit, env, project⟩ := agree
    exact .project (explicit.trans silent) (env.trans unset) (project.mpr there)
  | user silent unset bare place there =>
    obtain ⟨explicit, env, project, places, user⟩ := agree
    exact .user (explicit.trans silent) (env.trans unset) (mt project.mp bare)
      ((places _).mpr place) ((user _ place).mpr there)
  | defaults silent unset bare nowhere =>
    obtain ⟨explicit, env, project, places, user⟩ := agree
    refine .defaults (explicit.trans silent) (env.trans unset) (mt project.mp bare) ?_
    intro path place there
    have place' := (places path).mp place
    exact nowhere path place' ((user path place').mp there)

/-- Places exclude each other, because each one asks for those before it to be absent. -/
theorem Selects.unique (selected : Selects situation origin)
    (selected' : Selects situation origin') : origin = origin' := by
  cases selected with
  | user silent unset bare place there =>
    cases selected' with
    | user silent' unset' bare' place' there' => rw [place.unique place']
    | _ => simp_all
  | _ => cases selected' <;> simp_all

/-! ### What is found there -/

/-- What comes of reading settings from a file. -/
inductive Reads (world : World) (path : String) : Except LoadError Settings → Prop where
  | missing {cause : ReadError} (found : world.entry path = .missing cause) :
    Reads world path (.error (.unreadable path cause))
  | unreadable {cause : ReadError} (found : world.entry path = .unreadable cause) :
    Reads world path (.error (.unreadable path cause))
  | notText {content : ByteArray} (found : world.entry path = .file content)
    (garbled : ∀ text : String, content ≠ text.toUTF8) :
    Reads world path (.error (.unreadable path .notText))
  | malformed {text : String} (found : world.entry path = .file text.toUTF8)
    (spoiled : parse text = none) : Reads world path (.error (.malformed path))
  | settings {text : String} {settings : Settings}
    (found : world.entry path = .file text.toUTF8) (parsed : parse text = some settings) :
    Reads world path (.ok settings)

theorem reads_loadFile (world : World) (path : String) :
    Reads world path (loadFile world path) := by
  rw [loadFile, World.readText, World.readBytes]
  cases found : world.entry path with
  | missing cause => exact .missing found
  | unreadable cause => exact .unreadable found
  | file content =>
    cases decoded : String.fromUTF8? content with
    | none =>
      have garbled (text : String) : content ≠ text.toUTF8 := by
        intro same
        rw [fromUTF8?_eq_some_iff.mpr same] at decoded
        cases decoded
      simpa only [decoded] using Reads.notText found garbled
    | some text =>
      obtain rfl := fromUTF8?_eq_some_iff.mp decoded
      cases parsed : parse text with
      | none => simpa only [decoded, parsed] using Reads.malformed found parsed
      | some settings => simpa only [decoded, parsed] using Reads.settings found parsed

/-- Settings come from a file exactly if it is a text that describes them. -/
theorem loadFile_eq_ok_iff {world : World} {path : String} {settings : Settings} :
    loadFile world path = .ok settings ↔
      ∃ text : String, world.entry path = .file text.toUTF8 ∧ parse text = some settings := by
  constructor
  · intro loaded
    have reads := reads_loadFile world path
    rw [loaded] at reads
    cases reads with
    | settings found parsed => exact ⟨_, found, parsed⟩
  · rintro ⟨text, found, parsed⟩
    have decoded := fromUTF8?_eq_some_iff.mpr (rfl : text.toUTF8 = text.toUTF8)
    simp only [loadFile, World.readText, World.readBytes, found, decoded, parsed]

/-- A file is read in the same way wherever it has the same content. -/
theorem loadFile_congr {world world' : World} {path : String}
    (same : world'.entry path = world.entry path) : loadFile world' path = loadFile world path := by
  simp only [loadFile, World.readText, World.readBytes, same]

end Settings

namespace Cli

/-- What the options of the command line make of settings. Fields without an option that is given
stay as they are. -/
structure Applies (options : Options) (before after : Settings) : Prop where
  level : after.level = if options.verbose then .debug else before.level
  format : after.format = options.format.getD before.format
  colors : after.style.colors = (before.style.colors && !options.noColor)
  showSource : after.style.showSource = before.style.showSource
  indicator : after.style.indicator = before.style.indicator

theorem applies_applyOptions (settings : Settings) (options : Options) :
    Applies options settings (applyOptions settings options) := by
  cases colorless : options.noColor <;> constructor <;> simp [applyOptions, colorless]

end Cli

namespace Settings

variable {situation other : Situation} {origin : Origin}

theorem Selects.load_defaults (selected : Selects situation origin)
    (nothing : origin.file? = none) : load situation.explicit situation.world = .ok {} := by
  simp only [load, selected.chosenFile?, nothing]

/-- Settings are loaded from the file of the place that they come from. -/
theorem Selects.load_file {path : String} (selected : Selects situation origin)
    (file : origin.file? = some path) :
    load situation.explicit situation.world = loadFile situation.world path := by
  simp only [load, selected.chosenFile?, file]

/-- The same place with the same content makes the same settings. -/
theorem Selects.load_congr (selected : Selects situation origin) (selected' : Selects other origin)
    (same : ∀ path, origin.file? = some path →
      other.world.entry path = situation.world.entry path) :
    load other.explicit other.world = load situation.explicit situation.world := by
  cases file : origin.file? with
  | none => rw [selected.load_defaults file, selected'.load_defaults file]
  | some path =>
    rw [selected.load_file file, selected'.load_file file]
    exact loadFile_congr (same path file)

/-- Settings come from exactly one place: the first one that is there. From a file come its
settings, or an error if it cannot be read or is malformed. Whatever else is in the world, the same
place with the same content makes the same settings, and the place stays the same while nothing of
at least its priority changes. Options of the command line then change no field but their own. -/
theorem load_only_selected (situation : Situation) :
    (∃! origin, Selects situation origin) ∧
    (∀ origin, Selects situation origin →
      (origin.file? = none → load situation.explicit situation.world = .ok {}) ∧
      (∀ path, origin.file? = some path →
        Reads situation.world path (load situation.explicit situation.world) ∧
        ∀ settings, load situation.explicit situation.world = .ok settings ↔
          ∃ text : String, situation.world.entry path = .file text.toUTF8 ∧
            parse text = some settings) ∧
      (∀ other, Selects other origin →
        (∀ path, origin.file? = some path →
          other.world.entry path = situation.world.entry path) →
        load other.explicit other.world = load situation.explicit situation.world) ∧
      ∀ other, origin.AgreeAbove situation other → Selects other origin) ∧
    ∀ options : Cli.Options, options.config = situation.explicit →
      (∀ error, load situation.explicit situation.world = .error error →
        Cli.resolveSettings situation.world options = .error error) ∧
      ∀ settings, load situation.explicit situation.world = .ok settings →
        ∃ resolved, Cli.resolveSettings situation.world options = .ok resolved ∧
          Cli.Applies options settings resolved := by
  refine ⟨?place, fun origin selected => ⟨?defaults, ?file, ?same, ?above⟩, ?options⟩
  case place =>
    obtain ⟨origin, selected⟩ := exists_selects situation
    exact ⟨origin, selected, fun other selected' => selected'.unique selected⟩
  case defaults => exact selected.load_defaults
  case file =>
    intro path file
    rw [selected.load_file file]
    exact ⟨reads_loadFile situation.world path, fun settings => loadFile_eq_ok_iff⟩
  case same => exact fun other selected' content => selected.load_congr selected' content
  case above => exact fun other agree => selected.transfer agree
  case options =>
    intro options given
    rw [Cli.resolveSettings, given]
    refine ⟨fun error failed => by rw [failed]; rfl, fun settings loaded => ?_⟩
    rw [loaded]
    exact ⟨_, rfl, Cli.applies_applyOptions settings options⟩

/-- Where the variable names a file, what the project and the user have does not count. Where
nothing else is there, the file of the user is found below the home directory, and what the third
variable leads to does not count. -/
theorem load_only_selected_environment_or_home :
    let content := "[log]\nlevel = \"warn\"\n".toUTF8
    let other := "[output]\nformat = \"json\"\n".toUTF8
    let named : World := ⟨[("RATC_CONFIG", "e.toml")], fun path =>
      if path = "e.toml" then .file content else .missing .notFound⟩
    let crowded : World := ⟨[("HOME", "h"), ("RATC_CONFIG", "e.toml")], fun path =>
      if path = "e.toml" then .file content else if path = "ratc.toml" then .file other
      else .unreadable .isDirectory⟩
    let userFile := "/home/u/.config/ratc/config.toml"
    let home : World := ⟨[("HOME", "/home/u")], fun path =>
      if path = userFile then .file content else .missing .notFound⟩
    let guest : World := ⟨[("HOME", "/home/u/"), ("APPDATA", "a")], fun path =>
      if path = userFile then .file content else if path = "a/ratc/config.toml" then .file other
      else .missing .notFound⟩
    (Selects ⟨none, named⟩ (.environment "e.toml") ∧
      Selects ⟨none, crowded⟩ (.environment "e.toml") ∧
      load none crowded = load none named ∧ load none named = .ok { level := .warn } ∧
      ∃ resolved, Cli.resolveSettings named { noColor := true } = .ok resolved ∧
        Cli.Applies { noColor := true } { level := .warn } resolved) ∧
    Selects ⟨none, home⟩ (.user userFile) ∧ Selects ⟨none, guest⟩ (.user userFile) ∧
      load none guest = load none home ∧ load none home = .ok { level := .warn } := by
  intro content other named crowded userFile home guest
  constructor
  · have loaded : load none named = .ok { level := .warn } := by decide +kernel
    obtain ⟨-, places, options⟩ := load_only_selected ⟨none, named⟩
    have selected : Selects ⟨none, named⟩ (.environment "e.toml") := .environment rfl rfl
    obtain ⟨-, -, alike, above⟩ := places _ selected
    have selected' : Selects ⟨none, crowded⟩ (.environment "e.toml") := above _ ⟨rfl, rfl⟩
    refine ⟨selected, selected', ?_, loaded, (options _ rfl).2 _ loaded⟩
    refine alike _ selected' fun path file => ?_
    cases file
    rfl
  · have loaded : load none home = .ok { level := .warn } := by decide +kernel
    obtain ⟨-, places, -⟩ := load_only_selected ⟨none, home⟩
    have leads : Path.Leads "/home/u" "/home/u/" :=
      Path.leads_of_last (rfl : "u".toList.getLast? = some 'u') (by decide) "/home/"
    have selected : Selects ⟨none, home⟩ (.user userFile) :=
      .user rfl rfl (fun there => there .notFound rfl) (.home rfl rfl leads) nofun
    have selected' : Selects ⟨none, guest⟩ (.user userFile) :=
      .user rfl rfl (fun there => there .notFound rfl) (.home rfl rfl (.slash "/home/u")) nofun
    obtain ⟨-, -, alike, -⟩ := places _ selected
    refine ⟨selected, selected', ?_, loaded⟩
    refine alike _ selected' fun path file => ?_
    cases file
    rfl

end Settings

end RatLang
