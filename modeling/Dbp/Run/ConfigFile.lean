/-
# The configuration file

`dbp_config_init` reads `dbp_config.ini`: it asks for one key after the
other and ends the program at the first that is missing, so a file is read
exactly if it has all of them (`dbpConfigInit_missing_iff`). What is read is
what was written: a configuration whose values a desktop file can carry is
read back from the file with its entries (`config_round_trip`).

Key definitions: `ConfigFile`, `dbpConfigInit`, `configKeys`, `configDesktop`, `Carried`.
Key theorems: `dbpConfigInit_missing_iff`, `dbpConfigInit_reads_iff`, `expandToken_tokenList`, `config_round_trip`.
-/
import Dbp.Base.DesktopRoundTrip
import Dbp.Daemon.RegisterPath
import Dbp.Run.Client

namespace Dbp

open CLib

/-! ### Reading -/

/-- `struct DBPConfig`. -/
structure ConfigFile extends RunConfig where
  createRodata : Bool
  daemonLog : CStr
  stateFile : CStr
  verboseOutput : Bool

/-- `dbp_desktop_lookup(df, key, "", "Package Daemon Config")`. -/
def configLookup (df : DesktopFile) (key : CStr) : Option CStr :=
  dbpDesktopLookup df key [] (some (lit "Package Daemon Config"))

/-- `config_request_entry`: a missing key ends the program. -/
def configRequestEntry (df : DesktopFile) (key : CStr) : Except CStr CStr :=
  match configLookup df key with
  | none => .error key
  | some tmp => .ok tmp

/-- `config_get_bool`. -/
def configGetBool (df : DesktopFile) (key : CStr) : Except CStr Bool := do
  let tmp ← configRequestEntry df key
  return tmp == lit "yes"

/-- The part of `dbp_config_init` after the file is parsed. -/
def configRead (df : DesktopFile) : Except CStr ConfigFile := do
  let fileExtension ← configRequestEntry df (lit "file_extension")
  let searchDir ← configRequestEntry df (lit "search_directories")
  let imgMount ← configRequestEntry df (lit "image_mount_dir")
  let unionMount ← configRequestEntry df (lit "union_mount_dir")
  let dataDirectory ← configRequestEntry df (lit "data_directory")
  let rodataDirectory ← configRequestEntry df (lit "ro_data_directory")
  let perPackageAppdata ← configGetBool df (lit "per_package_appdata")
  let createRodata ← configGetBool df (lit "create_rodata")
  let iconDirectory ← configRequestEntry df (lit "icon_directory")
  let execDirectory ← configRequestEntry df (lit "exec_directory")
  let desktopDirectory ← configRequestEntry df (lit "desktop_directory")
  let dbpoutDirectory ← configRequestEntry df (lit "dbpout_directory")
  let dbpoutPrefix ← configRequestEntry df (lit "dbpout_prefix")
  let dbpoutSuffix ← configRequestEntry df (lit "dbpout_suffix")
  let daemonLog ← configRequestEntry df (lit "daemon_log")
  let stateFile ← configRequestEntry df (lit "state_file")
  let execTemplate ← configRequestEntry df (lit "exec_template")
  let perUserAppdata ← configGetBool df (lit "per_user_appdata")
  let arch ← configRequestEntry df (lit "supported_archs")
  -- the only key that may be missing
  let runScript := configLookup df (lit "run_script")
  let verboseOutput ← configGetBool df (lit "verbose_debug_output")
  return {
    fileExtension := dbpConfigExpandToken fileExtension
    searchDir := dbpConfigExpandToken searchDir
    arch := dbpConfigExpandToken arch
    imgMount, unionMount, dataDirectory, rodataDirectory, perPackageAppdata, createRodata, iconDirectory, execDirectory
    desktopDirectory, dbpoutDirectory, dbpoutPrefix, dbpoutSuffix, daemonLog, stateFile, execTemplate, perUserAppdata
    runScript, verboseOutput, df }

/-- `dbp_config_init`: nothing is read from a file that cannot be opened, and a missing key ends the program. -/
def dbpConfigInit (file : Option CStr) (b : ParseBufs) : Except CStr (Option ConfigFile) :=
  match file with
  | none => .ok none
  | some text => (configRead (dbpDesktopParse (cString text) b)).map some

/-- The keys that have to be there, in the order in which they are asked for. -/
def configKeys : List CStr :=
  [lit "file_extension", lit "search_directories", lit "image_mount_dir", lit "union_mount_dir", lit "data_directory",
    lit "ro_data_directory", lit "per_package_appdata", lit "create_rodata", lit "icon_directory", lit "exec_directory",
    lit "desktop_directory", lit "dbpout_directory", lit "dbpout_prefix", lit "dbpout_suffix", lit "daemon_log",
    lit "state_file", lit "exec_template", lit "per_user_appdata", lit "supported_archs", lit "verbose_debug_output"]

section Missing

variable {df : DesktopFile} {α : Type} {key : CStr} {ks : List CStr}

/-- A key is the first that is missing if it is, or if it is the first among the rest. -/
theorem configRequest_bind (k : CStr) {f : CStr → Except CStr α}
    (hf : ∀ v, f v = .error key ↔ ks.find? (fun k => (configLookup df k).isNone) = some key) :
    configRequestEntry df k >>= f = .error key ↔
      (k :: ks).find? (fun k => (configLookup df k).isNone) = some key := by
  unfold configRequestEntry
  cases h : configLookup df k with
  | none => simp [bind, Except.bind, h]
  | some v => simpa [bind, Except.bind, h] using hf v

theorem configGetBool_bind (k : CStr) {f : Bool → Except CStr α}
    (hf : ∀ v, f v = .error key ↔ ks.find? (fun k => (configLookup df k).isNone) = some key) :
    configGetBool df k >>= f = .error key ↔
      (k :: ks).find? (fun k => (configLookup df k).isNone) = some key := by
  unfold configGetBool
  rw [bind_assoc]
  exact configRequest_bind k fun v => hf _

/-- **The program ends** exactly if a key is missing, and it names the first. -/
theorem dbpConfigInit_missing_iff (text : CStr) (b : ParseBufs) (key : CStr) :
    dbpConfigInit (some text) b = .error key ↔
      configKeys.find? (fun k => (configLookup (dbpDesktopParse (cString text) b) k).isNone) = some key := by
  have hmap : ∀ x : Except CStr ConfigFile, x.map some = .error key ↔ x = .error key := by
    intro x
    cases x <;> simp [Except.map]
  rw [dbpConfigInit, hmap, configRead, configKeys]
  iterate 20 first | refine configRequest_bind _ fun _ => ?_ | refine configGetBool_bind _ fun _ => ?_
  simp [pure, Except.pure]

/-- A file that can be opened is read exactly if every key is there. -/
theorem dbpConfigInit_reads_iff (text : CStr) (b : ParseBufs) : (∃ c, dbpConfigInit (some text) b = .ok (some c)) ↔
    ∀ key ∈ configKeys, (configLookup (dbpDesktopParse (cString text) b) key).isSome := by
  have hmissing := dbpConfigInit_missing_iff text b
  cases hread : configRead (dbpDesktopParse (cString text) b) with
  | error key =>
    have herror : dbpConfigInit (some text) b = .error key := by
      rw [dbpConfigInit, hread]
      rfl
    have hfind := (hmissing key).mp herror
    rw [herror]
    refine iff_of_false (by simp) fun hall => ?_
    have hsome := hall key (List.mem_of_find?_eq_some hfind)
    have hnone := List.find?_some hfind
    simp_all
  | ok c =>
    have hok : dbpConfigInit (some text) b = .ok (some c) := by
      rw [dbpConfigInit, hread]
      rfl
    refine iff_of_true ⟨c, hok⟩ fun key hkey => ?_
    cases hfind : configKeys.find? fun k => (configLookup (dbpDesktopParse (cString text) b) k).isNone with
    | some first => exact absurd (hok.symm.trans ((hmissing first).mpr hfind)) (by simp)
    | none => simpa [Option.isSome_iff_ne_none] using List.find?_eq_none.mp hfind key hkey

end Missing

/-! ### What is written is read -/

/-- A list as it is written: a `;` between the pieces, or for none of them. -/
def tokenList (xs : List CStr) : CStr := if xs = [] then lit ";" else [';'].intercalate xs

theorem expandToken_tokenList {xs : List CStr} (h : ∀ x ∈ xs, x ≠ [] ∧ ';' ∉ x) :
    dbpConfigExpandToken (tokenList xs) = xs := by
  unfold dbpConfigExpandToken tokenList strtok
  split_ifs with hne
  · rw [hne]
    decide
  · rw [List.splitOn_intercalate _ (fun x hx => (h x hx).2) hne, List.filter_eq_self]
    exact fun x hx => by simpa using (h x hx).1

def boolValue (b : Bool) : CStr := if b then lit "yes" else lit "no"

/-- The entries of a configuration. -/
def configEntries (c : ConfigFile) : List (CStr × CStr) :=
  [(lit "file_extension", tokenList c.fileExtension), (lit "search_directories", tokenList c.searchDir),
    (lit "image_mount_dir", c.imgMount), (lit "union_mount_dir", c.unionMount),
    (lit "data_directory", c.dataDirectory), (lit "ro_data_directory", c.rodataDirectory),
    (lit "per_package_appdata", boolValue c.perPackageAppdata), (lit "create_rodata", boolValue c.createRodata),
    (lit "icon_directory", c.iconDirectory), (lit "exec_directory", c.execDirectory),
    (lit "desktop_directory", c.desktopDirectory), (lit "dbpout_directory", c.dbpoutDirectory),
    (lit "dbpout_prefix", c.dbpoutPrefix), (lit "dbpout_suffix", c.dbpoutSuffix), (lit "daemon_log", c.daemonLog),
    (lit "state_file", c.stateFile), (lit "exec_template", c.execTemplate),
    (lit "per_user_appdata", boolValue c.perUserAppdata), (lit "supported_archs", tokenList c.arch),
    (lit "verbose_debug_output", boolValue c.verboseOutput)] ++
  (c.runScript.map (lit "run_script", ·)).toList

/-- The file of a configuration. -/
def configDesktop (c : ConfigFile) : DesktopFile :=
  ⟨[⟨none, []⟩, ⟨some (lit "Package Daemon Config"), (configEntries c).map fun x => ⟨x.1, [], x.2⟩⟩]⟩

/-- A configuration that a file can carry. -/
structure Carried (c : ConfigFile) : Prop where
  entry : ∀ x ∈ configEntries c, WritableEntry ⟨x.1, [], x.2⟩
  short : ∀ line ∈ textLines (dbpDesktopWrite (configDesktop c)), line.length < 4096
  tokens : ∀ x ∈ c.fileExtension ++ c.searchDir ++ c.arch, x ≠ [] ∧ ';' ∉ x
  noNul : '\x00' ∉ dbpDesktopWrite (configDesktop c)

theorem configEntries_keys (c : ConfigFile) :
    (configEntries c).map (·.1) = configKeys ++ if c.runScript.isSome then [lit "run_script"] else [] := by
  unfold configEntries
  cases c.runScript <;> rfl

theorem nodup_keys (c : ConfigFile) : ((configEntries c).map (·.1)).Nodup := by
  rw [configEntries_keys]
  split_ifs <;> decide

theorem Carried.writable {c : ConfigFile} (h : Carried c) : Writable (configDesktop c) where
  nameless := rfl
  named s hs := by
    obtain rfl := List.mem_singleton.mp hs
    exact ⟨_, rfl, by decide, by decide⟩
  distinct := List.nodup_singleton _
  unique s hs := by
    rcases List.mem_pair.mp hs with rfl | rfl
    · exact List.nodup_nil
    · refine List.Nodup.of_map Prod.fst ?_
      rw [List.map_map, List.map_map]
      exact nodup_keys c
  entry s hs e he := by
    rcases List.mem_pair.mp hs with rfl | rfl
    · cases he
    · obtain ⟨x, hx, rfl⟩ := List.mem_map.mp he
      exact h.entry x hx
  short := h.short

theorem Carried.cString {c : ConfigFile} (h : Carried c) :
    Dbp.cString (dbpDesktopWrite (configDesktop c)) = dbpDesktopWrite (configDesktop c) := by
  apply List.takeWhile_eq_self_iff.mpr
  intro x hx
  simpa using ne_of_mem_of_not_mem hx h.noNul

theorem configDesktop_sec (c : ConfigFile) : (configDesktop c).sec 1 =
    ⟨some (lit "Package Daemon Config"), (configEntries c).map fun x => ⟨x.1, [], x.2⟩⟩ := rfl

theorem configDesktop_section (c : ConfigFile) :
    dbpDesktopLookupSection (configDesktop c) (some (lit "Package Daemon Config")) = some 1 := by
  simp [dbpDesktopLookupSection, configDesktop]

/-- Every entry is found. -/
theorem configLookup_desktop (c : ConfigFile) {x : CStr × CStr} (hx : x ∈ configEntries c) :
    configLookup (configDesktop c) x.1 = some x.2 := by
  obtain ⟨pre, post, hes⟩ := List.append_of_mem hx
  have hnd := nodup_keys c
  rw [hes, List.map_append, List.map_cons] at hnd
  have hentry : dbpDesktopLookupEntry (configDesktop c) x.1 [] 1 =
      some (pre.map fun x => (⟨x.1, [], x.2⟩ : DesktopEntry)).length := by
    rw [dbpDesktopLookupEntry, configDesktop_sec, hes, List.map_append, List.map_cons]
    refine findIdx?_middle (fun y hy => ?_) (by simp)
    obtain ⟨z, hz, rfl⟩ := List.mem_map.mp hy
    have hne : z.1 ≠ x.1 := fun he =>
      List.disjoint_of_nodup_append hnd (List.mem_map_of_mem hz) (by rw [he]; simp)
    simp [hne]
  have hvalue : (configDesktop c).value 1 (pre.map fun x => (⟨x.1, [], x.2⟩ : DesktopEntry)).length = x.2 := by
    rw [DesktopFile.value, configDesktop_sec, hes]
    simp
  rw [configLookup, dbpDesktopLookup, configDesktop_section]
  simp only [hentry, hvalue]

theorem boolValue_yes (v : Bool) : (boolValue v == lit "yes") = v := by
  cases v <;> rfl

/-- A file whose keys have the values of a configuration. -/
theorem configRead_eq {c : ConfigFile} (h : Carried c) {df : DesktopFile}
    (hget : ∀ x ∈ configEntries c, configLookup df x.1 = some x.2)
    (hrun : configLookup df (lit "run_script") = c.runScript) : configRead df = .ok { c with df := df } := by
  have hext := expandToken_tokenList fun x hx => h.tokens x (List.mem_append_left _ (List.mem_append_left _ hx))
  have hdir := expandToken_tokenList fun x hx => h.tokens x (List.mem_append_left _ (List.mem_append_right _ hx))
  have harch := expandToken_tokenList fun x hx => h.tokens x (List.mem_append_right _ hx)
  simp only [configEntries, List.forall_mem_append, List.forall_mem_cons] at hget
  simp only [configRead, configGetBool, configRequestEntry, hget, hrun, bind, Except.bind, pure, Except.pure,
    boolValue_yes, hext, hdir, harch]

/-- No other key is found. -/
theorem configLookup_absent (c : ConfigFile) {key : CStr} (hk : key ∉ (configEntries c).map (·.1)) :
    configLookup (configDesktop c) key = none := by
  have hentry : dbpDesktopLookupEntry (configDesktop c) key [] 1 = none := by
    rw [dbpDesktopLookupEntry, configDesktop_sec, List.findIdx?_eq_none_iff]
    intro e he
    obtain ⟨x, hx, rfl⟩ := List.mem_map.mp he
    have hne : x.1 ≠ key := fun he => hk (List.mem_map.mpr ⟨x, hx, he⟩)
    simp [hne]
  rw [configLookup, dbpDesktopLookup, configDesktop_section]
  simp only [List.takeWhile_nil, hentry, Option.map_none]

theorem configLookup_runScript (c : ConfigFile) : configLookup (configDesktop c) (lit "run_script") = c.runScript := by
  cases hs : c.runScript with
  | none =>
    refine configLookup_absent c ?_
    rw [configEntries_keys, hs]
    decide
  | some script =>
    have hx : (lit "run_script", script) ∈ configEntries c := by simp [configEntries, hs]
    exact configLookup_desktop c hx

theorem Carried.parse {c : ConfigFile} (h : Carried c) (b : ParseBufs) :
    dbpDesktopParse (Dbp.cString (dbpDesktopWrite (configDesktop c))) b = configDesktop c := by
  rw [h.cString, h.writable.parse]

/-- A written configuration is read back. -/
theorem dbpConfigInit_desktop {c : ConfigFile} (h : Carried c) (b : ParseBufs) :
    dbpConfigInit (some (dbpDesktopWrite (configDesktop c))) b = .ok (some { c with df := configDesktop c }) := by
  have hread := configRead_eq h (fun _ hx => configLookup_desktop c hx) (configLookup_runScript c)
  rw [dbpConfigInit, h.parse b, hread]
  simp [Except.map]

/-! ### Printing a key -/

/-- How a program ends: its exit status, and what it prints. -/
structure ProgramRun where
  exit : ℤ
  stdout : CStr
  stderr : CStr
deriving Repr, DecidableEq

/-- `DBP_CONFIG_FILE_PATH`. -/
def DBP_CONFIG_FILE_PATH : CStr := lit "/etc/dbp/dbp_config.ini"

/-- `dbp_init(NULL)`: the program ends, or goes on after a message, if any. -/
def dbpInit (file : Option CStr) (b : ParseBufs) : Except ProgramRun CStr :=
  match dbpConfigInit file b with
  | .error key => .error ⟨-1, [], DBP_CONFIG_FILE_PATH ++ lit ": key " ++ key ++ lit " is missing\n"⟩
  | .ok none => .ok (lit "Unable to open config file " ++ DBP_CONFIG_FILE_PATH ++ lit "\n")
  | .ok (some _) => .ok []

/-- `main` of `dbp-cfg` after `dbp_init`, where `usage` is what `usage` prints. -/
def dbpCfgMain (usage : CStr) (file : Option CStr) (b : ParseBufs) : List CStr → ProgramRun
  | _ :: key :: _ =>
    if key = lit "--help" then ⟨0, [], usage⟩
    else
      match file with
      | none => ⟨-1, [], lit "Unable to open config file " ++ DBP_CONFIG_FILE_PATH ++ lit "\n"⟩
      | some text =>
        match configLookup (dbpDesktopParse (cString text) b) key with
        | none => ⟨-1, [], lit "Key '" ++ key ++ lit "' doesn't exist in config\n"⟩
        | some value => ⟨0, value, []⟩
  | _ => ⟨-1, [], usage⟩

/-- `dbp-cfg`. -/
def dbpCfg (usage : CStr) (file : Option CStr) (b : ParseBufs) (argv : List CStr) : ProgramRun :=
  match dbpInit file b with
  | .error r => r
  | .ok msg =>
    let r := dbpCfgMain usage file b argv
    { r with stderr := msg ++ r.stderr }

/-- **A configuration is read back** from the file it is written to, and `dbp-cfg` prints the values of its keys, and
of no others. -/
theorem config_round_trip (c : ConfigFile) (h : Carried c) (b : ParseBufs) :
    let file := some (dbpDesktopWrite (configDesktop c))
    dbpConfigInit file b = .ok (some { c with df := configDesktop c }) ∧
      ∀ (usage name key : CStr) (rest : List CStr), key ≠ lit "--help" →
        (∀ value, (key, value) ∈ configEntries c → dbpCfg usage file b (name :: key :: rest) = ⟨0, value, []⟩) ∧
          (key ∉ (configEntries c).map (·.1) → (dbpCfg usage file b (name :: key :: rest)).exit = -1) := by
  intro file
  have hinit : dbpConfigInit file b = .ok (some { c with df := configDesktop c }) := dbpConfigInit_desktop h b
  refine ⟨hinit, fun usage name key rest hkey => ?_⟩
  have hmain : dbpCfgMain usage file b (name :: key :: rest) =
      match configLookup (configDesktop c) key with
      | none => ⟨-1, [], lit "Key '" ++ key ++ lit "' doesn't exist in config\n"⟩
      | some value => ⟨0, value, []⟩ := by
    simp only [dbpCfgMain, if_neg hkey, file, h.parse b]
  have hcfg : dbpCfg usage file b (name :: key :: rest) = dbpCfgMain usage file b (name :: key :: rest) := by
    simp [dbpCfg, dbpInit, hinit]
  rw [hcfg, hmain]
  refine ⟨fun value hx => ?_, fun hx => ?_⟩
  · have hget : configLookup (configDesktop c) key = some value := configLookup_desktop c hx
    rw [hget]
  · rw [configLookup_absent c hx]

/-- A configuration without a wrapper script. -/
def demoConfigFile : ConfigFile where
  fileExtension := [lit ".dbp", lit ".pyra"]
  searchDir := [lit ".", lit "dragonbox/packages"]
  dataDirectory := lit "dragonbox/appdata"
  iconDirectory := lit "/usr/share/icons/dbp"
  execDirectory := lit "/usr/local/games"
  desktopDirectory := lit "/usr/share/applications"
  execTemplate := lit "/etc/dbp/dbp_exec"
  imgMount := lit "/mnt/dbp/images"
  unionMount := lit "/mnt/dbp/union"
  rodataDirectory := lit "dragonbox/ro_data"
  perUserAppdata := false
  perPackageAppdata := true
  arch := []
  runScript := none
  df := ⟨[]⟩
  dbpoutDirectory := lit "/tmp/dbpout"
  dbpoutPrefix := lit "dbprun"
  dbpoutSuffix := lit ".log"
  createRodata := false
  daemonLog := lit "/var/log/dbp_messages.log"
  stateFile := lit "/var/lib/dbp/dbp.state"
  verboseOutput := false

theorem config_round_trip_demo :
    dbpConfigInit (some (dbpDesktopWrite (configDesktop demoConfigFile))) ⟨[], []⟩ =
        .ok (some { demoConfigFile with df := configDesktop demoConfigFile }) ∧
      dbpCfg [] (some (dbpDesktopWrite (configDesktop demoConfigFile))) ⟨[], []⟩
        [lit "dbp-cfg", lit "file_extension"] = ⟨0, lit ".dbp;.pyra", []⟩ := by
  have h : Carried demoConfigFile :=
    { entry := by decide +kernel
      short := by decide +kernel
      tokens := by decide
      noNul := by decide +kernel }
  have hround := config_round_trip demoConfigFile h ⟨[], []⟩
  refine ⟨hround.1, ?_⟩
  exact (hround.2 [] (lit "dbp-cfg") (lit "file_extension") [] (by decide)).1 (lit ".dbp;.pyra") (by decide)

end Dbp
