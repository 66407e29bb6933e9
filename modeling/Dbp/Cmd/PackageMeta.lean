/-
# What `dbp-meta` says of a package

`dbp-meta` prints the keys of the `[Package Entry]` of a package file, or the
value of one. It does not look whether there is such a section before it
lists its keys; without one it reads in front of the array of sections. A
package file whose id the daemon has read has one, `dbp-meta` gives the same
id, and what it lists is what it gives key by key (`dbpMeta_registered`).

The script `dbp-thumbnail` takes the name of a package's icon from `dbp-meta`,
and the icon from the archive. For a package that the validator has passed it
finds it there (`valid_package_thumbnail`).

Key definitions: `MetaEnv`, `dbpMeta`, `dbpThumbnail`, `PlainMember`, `Unzips`.
Key theorems: `dbpMeta_list_iff`, `dbpMeta_registered`, `valid_package_thumbnail`.
-/
import Dbp.Cmd.Sessions
import Dbp.Validate.Accepted

namespace Dbp

open CLib Sweep Find Runs

/-! ### The program -/

/-- What `dbp-meta` finds. -/
structure MetaEnv where
  /-- The configuration file, if it can be opened. -/
  file : Option CStr
  bufs : ParseBufs
  /-- What `usage` prints. -/
  usage : CStr
  /-- The package files. -/
  env : Env

/-- A line of the list. -/
def metaListLine (x : DesktopEntry) : CStr :=
  x.key ++ lit "[" ++ x.locale ++ lit "]=\"" ++ x.value ++ lit "\"\n"

/-- `dbp-meta list`; nothing if it reads outside of the sections. -/
def dbpMetaList (df : DesktopFile) : Option ProgramRun :=
  (dbpDesktopLookupSection df (some (lit "Package Entry"))).map fun section_ =>
    ⟨0, (df.sec section_).entry.flatMap metaListLine, []⟩

/-- `dbp-meta get`. -/
def dbpMetaGet (usage : CStr) (df : DesktopFile) : List CStr → ProgramRun
  | [] => ⟨1, usage, lit "Error: You need to specify the meta key to extract\n"⟩
  | key :: rest =>
    match dbpDesktopLookup df key (rest.headD []) (some (lit "Package Entry")) with
    | none => ⟨0, [], []⟩
    | some str => ⟨0, str ++ lit "\n", []⟩

/-- `main` of `dbp-meta` after `dbp_init`. -/
def dbpMetaMain (c : MetaEnv) (cmd path : CStr) (rest : List CStr) : Option ProgramRun :=
  match dbpMetaPackageOpen c.env path with
  | .inl _ => some ⟨1, [], lit "Unable to open package " ++ path ++ lit "\n"⟩
  | .inr df =>
    if cmd = lit "list" then dbpMetaList df
    else if cmd = lit "get" then some (dbpMetaGet c.usage df rest)
    else some ⟨1, [], lit "Error: Unknown option '" ++ cmd ++ lit "'\n"⟩

/-- `dbp-meta`. -/
def dbpMeta (c : MetaEnv) : List CStr → Option ProgramRun
  | _ :: cmd :: path :: rest =>
    match dbpInit c.file c.bufs with
    | .error r => some r
    | .ok msg => (dbpMetaMain c cmd path rest).map fun r => { r with stderr := msg ++ r.stderr }
  | _ => some ⟨1, c.usage, []⟩

/-! ### Lists and keys -/

section Meta

variable {c : MetaEnv} {path msg : CStr} {df : DesktopFile} (name : CStr)

/-- Once the configuration is read, a package that can be opened is listed, if it has the section. -/
theorem dbpMeta_list_iff (hinit : dbpInit c.file c.bufs = .ok msg) (hopen : dbpMetaPackageOpen c.env path = .inr df) :
    (dbpMeta c [name, lit "list", path]).isSome ↔
      (dbpDesktopLookupSection df (some (lit "Package Entry"))).isSome := by
  simp [dbpMeta, hinit, dbpMetaMain, hopen, dbpMetaList]

theorem dbpMeta_list (hinit : dbpInit c.file c.bufs = .ok msg) (hopen : dbpMetaPackageOpen c.env path = .inr df) {s : ℕ}
    (hs : dbpDesktopLookupSection df (some (lit "Package Entry")) = some s) :
    dbpMeta c [name, lit "list", path] = some ⟨0, (df.sec s).entry.flatMap metaListLine, msg⟩ := by
  simp [dbpMeta, hinit, dbpMetaMain, hopen, dbpMetaList, hs]

theorem dbpMeta_get (hinit : dbpInit c.file c.bufs = .ok msg) (hopen : dbpMetaPackageOpen c.env path = .inr df)
    {key value : CStr} {rest : List CStr}
    (h : dbpDesktopLookup df key (rest.headD []) (some (lit "Package Entry")) = some value) :
    dbpMeta c (name :: lit "get" :: path :: key :: rest) = some ⟨0, value ++ lit "\n", msg⟩ := by
  have hcmd : lit "get" ≠ lit "list" := by decide
  simp only [dbpMeta, hinit, dbpMetaMain, hopen, if_neg hcmd, if_true, dbpMetaGet, h]
  simp

/-- A value that is found without a locale is that of an entry of the section. -/
theorem entry_of_lookup {key value : CStr} (h : dbpDesktopLookup df key [] (some (lit "Package Entry")) = some value) :
    ∃ s, dbpDesktopLookupSection df (some (lit "Package Entry")) = some s ∧ ⟨key, [], value⟩ ∈ (df.sec s).entry := by
  unfold dbpDesktopLookup at h
  cases hs : dbpDesktopLookupSection df (some (lit "Package Entry")) with
  | none => simp [hs] at h
  | some s =>
    refine ⟨s, rfl, ?_⟩
    cases hi : dbpDesktopLookupEntry df key [] s with
    | none => simp [hs, hi] at h
    | some i =>
      simp only [hs, hi, Option.some.injEq] at h
      obtain ⟨hlt, hmatch, -⟩ := List.findIdx?_eq_some_iff_getElem.mp hi
      have hkey : (df.sec s).entry[i].key = key ∧ (df.sec s).entry[i].locale = [] := by simpa using hmatch
      have hvalue : (df.sec s).entry[i].value = value := by
        rw [← h]
        simp [DesktopFile.value, List.getD_eq_getElem?_getD, List.getElem?_eq_getElem hlt]
      have hentry : (df.sec s).entry[i] = ⟨key, [], value⟩ := by
        rw [← hvalue, ← hkey.1, ← hkey.2]
      exact hentry ▸ List.getElem_mem hlt

/-- The first entry of a key and a locale is the one that a lookup finds. -/
theorem lookup_of_find {s : ℕ} (hs : dbpDesktopLookupSection df (some (lit "Package Entry")) = some s) {x : DesktopEntry}
    (hx : (df.sec s).entry.find? (fun y => y.key == x.key && y.locale == x.locale) = some x) :
    dbpDesktopLookup df x.key x.locale (some (lit "Package Entry")) = some x.value := by
  obtain ⟨hmatch, pre, post, hentry, hpre⟩ := List.find?_eq_some_iff_append.mp hx
  have hindex : dbpDesktopLookupEntry df x.key x.locale s = some pre.length := by
    rw [dbpDesktopLookupEntry, hentry]
    exact findIdx?_middle (fun y hy => by simpa only [Bool.not_eq_true'] using hpre y hy) hmatch
  simp only [dbpDesktopLookup, hs, hindex, DesktopFile.value, hentry]
  simp [List.getD_eq_getElem?_getD]

end Meta

/-- What a registration hands out is the id of a package that the daemon has read. -/
theorem readId_of_registerPath (cfg : DBPConfig) (d : Daemon) (e : Env) (device path mount : CStr)
    (h : (packageRegisterPath cfg d e device path mount).2.1 ≠ lit "!") :
    readId e path = some (packageRegisterPath cfg d e device path mount).2.1 := by
  have hread : readableId cfg e path = some (packageRegisterPath cfg d e device path mount).2.1 := by
    by_cases hnew : ∃ id, readableId cfg e path = some id ∧ packageAddCheck id d.p.entry = none
    · obtain ⟨id, hid, hc⟩ := hnew
      exact (packageRegisterPath_appended cfg device mount hid hc).2.1
    · have hrefused := packageRegisterPath_refused cfg d device mount fun id hid hc => hnew ⟨id, hid, hc⟩
      have hout := hrefused.2.2
      cases hid : readableId cfg e path with
      | none => exact absurd (by simpa only [hid] using hout) h
      | some id =>
        simp only [hid] at hout
        split_ifs at hout
        · rw [hout]
        · exact absurd hout h
  exact (readableId_eq_some hread).2

/-- **What `dbp-meta` says of a package is what the daemon has read**: for a package file whose id a registration hands
out, it gives that id, it can list the keys, the id is among them, and for each key and locale it gives the value that
it lists first. -/
theorem dbpMeta_registered (cfg : DBPConfig) (d : Daemon) (c : MetaEnv) (device path mount msg name : CStr)
    (hinit : dbpInit c.file c.bufs = .ok msg)
    (hid : (packageRegisterPath cfg d c.env device path mount).2.1 ≠ lit "!") :
    let id := (packageRegisterPath cfg d c.env device path mount).2.1
    dbpMeta c [name, lit "get", path, lit "Id"] = some ⟨0, id ++ lit "\n", msg⟩ ∧
      ∃ entries : List DesktopEntry,
        dbpMeta c [name, lit "list", path] = some ⟨0, entries.flatMap metaListLine, msg⟩ ∧
        ⟨lit "Id", [], id⟩ ∈ entries ∧
          ∀ x, entries.find? (fun y => y.key == x.key && y.locale == x.locale) = some x →
            dbpMeta c [name, lit "get", path, x.key, x.locale] = some ⟨0, x.value ++ lit "\n", msg⟩ := by
  intro id
  have hread := readId_of_registerPath cfg d c.env device path mount hid
  unfold readId at hread
  cases hopen : dbpMetaPackageOpen c.env path with
  | inl err => simp [hopen] at hread
  | inr df =>
    simp only [hopen] at hread
    have hlookup : dbpDesktopLookup df (lit "Id") [] (some (lit "Package Entry")) = some id := hread
    refine ⟨dbpMeta_get name hinit hopen hlookup, ?_⟩
    obtain ⟨s, hs, hmem⟩ := entry_of_lookup hlookup
    exact ⟨(df.sec s).entry, dbpMeta_list name hinit hopen hs, hmem,
      fun x hx => dbpMeta_get name hinit hopen (lookup_of_find hs hx)⟩

/-- A program without a configuration file. -/
def demoMetaEnv (files : List ArchiveFile) : MetaEnv := ⟨none, ⟨[], []⟩, [], demoEnv [(lit "/m/a.dbp", files)]⟩

/-- The id of a package with nothing else. -/
theorem dbpMeta_registered_demo :
    dbpMeta (demoMetaEnv [demoMeta (lit "a")]) [lit "dbp-meta", lit "get", lit "/m/a.dbp", lit "Id"] =
      some ⟨0, lit "a\n", lit "Unable to open config file /etc/dbp/dbp_config.ini\n"⟩ := by
  have h := dbpMeta_registered demoConfig (Daemon.init [] [] []) (demoMetaEnv [demoMeta (lit "a")]) (lit "/dev/sda1")
    (lit "/m/a.dbp") (lit "/m") (lit "Unable to open config file /etc/dbp/dbp_config.ini\n") (lit "dbp-meta") rfl
    (by decide +kernel)
  have hid : (packageRegisterPath demoConfig (Daemon.init [] [] []) (demoMetaEnv [demoMeta (lit "a")]).env
      (lit "/dev/sda1") (lit "/m/a.dbp") (lit "/m")).2.1 = lit "a" := by decide +kernel
  have hget := h.1
  rw [hid] at hget
  exact hget

/-! ### Thumbnails -/

/-- `dbp-thumbnail`: its exit status, and what it writes to its second argument. `unzip` is `unzip -p`, with the status
and the output for an archive and a member of it. -/
def dbpThumbnail (c : MetaEnv) (unzip : CStr → CStr → ℤ × CStr) (path : CStr) : ℤ × Option CStr :=
  let icon := substitution (((dbpMeta c [lit "dbp-meta", lit "get", path, lit "Icon"]).map (·.stdout)).getD [])
  if icon = [] then (1, none)
  else
    let r := unzip path (lit "icons/" ++ icon)
    (r.1, some r.2)

/-- A name that `unzip` does not take for a pattern. -/
def PlainMember (member : CStr) : Prop := ∀ x ∈ member, x ∉ ['*', '?', '[', ']', '\\']

instance (member : CStr) : Decidable (PlainMember member) := inferInstanceAs (Decidable (∀ x ∈ member, _))

/-- `unzip -p` prints the file of a plain name, if the archive has one. -/
def Unzips (e : Env) (unzip : CStr → CStr → ℤ × CStr) : Prop :=
  ∀ path files, e.archive path = some files → ∀ f, PlainMember f.1 → files.filter (·.1 == f.1) = [f] →
    unzip path f.1 = (0, f.2)

/-- **The thumbnail of a valid package** is there: for a package that the validator has passed and that names an icon,
`dbp-thumbnail` writes the icon of that name. -/
theorem valid_package_thumbnail (usage name metaPath : CStr) (rest : List CStr) (t : ExtractedTree) (run : ProgramRun)
    (hrun : validateMain usage t (name :: metaPath :: rest) = some run) (hexit : run.exit = 0) (c : MetaEnv) (msg path : CStr)
    (hinit : dbpInit c.file c.bufs = .ok msg) (files : List ArchiveFile) (hfiles : c.env.archive path = some files)
    (hpacked : Packed t metaPath files) (hnodup : (files.map (·.1)).Nodup) (unzip : CStr → CStr → ℤ × CStr)
    (hunzip : Unzips c.env unzip) :
    ∃ df, dbpMetaPackageOpen c.env path = .inr df ∧
      ∀ icon ≠ [], PlainMember icon → packageKey df "Icon" = some icon →
        ∃ data, (lit "icons/" ++ icon, data) ∈ files ∧ dbpThumbnail c unzip path = (0, some data) := by
  have hok := (validateMain_tree usage t name metaPath rest).mp ⟨run, hrun, hexit⟩
  obtain ⟨text, hread, hopen⟩ := hpacked.metaPackageOpen hfiles
  obtain ⟨text', hread', hpackage⟩ := hok.1
  obtain rfl : text = text' := Option.some.inj (hread.symm.trans hread')
  refine ⟨_, hopen, fun icon hne hplain hkey => ?_⟩
  have hlisted := hpackage.icon icon hkey
  obtain ⟨-, data, hmem⟩ := hpacked.icons icon hlisted
  refine ⟨data, hmem, ?_⟩
  have hget : dbpMeta c [lit "dbp-meta", lit "get", path, lit "Icon"] = some ⟨0, icon ++ lit "\n", msg⟩ :=
    dbpMeta_get (lit "dbp-meta") hinit hopen hkey
  -- an icon of the tree ends with its suffix, and not with a line end
  have hsub : substitution (icon ++ lit "\n") = icon := by
    show List.rdropWhile _ (icon ++ ['\n']) = icon
    rw [List.rdropWhile_concat_pos _ _ _ (by decide), List.rdropWhile_eq_self_iff]
    intro hne' hlast
    obtain ⟨stem, hstem⟩ := List.isSuffixOf_iff_suffix.mp (List.mem_filter.mp hlisted).2
    have hg : icon.getLast? = some 'g' := by
      rw [← hstem, List.getLast?_append]
      rfl
    rw [List.getLast?_eq_some_getLast hne'] at hg
    rw [Option.some.inj hg] at hlast
    exact absurd hlast (by decide)
  have hone : files.filter (·.1 == lit "icons/" ++ icon) = [(lit "icons/" ++ icon, data)] := by
    obtain ⟨pre, post, hsplit⟩ := List.append_of_mem hmem
    have hrest := (nodup_rest hsplit hnodup).1
    have hnone : ∀ l : List ArchiveFile, (∀ x ∈ l, x ∈ pre ++ post) → l.filter (·.1 == lit "icons/" ++ icon) = [] := by
      intro l hl
      simpa using fun x data hx => hrest _ (hl _ hx)
    rw [hsplit, List.filter_append, List.filter_cons_of_pos (by simp), hnone pre fun x hx => List.mem_append_left _ hx,
      hnone post fun x hx => List.mem_append_right _ hx, List.nil_append]
  have hmember : PlainMember (lit "icons/" ++ icon) :=
    List.forall_mem_append.mpr ⟨by decide, hplain⟩
  simp only [dbpThumbnail, hget, Option.map_some, Option.getD_some, hsub, if_neg hne]
  rw [hunzip path files hfiles (lit "icons/" ++ icon, data) hmember hone]

/-- `unzip -p` for plain names. -/
def demoUnzip (e : Env) (path member : CStr) : ℤ × CStr :=
  match ((e.archive path).getD []).filter (·.1 == member) with
  | [] => (11, [])
  | found => (0, found.flatMap (·.2))

theorem unzips_demo (e : Env) : Unzips e (demoUnzip e) := by
  intro path files hfiles f _ hone
  simp [demoUnzip, hfiles, hone]

theorem valid_package_thumbnail_demo :
    let c := demoMetaEnv demoFiles
    ∃ data, dbpThumbnail c (demoUnzip c.env) (lit "/m/a.dbp") = (0, some data) := by
  intro c
  have hvalid : ∃ run, validateMain [] demoTree [lit "dbp-validate-extracted", lit "t"] = some run ∧ run.exit = 0 := by
    decide +kernel
  obtain ⟨run, hrun, hexit⟩ := hvalid
  obtain ⟨df, hopen, h⟩ := valid_package_thumbnail [] (lit "dbp-validate-extracted") (lit "t") [] demoTree run hrun hexit c
    (lit "Unable to open config file /etc/dbp/dbp_config.ini\n") (lit "/m/a.dbp") rfl demoFiles rfl packed_demo (by decide)
    (demoUnzip c.env) (unzips_demo c.env)
  have hdf : dbpMetaPackageOpen c.env (lit "/m/a.dbp") = .inr demoPackageDesktop := by decide +kernel
  obtain rfl := Sum.inr.inj (hopen.symm.trans hdf)
  obtain ⟨data, -, hrun⟩ := h (lit "game.png") (by decide) (by decide) (by decide +kernel)
  exact ⟨data, hrun⟩

end Dbp
