/-
# The package registry

Registration and removal of packages in `dbpd/package.c`: a package file is
opened, its id is read from its meta data and checked against the entries
already there, an entry is appended, and the meta data is exported. Removal
by path takes one entry, removal by device sweeps the array.

Key definitions: `packageIdValidate`, `packageAdd`, `packageRegister`,
`packageRegisterPath`, `packageCrawlMount`, `packageKill`,
`packageReleasePath`, `packageReleaseMount`.
Key theorems: `packageRegister_cases`, `packageReleaseMount_eq`.
-/
import Dbp.Daemon.Meta
import Dbp.Daemon.Instances

namespace Dbp

open CLib Sweep

/-- `package_filename_interesting`. -/
def packageFilenameInteresting (cfg : DBPConfig) (path : CStr) : Bool :=
  cfg.fileExtension.any fun ext => ext.isSuffixOf path

/-- A character `package_id_validate` accepts. -/
def idChar (c : Char) : Bool := isalpha c || isdigit c || c == '-' || c == '_' || c == '.'

/-- `package_id_validate`. -/
def packageIdValidate (pkgId : CStr) : Bool := pkgId != lit ".." && pkgId != lit "." && pkgId.all idChar

/-! ### Adding -/

/-- The loop at the start of `package_add`: the id is validated, and compared
with an entry's, once per entry. -/
def packageAddCheck (id : CStr) : List PackageEntry → Option ℤ
  | [] => none
  | e :: es =>
    if !packageIdValidate id then some DBP_ERROR_BAD_PKG_ID
    else if e.id = id then some DBP_ERROR_PKG_REG
    else packageAddCheck id es

/-- A leading `//` loses one slash. -/
def dropSlash (path : CStr) : CStr := if (lit "//").isPrefixOf path then path.tail else path

/-- The strings of a package that `package_register` hands to `package_add`. -/
structure PackageStrings where
  path : CStr
  id : CStr
  device : CStr
  mount : CStr
  appdata : CStr
  sys : CStr
  pkg : CStr
  version : CStr
deriving Repr, DecidableEq

/-- The entry `package_add` appends. -/
def newEntry (e : Env) (es : List PackageEntry) (s : PackageStrings) : PackageEntry where
  path := dropSlash s.path
  id := s.id
  idPtr := e.idPtr es
  desktop := if dbpLoopDesktopDirectory (dropSlash s.path) then lit "desk" else lit "nodesk"
  device := s.device
  mount := s.mount
  appdata := s.appdata
  version := s.version
  sysDep := s.sys
  pkgDep := s.pkg
  exec := []

/-- `package_add`: the index of the new entry, or an error. -/
def packageAdd (d : Daemon) (e : Env) (s : PackageStrings) : ℤ × Daemon :=
  match packageAddCheck s.id d.p.entry with
  | some errid => (errid, d)
  | none =>
    (d.p.entry.length,
      { d with
        p := { d.p with entry := d.p.entry ++ [newEntry e d.p.entry s] }
        signals := d.signals ++ [.newPackage s.id] })

section Add

variable {d : Daemon} {e : Env} {s : PackageStrings}

theorem packageAdd_rejected {errid : ℤ} (h : packageAddCheck s.id d.p.entry = some errid) :
    packageAdd d e s = (errid, d) := by
  rw [packageAdd, h]

theorem packageAdd_added (h : packageAddCheck s.id d.p.entry = none) : packageAdd d e s =
    ((d.p.entry.length : ℤ),
      { d with
        p := { d.p with entry := d.p.entry ++ [newEntry e d.p.entry s] }
        signals := d.signals ++ [.newPackage s.id] }) := by
  rw [packageAdd, h]

end Add

/-- `dbp_meta_package_open`: the meta data of a package file, or an error. -/
def dbpMetaPackageOpen (e : Env) (path : CStr) : ℤ ⊕ DesktopFile :=
  match e.archive path with
  | none => .inl (if e.statRegular path then DBP_ERROR_NO_PKG_ACCESS else DBP_ERROR_BAD_META)
  | some files =>
    match files.find? fun f => f.1 == lit "meta/default.desktop" with
    | none => .inl DBP_ERROR_NO_DEFAULTD
    | some f => .inr (dbpDesktopParse (cString f.2) e.stack)

/-- A key of the section `Package Entry`. -/
def metaLookup (df : DesktopFile) (key : CStr) : Option CStr :=
  dbpDesktopLookup df key [] (some (lit "Package Entry"))

/-- The strings of a package with meta data `df` and id `pkgId`. -/
def packageStrings (df : DesktopFile) (pkgId path device mount : CStr) : PackageStrings where
  path := path
  id := pkgId
  device := device
  mount := mount
  appdata := match metaLookup df (lit "Appdata") with
    | none => pkgId
    | some appdata => if packageIdValidate appdata then appdata else pkgId
  sys := (metaLookup df (lit "SysDependency")).getD []
  pkg := (metaLookup df (lit "PkgDependency")).getD []
  version := (metaLookup df (lit "Version")).getD []

/-- The extraction of entry `i`'s meta data, with what it changes put back in
the daemon's state. -/
def packageExport (cfg : DBPConfig) (d : Daemon) (e : Env) (path : CStr) (i : ℕ) : Daemon :=
  match d.p.entry[i]? with
  | none => d
  | some p =>
    let m := packageMetaExtract cfg e path p (p.desktop == lit "desk")
      ⟨d.icons, d.desktops, d.execs, d.signals, p.exec⟩
    { d with
      p := { d.p with entry := d.p.entry.set i { p with exec := m.exec } }
      icons := m.icons
      desktops := m.desktops
      execs := m.execs
      signals := m.signals }

/-- `package_register`: the index of the new entry or an error, and the
collision index, -1 for none. -/
def packageRegister (cfg : DBPConfig) (d : Daemon) (e : Env) (path device mount : CStr) :
    ℤ × ℤ × Daemon :=
  match dbpMetaPackageOpen e path with
  | .inl errid => (errid, -1, d)
  | .inr df =>
    match metaLookup df (lit "Id") with
    | none => (DBP_ERROR_BAD_PKG_ID, -1, d)
    | some pkgId =>
      let r := packageAdd d e (packageStrings df pkgId path device mount)
      if r.1 < 0 then
        (r.1, match packageFind d.p pkgId with | none => -1 | some i => i, r.2)
      else (r.1, -1, packageExport cfg r.2 e path r.1.toNat)

/-- What a registration can do: fail at the file, at its id or at the check of
the id, each leaving the state as it is, or append an entry and export it. -/
inductive RegisterCase (cfg : DBPConfig) (d : Daemon) (e : Env) (path device mount : CStr) :
    ℤ × ℤ × Daemon → Prop
  | unreadable (errid : ℤ) (h : dbpMetaPackageOpen e path = .inl errid) :
    RegisterCase cfg d e path device mount (errid, -1, d)
  | noId (df : DesktopFile) (h : dbpMetaPackageOpen e path = .inr df) (hid : metaLookup df (lit "Id") = none) :
    RegisterCase cfg d e path device mount (DBP_ERROR_BAD_PKG_ID, -1, d)
  | rejected (df : DesktopFile) (id : CStr) (errid coll : ℤ) (h : dbpMetaPackageOpen e path = .inr df)
    (hid : metaLookup df (lit "Id") = some id) (hc : packageAddCheck id d.p.entry = some errid) :
    RegisterCase cfg d e path device mount (errid, coll, d)
  | added (df : DesktopFile) (id : CStr) (h : dbpMetaPackageOpen e path = .inr df)
    (hid : metaLookup df (lit "Id") = some id) (hc : packageAddCheck id d.p.entry = none) :
    RegisterCase cfg d e path device mount (d.p.entry.length, -1,
      packageExport cfg (packageAdd d e (packageStrings df id path device mount)).2 e path d.p.entry.length)

theorem packageAddCheck_neg {id : CStr} : ∀ {es : List PackageEntry} {errid : ℤ},
    packageAddCheck id es = some errid → errid < 0
  | [], _, h => by simp [packageAddCheck] at h
  | e :: es, errid, h => by
    unfold packageAddCheck at h
    split_ifs at h
    · cases h; decide
    · cases h; decide
    · exact packageAddCheck_neg h

theorem dbpMetaPackageOpen_neg {e : Env} {path : CStr} {errid : ℤ} (h : dbpMetaPackageOpen e path = .inl errid) :
    errid < 0 := by
  unfold dbpMetaPackageOpen at h
  split at h
  · obtain rfl := Sum.inl.inj h
    split_ifs <;> decide
  · split at h
    · obtain rfl := Sum.inl.inj h
      decide
    · cases h

theorem packageRegister_cases (cfg : DBPConfig) (d : Daemon) (e : Env) (path device mount : CStr) :
    RegisterCase cfg d e path device mount (packageRegister cfg d e path device mount) := by
  unfold packageRegister
  cases h : dbpMetaPackageOpen e path with
  | inl errid => exact .unreadable errid h
  | inr df =>
    simp only
    cases hid : metaLookup df (lit "Id") with
    | none => exact .noId df h hid
    | some id =>
      cases hc : packageAddCheck id d.p.entry with
      | some errid =>
        have ha := @packageAdd_rejected d e (packageStrings df id path device mount) errid hc
        simp only [ha, packageAddCheck_neg hc, ↓reduceIte]
        exact .rejected df id errid _ h hid hc
      | none =>
        have ha := congrArg Prod.fst (@packageAdd_added d e (packageStrings df id path device mount) hc)
        have hpos : ¬ (d.p.entry.length : ℤ) < 0 := by omega
        simp only [ha, hpos, ↓reduceIte, Int.toNat_natCast]
        exact .added df id h hid hc

/-- `package_register_path`: the result, and the id it hands out. -/
def packageRegisterPath (cfg : DBPConfig) (d : Daemon) (e : Env) (device path mount : CStr) :
    ℤ × CStr × Daemon :=
  if !packageFilenameInteresting cfg path then (DBP_ERROR_BADEXT, lit "!", d)
  else
    let r := packageRegister cfg d e path device mount
    let es := r.2.2.p.entry
    if (r.1 < 0 ∨ (es.length : ℤ) ≤ r.1) ∧ r.2.1 < 0 then (r.1, lit "!", r.2.2)
    else
      let i := if 0 ≤ r.2.1 then r.2.1 else r.1
      (r.1, (es[i.toNat]?.map (·.id)).getD (lit "!"), r.2.2)

/-- `package_crawl`. -/
def packageCrawl (cfg : DBPConfig) (d : Daemon) (e : Env) (device path mount : CStr) : Daemon :=
  match e.readDir path with
  | none => d
  | some names =>
    (names.filter (packageFilenameInteresting cfg)).foldl (fun d name =>
      (packageRegister cfg d e (path ++ lit "/" ++ name) device mount).2.2) d

/-- `package_crawl_mount`. -/
def packageCrawlMount (cfg : DBPConfig) (d : Daemon) (e : Env) (device path : CStr) : Daemon :=
  cfg.searchDir.foldl (fun d dir => packageCrawl cfg d e device (path ++ lit "/" ++ dir) path) d

/-! ### Removing -/

/-- What `package_kill` does besides removing the entry from the array: the
exported files are deleted and the removals announced. -/
def packageKillFiles (cfg : DBPConfig) (d : Daemon) (p : PackageEntry) : Daemon :=
  let icons := packageKillPrefix d.icons (metaPrefixOf p.id)
  let desktops := packageKillPrefix d.desktops (metaPrefixOf p.id)
  let removed := if p.desktop = lit "desk" then
      desktops.2.map fun name => Signal.removeMeta (cfg.desktopDirectory ++ lit "/" ++ name)
    else []
  { d with
    icons := icons.1
    desktops := desktops.1
    execs := p.exec.foldl Dir.unlink d.execs
    signals := d.signals ++ removed ++ [.removePackage p.id] }

/-- `package_kill` of entry `i`. -/
def packageKill (cfg : DBPConfig) (d : Daemon) (i : ℕ) : Daemon :=
  match d.p.entry[i]? with
  | none => d
  | some p =>
    let d := packageKillFiles cfg d p
    { d with p := { d.p with entry := d.p.entry.eraseIdx i } }

/-- `package_release_path`. -/
def packageReleasePath (cfg : DBPConfig) (d : Daemon) (path : CStr) : ℤ × Daemon :=
  match d.p.entry.findIdx? fun p => p.path == dropSlash path with
  | none => (DBP_ERROR_NOTFOUND, d)
  | some i => (1, packageKill cfg d i)

/-- The body of the loop of `package_release_mount`; the state is `last`, the
id pointer remembered from the previous turn, and the daemon. -/
def releaseVisit (cfg : DBPConfig) (device : CStr) (s : Option ℕ × Daemon) (p : PackageEntry) :
    (Option ℕ × Daemon) × Option PackageEntry :=
  if s.1 = some p.idPtr then (s, some p)
  else if p.device ≠ device then ((some p.idPtr, s.2), some p)
  else ((some p.idPtr, packageKillFiles cfg s.2 p), none)

/-- `package_release_mount`. -/
def packageReleaseMount (cfg : DBPConfig) (d : Daemon) (device : CStr) : Daemon :=
  let r := sweep (releaseVisit cfg device) d.p.entry.length 0 (none, d) d.p.entry
  { r.1.2 with p := { r.1.2.p with entry := r.2 } }

/-- The loop visits every entry of the array once, in order. -/
theorem packageReleaseMount_eq (cfg : DBPConfig) (d : Daemon) (device : CStr) :
    packageReleaseMount cfg d device =
      { (mapKeep (releaseVisit cfg device) (none, d) d.p.entry).1.2 with
        p := { (mapKeep (releaseVisit cfg device) (none, d) d.p.entry).1.2.p with
          entry := (mapKeep (releaseVisit cfg device) (none, d) d.p.entry).2 } } := by
  unfold packageReleaseMount
  rw [sweep_eq]

end Dbp
