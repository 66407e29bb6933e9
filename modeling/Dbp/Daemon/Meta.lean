/-
# Exported meta data

What `dbpd/package.c` writes for a package it registers: its icons and
launchers, under names `__dbp__<id>_<file>`, and wrapper scripts for its
executables. Launchers are removed by prefix, scripts by the list of names
kept in the package's entry. Files to be read may be missing, and files to
be written may not open; `Env` is what a call finds outside of the daemon.

Key definitions: `Env`, `metaName`, `packageEmitExec`, `packageMetaExecExport`,
`packageDesktopWrite`, `packageMetaExtract`, `packageKillPrefix`.
-/
import Dbp.Daemon.Types

namespace Dbp

open CLib

/-- A file in a package's zip archive: path name and data. -/
abbrev ArchiveFile := CStr × CStr

/-- What a call of the daemon finds outside of its state. -/
structure Env where
  /-- The files of the archive at a path, if it can be opened. -/
  archive : CStr → Option (List ArchiveFile)
  /-- Whether `stat` fails or finds a regular file. -/
  statRegular : CStr → Bool
  /-- The contents of a file that can be opened for reading. -/
  readFile : CStr → Option CStr
  /-- Whether `fopen` can open a file for writing. -/
  opens : CStr → Bool
  /-- The names in a directory that can be opened. -/
  readDir : CStr → Option (List CStr)
  /-- What the stack holds in the parser's buffers. -/
  stack : ParseBufs
  /-- The address `strdup` returns for the id of the next entry. -/
  idPtr : List PackageEntry → ℕ

/-- `DBP_META_PREFIX`. -/
def metaPrefix : CStr := lit "__dbp__"

/-- `find_filename`. -/
def findFilename (path : CStr) : CStr := strAfterLast '/' path

/-- `"%s%s_"`: the prefix of the files exported for a package. -/
def metaPrefixOf (pkgId : CStr) : CStr := metaPrefix ++ pkgId ++ lit "_"

/-- `"%s%s_%s"`: the name under which a file of a package is exported. -/
def metaName (pkgId fname : CStr) : CStr := metaPrefixOf pkgId ++ fname

/-! ### Executables -/

/-- The token loop of `package_emit_exec` over the pieces of the template
between `!`; `tokVar` is set when the next piece follows a `!`. -/
def expandTokens (id bin : CStr) (env : ℤ) : Bool → List CStr → CStr
  | _, [] => []
  | false, tok :: toks => tok ++ expandTokens id bin env true toks
  | true, tok :: toks =>
    if tok.head? = some '%' then
      (if tok.tail = lit "package_id" then id
        else if tok.tail = lit "package_binary" then bin
        else if tok.tail = lit "package_enviroment" then formatInt env
        else []) ++ expandTokens id bin env false toks
    else '!' :: tok ++ expandTokens id bin env false toks

/-- The script `package_emit_exec` writes, if the template can be read. -/
def packageEmitExec (cfg : DBPConfig) (e : Env) (bin : CStr) (env : ℤ) (id : CStr) : Option CStr :=
  (e.readFile cfg.execTemplate).map fun script => expandTokens id bin env false (strtok '!' (cString script))

/-- `package_emit_exec` on the executable directory: without the template, or
if the script cannot be opened, nothing is written. -/
def emitScript (cfg : DBPConfig) (e : Env) (execs : Dir) (name bin : CStr) (env : ℤ) (id : CStr) : Dir :=
  match packageEmitExec cfg e bin env id with
  | none => execs
  | some script => if e.opens (cfg.execDirectory ++ lit "/" ++ name) then execs.write name script else execs

/-- `!access(path, F_OK)` for a name in a directory: a file of that name, or
the directory itself or its parent. -/
def Dir.Accessible (d : Dir) (name : CStr) : Prop := name ∈ d.names ∨ name ∈ [[], lit ".", lit ".."]

instance (d : Dir) (name : CStr) : Decidable (d.Accessible name) := inferInstanceAs (Decidable (_ ∨ _))

/-- One turn of the loop of `package_meta_exec_export`: a script that exists
is a collision; else the name is recorded, written or not. -/
def execExportTok (cfg : DBPConfig) (e : Env) (env : ℤ) (id : CStr) (s : Dir × List CStr) (tok : CStr) :
    Dir × List CStr :=
  let name := findFilename tok
  if s.1.Accessible name then s
  else (emitScript cfg e s.1 name tok env id, s.2 ++ [name])

/-- `package_meta_exec_export`: the executable directory and the entry's list
of exported names. -/
def packageMetaExecExport (cfg : DBPConfig) (e : Env) (exec : Option CStr) (env : ℤ) (id : CStr)
    (s : Dir × List CStr) : Dir × List CStr :=
  match exec with
  | none => s
  | some exec => (strtok ';' exec).foldl (execExportTok cfg e env id) s

/-! ### Launchers and icons -/

/-- What the extraction of a package changes: the three directories, the
signals and the names of its exported executables. -/
structure MetaState where
  icons : Dir
  desktops : Dir
  execs : Dir
  signals : List Signal
  exec : List CStr
deriving Repr, DecidableEq

/-- The launcher written for a package's `.desktop` file: its data over the
override file, with the icon's name replaced by the exported path. -/
def launcherFile (cfg : DBPConfig) (e : Env) (p : PackageEntry) (fname data : CStr) : DesktopFile :=
  let ovr := p.mount ++ lit "/" ++ cfg.dataDirectory ++ lit "/" ++ p.appdata ++ lit "/" ++ p.id ++
    lit "_" ++ fname ++ lit "_ovr"
  let df := match e.readFile ovr with
    | some text => dbpDesktopParseAppend data (dbpDesktopParse (cString text) e.stack) e.stack
    | none => dbpDesktopParse data e.stack
  match dbpDesktopLookupSection df (some (lit "Desktop Entry")) with
  | none => df
  | some sec =>
    match dbpDesktopLookupEntry df (lit "Icon") [] sec with
    | none => df
    | some ent =>
      let icon := cfg.iconDirectory ++ lit "/" ++ metaName p.id (df.value sec ent)
      ⟨df.section_.modify sec fun s =>
        { s with entry := s.entry.modify ent fun en => { en with value := icon } }⟩

/-- `package_desktop_write`: a launcher that cannot be opened is left out, with its executables. -/
def packageDesktopWrite (cfg : DBPConfig) (e : Env) (p : PackageEntry) (announce : Bool) (m : MetaState)
    (fname data : CStr) : MetaState :=
  let df := launcherFile cfg e p fname data
  let name := metaName p.id fname
  if !e.opens (cfg.desktopDirectory ++ lit "/" ++ name) then m else
  let s1 := packageMetaExecExport cfg e
    (dbpDesktopLookup df (lit "Exec") [] (some (lit "Package Entry"))) 1 p.id (m.execs, m.exec)
  let s2 := packageMetaExecExport cfg e
    (dbpDesktopLookup df (lit "NoEnvExec") [] (some (lit "Package Entry"))) 0 p.id s1
  { m with
    desktops := m.desktops.write name (dbpDesktopWrite df)
    execs := s2.1
    exec := s2.2
    signals := if announce then m.signals ++ [.newMeta (cfg.desktopDirectory ++ lit "/" ++ name)]
      else m.signals }

/-- Whether a path names an icon of the package. -/
def isIcon (pathname : CStr) : Bool := (lit "icons/").isPrefixOf pathname

/-- Whether a path that is no icon's names a launcher. -/
def isDesktop (pathname : CStr) : Bool :=
  8 ≤ pathname.length && pathname.drop (pathname.length - 8) == lit ".desktop"

/-- The body of the loop of `package_meta_extract` over the archive. -/
def packageMetaExtractFile (cfg : DBPConfig) (e : Env) (p : PackageEntry) (announce : Bool) (m : MetaState)
    (f : ArchiveFile) : MetaState :=
  if 256 < f.1.length then m
  else if isIcon f.1 then
    let name := metaName p.id (findFilename f.1)
    if e.opens (cfg.iconDirectory ++ lit "/" ++ name) then { m with icons := m.icons.write name f.2 } else m
  else if isDesktop f.1 then packageDesktopWrite cfg e p announce m (findFilename f.1) (cString f.2)
  else m

/-- `package_meta_extract`. -/
def packageMetaExtract (cfg : DBPConfig) (e : Env) (path : CStr) (p : PackageEntry) (announce : Bool)
    (m : MetaState) : MetaState :=
  match e.archive path with
  | none => m
  | some files => files.foldl (packageMetaExtractFile cfg e p announce) m

/-! ### Removal -/

/-- `package_kill_prefix`: the directory without the files of that prefix,
and the names removed. -/
def packageKillPrefix (d : Dir) (pre : CStr) : Dir × List CStr :=
  (d.filter fun f => !pre.isPrefixOf f.1, (Dir.names d).filter pre.isPrefixOf)

end Dbp
