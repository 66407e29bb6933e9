/-
# Dependencies

A dependency is a package name, perhaps an architecture, and versions the
package is checked against. It is looked up among the packages dpkg has
installed or among the registered DBP packages. A package's meta data lists
dependencies in five categories; `dbpmgr_depend_check` returns, for each,
those that are missing. The databases are what iterating
`dbpmgr_depend_debian_next` and `dbpmgr_depend_dbp_next` yields for a name.

Key definitions: `dbpmgrDependParse`, `Databases`, `dbpmgrDependDebianCheck`,
`dbpmgrDependDbpCheck`, `dbpmgrDependCheck`.
-/
import Dbp.Base.Config
import Dbp.Base.Desktop
import Dbp.Mgr.Version
import Mathlib.Logic.Function.Basic

namespace Dbp

open CLib

/-! ### Dependency strings -/

/-- `struct DBPDepend`. -/
structure DBPDepend where
  pkgName : CStr
  version : VersionCheck → Option CStr
  arch : CStr

/-- A character that begins a version. -/
def isParam (c : Char) : Bool := c == '<' || c == '=' || c == '>'

/-- `find_next_version_param`: the next such character that is not at the front. -/
def findNextVersionParam : CStr → Option CStr
  | [] => none
  | c :: s =>
    if isParam c then findNextVersionParam s
    else if s.dropWhile (!isParam ·) = [] then none else some (s.dropWhile (!isParam ·))

/-- `comparisons`, in the order of `enum DBPMgrDependVersionCheck`. -/
def comparisons : List (VersionCheck × CStr) :=
  [(.lteq, lit "<="), (.gteq, lit ">="), (.lt, lit "<"), (.eq, lit "="), (.gt, lit ">")]

/-- One turn of the loop over the versions: the first of each check is kept. -/
def addVersion (version : VersionCheck → Option CStr) (next : CStr) (len : ℕ) : VersionCheck → Option CStr :=
  match comparisons.find? fun c => c.2.isPrefixOf next with
  | none => version
  | some (i, comparison) =>
    if (version i).isNone then Function.update version i (some ((next.take len).drop comparison.length)) else version

/-- The loop over the versions, with the characters left as fuel. -/
def parseVersions : ℕ → CStr → (VersionCheck → Option CStr) → VersionCheck → Option CStr
  | 0, _, version => version
  | f + 1, next, version =>
    match findNextVersionParam next with
    | none => addVersion version next next.length
    | some next' => parseVersions f next' (addVersion version next (next.length - next'.length))

/-- `dbpmgr_depend_parse`, where `defaultArch` is what `dbpmgr_depend_arch_set` has set. -/
def dbpmgrDependParse (defaultArch : Option CStr) (packageString : CStr) : DBPDepend :=
  let pkgAndArch := packageString.takeWhile (!isParam ·)
  let ver := packageString.dropWhile (!isParam ·)
  { pkgName := pkgAndArch.takeWhile (· ≠ ':')
    version := if ver = [] then fun _ => none else parseVersions ver.length ver fun _ => none
    arch := if ':' ∈ pkgAndArch then (pkgAndArch.dropWhile (· ≠ ':')).tail else defaultArch.getD (lit "any") }

example : ((dbpmgrDependParse none (lit "libc6:armhf>=2.19<3")).version .lt,
    (dbpmgrDependParse none (lit "libc6:armhf>=2.19<3")).arch) = (some (lit "3"), lit "armhf") := by decide

/-! ### The databases -/

/-- `struct DBPDependDPackage`; the packages of the DBP database have no `arch`. -/
structure DBPDependDPackage where
  name : CStr
  version : CStr
  arch : CStr

/-- What the databases and the settings hold during a check. -/
structure Databases where
  /-- What `dbpmgr_depend_debian_next` yields for a name, one after the other. -/
  debianNext : CStr → List DBPDependDPackage
  /-- What `dbpmgr_depend_dbp_next` yields for a name, one after the other. -/
  dbpNext : CStr → List DBPDependDPackage
  defaultArch : Option CStr

/-- The loop over the version checks. -/
def DBPDepend.versionOk (dep : DBPDepend) (pkg : DBPDependDPackage) : Bool :=
  comparisons.all fun c =>
    match dep.version c.1 with
    | none => true
    | some version => dbpmgrDependVersionResultCompare (dbpmgrDependCompareVersion pkg.version version) c.1

/-- The test on the architectures. -/
def DBPDepend.archOk (dep : DBPDepend) (pkg : DBPDependDPackage) : Bool :=
  pkg.arch == lit "any" || pkg.arch == lit "all" || pkg.arch == dep.arch || dep.arch == lit "any"

/-- `dbpmgr_depend_debian_check`: the first package of a fitting architecture decides. -/
def dbpmgrDependDebianCheck (db : Databases) (packageString : CStr) : Bool :=
  let dep := dbpmgrDependParse db.defaultArch packageString
  match (db.debianNext dep.pkgName).find? fun pkg => pkg.name == dep.pkgName && dep.archOk pkg with
  | none => false
  | some pkg => dep.versionOk pkg

/-- `dbpmgr_depend_dbp_check`: the first package decides. -/
def dbpmgrDependDbpCheck (db : Databases) (packageString : CStr) : Bool :=
  let dep := dbpmgrDependParse db.defaultArch packageString
  match (db.dbpNext dep.pkgName).head? with
  | none => false
  | some pkg => dep.versionOk pkg

/-! ### The five lists -/

/-- `struct DBPDependListList`. -/
structure DBPDependListList where
  sysonly : List CStr
  dbponly : List CStr
  syspref : List CStr
  dbppref : List CStr
  whatevs : List CStr
  deriving DecidableEq, Repr

/-- `create_list`. -/
def createList : Option CStr → List CStr
  | none => []
  | some str => dbpConfigExpandToken str

/-- `dbpmgr_depend_check`. -/
def dbpmgrDependCheck (db : Databases) (df : DesktopFile) : DBPDependListList :=
  let sysonly := dbpDesktopLookup df (lit "Dependency") (lit "deb") (some (lit "Package Entry"))
  let dbponly := dbpDesktopLookup df (lit "Dependency") (lit "dbp") (some (lit "Package Entry"))
  let prefsys := dbpDesktopLookup df (lit "Dependency") (lit "pref_deb") (some (lit "Package Entry"))
  let prefdbp := dbpDesktopLookup df (lit "Dependency") (lit "pref_dbp") (some (lit "Package Entry"))
  let whatevs := dbpDesktopLookup df (lit "Dependency") (lit "") (some (lit "Package Entry"))
  { sysonly := (createList sysonly).filter fun s => !dbpmgrDependDebianCheck db s
    syspref := (createList prefsys).filter fun s => !dbpmgrDependDebianCheck db s && !dbpmgrDependDbpCheck db s
    dbponly := (createList dbponly).filter fun s => !dbpmgrDependDbpCheck db s
    dbppref := (createList prefdbp).filter fun s => !dbpmgrDependDbpCheck db s && !dbpmgrDependDebianCheck db s
    whatevs := (createList whatevs).filter fun s => !dbpmgrDependDbpCheck db s && !dbpmgrDependDebianCheck db s }

end Dbp
