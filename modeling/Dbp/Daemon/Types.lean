/-
# The daemon's data

`dbpd/package.h`: registered packages, running instances, and the purgatory
of packages that are waiting to be unmounted. `Daemon` is that state with
what the daemon's calls leave outside of it: the files in the icon, launcher
and executable directories, the D-Bus signals sent, and what was asked of
the loop layer, the last two oldest first.

Key definitions: `PackageEntry`, `PackageInstance`, `PackagePurgatory`,
`Package`, `Dir`, `Daemon`.
-/
import Dbp.Base.DesktopParse
import Dbp.Base.Loop
import Dbp.Base.Config

namespace Dbp

open CLib

/-- `struct package_entry_s`. `idPtr` is the address of the string `id`,
which `package_release_mount` compares. -/
structure PackageEntry where
  path : CStr
  id : CStr
  idPtr : ℕ
  desktop : CStr
  device : CStr
  mount : CStr
  appdata : CStr
  version : CStr
  sysDep : CStr
  pkgDep : CStr
  exec : List CStr
deriving Repr, DecidableEq

/-- `struct package_instance_s`; `runId` is an `unsigned int`. -/
structure PackageInstance where
  packageId : CStr
  runId : ℕ
  loop : ℤ
deriving Repr, DecidableEq

/-- `struct package_purgatory_s`. -/
structure PackagePurgatory where
  packageId : CStr
  loopNumber : ℤ
  reusable : ℤ
  expiry : ℤ
deriving Repr, DecidableEq

/-- `struct package_s`. -/
structure Package where
  entry : List PackageEntry
  runCnt : ℤ
  instance_ : List PackageInstance
  purgatory : List PackagePurgatory
deriving Repr, DecidableEq

/-- `package_init`. -/
def packageInit : Package := ⟨[], 0, [], []⟩

/-- A directory: names and contents of its files, in the order `readdir`
returns them. -/
abbrev Dir := List (CStr × CStr)

namespace Dir

/-- The names in a directory. -/
abbrev names (d : Dir) : List CStr := d.map (·.1)

/-- A file created or overwritten through `fopen(name, "w")`. -/
def write (d : Dir) (name data : CStr) : Dir :=
  if name ∈ d.names then d.map fun f => if f.1 = name then (name, data) else f else d ++ [(name, data)]

/-- `unlink`. -/
def unlink (d : Dir) (name : CStr) : Dir := d.filter fun f => f.1 ≠ name

end Dir

/-- A D-Bus signal of the daemon. -/
inductive Signal
  | newPackage (id : CStr)
  | removePackage (id : CStr)
  | newMeta (path : CStr)
  | removeMeta (path : CStr)
deriving Repr, DecidableEq

/-- The daemon's state and what its calls left outside of it. -/
structure Daemon where
  p : Package
  icons : Dir
  desktops : Dir
  execs : Dir
  signals : List Signal
  loops : List LoopEvent
deriving Repr, DecidableEq

/-- The daemon after `package_init`, over the files it finds. -/
def Daemon.init (icons desktops execs : Dir) : Daemon := ⟨packageInit, icons, desktops, execs, [], []⟩

end Dbp
