/-
# The mount watch

`dbpd/mountwatch.c`: the daemon keeps the mounts of devices it has seen and
a watch on each of their search directories, and compares them with
`/proc/mounts` when that changes. A line of the mount table marks the
entries that have its mount point or its device, up to the entry that has
both, and is appended if there is none; entries without a mark are removed.
The changes found are returned to the daemon's loop.

Key definitions: `MountLine`, `Poll`, `Mountwatch`, `matchEntries`, `diffLine`,
`mountwatchDiff`.
-/
import Dbp.Base.Config
import Dbp.Lib.Sweep

namespace Dbp

open CLib Sweep

/-- `enum mountwatch_tag_e`. -/
inductive MountwatchTag
  | removed
  | added
  | changed
  | pkgAdded
  | pkgRemoved
deriving DecidableEq, Repr

/-- `struct mountwatch_entry_s` as an entry of `struct mountwatch_change_s`. -/
structure MountwatchChange where
  mount : CStr
  device : CStr
  path : CStr
  tag : MountwatchTag
deriving DecidableEq, Repr

/-- `struct mountwatch_entry_s` as a tracked mount. -/
structure MountwatchEntry where
  mount : CStr
  device : CStr
  tag : Bool
deriving DecidableEq, Repr

/-- `struct mountwatch_inotify_s`. -/
structure MountwatchInotify where
  mount : CStr
  path : CStr
  device : CStr
  handle : ℤ
deriving DecidableEq, Repr

/-- The entries of `struct mountwatch_s`. -/
structure Mountwatch where
  entry : List MountwatchEntry
  ientry : List MountwatchInotify
deriving DecidableEq, Repr

/-- A line of the mount table as it is read, with its escapes decoded. -/
structure MountLine where
  device : CStr
  mount : CStr
  fstype : CStr
deriving DecidableEq, Repr

/-- A directory event: the watch, `mask`, and the name, which is empty if `len` is 0. -/
structure InotifyEvent where
  wd : ℤ
  mask : ℕ
  name : CStr
deriving DecidableEq, Repr

/-- What `mountwatch_diff` wakes up to: nothing in time, a mount table that cannot be opened, or one
that can, with the directory events if there were some. -/
inductive Poll
  | timeout
  | unreadable
  | snapshot (lines : List MountLine) (dirChange : Option (List InotifyEvent))
deriving DecidableEq, Repr

/-! ### Watches -/

/-- `mountwatch_inotify_remove`: the watches of a mount point. -/
def mountwatchInotifyRemove (ientry : List MountwatchInotify) (mount : CStr) : List MountwatchInotify :=
  ientry.filter (·.mount ≠ mount)

section Config

variable (cfg : DBPConfig) (addWatch : CStr → ℤ)

/-- `mountwatch_inotify_add`: a watch on each search directory, where `addWatch` is the handle
`inotify_add_watch` returns for a path. -/
def mountwatchInotifyAdd (ientry : List MountwatchInotify) (mount device : CStr) : List MountwatchInotify :=
  ientry ++ cfg.searchDir.map fun dir => ⟨mount, mount ++ '/' :: dir, device, addWatch (mount ++ '/' :: dir)⟩

def IN_ATTRIB : ℕ := 0x4
def IN_CLOSE_WRITE : ℕ := 0x8
def IN_MOVED_FROM : ℕ := 0x40
def IN_MOVED_TO : ℕ := 0x80
def IN_CREATE : ℕ := 0x100
def IN_DELETE : ℕ := 0x200

/-- The changes `mountwatch_inotify_handle` makes of a mask. -/
def inotifyTags (mask : ℕ) : List MountwatchTag :=
  (if mask &&& IN_CLOSE_WRITE ≠ 0 ∨ mask &&& IN_ATTRIB ≠ 0 then [.pkgRemoved, .pkgAdded] else []) ++
  (if mask &&& IN_DELETE ≠ 0 ∨ mask &&& IN_MOVED_FROM ≠ 0 then [.pkgRemoved] else []) ++
  (if mask &&& IN_CREATE ≠ 0 ∨ mask &&& IN_MOVED_TO ≠ 0 then [.pkgAdded] else [])

/-- An event in `mountwatch_inotify_handle`. -/
def inotifyChanges (ientry : List MountwatchInotify) (ie : InotifyEvent) : List MountwatchChange :=
  if ie.name = [] then []
  else
    match ientry.find? (·.handle == ie.wd) with
    | none => []
    | some i => (inotifyTags ie.mask).map (MountwatchChange.mk i.mount i.device (i.path ++ '/' :: ie.name))

/-- `mountwatch_inotify_handle`, on the events the buffers hold. -/
def mountwatchInotifyHandle (ientry : List MountwatchInotify) (events : List InotifyEvent) : List MountwatchChange :=
  events.flatMap (inotifyChanges ientry)

/-! ### Comparing -/

/-- The filters of `mountwatch_diff`: a device, but no loop device, with a file system to look at. -/
def MountLine.eligible (line : MountLine) : Bool :=
  line.device.head? == some '/' && !(lit "/dev/loop").isPrefixOf line.device && line.fstype != lit "proc" &&
    line.fstype != lit "devtmpfs" && line.fstype != lit "devpts" && line.fstype != lit "tmpfs"

/-- What `mountwatch_diff` has changed besides the entries, and the changes it has found. -/
structure Diff where
  ientry : List MountwatchInotify
  change : List MountwatchChange
deriving DecidableEq, Repr

/-- What the loop does about an entry that has the line's mount point or its device but not both. -/
def Diff.changed (s : Diff) (e : MountwatchEntry) (mount device : CStr) : Diff where
  ientry := mountwatchInotifyAdd cfg addWatch (mountwatchInotifyRemove s.ientry e.mount) mount device
  change := s.change ++ [⟨mount, device, [], .changed⟩]

/-- The loop of `mountwatch_diff` over the entries: what it makes of them, and `true` if it ends with
a break. -/
def matchEntries (mount device : CStr) : Diff → List MountwatchEntry → List MountwatchEntry × Diff × Bool
  | s, [] => ([], s, false)
  | s, e :: es =>
    if e.mount = mount then
      if e.device ≠ device then
        let r := matchEntries mount device (s.changed cfg addWatch e mount device) es
        ({ e with mount := mount, tag := true } :: r.1, r.2)
      else ({ e with tag := true } :: es, s, true)
    else if e.device = device then
      let r := matchEntries mount device (s.changed cfg addWatch e mount device) es
      ({ e with device := device, tag := true } :: r.1, r.2)
    else
      let r := matchEntries mount device s es
      (e :: r.1, r.2)

/-- A line of the mount table. -/
def diffLine (s : List MountwatchEntry × Diff) (line : MountLine) : List MountwatchEntry × Diff :=
  if !line.eligible then s
  else
    let r := matchEntries cfg addWatch line.mount line.device s.2 s.1
    if r.2.2 then (r.1, r.2.1)
    else
      (r.1 ++ [⟨line.mount, line.device, true⟩],
        { ientry := mountwatchInotifyAdd cfg addWatch r.2.1.ientry line.mount line.device
          change := r.2.1.change ++ [⟨line.mount, line.device, [], .added⟩] })

/-- The sweep of `mountwatch_diff` over one entry. The change has the device as its mount point, too. -/
def sweepEntry (s : Diff) (e : MountwatchEntry) : Diff × Option MountwatchEntry :=
  if !e.tag then
    (⟨mountwatchInotifyRemove s.ientry e.mount, s.change ++ [⟨e.device, e.device, [], .removed⟩]⟩, none)
  else (s, some { e with tag := false })

/-- `mountwatch_diff` after the loop over the mount table: the sweep, and the directory events. -/
def diffRest (s : List MountwatchEntry × Diff) (dirChange : Option (List InotifyEvent)) :
    Mountwatch × List MountwatchChange :=
  let r := sweep sweepEntry s.1.length 0 s.2 s.1
  (⟨r.2, r.1.ientry⟩, r.1.change ++ (dirChange.map (mountwatchInotifyHandle r.1.ientry)).getD [])

/-- `mountwatch_diff`, and the changes it returns. Where nothing changed and there were no directory
events the source waits again, which here is a call that returns no changes. -/
def mountwatchDiff (w : Mountwatch) : Poll → Mountwatch × List MountwatchChange
  | .timeout => (w, [])
  | .unreadable => (w, [])
  | .snapshot lines dirChange => diffRest (lines.foldl (diffLine cfg addWatch) (w.entry, ⟨w.ientry, []⟩)) dirChange

end Config

end Dbp
