/-
# The launchers on the user's desktop

`dbp-desktopd` shows the launchers of the packages of dbpd that are flagged
for the desktop. Its main thread clears the desktop, starts to listen to the
daemon's signals, fetches the list of packages and copies their launchers,
file by file, from the daemon's directory; a second thread copies and
removes launchers as the signals arrive. The subscription becomes active at
some time after the main thread has asked for it, and signals that are sent
before are lost.

`DeskState.step` is one step of the daemon, of the bus or of one of the
threads: a file is created or unlinked, a signal sent or taken, a copy
opened or renamed. A step that cannot be taken changes nothing.

Key definitions: `DeskPackage`, `DaemonPc`, `MainPc`, `DeskState`, `DeskOp`, `DeskState.step`.
Key theorems: `step_cases`.
-/
import Dbp.Daemon.MetaFiles

namespace Dbp

open CLib

/-! ### Launchers -/

/-- The names `dbp-desktopd` takes for launchers: those with the prefix and the suffix. -/
def isLauncherName (n : CStr) : Bool :=
  metaPrefix.isPrefixOf n && ((lit ".desktop").length < n.length && (lit ".desktop").isSuffixOf n)

/-- What a package is to the desktop: its launchers, under the names they are exported under. -/
structure DeskPackage where
  id : CStr
  /-- It lies in a directory for the desktop. -/
  desk : Bool
  launchers : List CStr
  named : ∀ n ∈ launchers, metaPrefixOf id <+: n
  suffixed : ∀ n ∈ launchers, lit ".desktop" <:+ n

theorem DeskPackage.isLauncherName {p : DeskPackage} {n : CStr} (h : n ∈ p.launchers) : isLauncherName n := by
  have hpre := (metaPrefix_starts p.id).trans (p.named n h)
  obtain ⟨t, ht⟩ := p.suffixed n h
  have hne : t ≠ [] := by
    rintro rfl
    rw [← ht] at hpre
    exact absurd hpre (by decide)
  have hlen := List.length_pos_of_ne_nil hne
  have hlt : (lit ".desktop").length < n.length := by
    rw [← ht, List.length_append]
    omega
  simp [Dbp.isLauncherName, hpre, hlt, p.suffixed n h]

/-- The two signals `dbp-desktopd` looks at, with the name of the file. -/
inductive LauncherSignal
  | newMeta (n : CStr)
  | removeMeta (n : CStr)
deriving Repr, DecidableEq

/-! ### The state -/

/-- Where the daemon is: between two calls, or in a registration or a removal with the files that are still to be written
or unlinked, and perhaps with one whose signal is still to be sent. -/
inductive DaemonPc
  | idle
  | adding (p : DeskPackage) (todo : List CStr)
  | added (p : DeskPackage) (n : CStr) (todo : List CStr)
  | removing (p : DeskPackage) (todo : List CStr)
  | removed (p : DeskPackage) (n : CStr) (todo : List CStr)

/-- The signal the daemon sends next. -/
def DaemonPc.signal : DaemonPc → Option LauncherSignal
  | .added p n _ => if p.desk then some (.newMeta n) else none
  | .removed p n _ => if p.desk then some (.removeMeta n) else none
  | .idle | .adding .. | .removing .. => none

/-- The package whose launchers are being written. -/
def DaemonPc.adds : DaemonPc → Option DeskPackage
  | .adding p _ => some p
  | _ => none

/-- Where the main thread is: before and after `nuke_desktop`, with the signals asked for, and, once the list is fetched,
between two packages, in the directory with the files `readdir` must still return, or in `copy_file`. -/
inductive MainPc
  | start
  | nuked
  | listening
  | list (ids : List CStr)
  | dir (id : CStr) (left ids : List CStr)
  | copy (n id : CStr) (left ids : List CStr)
deriving Repr, DecidableEq

namespace MainPc

/-- The list is fetched. -/
def fetched : MainPc → Bool
  | .start | .nuked | .listening => false
  | .list _ | .dir .. | .copy .. => true

/-- The file that is open. -/
def copying : MainPc → Option CStr
  | .copy n _ _ _ => some n
  | _ => none

/-- The package whose files are looked for. -/
def scanning : MainPc → Option CStr
  | .dir id _ _ => some id
  | _ => none

/-- The signals are asked for. -/
def listens : MainPc → Bool
  | .start | .nuked => false
  | _ => true

theorem listens_of_fetched {pc : MainPc} (h : pc.fetched) : pc.listens := by cases pc <;> first | rfl | cases h

/-- A file that is unlinked need not be returned by `readdir` any more. -/
def unlinked (n : CStr) : MainPc → MainPc
  | .dir id left ids => .dir id (left.filter (· ≠ n)) ids
  | .copy m id left ids => .copy m id (left.filter (· ≠ n)) ids
  | pc => pc

@[simp] theorem fetched_unlinked (n : CStr) (pc : MainPc) : (pc.unlinked n).fetched = pc.fetched := by cases pc <;> rfl

@[simp] theorem copying_unlinked (n : CStr) (pc : MainPc) : (pc.unlinked n).copying = pc.copying := by cases pc <;> rfl

@[simp] theorem listens_unlinked (n : CStr) (pc : MainPc) : (pc.unlinked n).listens = pc.listens := by cases pc <;> rfl

@[simp] theorem unlinked_eq_start (n : CStr) (pc : MainPc) : pc.unlinked n = .start ↔ pc = .start := by
  cases pc <;> simp [unlinked]

end MainPc

/-- The daemon with its packages and its directory of launchers, the signals on the way to the subscription, the file the
signal thread has open, the main thread, and the user's desktop. -/
structure DeskState where
  packages : List DeskPackage
  launcherDir : List CStr
  daemon : DaemonPc
  active : Bool
  queue : List LauncherSignal
  handler : Option CStr
  main : MainPc
  desktop : List CStr

namespace DeskState

/-- The daemon has started, and has removed the files of its prefix from its directory; `dbp-desktopd` is starting. -/
def init (launcherDir desktop : List CStr) : DeskState where
  packages := []
  launcherDir := launcherDir.filter (!metaPrefix.isPrefixOf ·)
  daemon := .idle
  active := false
  queue := []
  handler := none
  main := .start
  desktop := desktop

/-- The files of a package's prefix, as `readdir` returns them. -/
def filesOf (s : DeskState) (id : CStr) : List CStr := s.launcherDir.filter (metaPrefixOf id).isPrefixOf

/-- The queue after a signal, if there is one: nobody gets it without an active subscription. -/
def emit (s : DeskState) : Option LauncherSignal → List LauncherSignal
  | none => s.queue
  | some sig => if s.active then s.queue ++ [sig] else s.queue

theorem emit_inactive {s : DeskState} (h : ¬ s.active) (sig : Option LauncherSignal) : s.emit sig = s.queue := by
  cases sig with
  | none => rfl
  | some sig => exact if_neg h

end DeskState

/-! ### Steps -/

/-- The steps of the daemon, of the bus, of the signal thread and of the main thread. -/
inductive DeskOp
  | register (p : DeskPackage)
  /-- Whether the file can be opened. -/
  | write (opened : Bool)
  | remove (id : CStr)
  | unlink
  | announce
  | finish
  | activate
  | signal
  | signalRename
  | nuke
  | listen
  | fetch
  | openDir
  | openFile (n : CStr)
  | rename
  | closeDir

namespace DeskState

/-- `package_add`, the first part of a registration. -/
def register (s : DeskState) (p : DeskPackage) : DeskState :=
  match s.daemon with
  | .idle =>
    if p.id ∈ s.packages.map (·.id) then s
    else { s with packages := s.packages ++ [p], daemon := .adding p p.launchers }
  | _ => s

/-- `package_desktop_write` of the next file. One that cannot be opened is left out, without a signal. -/
def write (s : DeskState) (opened : Bool) : DeskState :=
  match s.daemon with
  | .adding p (n :: todo) =>
    if opened then { s with launcherDir := addName s.launcherDir n, daemon := .added p n todo }
    else { s with daemon := .adding p todo }
  | _ => s

/-- `package_kill` begins, with the directory listed. -/
def remove (s : DeskState) (id : CStr) : DeskState :=
  match s.daemon with
  | .idle =>
    match s.packages.find? fun p => p.id == id with
    | none => s
    | some p => { s with daemon := .removing p (s.filesOf id) }
  | _ => s

/-- `unlink` in `package_kill_prefix`. -/
def unlink (s : DeskState) : DeskState :=
  match s.daemon with
  | .removing p (n :: todo) =>
    { s with launcherDir := s.launcherDir.filter (· ≠ n), daemon := .removed p n todo, main := s.main.unlinked n }
  | _ => s

/-- `comm_dbus_announce_new_meta` and `comm_dbus_announce_rem_meta`, if the package is flagged for the desktop. -/
def announce (s : DeskState) : DeskState :=
  match s.daemon with
  | .added p _ todo => { s with queue := s.emit s.daemon.signal, daemon := .adding p todo }
  | .removed p _ todo => { s with queue := s.emit s.daemon.signal, daemon := .removing p todo }
  | _ => s

/-- The call of the daemon ends; a removed package leaves the registry. -/
def finish (s : DeskState) : DeskState :=
  match s.daemon with
  | .adding _ [] => { s with daemon := .idle }
  | .removing p [] => { s with packages := s.packages.filter fun q => q.id ≠ p.id, daemon := .idle }
  | _ => s

/-- The subscription of `name_known` gets through. -/
def activate (s : DeskState) : DeskState := if s.main.listens then { s with active := true } else s

/-- `sighndlr` of the next signal: `add_meta` up to the opened file, or `remove_meta`. -/
def signal (s : DeskState) : DeskState :=
  match s.handler, s.queue with
  | none, .newMeta n :: queue =>
    { s with queue := queue, handler := if isLauncherName n && s.launcherDir.contains n then some n else none }
  | none, .removeMeta n :: queue =>
    { s with queue := queue, desktop := if isLauncherName n then s.desktop.filter (· ≠ n) else s.desktop }
  | _, _ => s

/-- The rest of `copy_file` in the signal thread. -/
def signalRename (s : DeskState) : DeskState :=
  match s.handler with
  | some n => { s with handler := none, desktop := addName s.desktop n }
  | none => s

/-- `nuke_desktop`. -/
def nuke (s : DeskState) : DeskState :=
  match s.main with
  | .start => { s with desktop := s.desktop.filter (!isLauncherName ·), main := .nuked }
  | _ => s

/-- `dbpmgr_server_signal_listen`. -/
def listen (s : DeskState) : DeskState :=
  match s.main with
  | .nuked => { s with main := .listening }
  | _ => s

/-- The packages on the list that are flagged for the desktop, the last one first. The list leaves out one of id `!`. -/
def listed (s : DeskState) : List CStr := ((s.packages.filter fun p => p.id ≠ lit "!" ∧ p.desk).map (·.id)).reverse

/-- `dbpmgr_server_package_list`, for which the daemon has to be between two calls. -/
def fetch (s : DeskState) : DeskState :=
  match s.main, s.daemon with
  | .listening, .idle => { s with main := .list s.listed }
  | _, _ => s

/-- `add_package_meta` opens the directory. What is there now will be returned, unless it is unlinked. -/
def openDir (s : DeskState) : DeskState :=
  match s.main with
  | .list (id :: ids) => { s with main := .dir id (s.filesOf id) ids }
  | _ => s

/-- `readdir` returns a file of the package, which `copy_file` opens. -/
def openFile (s : DeskState) (n : CStr) : DeskState :=
  match s.main with
  | .dir id left ids =>
    if n ∈ s.filesOf id ∧ isLauncherName n then { s with main := .copy n id (left.filter (· ≠ n)) ids } else s
  | _ => s

/-- The rest of `copy_file` in the main thread. -/
def rename (s : DeskState) : DeskState :=
  match s.main with
  | .copy n id left ids => { s with desktop := addName s.desktop n, main := .dir id left ids }
  | _ => s

/-- `add_package_meta` is done with a package. Files with another suffix are left alone. -/
def closeDir (s : DeskState) : DeskState :=
  match s.main with
  | .dir _ left ids => if left.any isLauncherName then s else { s with main := .list ids }
  | _ => s

/-- One step. -/
def step (s : DeskState) : DeskOp → DeskState
  | .register p => s.register p
  | .write opened => s.write opened
  | .remove id => s.remove id
  | .unlink => s.unlink
  | .announce => s.announce
  | .finish => s.finish
  | .activate => s.activate
  | .signal => s.signal
  | .signalRename => s.signalRename
  | .nuke => s.nuke
  | .listen => s.listen
  | .fetch => s.fetch
  | .openDir => s.openDir
  | .openFile n => s.openFile n
  | .rename => s.rename
  | .closeDir => s.closeDir

/-- A run. -/
abbrev run (s : DeskState) (ops : List DeskOp) : DeskState := ops.foldl step s

theorem run_cons (s : DeskState) (op : DeskOp) (ops : List DeskOp) : s.run (op :: ops) = (s.step op).run ops := rfl

theorem run_append (s : DeskState) (ops ops' : List DeskOp) : s.run (ops ++ ops') = (s.run ops).run ops' :=
  List.foldl_append

end DeskState

/-! ### What a step does -/

/-- What a step can do, and from where. -/
inductive StepCase (s : DeskState) : DeskOp → DeskState → Prop
  | none (op : DeskOp) : StepCase s op s
  | register (p : DeskPackage) (hd : s.daemon = .idle) (hid : p.id ∉ s.packages.map (·.id)) :
    StepCase s (.register p) { s with packages := s.packages ++ [p], daemon := .adding p p.launchers }
  | write (p : DeskPackage) (n : CStr) (todo : List CStr) (hd : s.daemon = .adding p (n :: todo)) :
    StepCase s (.write true) { s with launcherDir := addName s.launcherDir n, daemon := .added p n todo }
  | leaveOut (p : DeskPackage) (n : CStr) (todo : List CStr) (hd : s.daemon = .adding p (n :: todo)) :
    StepCase s (.write false) { s with daemon := .adding p todo }
  | remove (p : DeskPackage) (hd : s.daemon = .idle) (hp : p ∈ s.packages) :
    StepCase s (.remove p.id) { s with daemon := .removing p (s.filesOf p.id) }
  | unlink (p : DeskPackage) (n : CStr) (todo : List CStr) (hd : s.daemon = .removing p (n :: todo)) :
    StepCase s .unlink
      { s with launcherDir := s.launcherDir.filter (· ≠ n), daemon := .removed p n todo, main := s.main.unlinked n }
  | announce (pc : DaemonPc) (hpc : pc.signal = .none) (hd : ∃ p n todo,
      s.daemon = .added p n todo ∧ pc = .adding p todo ∨ s.daemon = .removed p n todo ∧ pc = .removing p todo) :
    StepCase s .announce { s with queue := s.emit s.daemon.signal, daemon := pc }
  | finishAdding (p : DeskPackage) (hd : s.daemon = .adding p []) : StepCase s .finish { s with daemon := .idle }
  | finishRemoving (p : DeskPackage) (hd : s.daemon = .removing p []) :
    StepCase s .finish { s with packages := s.packages.filter fun q => q.id ≠ p.id, daemon := .idle }
  | activate (hl : s.main.listens) : StepCase s .activate { s with active := true }
  | signalNew (n : CStr) (queue : List LauncherSignal) (hh : s.handler = .none) (hq : s.queue = .newMeta n :: queue) :
    StepCase s .signal
      { s with queue := queue, handler := if isLauncherName n && s.launcherDir.contains n then some n else .none }
  | signalRemove (n : CStr) (queue : List LauncherSignal) (hh : s.handler = .none) (hq : s.queue = .removeMeta n :: queue) :
    StepCase s .signal
      { s with queue := queue, desktop := if isLauncherName n then s.desktop.filter (· ≠ n) else s.desktop }
  | signalRename (n : CStr) (hh : s.handler = some n) :
    StepCase s .signalRename { s with handler := .none, desktop := addName s.desktop n }
  | nuke (hm : s.main = .start) :
    StepCase s .nuke { s with desktop := s.desktop.filter (!isLauncherName ·), main := .nuked }
  | listen (hm : s.main = .nuked) : StepCase s .listen { s with main := .listening }
  | fetch (hm : s.main = .listening) (hd : s.daemon = .idle) :
    StepCase s .fetch { s with main := .list s.listed }
  | openDir (id : CStr) (ids : List CStr) (hm : s.main = .list (id :: ids)) :
    StepCase s .openDir { s with main := .dir id (s.filesOf id) ids }
  | openFile (n id : CStr) (left ids : List CStr) (hm : s.main = .dir id left ids) (hn : n ∈ s.filesOf id)
    (hl : isLauncherName n) : StepCase s (.openFile n) { s with main := .copy n id (left.filter (· ≠ n)) ids }
  | rename (n id : CStr) (left ids : List CStr) (hm : s.main = .copy n id left ids) :
    StepCase s .rename { s with desktop := addName s.desktop n, main := .dir id left ids }
  | closeDir (id : CStr) (left ids : List CStr) (hm : s.main = .dir id left ids) (hleft : ∀ n ∈ left, ¬ isLauncherName n) :
    StepCase s .closeDir { s with main := .list ids }

theorem step_cases (s : DeskState) (op : DeskOp) : StepCase s op (s.step op) := by
  cases op with
  | register p =>
    simp only [DeskState.step, DeskState.register]
    split
    · next hd =>
      split_ifs with hid
      · exact .none _
      · exact .register p hd hid
    · exact .none _
  | write opened =>
    simp only [DeskState.step, DeskState.write]
    split
    · next p n todo hd =>
      cases opened with
      | true => exact .write p n todo hd
      | false => exact .leaveOut p n todo hd
    · exact .none _
  | remove id =>
    simp only [DeskState.step, DeskState.remove]
    split
    · next hd =>
      split
      · exact .none _
      · next p hp =>
        obtain rfl : p.id = id := by simpa using List.find?_some hp
        exact .remove p hd (List.mem_of_find?_eq_some hp)
    · exact .none _
  | unlink =>
    simp only [DeskState.step, DeskState.unlink]
    split
    · next p n todo hd => exact .unlink p n todo hd
    · exact .none _
  | announce =>
    simp only [DeskState.step, DeskState.announce]
    split
    · next p n todo hd => exact .announce _ rfl ⟨p, n, todo, .inl ⟨hd, rfl⟩⟩
    · next p n todo hd => exact .announce _ rfl ⟨p, n, todo, .inr ⟨hd, rfl⟩⟩
    · exact .none _
  | finish =>
    simp only [DeskState.step, DeskState.finish]
    split
    · next p hd => exact .finishAdding p hd
    · next p hd => exact .finishRemoving p hd
    · exact .none _
  | activate =>
    simp only [DeskState.step, DeskState.activate]
    split_ifs with hl
    · exact .activate hl
    · exact .none _
  | signal =>
    simp only [DeskState.step, DeskState.signal]
    split
    · next n queue hh hq => exact .signalNew n queue hh hq
    · next n queue hh hq => exact .signalRemove n queue hh hq
    · exact .none _
  | signalRename =>
    simp only [DeskState.step, DeskState.signalRename]
    split
    · next n hh => exact .signalRename n hh
    · exact .none _
  | nuke =>
    simp only [DeskState.step, DeskState.nuke]
    split
    · next hm => exact .nuke hm
    · exact .none _
  | listen =>
    simp only [DeskState.step, DeskState.listen]
    split
    · next hm => exact .listen hm
    · exact .none _
  | fetch =>
    simp only [DeskState.step, DeskState.fetch]
    split
    · next hm hd => exact .fetch hm hd
    · exact .none _
  | openDir =>
    simp only [DeskState.step, DeskState.openDir]
    split
    · next id ids hm => exact .openDir id ids hm
    · exact .none _
  | openFile n =>
    simp only [DeskState.step, DeskState.openFile]
    split
    · next id left ids hm =>
      split_ifs with hn
      · exact .openFile n id left ids hm hn.1 hn.2
      · exact .none _
    · exact .none _
  | rename =>
    simp only [DeskState.step, DeskState.rename]
    split
    · next n id left ids hm => exact .rename n id left ids hm
    · exact .none _
  | closeDir =>
    simp only [DeskState.step, DeskState.closeDir]
    split
    · next id left ids hm =>
      split_ifs with hleft
      · exact .none _
      · exact .closeDir id left ids hm (by simpa using hleft)
    · exact .none _

end Dbp
