/-
# Who owns a wrapper script

`package_register` writes scripts into the executable directory and records
their names in the new entry; `package_kill` deletes the names of an entry.
A name is recorded even if its script is not written, as when the template
cannot be read or the script cannot be opened, and the next package is asked
about the directory, not about the records: it may write a script of that
name, which the first package's removal then deletes. `ExecRun` follows the
calls of these two functions and remembers for which package each script was
written. Every script has one owner, its package, in exactly the runs in
which every name that a package has to export can be written, or is in the
directory already (`execsOwned_iff`).

Key definitions: `PackageCall`, `DaemonOp.calls`, `ExecRun`, `ExecsOwned`, `archiveExecs`, `Env.emits`, `ExportOk`.
Key theorems: `step_calls`, `foldl_exportExec`, `register_execs`, `ExecsOwned.call_iff`, `execsOwned_iff`, `run_execs`.
-/
import Dbp.Daemon.MetaFiles

namespace Dbp

open CLib Sweep Runs

/-! ### Calls on the registry -/

/-- A call of `package_register` or `package_kill`, or one that leaves the registry alone. -/
inductive PackageCall
  | register (e : Env) (path device mount : CStr)
  | kill (entry : ℕ)
  | run (ret : ℤ) (id user : CStr)
  | stop (now runId : ℤ)
  | purgatoryCheck (out : ℕ → TeardownOutcome)

/-- The state after a call. -/
def PackageCall.apply (cfg : DBPConfig) (d : Daemon) : PackageCall → Daemon
  | .register e path device mount => (packageRegister cfg d e path device mount).2.2
  | .kill entry => packageKill cfg d entry
  | .run ret id user => (packageRun d ret id user).2
  | .stop now runId => (packageStop d now runId).2
  | .purgatoryCheck out => packagePurgatoryCheck d out

/-- The entries `package_release_mount` kills, as they are numbered at the time. -/
def mountKills (device : CStr) : ℕ → Option ℕ → List PackageEntry → List ℕ
  | _, _, [] => []
  | i, last, p :: ps =>
    if last = some p.idPtr then mountKills device (i + 1) last ps
    else if p.device ≠ device then mountKills device (i + 1) (some p.idPtr) ps
    else i :: mountKills device i (some p.idPtr) ps

/-- The calls of an operation. -/
def DaemonOp.calls (cfg : DBPConfig) (d : Daemon) : DaemonOp → List PackageCall
  | .registerPath e device path mount =>
    if packageFilenameInteresting cfg path then [.register e path device mount] else []
  | .crawlMount e device path => (crawlPaths cfg e path).map fun f => .register e f device path
  | .releasePath path => ((d.p.entry.findIdx? fun p => p.path == dropSlash path).map PackageCall.kill).toList
  | .releaseMount device => (mountKills device 0 none d.p.entry).map .kill
  | .run ret id user => [.run ret id user]
  | .stop now runId => [.stop now runId]
  | .purgatoryCheck out => [.purgatoryCheck out]

/-- The daemon with other entries. -/
abbrev Daemon.withEntries (d : Daemon) (es : List PackageEntry) : Daemon := { d with p := { d.p with entry := es } }

theorem packageKill_append (cfg : DBPConfig) (d : Daemon) (pre : List PackageEntry) (p : PackageEntry)
    (post : List PackageEntry) : packageKill cfg (d.withEntries (pre ++ p :: post)) pre.length =
      (packageKillFiles cfg d p).withEntries (pre ++ post) := by
  have hget : (pre ++ p :: post)[pre.length]? = some p := by simp
  have herase : (pre ++ p :: post).eraseIdx pre.length = pre ++ post := by simp [List.eraseIdx_append_of_length_le]
  simp only [packageKill, hget, packageKillFiles, herase]

theorem releaseMount_kills (cfg : DBPConfig) (device : CStr) : ∀ (ps pre : List PackageEntry) (last : Option ℕ)
    (d : Daemon), (mountKills device pre.length last ps).foldl (packageKill cfg) (d.withEntries (pre ++ ps)) =
      (mapKeep (releaseVisit cfg device) (last, d) ps).1.2.withEntries
        (pre ++ (mapKeep (releaseVisit cfg device) (last, d) ps).2)
  | [], pre, last, d => rfl
  | p :: ps, pre, last, d => by
    have hkeep : ∀ last', (mountKills device (pre.length + 1) last' ps).foldl (packageKill cfg)
        (d.withEntries (pre ++ p :: ps)) = (mapKeep (releaseVisit cfg device) (last', d) ps).1.2.withEntries
          (pre ++ p :: (mapKeep (releaseVisit cfg device) (last', d) ps).2) := by
      intro last'
      have ih := releaseMount_kills cfg device ps (pre ++ [p]) last' d
      rwa [List.length_append, List.length_singleton, List.append_assoc, List.append_assoc, List.singleton_append,
        List.singleton_append] at ih
    unfold mountKills
    rw [mapKeep]
    unfold releaseVisit
    split_ifs with h1 h2
    · exact hkeep last
    · exact hkeep (some p.idPtr)
    · rw [List.foldl_cons, packageKill_append]
      exact releaseMount_kills cfg device ps pre _ _

/-- An operation is its calls. -/
theorem step_calls (cfg : DBPConfig) (d : Daemon) (op : DaemonOp) :
    (op.calls cfg d).foldl (PackageCall.apply cfg) d = d.step cfg op := by
  cases op with
  | registerPath e device path mount =>
    show _ = (packageRegisterPath cfg d e device path mount).2.2
    rw [packageRegisterPath_state, DaemonOp.calls]
    split_ifs <;> rfl
  | crawlMount e device path =>
    show _ = packageCrawlMount cfg d e device path
    rw [packageCrawlMount_eq, DaemonOp.calls, List.foldl_map]
    rfl
  | releasePath path =>
    show _ = (packageReleasePath cfg d path).2
    simp only [DaemonOp.calls, packageReleasePath]
    cases d.p.entry.findIdx? fun p => p.path == dropSlash path <;> rfl
  | releaseMount device =>
    show _ = packageReleaseMount cfg d device
    rw [packageReleaseMount_eq, DaemonOp.calls, List.foldl_map]
    exact releaseMount_kills cfg device d.p.entry [] none d
  | run ret id user => rfl
  | stop now runId => rfl
  | purgatoryCheck out => rfl

/-- The calls of a run. -/
def runCalls (cfg : DBPConfig) : Daemon → List DaemonOp → List PackageCall
  | _, [] => []
  | d, op :: ops => op.calls cfg d ++ runCalls cfg (d.step cfg op) ops

theorem run_calls (cfg : DBPConfig) : ∀ (ops : List DaemonOp) (d : Daemon),
    (runCalls cfg d ops).foldl (PackageCall.apply cfg) d = d.run cfg ops
  | [], _ => rfl
  | op :: ops, d => by
    rw [runCalls, List.foldl_append, step_calls, run_calls cfg ops]
    rfl

/-- The calls come one after the other. -/
theorem runCalls_append (cfg : DBPConfig) : ∀ (ops ops' : List DaemonOp) (d : Daemon),
    runCalls cfg d (ops ++ ops') = runCalls cfg d ops ++ runCalls cfg (d.run cfg ops) ops'
  | [], _, _ => rfl
  | op :: ops, ops', d => by
    rw [List.cons_append, runCalls, runCalls_append cfg ops ops', runCalls, List.append_assoc]
    rfl

/-! ### What a registration exports -/

/-- The executables in an `Exec` or `NoEnvExec` list. -/
def execTokens (exec : Option CStr) : List CStr := (exec.map (strtok ';')).getD []

/-- The executables of a launcher, each with whether it runs in the package's environment. -/
def launcherExecs (df : DesktopFile) : List (CStr × ℤ) :=
  (execTokens (dbpDesktopLookup df (lit "Exec") [] (some (lit "Package Entry")))).map (·, 1) ++
    (execTokens (dbpDesktopLookup df (lit "NoEnvExec") [] (some (lit "Package Entry")))).map (·, 0)

/-- The executables of a file of an archive: if it is a launcher, those it lists. -/
def fileExecs (cfg : DBPConfig) (e : Env) (p : PackageEntry) (f : ArchiveFile) : List (CStr × ℤ) :=
  if f.1.length ≤ 256 && (!isIcon f.1 && isDesktop f.1) then
    launcherExecs (launcherFile cfg e p (findFilename f.1) (cString f.2))
  else []

/-- The executables of an archive. -/
def archiveExecs (cfg : DBPConfig) (e : Env) (p : PackageEntry) (files : List ArchiveFile) : List (CStr × ℤ) :=
  files.flatMap (fileExecs cfg e p)

/-- One executable is exported. -/
abbrev exportExec (cfg : DBPConfig) (e : Env) (id : CStr) (s : Dir × List CStr) (t : CStr × ℤ) : Dir × List CStr :=
  execExportTok cfg e t.2 id s t.1

theorem packageMetaExecExport_eq (cfg : DBPConfig) (e : Env) (exec : Option CStr) (env : ℤ) (id : CStr)
    (s : Dir × List CStr) : packageMetaExecExport cfg e exec env id s =
      ((execTokens exec).map (·, env)).foldl (exportExec cfg e id) s := by
  rw [List.foldl_map]
  cases exec <;> rfl

/-- What an extraction does to the executable directory and the entry's names. -/
theorem execs_extract (cfg : DBPConfig) (e : Env) (path : CStr) (p : PackageEntry) (announce : Bool) (m : MetaState) :
    ((packageMetaExtract cfg e path p announce m).execs, (packageMetaExtract cfg e path p announce m).exec) =
      (archiveExecs cfg e p (extractedFiles cfg e p.id path)).foldl (exportExec cfg e p.id) (m.execs, m.exec) := by
  have hfile : ∀ (m : MetaState) (f : ArchiveFile), e.opensFile cfg p.id f = true →
      ((packageMetaExtractFile cfg e p announce m f).execs, (packageMetaExtractFile cfg e p announce m f).exec) =
        (fileExecs cfg e p f).foldl (exportExec cfg e p.id) (m.execs, m.exec) := by
    intro m f ho
    rw [extractFile_eq cfg announce m ho, fileExecs]
    by_cases hi : f.1.length ≤ 256 && isIcon f.1
    · have hno : ¬ (f.1.length ≤ 256 && (!isIcon f.1 && isDesktop f.1)) = true := by simp_all
      rw [if_pos hi, if_neg hno]
      rfl
    · rw [if_neg hi]
      split_ifs with hd
      · have hopen := opens_desktop cfg ho (by simp_all)
        simp only [packageDesktopWrite, hopen, Bool.not_true, Bool.false_eq_true, if_false, packageMetaExecExport_eq,
          launcherExecs, List.foldl_append]
      · rfl
  have hfiles : ∀ (files : List ArchiveFile) (m : MetaState), (∀ f ∈ files, e.opensFile cfg p.id f = true) →
      ((files.foldl (packageMetaExtractFile cfg e p announce) m).execs,
          (files.foldl (packageMetaExtractFile cfg e p announce) m).exec) =
        (archiveExecs cfg e p files).foldl (exportExec cfg e p.id) (m.execs, m.exec) := by
    intro files
    induction files with
    | nil => exact fun m _ => rfl
    | cons f files ih =>
      intro m hall
      rw [archiveExecs, List.flatMap_cons, List.foldl_append, ← hfile m f (hall f List.mem_cons_self)]
      exact ih _ fun f' hf' => hall f' (List.mem_cons_of_mem f hf')
  rw [extract_eq]
  exact hfiles _ m fun _ => opensFile_of_mem cfg e path

theorem Dir.Accessible.mono {d d' : Dir} {name : CStr} (h : d.Accessible name) (hs : d.names ⊆ d'.names) :
    d'.Accessible name := h.imp (fun hn => hs hn) id

/-- Whether `package_emit_exec` can write a script of a name. -/
def Env.emits (cfg : DBPConfig) (e : Env) (name : CStr) : Bool :=
  (e.readFile cfg.execTemplate).isSome && e.opens (cfg.execDirectory ++ lit "/" ++ name)

/-- A new script. -/
theorem names_emitScript (cfg : DBPConfig) (e : Env) {execs : Dir} {name : CStr} (h : name ∉ execs.names) (bin : CStr)
    (env : ℤ) (id : CStr) : (emitScript cfg e execs name bin env id).names =
      execs.names ++ if e.emits cfg name then [name] else [] := by
  unfold emitScript packageEmitExec Env.emits
  cases e.readFile cfg.execTemplate with
  | none => simp
  | some script => cases e.opens (cfg.execDirectory ++ lit "/" ++ name) <;> simp [names_write, addName, h]

/-- The export of executables: the names that are not there yet are recorded, and of these the ones that can be written
are there afterwards. -/
theorem foldl_exportExec (cfg : DBPConfig) (e : Env) (id : CStr) : ∀ (ts : List (CStr × ℤ)) (s : Dir × List CStr),
    ∃ new, (ts.foldl (exportExec cfg e id) s).2 = s.2 ++ new ∧
      (ts.foldl (exportExec cfg e id) s).1.names = s.1.names ++ new.filter (e.emits cfg) ∧
      (∀ n ∈ new, n ∉ s.1.names) ∧
      ((∀ n ∈ new, e.emits cfg n) ↔ ∀ t ∈ ts, s.1.Accessible (findFilename t.1) ∨ e.emits cfg (findFilename t.1))
  | [], s => ⟨[], by simp⟩
  | t :: ts, s => by
    by_cases ha : s.1.Accessible (findFilename t.1)
    · have hskip : exportExec cfg e id s t = s := if_pos ha
      rw [List.foldl_cons, hskip]
      obtain ⟨new, h1, h2, h3, h4⟩ := foldl_exportExec cfg e id ts s
      exact ⟨new, h1, h2, h3, by rw [h4, List.forall_mem_cons, and_iff_right (.inl ha)]⟩
    · have hmem : findFilename t.1 ∉ s.1.names := fun hm => ha (.inl hm)
      have hturn : exportExec cfg e id s t =
          (emitScript cfg e s.1 (findFilename t.1) t.1 t.2 id, s.2 ++ [findFilename t.1]) := if_neg ha
      have hnames := names_emitScript cfg e hmem t.1 t.2 id
      obtain ⟨new, h1, h2, h3, h4⟩ := foldl_exportExec cfg e id ts (exportExec cfg e id s t)
      rw [← List.foldl_cons, hturn] at h1 h2
      simp only [hturn, hnames] at h2 h3 h4
      refine ⟨findFilename t.1 :: new, ?_, ?_, ?_, ?_⟩
      · rw [h1, List.append_assoc, List.singleton_append]
      · rw [h2, List.append_assoc, List.filter_cons]
        split_ifs <;> rfl
      · exact List.forall_mem_cons.mpr ⟨hmem, fun n hn hold => h3 n hn (List.mem_append_left _ hold)⟩
      · rw [List.forall_mem_cons, List.forall_mem_cons, or_iff_right ha, h4]
        refine and_congr_right fun hemit => forall_congr' fun t' => forall_congr' fun _ => ?_
        -- the name that has just been written can be written
        unfold Dir.Accessible
        rw [hnames, if_pos hemit, List.mem_append, List.mem_singleton]
        constructor
        · rintro (((h | h) | h) | h)
          · exact .inl (.inl h)
          · exact .inr (h ▸ hemit)
          · exact .inl (.inr h)
          · exact .inr h
        · tauto

/-- The export of the last entry, which has no names yet. -/
theorem export_execs (cfg : DBPConfig) {d : Daemon} {es : List PackageEntry} {p : PackageEntry} (h : d.p.entry = es ++ [p])
    (hp : p.exec = []) (e : Env) (path : CStr) : ∃ new,
      (packageExport cfg d e path es.length).p.entry = es ++ [{ p with exec := new }] ∧
      (packageExport cfg d e path es.length).execs.names = d.execs.names ++ new.filter (e.emits cfg) ∧
      (∀ n ∈ new, n ∉ d.execs.names) ∧
      ((∀ n ∈ new, e.emits cfg n) ↔ ∀ t ∈ archiveExecs cfg e p (extractedFiles cfg e p.id path),
        d.execs.Accessible (findFilename t.1) ∨ e.emits cfg (findFilename t.1)) := by
  have hextract := execs_extract cfg e path p (p.desktop == lit "desk")
    ⟨d.icons, d.desktops, d.execs, d.signals, p.exec⟩
  obtain ⟨new, h1, h2, h3, h4⟩ := foldl_exportExec cfg e p.id (archiveExecs cfg e p (extractedFiles cfg e p.id path))
    (d.execs, p.exec)
  rw [← hextract] at h1 h2
  simp only [hp, List.nil_append] at h1 h2
  refine ⟨new, ?_, ?_, h3, h4⟩ <;> rw [packageExport_last cfg h e path] <;> simp only [hp, h1, h2]

/-- The entry a registration appends, before its files are exported. -/
def acceptedEntry (d : Daemon) (e : Env) (path device mount : CStr) : Option PackageEntry :=
  match dbpMetaPackageOpen e path with
  | .inl _ => none
  | .inr df => (metaLookup df (lit "Id")).bind fun id =>
    if packageAddCheck id d.p.entry = none then some (newEntry e d.p.entry (packageStrings df id path device mount))
    else none

/-- A registration does nothing, or it appends an entry and exports its executables. -/
theorem register_execs (cfg : DBPConfig) (d : Daemon) (e : Env) (path device mount : CStr) :
    match acceptedEntry d e path device mount with
    | none => (packageRegister cfg d e path device mount).2.2 = d
    | some p => readId e path = some p.id ∧ ∃ new,
      (packageRegister cfg d e path device mount).2.2.p.entry = d.p.entry ++ [{ p with exec := new }] ∧
      (packageRegister cfg d e path device mount).2.2.execs.names =
        d.execs.names ++ new.filter (e.emits cfg) ∧
      (∀ n ∈ new, n ∉ d.execs.names) ∧
      ((∀ n ∈ new, e.emits cfg n) ↔ ∀ t ∈ archiveExecs cfg e p (extractedFiles cfg e p.id path),
        d.execs.Accessible (findFilename t.1) ∨ e.emits cfg (findFilename t.1)) := by
  unfold acceptedEntry readId
  have hc := packageRegister_cases cfg d e path device mount
  generalize packageRegister cfg d e path device mount = r at hc ⊢
  cases hc with
  | unreadable errid h => simp [h]
  | noId df h hid => simp [h, hid]
  | rejected df id errid coll h hid hc => simp [h, hid, hc]
  | added df id h hid hc =>
    simp only [h, hid, hc, Option.bind_some, ↓reduceIte]
    have hadd := @packageAdd_added d e (packageStrings df id path device mount) hc
    have hentry : (packageAdd d e (packageStrings df id path device mount)).2.p.entry =
        d.p.entry ++ [newEntry e d.p.entry (packageStrings df id path device mount)] := by rw [hadd]
    have hdir : (packageAdd d e (packageStrings df id path device mount)).2.execs = d.execs := by rw [hadd]
    have hexport := export_execs cfg hentry rfl e path
    rw [hdir] at hexport
    exact ⟨rfl, hexport⟩

/-! ### Owners -/

/-- A run so far: the daemon, and for which package it has written each file of the executable directory. -/
structure ExecRun where
  d : Daemon
  owner : CStr → Option CStr

namespace ExecRun

/-- A script in the directory that was written for a package. -/
def Written (s : ExecRun) (name id : CStr) : Prop := name ∈ s.d.execs.names ∧ s.owner name = some id

/-- A call; the files that a registration brings to the directory are written for the package it registers. -/
def call (cfg : DBPConfig) (s : ExecRun) : PackageCall → ExecRun
  | .register e path device mount =>
    let d' := (packageRegister cfg s.d e path device mount).2.2
    ⟨d', fun name => if name ∈ d'.execs.names ∧ name ∉ s.d.execs.names then readId e path else s.owner name⟩
  | c => ⟨c.apply cfg s.d, s.owner⟩

/-- The daemon before its first call, over the files it finds. -/
def init (icons desktops execs : Dir) : ExecRun := ⟨Daemon.init icons desktops execs, fun _ => none⟩

theorem calls_d (cfg : DBPConfig) : ∀ (calls : List PackageCall) (s : ExecRun),
    (calls.foldl (call cfg) s).d = calls.foldl (PackageCall.apply cfg) s.d
  | [], _ => rfl
  | c :: calls, s => by
    have hd : (s.call cfg c).d = c.apply cfg s.d := by cases c <;> rfl
    rw [List.foldl_cons, List.foldl_cons, calls_d cfg calls, hd]

end ExecRun

/-- Every script has one owner: it is listed by exactly one entry, every listed name is a script written for that
package, and a removal deletes only such scripts. -/
structure ExecsOwned (cfg : DBPConfig) (s : ExecRun) : Prop where
  listed : ∀ name id, s.Written name id → (s.d.p.entry.countP fun p => name ∈ p.exec) = 1
  written : ∀ p ∈ s.d.p.entry, ∀ name ∈ p.exec, s.Written name p.id
  killed : ∀ p ∈ s.d.p.entry, ∀ name ∈ s.d.execs.names, name ∉ (packageKillFiles cfg s.d p).execs.names →
    s.Written name p.id

/-- For every executable of a package that is taken in there is a file of that name, or a script can be written. -/
def ExportOk (cfg : DBPConfig) (s : ExecRun) : PackageCall → Prop
  | .register e path device mount => ∀ p ∈ acceptedEntry s.d e path device mount,
    ∀ t ∈ archiveExecs cfg e p (extractedFiles cfg e p.id path),
      s.d.execs.Accessible (findFilename t.1) ∨ e.emits cfg (findFilename t.1)
  | _ => True

theorem mem_names_unlink {name : CStr} : ∀ {names : List CStr} {d : Dir},
    name ∈ (names.foldl Dir.unlink d).names ↔ name ∈ d.names ∧ name ∉ names
  | [], d => by simp
  | n :: names, d => by
    have hone : name ∈ (d.unlink n).names ↔ name ∈ d.names ∧ name ≠ n := by
      simp only [Dir.unlink, Dir.names, List.mem_map, List.mem_filter, decide_eq_true_eq]
      constructor
      · rintro ⟨f, ⟨hf, hne⟩, rfl⟩
        exact ⟨⟨f, hf, rfl⟩, hne⟩
      · rintro ⟨⟨f, hf, rfl⟩, hne⟩
        exact ⟨f, ⟨hf, hne⟩, rfl⟩
    rw [List.foldl_cons, mem_names_unlink, hone, List.mem_cons, not_or, and_assoc]

/-- What a removal deletes is listed, so it is enough that the lists are right. -/
theorem execsOwned_of_lists {cfg : DBPConfig} {s : ExecRun}
    (hlisted : ∀ name id, s.Written name id → (s.d.p.entry.countP fun p => name ∈ p.exec) = 1)
    (hwritten : ∀ p ∈ s.d.p.entry, ∀ name ∈ p.exec, s.Written name p.id) : ExecsOwned cfg s where
  listed := hlisted
  written := hwritten
  killed p hp name hname hgone := by
    have hexec : name ∈ p.exec := by
      by_contra hno
      exact hgone (mem_names_unlink.mpr ⟨hname, hno⟩)
    exact hwritten p hp name hexec

namespace ExecsOwned

variable {cfg : DBPConfig} {s : ExecRun}

/-- No other entry lists a name of an entry. -/
theorem unlisted (h : ExecsOwned cfg s) {pre post : List PackageEntry} {p : PackageEntry}
    (hs : s.d.p.entry = pre ++ p :: post) {name : CStr} (hp : name ∈ p.exec) : ∀ q ∈ pre ++ post, name ∉ q.exec := by
  have hcount := h.listed name p.id (h.written p (by simp [hs]) name hp)
  rw [hs, List.countP_append, List.countP_cons_of_pos (by simpa using hp)] at hcount
  have hnone : (pre ++ post).countP (fun q => name ∈ q.exec) = 0 := by
    rw [List.countP_append]
    omega
  simpa using List.countP_eq_zero.mp hnone

/-- A removal takes the package's scripts away and leaves the others'. -/
theorem kill (h : ExecsOwned cfg s) (entry : ℕ) : ExecsOwned cfg (s.call cfg (.kill entry)) := by
  show ExecsOwned cfg ⟨packageKill cfg s.d entry, s.owner⟩
  cases hget : s.d.p.entry[entry]? with
  | none =>
    simp only [packageKill, hget]
    exact h
  | some p =>
    obtain ⟨hlt, hp⟩ := List.getElem?_eq_some_iff.mp hget
    have hs : s.d.p.entry = s.d.p.entry.take entry ++ p :: s.d.p.entry.drop (entry + 1) := by simp [← hp]
    have hkill := packageKill_append cfg s.d (s.d.p.entry.take entry) p (s.d.p.entry.drop (entry + 1))
    rw [← hs, List.length_take_of_le hlt.le] at hkill
    generalize s.d.p.entry.take entry = pre, s.d.p.entry.drop (entry + 1) = post at hs hkill
    have hd : packageKill cfg s.d entry = (packageKillFiles cfg s.d p).withEntries (pre ++ post) := hkill
    rw [hd]
    have hmem : ∀ name, name ∈ (packageKillFiles cfg s.d p).execs.names ↔ name ∈ s.d.execs.names ∧ name ∉ p.exec :=
      fun _ => mem_names_unlink
    apply execsOwned_of_lists
    · rintro name id ⟨hname, howner⟩
      obtain ⟨hname, hno⟩ := (hmem name).mp hname
      have hcount := h.listed name id ⟨hname, howner⟩
      rwa [hs, List.countP_append, List.countP_cons_of_neg (by simpa using hno), ← List.countP_append] at hcount
    · intro q hq name hname
      have hq' : q ∈ pre ++ post := hq
      have hqs : q ∈ s.d.p.entry := by
        rw [hs]
        exact ((List.sublist_cons_self p post).append_left pre).subset hq'
      obtain ⟨hdir, howner⟩ := h.written q hqs name hname
      exact ⟨(hmem name).mpr ⟨hdir, fun hp => h.unlisted hs hp q hq' hname⟩, howner⟩

/-- A package whose names are all written is their owner. -/
theorem added (h : ExecsOwned cfg s) {d : Daemon} {p : PackageEntry} {new : List CStr}
    (hentry : d.p.entry = s.d.p.entry ++ [{ p with exec := new }]) (hdir : d.execs.names = s.d.execs.names ++ new)
    (hnew : ∀ n ∈ new, n ∉ s.d.execs.names) : ExecsOwned cfg
      ⟨d, fun name => if name ∈ d.execs.names ∧ name ∉ s.d.execs.names then some p.id else s.owner name⟩ := by
  have hcount : ∀ name, (d.p.entry.countP fun q => name ∈ q.exec) =
      (s.d.p.entry.countP fun q => name ∈ q.exec) + if name ∈ new then 1 else 0 := by
    intro name
    rw [hentry, List.countP_append, List.countP_singleton]
    simp
  apply execsOwned_of_lists
  · rintro name id ⟨hname, howner⟩
    simp only at hname howner ⊢
    rw [hcount]
    by_cases hin : name ∈ s.d.execs.names
    · rw [if_neg fun hc => hc.2 hin] at howner
      rw [if_neg fun hn => hnew name hn hin, h.listed name id ⟨hin, howner⟩]
    · have hn : name ∈ new := (List.mem_append.mp (hdir ▸ hname)).resolve_left hin
      have hzero : s.d.p.entry.countP (fun q => name ∈ q.exec) = 0 :=
        List.countP_eq_zero.mpr fun q hq hn => hin (h.written q hq name (by simpa using hn)).1
      rw [if_pos hn, hzero]
  · intro q hq name hname
    simp only [hentry, List.mem_append, List.mem_singleton] at hq
    rcases hq with hq | rfl
    · obtain ⟨hin, howner⟩ := h.written q hq name hname
      refine ⟨?_, ?_⟩
      · rw [hdir]
        exact List.mem_append_left _ hin
      · simp only [hin, not_true_eq_false, and_false, ↓reduceIte, howner]
    · have hin : name ∈ d.execs.names := by
        rw [hdir]
        exact List.mem_append_right _ hname
      exact ⟨hin, if_pos ⟨hin, hnew name hname⟩⟩

/-- A registration keeps the owners if what it records is written. -/
theorem register (h : ExecsOwned cfg s) (e : Env) (path device mount : CStr) :
    ExecsOwned cfg (s.call cfg (.register e path device mount)) ↔ ExportOk cfg s (.register e path device mount) := by
  have hr := register_execs cfg s.d e path device mount
  show ExecsOwned cfg ⟨(packageRegister cfg s.d e path device mount).2.2, fun name => if name ∈ _ ∧ _ then _ else _⟩ ↔
    ∀ p ∈ acceptedEntry s.d e path device mount, _
  generalize (packageRegister cfg s.d e path device mount).2.2 = d' at hr ⊢
  cases ha : acceptedEntry s.d e path device mount with
  | none =>
    rw [ha] at hr
    subst hr
    have hsame : (fun name => if name ∈ s.d.execs.names ∧ name ∉ s.d.execs.names then readId e path else s.owner name) =
        s.owner := funext fun name => if_neg fun hc => hc.2 hc.1
    rw [hsame]
    simpa using h
  | some p =>
    simp only [ha] at hr
    obtain ⟨hid, new, hentry, hnames, hnew, hall⟩ := hr
    simp only [Option.mem_some_iff, forall_eq', ← hall, hid]
    refine ⟨fun h' n hn => ?_, fun hok => h.added hentry ?_ hnew⟩
    · -- a name that is recorded is there
      have hwritten := (h'.written { p with exec := new } (by simp [hentry]) n hn).1
      rw [hnames] at hwritten
      exact (List.mem_filter.mp ((List.mem_append.mp hwritten).resolve_left (hnew n hn))).2
    · rw [hnames, List.filter_eq_self.mpr hok]

/-- A call that leaves the entries and the scripts alone. -/
theorem of_same {d : Daemon} (h : ExecsOwned cfg s) (hs : SameRegistry s.d d) : ExecsOwned cfg ⟨d, s.owner⟩ := by
  apply execsOwned_of_lists
  · rintro name id ⟨hname, howner⟩
    simp only [hs.entry]
    exact h.listed name id ⟨hs.execs ▸ hname, howner⟩
  · intro p hp name hname
    obtain ⟨hin, howner⟩ := h.written p (hs.entry ▸ hp) name hname
    exact ⟨hs.execs.symm ▸ hin, howner⟩

/-- One call. -/
theorem call_iff (h : ExecsOwned cfg s) (c : PackageCall) : ExecsOwned cfg (s.call cfg c) ↔ ExportOk cfg s c := by
  cases c with
  | register e path device mount => exact h.register e path device mount
  | kill entry => exact ⟨fun _ => trivial, fun _ => h.kill entry⟩
  | run ret id user => exact ⟨fun _ => trivial, fun _ => h.of_same (sameRegistry_run s.d ret id user)⟩
  | stop now runId => exact ⟨fun _ => trivial, fun _ => h.of_same (sameRegistry_stop s.d now runId)⟩
  | purgatoryCheck out => exact ⟨fun _ => trivial, fun _ => h.of_same (sameRegistry_purgatoryCheck s.d out)⟩

theorem init (icons desktops execs : Dir) : ExecsOwned cfg (.init icons desktops execs) := by
  apply execsOwned_of_lists
  · rintro name id ⟨-, howner⟩
    cases howner
  · exact fun p hp => absurd hp List.not_mem_nil

end ExecsOwned

/-- **Owners of scripts.** The runs in which every script has one owner all along are those in which every executable of a
package that is taken in can be written, or is in the directory already. -/
theorem execsOwned_iff (cfg : DBPConfig) (icons desktops execs : Dir) (calls : List PackageCall) :
    (∀ pre, pre <+: calls → ExecsOwned cfg (pre.foldl (ExecRun.call cfg) (.init icons desktops execs))) ↔
      Admissible (ExecRun.call cfg) (ExportOk cfg) (.init icons desktops execs) calls :=
  run_iff calls _ (fun _ c _ h => h.call_iff c) (.init icons desktops execs)

/-- In the daemon's own runs, too: their states are among those of their calls. -/
theorem run_execs (cfg : DBPConfig) (icons desktops execs : Dir) {ops : List DaemonOp}
    (h : Admissible (ExecRun.call cfg) (ExportOk cfg) (.init icons desktops execs)
      (runCalls cfg (Daemon.init icons desktops execs) ops)) {pre : List DaemonOp} (hpre : pre <+: ops) :
    ∃ s : ExecRun, s.d = Daemon.run cfg (Daemon.init icons desktops execs) pre ∧ ExecsOwned cfg s := by
  obtain ⟨post, rfl⟩ := hpre
  rw [runCalls_append] at h
  refine ⟨(runCalls cfg (Daemon.init icons desktops execs) pre).foldl (ExecRun.call cfg) (.init icons desktops execs),
    ?_, ?_⟩
  · rw [ExecRun.calls_d]
    exact run_calls cfg pre _
  · exact run_history (I := fun _ s => ExecsOwned cfg s) (.init icons desktops execs)
      (fun _ c s hs hc => (hs.call_iff c).mpr hc) _ (admissible_initial (List.prefix_append _ _) h)

/-- The archive of a package with a launcher for the executable `game`. -/
def demoGame (id : CStr) : List ArchiveFile := [demoMeta id, (lit "a.desktop", lit "[Package Entry]\nExec=game\n")]

/-- The first package has recorded a name without a script, the second has written it, and the removal of the first
deletes it. -/
theorem execsOwned_unreadable_template : ¬ ExecsOwned demoConfig
    ([.register (demoEnv [(lit "/m/a.dbp", demoGame (lit "a"))]) (lit "/m/a.dbp") (lit "/dev/sda1") (lit "/m"),
      .register { demoEnv [(lit "/m/b.dbp", demoGame (lit "b"))] with
        readFile := fun path => if path = lit "/etc/dbp/dbp_exec" then some (lit "dbp-run\n") else none }
        (lit "/m/b.dbp") (lit "/dev/sda1") (lit "/m")].foldl (ExecRun.call demoConfig) (.init [] [] [])) := by
  intro h
  have hkilled := h.killed
    ⟨lit "/m/a.dbp", lit "a", 1, lit "nodesk", lit "/dev/sda1", lit "/m", lit "a", [], [], [], [lit "game"]⟩
    (by decide) (lit "game") (by decide) (by decide)
  exact absurd hkilled.2 (by decide)

end Dbp
