/-
# The daemon's calls, step by step

A registration and a removal are calls of the daemon that hold its mutex; to
`dbp-desktopd` they are a file created or unlinked and a signal sent, one
after the other. Taken one after the other and undisturbed, the steps of
`DeskState` do to the directory of launchers what the calls do, and send the
same signals (`Shows.register`, `Shows.kill`).

Key definitions: `DeskPackage.ofEntry`, `registerOps`, `removeOps`, `Shows`.
Key theorems: `foldl_exported`, `run_registerOps`, `run_removeOps`, `Shows.register`, `Shows.kill`.
-/
import Dbp.Desktopd.Launchers

namespace Dbp

open CLib

/-! ### What a registration exports -/

theorem suffix_strAfterLast {c : Char} {t s : CStr} (hc : c ∉ t) (h : t <:+ s) : t <:+ strAfterLast c s := by
  obtain ⟨u, rfl⟩ := h
  have hall : ∀ a ∈ t.reverse, decide (a ≠ c) = true := by
    intro a ha
    simpa using ne_of_mem_of_not_mem (List.mem_reverse.mp ha) hc
  rw [strAfterLast, List.reverse_append, List.takeWhile_append_of_pos hall, List.reverse_append, List.reverse_reverse]
  exact List.suffix_append _ _

theorem exportedDesktops_suffix {id n : CStr} {files : List ArchiveFile} (h : n ∈ exportedDesktops id files) :
    lit ".desktop" <:+ n := by
  obtain ⟨f, hf, rfl⟩ := List.mem_map.mp h
  have hsel := (List.mem_filter.mp hf).2
  simp only [isDesktop, Bool.and_eq_true, beq_iff_eq] at hsel
  have hsuffix : lit ".desktop" <:+ f.1 := by
    rw [← hsel.2.2.2]
    exact List.drop_suffix _ _
  exact (suffix_strAfterLast (by decide) hsuffix).trans (List.suffix_append _ _)

/-- The package of an entry, registered from an archive. -/
def DeskPackage.ofEntry (p : PackageEntry) (files : List ArchiveFile) : DeskPackage where
  id := p.id
  desk := p.desktop == lit "desk"
  launchers := exportedDesktops p.id files
  named _ hn := metaPrefixOf_starts (List.mem_append_right _ hn)
  suffixed _ hn := exportedDesktops_suffix hn

/-- The signal of the daemon that `dbp-desktopd` takes for this one. -/
def LauncherSignal.toSignal (cfg : DBPConfig) : LauncherSignal → Signal
  | .newMeta n => .newMeta (cfg.desktopDirectory ++ lit "/" ++ n)
  | .removeMeta n => .removeMeta (cfg.desktopDirectory ++ lit "/" ++ n)

/-- Whether the file of a launcher can be opened. -/
abbrev Env.opensDesktop (cfg : DBPConfig) (e : Env) (n : CStr) : Bool := e.opens (cfg.desktopDirectory ++ lit "/" ++ n)

/-- The launchers that are extracted are those that can be opened. -/
theorem exportedDesktops_extracted (cfg : DBPConfig) (e : Env) (id path : CStr) :
    exportedDesktops id (extractedFiles cfg e id path) =
      (exportedDesktops id ((e.archive path).getD [])).filter (e.opensDesktop cfg) := by
  rw [exportedDesktops, exported, exported, extractedFiles, List.filter_map, List.filter_filter, List.filter_filter]
  congr 1
  refine List.filter_congr fun f _ => ?_
  unfold Env.opensFile Env.opensDesktop
  cases isIcon f.1 <;> simp [Bool.and_comm]

/-- The announcements of an extraction. -/
theorem signals_extract (cfg : DBPConfig) (e : Env) (path : CStr) (p : PackageEntry) (announce : Bool) (m : MetaState) :
    (packageMetaExtract cfg e path p announce m).signals = m.signals ++ if announce then
      (exportedDesktops p.id (extractedFiles cfg e p.id path)).map fun n => (LauncherSignal.newMeta n).toSignal cfg
      else [] := by
  have hfold : ∀ (ns : List CStr) (sigs : List Signal), ns.foldl (fun sigs n => if announce then
      sigs ++ [(LauncherSignal.newMeta n).toSignal cfg] else sigs) sigs =
        sigs ++ if announce then ns.map fun n => (LauncherSignal.newMeta n).toSignal cfg else [] := by
    intro ns
    induction ns with
    | nil => simp
    | cons n ns ih =>
      intro sigs
      rw [List.foldl_cons, ih]
      cases announce <;> simp
  rw [← hfold]
  refine extract_desktops cfg e path p announce m (·.signals) _ (fun _ _ => rfl) fun m fname data ho => ?_
  simp only [packageDesktopWrite, ho, Bool.not_true, Bool.false_eq_true, if_false]
  rfl

/-! ### Calls as steps -/

/-- The steps of a registration, where some launchers can be opened. -/
def registerOps (opens : CStr → Bool) (p : DeskPackage) : List DeskOp :=
  .register p :: p.launchers.flatMap (fun n => [.write (opens n), .announce]) ++ [.finish]

/-- The steps of a removal that finds the files `files`. -/
def removeOps (id : CStr) (files : List CStr) : List DeskOp :=
  .remove id :: files.flatMap (fun _ => [.unlink, .announce]) ++ [.finish]

/-- The queue after the signals of a call. -/
def DeskState.sent (s : DeskState) (desk : Bool) (sigs : List LauncherSignal) : List LauncherSignal :=
  if s.active && desk then s.queue ++ sigs else s.queue

theorem run_writes (opens : CStr → Bool) (p : DeskPackage) : ∀ (todo : List CStr) (s : DeskState),
    s.daemon = .adding p todo → s.run (todo.flatMap fun n => [.write (opens n), .announce]) = { s with
      launcherDir := (todo.filter opens).foldl addName s.launcherDir
      queue := s.sent p.desk ((todo.filter opens).map .newMeta)
      daemon := .adding p [] }
  | [], s, h => by
    simp only [List.flatMap_nil, List.filter_nil, List.foldl_nil, DeskState.sent, List.map_nil, List.append_nil, ite_self,
      ← h]
  | n :: todo, s, h => by
    rw [List.flatMap_cons, DeskState.run_append]
    cases ho : opens n with
    | false =>
      have hstep : s.run [.write false, .announce] = { s with daemon := .adding p todo } := by
        simp [DeskState.step, DeskState.write, h, DeskState.announce]
      rw [hstep, run_writes opens p todo _ rfl, List.filter_cons_of_neg (by simp [ho])]
      rfl
    | true =>
      have hstep : s.run [.write true, .announce] = { s with
          launcherDir := addName s.launcherDir n, queue := s.sent p.desk [.newMeta n], daemon := .adding p todo } := by
        simp only [List.foldl_cons, List.foldl_nil, DeskState.step, DeskState.write, h, DeskState.announce,
          DaemonPc.signal, DeskState.emit, DeskState.sent, if_true]
        cases p.desk <;> cases s.active <;> rfl
      rw [hstep, run_writes opens p todo _ rfl, List.filter_cons_of_pos ho]
      simp only [DeskState.sent, List.foldl_cons, List.map_cons]
      split_ifs <;> simp

theorem run_unlinks (p : DeskPackage) : ∀ (todo : List CStr) (s : DeskState), s.daemon = .removing p todo →
    s.run (todo.flatMap fun _ => [.unlink, .announce]) = { s with
      launcherDir := s.launcherDir.filter (· ∉ todo)
      queue := s.sent p.desk (todo.map .removeMeta)
      daemon := .removing p []
      main := todo.foldl (fun main n => main.unlinked n) s.main }
  | [], s, h => by
    simp only [List.flatMap_nil, List.foldl_nil, DeskState.sent, List.map_nil, List.append_nil, ite_self, ← h,
      List.not_mem_nil, not_false_eq_true, decide_true, List.filter_true]
  | n :: todo, s, h => by
    have hstep : s.run [.unlink, .announce] = { s with
        launcherDir := s.launcherDir.filter (· ≠ n), queue := s.sent p.desk [.removeMeta n], daemon := .removing p todo
        main := s.main.unlinked n } := by
      simp only [List.foldl_cons, List.foldl_nil, DeskState.step, DeskState.unlink, h, DeskState.announce, DaemonPc.signal,
        DeskState.emit, DeskState.sent]
      cases p.desk <;> cases s.active <;> rfl
    have hfilter : (s.launcherDir.filter (· ≠ n)).filter (· ∉ todo) = s.launcherDir.filter (· ∉ n :: todo) := by
      rw [List.filter_filter]
      apply List.filter_congr
      intro m _
      simp [Bool.and_comm]
    rw [List.flatMap_cons, DeskState.run_append, hstep, run_unlinks p todo _ rfl]
    simp only [DeskState.sent, List.foldl_cons, List.map_cons, hfilter]
    split_ifs <;> simp

/-- An undisturbed registration. -/
theorem run_registerOps (opens : CStr → Bool) {s : DeskState} {p : DeskPackage} (h : s.daemon = .idle)
    (hid : p.id ∉ s.packages.map (·.id)) : s.run (registerOps opens p) = { s with
      packages := s.packages ++ [p]
      launcherDir := (p.launchers.filter opens).foldl addName s.launcherDir
      queue := s.sent p.desk ((p.launchers.filter opens).map .newMeta) } := by
  have hreg : s.step (.register p) = { s with packages := s.packages ++ [p], daemon := .adding p p.launchers } := by
    simp only [DeskState.step, DeskState.register, h, hid, ↓reduceIte]
  rw [registerOps, List.cons_append, DeskState.run_cons, hreg, DeskState.run_append, run_writes opens p _ _ rfl]
  simp only [List.foldl_cons, List.foldl_nil, DeskState.step, DeskState.finish, DeskState.sent, ← h]

/-- An undisturbed removal. -/
theorem run_removeOps {s : DeskState} {p : DeskPackage} (h : s.daemon = .idle)
    (hfind : (s.packages.find? fun q => q.id == p.id) = some p) :
    s.run (removeOps p.id (s.filesOf p.id)) = { s with
      packages := s.packages.filter fun q => q.id ≠ p.id
      launcherDir := s.launcherDir.filter fun n => !(metaPrefixOf p.id).isPrefixOf n
      queue := s.sent p.desk ((s.filesOf p.id).map .removeMeta)
      main := (s.filesOf p.id).foldl (fun main n => main.unlinked n) s.main } := by
  have hrem : s.step (.remove p.id) = { s with daemon := .removing p (s.filesOf p.id) } := by
    simp only [DeskState.step, DeskState.remove, h, hfind]
  have hfilter : s.launcherDir.filter (· ∉ s.filesOf p.id) =
      s.launcherDir.filter fun n => !(metaPrefixOf p.id).isPrefixOf n := by
    apply List.filter_congr
    intro n hn
    have hmem : n ∈ s.filesOf p.id ↔ (metaPrefixOf p.id).isPrefixOf n = true := by
      rw [DeskState.filesOf, List.mem_filter, and_iff_right hn]
    simp only [hmem]
    cases (metaPrefixOf p.id).isPrefixOf n <;> rfl
  rw [removeOps, List.cons_append, DeskState.run_cons, hrem, DeskState.run_append, run_unlinks p _ _ rfl]
  simp only [List.foldl_cons, List.foldl_nil, DeskState.step, DeskState.finish, DeskState.sent, hfilter, ← h]

/-! ### The daemon's state -/

/-- The state shows the daemon between two calls, with what its packages were registered from. -/
structure Shows (a : Archives) (d : Daemon) (s : DeskState) : Prop where
  packages : s.packages = d.p.entry.map fun e => .ofEntry e (a e.id)
  launcherDir : s.launcherDir = d.desktops.names
  idle : s.daemon = .idle

/-- The signals of a call, of which an active subscription gets those about launchers. -/
structure Announces (cfg : DBPConfig) (s s' : DeskState) (sigs : List LauncherSignal) (signals : List Signal) : Prop where
  queue : s.active → s'.queue = s.queue ++ sigs
  signals : signals = sigs.map (·.toSignal cfg)

theorem DeskState.sent_active {s : DeskState} (h : s.active) (desk : Bool) (sigs : List LauncherSignal) :
    s.sent desk sigs = s.queue ++ if desk then sigs else [] := by
  unfold DeskState.sent
  cases desk <;> simp [h]

namespace Shows

variable {a : Archives} {d : Daemon} {s : DeskState} (h : Shows a d s)
include h

theorem ids : s.packages.map (·.id) = d.ids := by
  rw [h.packages, List.map_map]
  rfl

/-- **A registration in steps** leads to the directory and the packages of the call, and sends its signals. -/
theorem register (cfg : DBPConfig) (e : Env) (path : CStr) {strs : PackageStrings}
    (hc : packageAddCheck strs.id d.p.entry = none) :
    let files := (e.archive path).getD []
    let d' := packageExport cfg (packageAdd d e strs).2 e path d.p.entry.length
    let s' := s.run (registerOps (e.opensDesktop cfg) (.ofEntry (newEntry e d.p.entry strs) files))
    Shows (Function.update a strs.id files) d' s' ∧
      ∃ sigs signals, Announces cfg s s' sigs signals ∧ d'.signals = d.signals ++ .newPackage strs.id :: signals := by
  intro files d' s'
  have hnew := (packageAddCheck_none.mp hc).1
  have hadd := congrArg Prod.snd (@packageAdd_added d e strs hc)
  have hentry : (packageAdd d e strs).2.p.entry = d.p.entry ++ [newEntry e d.p.entry strs] := by rw [hadd]
  have hd' := packageExport_last cfg hentry e path
  have hs' : s' = _ := @run_registerOps (e.opensDesktop cfg) s (.ofEntry (newEntry e d.p.entry strs) files) h.idle
    (by rw [h.ids]; exact hnew)
  have hold : ∀ q ∈ d.p.entry, DeskPackage.ofEntry q (a q.id) = .ofEntry q (Function.update a strs.id files q.id) := by
    intro q hq
    have hne : q.id ≠ strs.id := fun he => hnew (he ▸ List.mem_map_of_mem hq)
    rw [Function.update_of_ne hne]
  have hflag : ((newEntry e d.p.entry strs).desktop == lit "desk") = dbpLoopDesktopDirectory (dropSlash strs.path) := by
    unfold newEntry
    cases dbpLoopDesktopDirectory (dropSlash strs.path) <;> rfl
  refine ⟨⟨?_, ?_, ?_⟩, if dbpLoopDesktopDirectory (dropSlash strs.path) then
    ((exportedDesktops strs.id files).filter (e.opensDesktop cfg)).map .newMeta else [], _, ⟨fun ha => ?_, rfl⟩, ?_⟩
  · rw [hs', h.packages, List.map_congr_left hold]
    simp only [d', hd', List.map_append, List.map_singleton, newEntry, Function.update_self]
    rfl
  · rw [hs', h.launcherDir]
    simp only [d', hd', names_desktops_extract, exportedDesktops_extracted, hadd]
    rfl
  · rw [hs']
    exact h.idle
  · rw [hs']
    simp only [DeskState.sent_active ha, DeskPackage.ofEntry, hflag]
    rfl
  · simp only [d', hd', signals_extract, exportedDesktops_extracted, hadd, hflag, List.append_assoc, List.singleton_append]
    split_ifs
    · rw [List.map_map]
      rfl
    · rfl

/-- **A removal in steps** leads to the directory and the packages of the call, and sends its signals. -/
theorem kill (cfg : DBPConfig) (hnd : d.ids.Nodup) {i : ℕ} {p : PackageEntry} (hp : d.p.entry[i]? = some p) :
    let d' := packageKill cfg d i
    let s' := s.run (removeOps p.id (s.filesOf p.id))
    Shows a d' s' ∧ ∃ sigs signals, Announces cfg s s' sigs signals ∧
      d'.signals = d.signals ++ signals ++ [.removePackage p.id] := by
  intro d' s'
  obtain ⟨pre, post, hsplit, rfl⟩ : ∃ pre post, d.p.entry = pre ++ p :: post ∧ pre.length = i := by
    obtain ⟨hi, rfl⟩ := List.getElem?_eq_some_iff.mp hp
    refine ⟨d.p.entry.take i, d.p.entry.drop (i + 1), ?_, by simp; omega⟩
    rw [List.getElem_cons_drop, List.take_append_drop]
  have hd' : d' = { packageKillFiles cfg d p with p := { d.p with entry := pre ++ post } } := by
    simp only [d', packageKill, hp, packageKillFiles]
    rw [hsplit, Find.eraseIdx_middle]
  obtain ⟨hother, -⟩ := Find.nodup_rest hsplit hnd
  have hfind : (s.packages.find? fun q => q.id == p.id) = some (.ofEntry p (a p.id)) := by
    have hpre : pre.find? (fun e => e.id == p.id) = none := by
      rw [List.find?_eq_none]
      intro e he
      simpa using hother e (List.mem_append_left _ he)
    rw [h.packages, List.find?_map, hsplit, List.find?_append]
    show ((pre.find? fun e => e.id == p.id).or _).map _ = _
    rw [hpre]
    simp [DeskPackage.ofEntry]
  have hs' : s' = _ := @run_removeOps s (.ofEntry p (a p.id)) h.idle hfind
  refine ⟨⟨?_, ?_, ?_⟩, if p.desktop == lit "desk" then (s.filesOf p.id).map .removeMeta else [], _, ⟨fun ha => ?_, rfl⟩, ?_⟩
  · have hrest : ((pre ++ post).filter fun e => e.id ≠ p.id) = pre ++ post := by
      rw [List.filter_eq_self]
      intro e he
      simpa using hother e he
    have hall : (d.p.entry.filter fun e => e.id ≠ p.id) = pre ++ post := by
      rw [hsplit, List.filter_append, List.filter_cons_of_neg (by simp), ← List.filter_append, hrest]
    rw [hs', hd', h.packages, List.filter_map]
    exact congrArg _ hall
  · rw [hs', hd', h.launcherDir]
    simp only [packageKillFiles, packageKillPrefix, Dir.names, List.filter_map]
    rfl
  · rw [hs']
    exact h.idle
  · rw [hs']
    exact DeskState.sent_active ha _ _
  · rw [hd']
    simp only [packageKillFiles, packageKillPrefix, DeskState.filesOf, h.launcherDir, List.append_assoc]
    by_cases hdesk : p.desktop = lit "desk"
    · simp [hdesk, LauncherSignal.toSignal, Function.comp_def]
    · simp [hdesk]

end Shows

end Dbp
