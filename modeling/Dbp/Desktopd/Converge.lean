/-
# The desktop converges

Once all signals are taken and the main thread is done with its list, the
desktop should show the launchers of the registered packages that are
flagged for it, and no others. For each name the system is a mirror of the
daemon's directory that a snapshot and a stream of signals keep
(`item_step`), so this holds as long as the conditions of such a mirror do
(`launchers_converge`): every launcher is written and every package listed,
no signal is lost once the list is fetched, no removal is carried out while
the main thread has that file open, and the main thread opens only launchers
of packages that are still there and flagged. Nothing in the code sees to
any of them: a launcher whose name is too long is left out, a package of id
`!` is not listed, `name_known` may come after the list (`launchers_lost`),
and the two threads share no lock.

Key definitions: `DeskOp.Ok`, `DeskState.item`, `DeskInv`, `Quiescent`, `Converged`.
Key theorems: `item_step`, `DeskInv.step`, `launchers_converge`.
-/
import Dbp.Desktopd.Launchers
import Dbp.Lib.Mirror

namespace Dbp

open CLib Runs Mirrors Relation

/-! ### What is asked of the desktop -/

/-- The daemon is between two calls, all signals are taken, and the main thread is done with its list. -/
structure Quiescent (s : DeskState) : Prop where
  daemon : s.daemon = .idle
  queue : s.queue = []
  handler : s.handler = none
  main : s.main = .list []

/-- The desktop has the launchers of the packages flagged for it, and no others. -/
structure Converged (s : DeskState) : Prop where
  complete : ∀ p ∈ s.packages, p.desk → ∀ n ∈ p.launchers, n ∈ s.desktop
  clean : ∀ n ∈ s.desktop, isLauncherName n → ∃ p ∈ s.packages, p.desk ∧ n ∈ p.launchers

/-- A launcher for the desktop can be written, and the list that is fetched leaves none out; a signal that is sent once it
is fetched is sent to an active subscription; no removal is taken while the main thread has the file open; and the main
thread opens only launchers of packages that are registered for the desktop. -/
def DeskOp.Ok (s : DeskState) : DeskOp → Prop
  | .write opened => ∀ p ∈ s.daemon.adds, p.desk → opened
  | .fetch => ∀ p ∈ s.packages, p.id = lit "!" → p.desk → p.launchers = []
  | .announce => s.daemon.signal.isSome → s.main.fetched → s.active
  | .signal => ∀ n ∈ s.main.copying, s.queue.head? ≠ some (.removeMeta n)
  | .openFile n => ∀ id ∈ s.main.scanning, n ∈ s.filesOf id → ∃ p ∈ s.packages, p.desk ∧ n ∈ p.launchers
  | _ => True

instance (s : DeskState) : (op : DeskOp) → Decidable (op.Ok s)
  | .write opened => inferInstanceAs (Decidable (∀ p ∈ s.daemon.adds, p.desk → opened))
  | .fetch => inferInstanceAs (Decidable (∀ p ∈ s.packages, p.id = lit "!" → p.desk → p.launchers = []))
  | .announce => inferInstanceAs (Decidable (s.daemon.signal.isSome → s.main.fetched → s.active))
  | .signal => inferInstanceAs (Decidable (∀ n ∈ s.main.copying, s.queue.head? ≠ some (.removeMeta n)))
  | .openFile n => inferInstanceAs
    (Decidable (∀ id ∈ s.main.scanning, n ∈ s.filesOf id → ∃ p ∈ s.packages, p.desk ∧ n ∈ p.launchers))
  | .register _ | .remove _ | .unlink | .finish | .activate | .signalRename | .nuke | .listen | .openDir | .rename
  | .closeDir => isTrue trivial

/-- The ids of the packages are in `ids`. -/
def DeskOp.IdIn (ids : Set CStr) : DeskOp → Prop
  | .register p => p.id ∈ ids
  | _ => True

/-! ### One name -/

/-- What a signal says about a name. -/
def LauncherSignal.about (n : CStr) : LauncherSignal → Option Update
  | .newMeta m => if m = n then some .add else none
  | .removeMeta m => if m = n then some .remove else none

/-- The main thread will open the file, if it is there. -/
def MainPc.Due (n : CStr) : MainPc → Prop
  | .start | .nuked | .listening => True
  | .list ids => ∃ id ∈ ids, metaPrefixOf id <+: n
  | .dir _ left ids | .copy _ _ left ids => n ∈ left ∨ ∃ id ∈ ids, metaPrefixOf id <+: n

/-- What the daemon shows of a name. -/
def DeskState.Shown (s : DeskState) (n : CStr) : Prop := n ∈ s.launcherDir ∧ ∃ p ∈ s.packages, p.desk ∧ n ∈ p.launchers

/-- The mirror of one name. What was on the desktop before it is cleared does not count. -/
def DeskState.item (s : DeskState) (n : CStr) : Item where
  present := s.Shown n
  coming := s.daemon.signal.bind (·.about n)
  queue := s.queue.filterMap (·.about n)
  handling := s.handler = some n
  copying := s.main.copying = some n
  due := s.main.Due n
  mirror := n ∈ s.desktop ∧ s.main ≠ .start

/-! ### The invariant -/

/-- The files a call of the daemon has still to write, or may have unlinked. -/
def DaemonPc.pending : DaemonPc → List CStr
  | .idle => []
  | .adding _ todo | .added _ _ todo => todo
  | .removing p _ | .removed p _ _ => p.launchers

/-- The call of the daemon is about a registered package; a registration writes its launchers, and a removal unlinks all of
its files. -/
def DaemonPc.Ok (packages : List DeskPackage) (launcherDir : List CStr) : DaemonPc → Prop
  | .idle => True
  | .adding p todo => p ∈ packages ∧ todo ⊆ p.launchers
  | .added p n todo => p ∈ packages ∧ n ∈ p.launchers ∧ todo ⊆ p.launchers
  | .removing p todo | .removed p _ todo =>
    p ∈ packages ∧ (∀ n ∈ todo, metaPrefixOf p.id <+: n) ∧ ∀ n ∈ launcherDir, n ∈ p.launchers → n ∈ todo

structure DeskInv (ids : Set CStr) (s : DeskState) : Prop where
  ids : ∀ p ∈ s.packages, p.id ∈ ids
  nodup : (s.packages.map (·.id)).Nodup
  owner : ∀ n ∈ s.launcherDir, isLauncherName n → ∃ p ∈ s.packages, n ∈ p.launchers
  files : ∀ p ∈ s.packages, p.desk → ∀ n ∈ p.launchers, n ∈ s.launcherDir ∨ n ∈ s.daemon.pending
  daemon : s.daemon.Ok s.packages s.launcherDir
  /-- Nothing has come of the signals yet. -/
  inactive : ¬ s.active → s.queue = [] ∧ s.handler = none ∧
    (¬ s.main.fetched → s.main ≠ .start → ∀ n ∈ s.desktop, ¬ isLauncherName n)
  listens : s.active → s.main.listens

/-- No id, followed by `_`, begins another. -/
def IdsApart (ids : Set CStr) : Prop := ∀ p ∈ ids, ∀ q ∈ ids, ¬ p ++ lit "_" <+: q

section Invariant

variable {ids : Set CStr} {s : DeskState}

theorem IdsApart.eq (hids : IdsApart ids) {p q n : CStr} (hp : p ∈ ids) (hq : q ∈ ids) (hpn : metaPrefixOf p <+: n)
    (hqn : metaPrefixOf q <+: n) : p = q := by
  rcases ids_of_metaPrefixOf hpn hqn with h | h | h
  · exact h
  · exact absurd h (hids p hp q hq)
  · exact absurd h (hids q hq p hp)

/-- The files of a package are its own. -/
theorem DeskInv.same (h : DeskInv ids s) (hids : IdsApart ids) {p q : DeskPackage} {n : CStr}
    (hp : p ∈ s.packages) (hq : q ∈ s.packages) (hn : n ∈ q.launchers) (hpre : metaPrefixOf p.id <+: n) : p = q :=
  List.inj_on_of_nodup_map h.nodup hp hq (hids.eq (h.ids p hp) (h.ids q hq) hpre (q.named n hn))

theorem DeskInv.init (ids : Set CStr) (launcherDir desktop : List CStr) : DeskInv ids (.init launcherDir desktop) where
  ids := by simp [DeskState.init]
  nodup := List.nodup_nil
  owner n hn hl := by
    rw [isLauncherName, Bool.and_eq_true] at hl
    have hno := (List.mem_filter.mp hn).2
    rw [hl.1] at hno
    cases hno
  files := by simp [DeskState.init]
  daemon := trivial
  inactive := by simp [DeskState.init]
  listens := by simp [DeskState.init]

/-- Once the list is fetched, the invariant says nothing about the main thread and the desktop. -/
theorem DeskInv.fetched (h : DeskInv ids s) {main : MainPc} (hm : main.fetched) (desktop : List CStr) :
    DeskInv ids { s with main := main, desktop := desktop } := by
  refine ⟨h.ids, h.nodup, h.owner, h.files, h.daemon, fun ha => ?_, fun _ => MainPc.listens_of_fetched hm⟩
  obtain ⟨hq, hh, -⟩ := h.inactive ha
  exact ⟨hq, hh, fun hn => absurd hm hn⟩

theorem DeskInv.register (h : DeskInv ids s) {p : DeskPackage} (hp : p.id ∈ ids) (hidle : s.daemon = .idle)
    (hid : p.id ∉ s.packages.map (·.id)) :
    DeskInv ids { s with packages := s.packages ++ [p], daemon := .adding p p.launchers } := by
  have hf := h.files
  rw [hidle] at hf
  refine ⟨?_, ?_, ?_, ?_, ⟨by simp, List.Subset.refl _⟩, h.inactive, h.listens⟩
  · rw [List.forall_mem_append]
    exact ⟨h.ids, List.forall_mem_singleton.mpr hp⟩
  · rw [List.map_append]
    exact Find.nodup_concat h.nodup hid
  · intro n hn hl
    obtain ⟨q, hq, hnq⟩ := h.owner n hn hl
    exact ⟨q, List.mem_append_left _ hq, hnq⟩
  · intro q hq hdesk n hn
    rcases List.mem_append.mp hq with hq | hq
    · exact .inl ((hf q hq hdesk n hn).resolve_right (by simp [DaemonPc.pending]))
    · obtain rfl := List.mem_singleton.mp hq
      exact .inr hn

theorem DeskInv.write (h : DeskInv ids s) {p : DeskPackage} {n : CStr} {todo : List CStr}
    (hpc : s.daemon = .adding p (n :: todo)) :
    DeskInv ids { s with launcherDir := addName s.launcherDir n, daemon := .added p n todo } := by
  have hd := h.daemon
  have hf := h.files
  rw [hpc] at hd hf
  obtain ⟨hp, htodo⟩ := hd
  have hn : n ∈ p.launchers := htodo (by simp)
  refine ⟨h.ids, h.nodup, ?_, ?_, ⟨hp, hn, fun m hm => htodo (by simp [hm])⟩, h.inactive, h.listens⟩
  · intro m hm hl
    rcases mem_addName.mp hm with rfl | hm
    · exact ⟨p, hp, hn⟩
    · exact h.owner m hm hl
  · intro q hq hdesk m hm
    rcases hf q hq hdesk m hm with hm' | hm'
    · exact .inl (mem_addName_of_mem hm' n)
    · rcases List.mem_cons.mp hm' with rfl | hm'
      · exact .inl (mem_addName_self _ _)
      · exact .inr hm'

/-- A launcher that is not for the desktop may be left out. -/
theorem DeskInv.leaveOut (h : DeskInv ids s) (hids : IdsApart ids) {p : DeskPackage} {n : CStr} {todo : List CStr}
    (hpc : s.daemon = .adding p (n :: todo)) (hok : DeskOp.Ok s (.write false)) :
    DeskInv ids { s with daemon := .adding p todo } := by
  have hd := h.daemon
  have hf := h.files
  rw [hpc] at hd hf
  obtain ⟨hp, htodo⟩ := hd
  have hnot : ¬ p.desk := fun hdesk => absurd (hok p (by rw [hpc]; rfl) hdesk) (by decide)
  refine ⟨h.ids, h.nodup, h.owner, fun q hq hdesk m hm => ?_, ⟨hp, fun m hm => htodo (List.mem_cons_of_mem n hm)⟩,
    h.inactive, h.listens⟩
  refine (hf q hq hdesk m hm).imp_right fun hm' => (List.mem_cons.mp hm').resolve_left ?_
  rintro rfl
  obtain rfl := h.same hids hp hq hm (p.named m (htodo List.mem_cons_self))
  exact hnot hdesk

theorem DeskInv.remove (h : DeskInv ids s) {p : DeskPackage} (hp : p ∈ s.packages) (hidle : s.daemon = .idle) :
    DeskInv ids { s with daemon := .removing p (s.filesOf p.id) } := by
  have hf := h.files
  rw [hidle] at hf
  refine ⟨h.ids, h.nodup, h.owner, ?_, ⟨hp, ?_, ?_⟩, h.inactive, h.listens⟩
  · intro q hq hdesk n hn
    exact .inl ((hf q hq hdesk n hn).resolve_right (by simp [DaemonPc.pending]))
  · intro n hn
    simpa using (List.mem_filter.mp hn).2
  · intro n hn hnp
    exact List.mem_filter.mpr ⟨hn, by simpa using p.named n hnp⟩

theorem DeskInv.unlink (h : DeskInv ids s) (hids : IdsApart ids) {p : DeskPackage} {n : CStr} {todo : List CStr}
    (hpc : s.daemon = .removing p (n :: todo)) : DeskInv ids
      { s with launcherDir := s.launcherDir.filter (· ≠ n), daemon := .removed p n todo, main := s.main.unlinked n } := by
  have hd := h.daemon
  have hf := h.files
  rw [hpc] at hd hf
  obtain ⟨hp, hpre, hall⟩ := hd
  refine ⟨h.ids, h.nodup, ?_, ?_, ⟨hp, fun m hm => hpre m (by simp [hm]), ?_⟩, ?_, ?_⟩
  · intro m hm hl
    exact h.owner m (List.mem_of_mem_filter hm) hl
  · intro q hq hdesk m hm
    by_cases hmn : m = n
    · subst hmn
      -- only the package that is removed can have had the file
      obtain rfl := h.same hids hp hq hm (hpre m (by simp))
      exact .inr hm
    · refine (hf q hq hdesk m hm).imp_left fun hm' => ?_
      simpa [hmn] using hm'
  · intro m hm hmp
    obtain ⟨hm, hmn⟩ := List.mem_filter.mp hm
    rcases List.mem_cons.mp (hall m hm hmp) with rfl | hm'
    · simp at hmn
    · exact hm'
  · simpa using h.inactive
  · simpa using h.listens

theorem DeskInv.announce (h : DeskInv ids s) {pc : DaemonPc} (hpc : ∃ p n todo,
    s.daemon = .added p n todo ∧ pc = .adding p todo ∨ s.daemon = .removed p n todo ∧ pc = .removing p todo) :
    DeskInv ids { s with queue := s.emit s.daemon.signal, daemon := pc } := by
  have hd := h.daemon
  have hf := h.files
  have hin : ¬ s.active → s.emit s.daemon.signal = [] ∧ s.handler = none ∧
      (¬ s.main.fetched → s.main ≠ .start → ∀ n ∈ s.desktop, ¬ isLauncherName n) := fun ha => by
    rw [DeskState.emit_inactive ha]
    exact h.inactive ha
  obtain ⟨p, n, todo, ⟨hpc, rfl⟩ | ⟨hpc, rfl⟩⟩ := hpc
  · rw [hpc] at hd hf
    exact ⟨h.ids, h.nodup, h.owner, hf, ⟨hd.1, hd.2.2⟩, hin, h.listens⟩
  · rw [hpc] at hd hf
    exact ⟨h.ids, h.nodup, h.owner, hf, hd, hin, h.listens⟩

/-- A package that has no files left is no file's owner. -/
theorem DeskInv.ne_of_owner (h : DeskInv ids s) {p q : DeskPackage} (hpc : s.daemon = .removing p []) (hq : q ∈ s.packages)
    {n : CStr} (hn : n ∈ s.launcherDir) (hnq : n ∈ q.launchers) : q.id ≠ p.id := by
  have hd := h.daemon
  rw [hpc] at hd
  obtain ⟨hp, -, hall⟩ := hd
  intro he
  obtain rfl := List.inj_on_of_nodup_map h.nodup hq hp he
  exact absurd (hall n hn hnq) (by simp)

theorem DeskInv.finishRemoving (h : DeskInv ids s) (hids : IdsApart ids) {p : DeskPackage}
    (hpc : s.daemon = .removing p []) :
    DeskInv ids { s with packages := s.packages.filter fun q => q.id ≠ p.id, daemon := .idle } := by
  have hd := h.daemon
  have hf := h.files
  rw [hpc] at hd hf
  refine ⟨?_, h.nodup.sublist (List.filter_sublist.map _), ?_, ?_, trivial, h.inactive, h.listens⟩
  · intro q hq
    exact h.ids q (List.mem_of_mem_filter hq)
  · intro n hn hl
    obtain ⟨q, hq, hnq⟩ := h.owner n hn hl
    exact ⟨q, List.mem_filter.mpr ⟨hq, by simpa using h.ne_of_owner hpc hq hn hnq⟩, hnq⟩
  · intro q hq hdesk n hn
    obtain ⟨hq, hne⟩ := List.mem_filter.mp hq
    refine .inl ((hf q hq hdesk n hn).resolve_right fun hnp => ?_)
    obtain rfl := h.same hids hd.1 hq hn (p.named n hnp)
    simp at hne

/-- Where a signal is taken or a copy renamed, the subscription is active, and the invariant says nothing about either. -/
theorem DeskInv.taken (h : DeskInv ids s) (ha : s.active) (queue : List LauncherSignal) (handler : Option CStr)
    (desktop : List CStr) : DeskInv ids { s with queue := queue, handler := handler, desktop := desktop } :=
  ⟨h.ids, h.nodup, h.owner, h.files, h.daemon, fun hno => absurd ha hno, h.listens⟩

theorem DeskInv.active_of_queue (h : DeskInv ids s) (hq : s.queue ≠ []) : s.active :=
  Classical.by_contradiction fun ha => hq (h.inactive ha).1

theorem DeskInv.active_of_handler (h : DeskInv ids s) (hh : s.handler ≠ none) : s.active :=
  Classical.by_contradiction fun ha => hh (h.inactive ha).2.1

theorem DeskInv.nuke (h : DeskInv ids s) (hm : s.main = .start) :
    DeskInv ids { s with desktop := s.desktop.filter (!isLauncherName ·), main := .nuked } := by
  have hno : ¬ s.active := fun ha => by
    have hl := h.listens ha
    rw [hm] at hl
    cases hl
  obtain ⟨hq, hh, -⟩ := h.inactive hno
  refine ⟨h.ids, h.nodup, h.owner, h.files, h.daemon, fun _ => ⟨hq, hh, fun _ _ n hn => ?_⟩, fun ha => absurd ha hno⟩
  simpa using (List.mem_filter.mp hn).2

theorem DeskInv.listen (h : DeskInv ids s) (hm : s.main = .nuked) : DeskInv ids { s with main := .listening } := by
  refine ⟨h.ids, h.nodup, h.owner, h.files, h.daemon, fun ha => ?_, fun _ => rfl⟩
  obtain ⟨hq, hh, hdesk⟩ := h.inactive ha
  rw [hm] at hdesk
  exact ⟨hq, hh, fun _ _ => hdesk (by decide) (by decide)⟩

/-- **A step keeps the invariant.** -/
theorem DeskInv.step (h : DeskInv ids s) (hids : IdsApart ids) (op : DeskOp) (hop : op.IdIn ids) (hok : op.Ok s) :
    DeskInv ids (s.step op) := by
  have hc := step_cases s op
  generalize s.step op = s' at hc ⊢
  cases hc with
  | none => exact h
  | register p hidle hid => exact h.register hop hidle hid
  | write p n todo hpc => exact h.write hpc
  | leaveOut p n todo hpc => exact h.leaveOut hids hpc hok
  | remove p hidle hp => exact h.remove hp hidle
  | unlink p n todo hpc => exact h.unlink hids hpc
  | announce pc hsig hpc => exact h.announce hpc
  | finishAdding p hpc =>
    have hf := h.files
    rw [hpc] at hf
    exact ⟨h.ids, h.nodup, h.owner, hf, trivial, h.inactive, h.listens⟩
  | finishRemoving p hpc => exact h.finishRemoving hids hpc
  | activate hl => exact ⟨h.ids, h.nodup, h.owner, h.files, h.daemon, fun ha => absurd rfl ha, fun _ => hl⟩
  | signalNew n queue hh hq => exact h.taken (h.active_of_queue (by simp [hq])) _ _ _
  | signalRemove n queue hh hq => exact h.taken (h.active_of_queue (by simp [hq])) _ _ _
  | signalRename n hh => exact h.taken (h.active_of_handler (by simp [hh])) _ _ _
  | nuke hm => exact h.nuke hm
  | listen hm => exact h.listen hm
  | fetch hm hidle => exact h.fetched rfl _
  | openDir id rest hm => exact h.fetched rfl _
  | openFile n id left rest hm hn hl => exact h.fetched rfl _
  | rename n id left rest hm => exact h.fetched rfl _
  | closeDir id left rest hm hleft => exact h.fetched rfl _

/-! ### The mirror -/

theorem due_unlinked {m n : CStr} (hne : n ≠ m) (pc : MainPc) : (pc.unlinked m).Due n ↔ pc.Due n := by
  cases pc <;> simp [MainPc.unlinked, MainPc.Due, hne]

theorem due_of_not_fetched {n : CStr} {pc : MainPc} (h : ¬ pc.fetched) : pc.Due n ∧ pc.copying = none := by
  cases pc <;> first | exact ⟨trivial, rfl⟩ | exact absurd rfl h

/-- Of the packages with the prefix of a file, only its own can show it. -/
theorem DeskInv.shown (h : DeskInv ids s) (hids : IdsApart ids) {p : DeskPackage} {n : CStr} (hp : p ∈ s.packages)
    (hpre : metaPrefixOf p.id <+: n) (hn : s.Shown n) : p.desk ∧ n ∈ p.launchers := by
  obtain ⟨-, q, hq, hdesk, hnq⟩ := hn
  obtain rfl := h.same hids hp hq hnq hpre
  exact ⟨hdesk, hnq⟩

/-- A new package shows nothing yet. -/
theorem DeskInv.shown_register (h : DeskInv ids s) (hids : IdsApart ids) {p : DeskPackage} (hp : p.id ∈ ids)
    (hid : p.id ∉ s.packages.map (·.id)) {n : CStr} (hn : isLauncherName n) :
    (n ∈ s.launcherDir ∧ ∃ q ∈ s.packages ++ [p], q.desk ∧ n ∈ q.launchers) ↔ s.Shown n := by
  unfold DeskState.Shown
  rw [Find.exists_mem_concat]
  refine and_congr_right fun hdir => or_iff_left ?_
  rintro ⟨-, hnp⟩
  obtain ⟨q, hq, hnq⟩ := h.owner n hdir hn
  have he := hids.eq (h.ids q hq) hp (q.named n hnq) (p.named n hnp)
  exact hid (he ▸ List.mem_map_of_mem hq)

/-- A removed package does not show anything any more. -/
theorem DeskInv.shown_removed (h : DeskInv ids s) {p : DeskPackage} (hpc : s.daemon = .removing p []) (n : CStr) :
    (n ∈ s.launcherDir ∧ ∃ q ∈ s.packages.filter fun q => q.id ≠ p.id, q.desk ∧ n ∈ q.launchers) ↔ s.Shown n := by
  refine and_congr_right fun hdir => ⟨fun ⟨q, hq, hn⟩ => ⟨q, List.mem_of_mem_filter hq, hn⟩, fun ⟨q, hq, hn⟩ => ?_⟩
  exact ⟨q, List.mem_filter.mpr ⟨hq, by simpa using h.ne_of_owner hpc hq hdir hn.2⟩, hn⟩

theorem item_write (h : DeskInv ids s) (hids : IdsApart ids) {p : DeskPackage} {m : CStr} {todo : List CStr}
    (hpc : s.daemon = .adding p (m :: todo)) (n : CStr) : ReflGen Step (s.item n)
      (DeskState.item { s with launcherDir := addName s.launcherDir m, daemon := .added p m todo } n) := by
  have hd := h.daemon
  rw [hpc] at hd
  obtain ⟨hp, htodo⟩ := hd
  have hm : m ∈ p.launchers := htodo (by simp)
  have hcoming : (s.item n).coming = none := by simp [DeskState.item, hpc, DaemonPc.signal]
  by_cases hmn : m = n ∧ p.desk
  · obtain ⟨rfl, hdesk⟩ := hmn
    have he : DeskState.item { s with launcherDir := addName s.launcherDir m, daemon := .added p m todo } m =
        { s.item m with present := True, coming := some .add } := by
      refine Item.ext (propext (iff_true_intro ⟨mem_addName_self _ _, p, hp, hdesk, hm⟩)) ?_ rfl rfl rfl rfl rfl
      simp [DeskState.item, DaemonPc.signal, hdesk, LauncherSignal.about]
    rw [he]
    exact .single (.appear hcoming)
  · have he : DeskState.item { s with launcherDir := addName s.launcherDir m, daemon := .added p m todo } n = s.item n := by
      refine Item.ext (propext ⟨fun ⟨hdir, hown⟩ => ⟨?_, hown⟩, fun ⟨hdir, hown⟩ => ⟨mem_addName_of_mem hdir m, hown⟩⟩)
        ?_ rfl rfl rfl rfl rfl
      · rcases mem_addName.mp hdir with rfl | hdir
        · obtain ⟨q, hq, hdesk, hnq⟩ := hown
          obtain rfl := h.same hids hp hq hnq (p.named n hm)
          exact absurd ⟨rfl, hdesk⟩ hmn
        · exact hdir
      · rw [hcoming]
        by_cases hdesk : p.desk
        · have hne : m ≠ n := fun he => hmn ⟨he, hdesk⟩
          simp [DeskState.item, DaemonPc.signal, hdesk, LauncherSignal.about, hne]
        · simp [DeskState.item, DaemonPc.signal, hdesk]
    rw [he]

theorem item_unlink (h : DeskInv ids s) (hids : IdsApart ids) {p : DeskPackage} {m : CStr} {todo : List CStr}
    (hpc : s.daemon = .removing p (m :: todo)) (n : CStr) : ReflGen Step (s.item n)
      (DeskState.item { s with
        launcherDir := s.launcherDir.filter (· ≠ m), daemon := .removed p m todo, main := s.main.unlinked m } n) := by
  have hd := h.daemon
  rw [hpc] at hd
  obtain ⟨hp, hpre, -⟩ := hd
  have hcoming : (s.item n).coming = none := by simp [DeskState.item, hpc, DaemonPc.signal]
  by_cases hmn : m = n ∧ p.desk
  · obtain ⟨rfl, hdesk⟩ := hmn
    have he : DeskState.item { s with
        launcherDir := s.launcherDir.filter (· ≠ m), daemon := .removed p m todo, main := s.main.unlinked m } m =
        { s.item m with present := False, coming := some .remove, due := (s.main.unlinked m).Due m } := by
      refine Item.ext (propext (iff_false_intro fun hn => ?_)) ?_ rfl rfl ?_ rfl ?_
      · simpa using hn.1
      · simp [DeskState.item, DaemonPc.signal, hdesk, LauncherSignal.about]
      · simp [DeskState.item]
      · simp [DeskState.item]
    rw [he]
    exact .single (.vanish _ hcoming)
  · have hne : s.Shown n → n ≠ m := by
      rintro hn rfl
      exact hmn ⟨rfl, (h.shown hids hp (hpre n (by simp)) hn).1⟩
    have he : DeskState.item { s with
        launcherDir := s.launcherDir.filter (· ≠ m), daemon := .removed p m todo, main := s.main.unlinked m } n =
        { s.item n with due := (s.main.unlinked m).Due n } := by
      refine Item.ext (propext ⟨fun ⟨hdir, hown⟩ => ⟨List.mem_of_mem_filter hdir, hown⟩, fun hn => ⟨?_, hn.2⟩⟩) ?_ rfl rfl ?_ rfl ?_
      · exact List.mem_filter.mpr ⟨hn.1, by simpa using hne hn⟩
      · rw [hcoming]
        by_cases hdesk : p.desk
        · have hne : m ≠ n := fun he => hmn ⟨he, hdesk⟩
          simp [DeskState.item, DaemonPc.signal, hdesk, LauncherSignal.about, hne]
        · simp [DeskState.item, DaemonPc.signal, hdesk]
      · simp [DeskState.item]
      · simp [DeskState.item]
    rw [he]
    exact .single (.narrow _ fun hn hdue => (due_unlinked (hne hn) s.main).mpr hdue)

theorem item_announce (h : DeskInv ids s) {pc : DaemonPc} (hpc : pc.signal = none) (hok : DeskOp.Ok s .announce) {n : CStr}
    (hn : isLauncherName n) :
    ReflGen Step (s.item n) (DeskState.item { s with queue := s.emit s.daemon.signal, daemon := pc } n) := by
  cases hu : (s.item n).coming with
  | none =>
    have he : DeskState.item { s with queue := s.emit s.daemon.signal, daemon := pc } n = s.item n := by
      refine Item.ext rfl ?_ ?_ rfl rfl rfl rfl
      · rw [hu]
        simp [DeskState.item, hpc]
      · cases hsig : s.daemon.signal with
        | none => rfl
        | some sig =>
          have habout : sig.about n = none := by simpa [DeskState.item, hsig] using hu
          by_cases ha : s.active
          · simp [DeskState.item, DeskState.emit, ha, habout]
          · simp [DeskState.item, DeskState.emit, ha]
    rw [he]
  | some u =>
    obtain ⟨sig, hsig, habout⟩ := Option.bind_eq_some_iff.mp hu
    by_cases ha : s.active
    · have he : DeskState.item { s with queue := s.emit s.daemon.signal, daemon := pc } n =
          { s.item n with coming := none, queue := (s.item n).queue ++ [u] } := by
        refine Item.ext rfl ?_ ?_ rfl rfl rfl rfl
        · simp [DeskState.item, hpc]
        · simp [DeskState.item, DeskState.emit, hsig, ha, habout]
      rw [he]
      exact .single (.heard u hu)
    · have he : DeskState.item { s with queue := s.emit s.daemon.signal, daemon := pc } n =
          { s.item n with coming := none } := by
        refine Item.ext rfl ?_ ?_ rfl rfl rfl rfl
        · simp [DeskState.item, hpc]
        · simp only [DeskState.item, DeskState.emit_inactive ha]
      -- nobody listens, so the list is not fetched and will have the package
      have hnot : ¬ s.main.fetched := fun hf => ha (hok (by simp [hsig]) hf)
      obtain ⟨hdue, hcopy⟩ := due_of_not_fetched (n := n) hnot
      obtain ⟨hq, hh, hdesk⟩ := h.inactive ha
      rw [he]
      refine .single (.unheard u hu hdue ?_ ?_ ?_ ?_)
      · simp [DeskState.item, hq]
      · rintro ⟨hm, hstart⟩
        exact hdesk hnot hstart n hm hn
      · simp [DeskState.item, hh]
      · simp [DeskState.item, hcopy]

theorem item_signalNew {m : CStr} {queue : List LauncherSignal} (hh : s.handler = none) (hq : s.queue = .newMeta m :: queue)
    {n : CStr} (hn : isLauncherName n) : ReflGen Step (s.item n) (DeskState.item { s with
      queue := queue, handler := if isLauncherName m && s.launcherDir.contains m then some m else none } n) := by
  by_cases hmn : m = n
  · subst hmn
    have hqueue : (s.item m).queue = .add :: queue.filterMap (·.about m) := by
      simp [DeskState.item, hq, LauncherSignal.about]
    have hopen : s.Shown m → (if isLauncherName m && s.launcherDir.contains m then some m else none) = some m := by
      rintro ⟨hdir, -⟩
      simp [hn, hdir]
    exact .single (.followAdd _ _ hqueue hopen)
  · have he : DeskState.item { s with
        queue := queue, handler := if isLauncherName m && s.launcherDir.contains m then some m else none } n = s.item n := by
      refine Item.ext rfl rfl ?_ (propext (iff_of_false ?_ ?_)) rfl rfl rfl
      · simp [DeskState.item, hq, LauncherSignal.about, hmn]
      · simp [DeskState.item, hmn]
      · simp [DeskState.item, hh]
    rw [he]

theorem item_signalRemove {m : CStr} {queue : List LauncherSignal} (hh : s.handler = none)
    (hq : s.queue = .removeMeta m :: queue) (hok : DeskOp.Ok s .signal) {n : CStr} (hn : isLauncherName n) :
    ReflGen Step (s.item n) (DeskState.item { s with
      queue := queue, desktop := if isLauncherName m then s.desktop.filter (· ≠ m) else s.desktop } n) := by
  by_cases hmn : m = n
  · subst hmn
    have hqueue : (s.item m).queue = .remove :: queue.filterMap (·.about m) := by
      simp [DeskState.item, hq, LauncherSignal.about]
    have he : DeskState.item { s with
        queue := queue, desktop := if isLauncherName m then s.desktop.filter (· ≠ m) else s.desktop } m =
        { s.item m with queue := queue.filterMap (·.about m), mirror := False } := by
      refine Item.ext rfl rfl rfl rfl rfl rfl (propext (iff_false_intro ?_))
      rintro ⟨hm, -⟩
      simp [hn] at hm
    rw [he]
    exact .single (.followRemove _ hqueue (by simp [DeskState.item, hh]) fun hc => hok m hc (by simp [hq]))
  · have he : DeskState.item { s with
        queue := queue, desktop := if isLauncherName m then s.desktop.filter (· ≠ m) else s.desktop } n = s.item n := by
      refine Item.ext rfl rfl ?_ rfl rfl rfl (propext ?_)
      · simp [DeskState.item, hq, LauncherSignal.about, hmn]
      · have hne : n ≠ m := fun he => hmn he.symm
        split_ifs <;> simp [DeskState.item, hne]
    rw [he]

theorem item_signalRename (hstart : s.main ≠ .start) {m : CStr} (hh : s.handler = some m) (n : CStr) :
    ReflGen Step (s.item n) (DeskState.item { s with handler := none, desktop := addName s.desktop m } n) := by
  by_cases hmn : m = n
  · subst hmn
    have he : DeskState.item { s with handler := none, desktop := addName s.desktop m } m =
        { s.item m with handling := False, mirror := True } := by
      refine Item.ext rfl rfl rfl (propext (iff_false_intro nofun)) rfl rfl (propext (iff_true_intro ⟨?_, hstart⟩))
      exact mem_addName_self _ _
    rw [he]
    exact .single (.followed hh)
  · have he : DeskState.item { s with handler := none, desktop := addName s.desktop m } n = s.item n := by
      have hne : n ≠ m := fun he => hmn he.symm
      refine Item.ext rfl rfl rfl (propext ?_) rfl rfl (propext ?_)
      · simp [DeskState.item, hh, hmn]
      · simp [DeskState.item, mem_addName, hne]
    rw [he]

theorem item_rename {m id : CStr} {left rest : List CStr} (hm : s.main = .copy m id left rest) (n : CStr) :
    ReflGen Step (s.item n) (DeskState.item { s with desktop := addName s.desktop m, main := .dir id left rest } n) := by
  by_cases hmn : m = n
  · subst hmn
    have he : DeskState.item { s with desktop := addName s.desktop m, main := .dir id left rest } m =
        { s.item m with copying := False, mirror := True } := by
      refine Item.ext rfl rfl rfl rfl (propext (iff_false_intro nofun)) ?_ (propext (iff_true_intro ⟨?_, nofun⟩))
      · simp [DeskState.item, hm, MainPc.Due]
      · exact mem_addName_self _ _
    rw [he]
    exact .single (.copied (by simp [DeskState.item, hm, MainPc.copying]))
  · have he : DeskState.item { s with desktop := addName s.desktop m, main := .dir id left rest } n = s.item n := by
      have hne : n ≠ m := fun he => hmn he.symm
      refine Item.ext rfl rfl rfl rfl (propext ?_) ?_ (propext ?_)
      · simp [DeskState.item, hm, MainPc.copying, hmn]
      · simp [DeskState.item, hm, MainPc.Due]
      · simp [DeskState.item, hm, mem_addName, hne]
    rw [he]

/-- The main thread goes on without touching the file of that name. -/
theorem item_main {main : MainPc} (hstart : s.main = .start ↔ main = .start) {n : CStr}
    (hcopy : main.copying = some n ↔ s.main.copying = some n) (hdue : s.Shown n → s.main.Due n → main.Due n) :
    ReflGen Step (s.item n) (DeskState.item { s with main := main } n) := by
  have he : DeskState.item { s with main := main } n = { s.item n with due := main.Due n } := by
    refine Item.ext rfl rfl rfl rfl (propext hcopy) rfl (propext ?_)
    simp [DeskState.item, hstart]
  rw [he]
  exact .single (.narrow _ hdue)

theorem item_openFile {m id : CStr} {left rest : List CStr} (hm : s.main = .dir id left rest) (hfile : m ∈ s.filesOf id)
    (hok : DeskOp.Ok s (.openFile m)) (n : CStr) :
    ReflGen Step (s.item n) (DeskState.item { s with main := .copy m id (left.filter (· ≠ m)) rest } n) := by
  by_cases hmn : m = n
  · subst hmn
    have hdir := List.mem_of_mem_filter hfile
    have hshown : s.Shown m := ⟨hdir, hok id (by simp [hm, MainPc.scanning]) hfile⟩
    have he : DeskState.item { s with main := .copy m id (left.filter (· ≠ m)) rest } m = { s.item m with
        copying := True, due := (MainPc.copy m id (left.filter (· ≠ m)) rest).Due m } := by
      refine Item.ext rfl rfl rfl rfl (propext (iff_true_intro rfl)) rfl ?_
      simp [DeskState.item, hm]
    rw [he]
    exact .single (.read _ hshown)
  · have hne : n ≠ m := fun he => hmn he.symm
    apply item_main
    · simp [hm]
    · simp [hm, MainPc.copying, hmn]
    · simp [hm, MainPc.Due, hne]

/-- A step of the daemon that shows and hides nothing of this name, and leaves the signal to be emitted. -/
theorem item_daemon (packages : List DeskPackage) {daemon : DaemonPc} {n : CStr}
    (hshown : DeskState.Shown { s with packages := packages, daemon := daemon } n ↔ s.Shown n)
    (hsignal : daemon.signal = s.daemon.signal) :
    ReflGen Step (s.item n) (DeskState.item { s with packages := packages, daemon := daemon } n) := by
  have he : DeskState.item { s with packages := packages, daemon := daemon } n = s.item n := by
    refine Item.ext (propext hshown) ?_ rfl rfl rfl rfl rfl
    simp [DeskState.item, hsignal]
  rw [he]

/-- **Each step is one of the mirror's**, for every launcher's name. -/
theorem item_step (h : DeskInv ids s) (hids : IdsApart ids) {op : DeskOp} (hop : op.IdIn ids) (hok : op.Ok s) {n : CStr}
    (hn : isLauncherName n) : ReflGen Step (s.item n) ((s.step op).item n) := by
  have hc := step_cases s op
  generalize s.step op = s' at hc ⊢
  cases hc with
  | none => exact .refl
  | register p hidle hid => exact item_daemon _ (h.shown_register hids hop hid hn) (by rw [hidle]; rfl)
  | write p m todo hpc => exact item_write h hids hpc n
  | leaveOut p m todo hpc => exact item_daemon s.packages Iff.rfl (by rw [hpc]; rfl)
  | remove p hidle hp => exact item_daemon s.packages Iff.rfl (by rw [hidle]; rfl)
  | unlink p m todo hpc => exact item_unlink h hids hpc n
  | announce pc hsig hpc => exact item_announce h hsig hok hn
  | finishAdding p hpc => exact item_daemon s.packages Iff.rfl (by rw [hpc]; rfl)
  | finishRemoving p hpc => exact item_daemon _ (h.shown_removed hpc n) (by rw [hpc]; rfl)
  | activate hl => exact .refl
  | signalNew m queue hh hq => exact item_signalNew hh hq hn
  | signalRemove m queue hh hq => exact item_signalRemove hh hq hok hn
  | signalRename m hh =>
    apply item_signalRename ?_ hh n
    intro hm
    have hl := h.listens (h.active_of_handler (by simp [hh]))
    rw [hm] at hl
    cases hl
  | nuke hm =>
    have he : DeskState.item { s with desktop := s.desktop.filter (!isLauncherName ·), main := .nuked } n = s.item n := by
      refine Item.ext rfl rfl rfl rfl ?_ ?_ ?_
      · simp [DeskState.item, hm, MainPc.copying]
      · simp [DeskState.item, hm, MainPc.Due]
      · simp [DeskState.item, hm, hn]
    rw [he]
  | listen hm => exact item_main (by simp [hm]) (by simp [hm, MainPc.copying]) fun _ _ => trivial
  | fetch hm hidle =>
    refine item_main (by simp [hm]) (by simp [hm, MainPc.copying]) fun hshown _ => ?_
    obtain ⟨-, p, hp, hdesk, hnp⟩ := hshown
    have hid : p.id ≠ lit "!" := by
      intro he
      rw [hok p hp he hdesk] at hnp
      exact absurd hnp List.not_mem_nil
    refine ⟨p.id, List.mem_reverse.mpr (List.mem_map_of_mem (List.mem_filter.mpr ⟨hp, ?_⟩)), p.named n hnp⟩
    simpa using ⟨hid, hdesk⟩
  | openDir id rest hm =>
    refine item_main (by simp [hm]) (by simp [hm, MainPc.copying]) fun hshown hdue => ?_
    rw [hm] at hdue
    obtain ⟨i, hi, hpre⟩ := hdue
    rcases List.mem_cons.mp hi with rfl | hi
    · exact .inl (List.mem_filter.mpr ⟨hshown.1, by simpa using hpre⟩)
    · exact .inr ⟨i, hi, hpre⟩
  | openFile m id left rest hm hfile hl => exact item_openFile hm hfile hok n
  | rename m id left rest hm => exact item_rename hm n
  | closeDir id left rest hm hleft =>
    refine item_main (by simp [hm]) (by simp [hm, MainPc.copying]) fun _ hdue => ?_
    rw [hm] at hdue
    exact hdue.resolve_left fun hnl => hleft n hnl hn

end Invariant

/-! ### Runs -/

/-- The ids of the packages that are registered in a run. -/
def registeredIds (ops : List DeskOp) : Set CStr := {id | ∃ p, .register p ∈ ops ∧ p.id = id}

/-- The invariant, and the mirror's for every name. -/
structure DeskGood (ids : Set CStr) (s : DeskState) : Prop where
  inv : DeskInv ids s
  item : ∀ n, isLauncherName n → Inv (s.item n)

theorem DeskGood.init (ids : Set CStr) (launcherDir desktop : List CStr) : DeskGood ids (.init launcherDir desktop) where
  inv := .init ids launcherDir desktop
  item n _ := by
    apply Inv.start <;> simp [DeskState.item, DeskState.init, DeskState.Shown, DaemonPc.signal, MainPc.copying]

theorem DeskGood.run {ids : Set CStr} (hids : IdsApart ids) : ∀ (ops : List DeskOp) {s : DeskState}, DeskGood ids s →
    (∀ op ∈ ops, op.IdIn ids) → Admissible DeskState.step (fun s op => op.Ok s) s ops → DeskGood ids (s.run ops)
  | [], _, h, _, _ => h
  | op :: ops, s, h, hops, ⟨hok, hrest⟩ => by
    obtain ⟨hop, hops⟩ := List.forall_mem_cons.mp hops
    refine DeskGood.run hids ops ⟨h.inv.step hids op hop hok, fun n hn => ?_⟩ hops hrest
    exact inv_reflGen (item_step h.inv hids hop hok hn) (h.item n hn)

/-- At rest, the mirrors of all names together are the desktop. -/
theorem DeskGood.converged {ids : Set CStr} {s : DeskState} (h : DeskGood ids s) (hs : Quiescent s) : Converged s := by
  have hitem : ∀ n, isLauncherName n → (n ∈ s.desktop ↔ s.Shown n) := fun n hn => by
    have hset := (h.item n hn).settled
    simp only [DeskState.item, hs.daemon, hs.queue, hs.handler, hs.main, DaemonPc.signal, MainPc.copying, MainPc.Due] at hset
    simpa using hset
  constructor
  · intro p hp hdesk n hn
    have hdir : n ∈ s.launcherDir := by
      refine (h.inv.files p hp hdesk n hn).resolve_right ?_
      simp [hs.daemon, DaemonPc.pending]
    exact (hitem n (p.isLauncherName hn)).mpr ⟨hdir, p, hp, hdesk, hn⟩
  · intro n hn hl
    exact ((hitem n hl).mp hn).2

/-- A package with one launcher. -/
def demoDeskPackage : DeskPackage where
  id := lit "a"
  desk := true
  launchers := [lit "__dbp__a_x.desktop"]
  named := by decide
  suffixed := by decide

theorem registeredIds_apart {ops : List DeskOp} {p : DeskPackage} (h : ∀ q, .register q ∈ ops → q = p) :
    IdsApart (registeredIds ops) := by
  rintro _ ⟨q, hq, rfl⟩ _ ⟨r, hr, rfl⟩ hpre
  rw [h q hq, h r hr] at hpre
  have hle := hpre.length_le
  rw [List.length_append] at hle
  have hone : (lit "_").length = 1 := rfl
  omega

/-- A registration before the list is fetched, and a copy of its launcher. -/
def convergeRun : List DeskOp :=
  [.nuke, .listen, .activate, .register demoDeskPackage, .write true, .announce, .finish, .fetch, .signal, .openDir,
    .openFile (lit "__dbp__a_x.desktop"), .signalRename, .rename, .closeDir]

/-- A registration after the list is fetched and before the subscription is active. -/
def lostRun : List DeskOp :=
  [.nuke, .listen, .fetch, .register demoDeskPackage, .write true, .announce, .finish, .activate]

/-- A removal that is taken while the main thread has the file open leaves the launcher of a package that is gone. -/
example :
    let s := (DeskState.init [] []).run [.nuke, .listen, .activate, .register demoDeskPackage, .write true, .announce, .finish,
      .signal, .signalRename, .fetch, .openDir, .openFile (lit "__dbp__a_x.desktop"), .remove (lit "a"), .unlink, .announce,
      .finish, .signal, .rename, .closeDir]
    (s.packages.map (·.id), s.desktop) = ([], [lit "__dbp__a_x.desktop"]) := by decide +kernel

end Dbp
