/-
# The daemon's loop

`main` of `dbpd/daemon.c`: a turn asks the mount watch for what has changed,
makes a call on the registry for each change, in order, and checks
purgatory. A mount that is gone comes as a change with the device alone, and
`package_release_mount` releases every package of that device. So the mount
watch, the dispatch and the registry release the packages of the mounts that
are gone, and of no other, if no mount that is gone shares its device with
one that is there, nor its mount point with one that is tracked after it or
new (`unmount_releases`); a device that is mounted twice takes the packages
of both mounts with it when one is gone (`unmount_releases_twice`).

Key definitions: `changeOp`, `mainTurn`, `Releasable`, `ReleasesExactly`.
Key theorems: `entries_releaseMount`, `diff_parts`, `turn_releases`, `unmount_releases`.
-/
import Dbp.Daemon.MountTracking
import Dbp.Daemon.RegistryIds

namespace Dbp

open CLib Sweep Find Tracker Runs

/-! ### The loop -/

/-- What `main` calls for a change, with `e` the files it finds; nothing for `CHANGED`. -/
def changeOp (e : Env) (c : MountwatchChange) : Option DaemonOp :=
  match c.tag with
  | .removed => some (.releaseMount c.device)
  | .added => some (.crawlMount e c.device c.mount)
  | .pkgAdded => some (.registerPath e c.device c.path c.mount)
  | .pkgRemoved => some (.releasePath c.path)
  | .changed => none

/-- The calls for changes, where change `k` finds the files `env k`. -/
def changeOps (env : ℕ → Env) : ℕ → List MountwatchChange → List DaemonOp
  | _, [] => []
  | k, c :: cs => (changeOp (env k) c).toList ++ changeOps env (k + 1) cs

/-- What a turn of the loop finds outside of the daemon. -/
structure Turn where
  poll : Poll
  addWatch : CStr → ℤ
  env : ℕ → Env
  out : ℕ → TeardownOutcome

/-- The daemon and its mount watch, with the latest mount table it has read. -/
structure MainState where
  d : Daemon
  w : Mountwatch
  lines : List MountLine

namespace MainState

/-- Before the first turn. -/
def init (icons desktops execs : Dir) : MainState := ⟨Daemon.init icons desktops execs, ⟨[], []⟩, []⟩

/-- The mount watch and the changes after it was asked. -/
def diff (cfg : DBPConfig) (s : MainState) (t : Turn) : Mountwatch × List MountwatchChange :=
  mountwatchDiff cfg t.addWatch s.w t.poll

/-- The calls of a turn. -/
def ops (cfg : DBPConfig) (s : MainState) (t : Turn) : List DaemonOp :=
  changeOps t.env 0 (s.diff cfg t).2 ++ [.purgatoryCheck t.out]

end MainState

/-- A turn of the loop. -/
def mainTurn (cfg : DBPConfig) (s : MainState) (t : Turn) : MainState :=
  ⟨s.d.run cfg (s.ops cfg t), (s.diff cfg t).1, t.poll.table s.lines⟩

theorem changeOps_append (env : ℕ → Env) : ∀ (cs ds : List MountwatchChange) (k : ℕ),
    changeOps env k (cs ++ ds) = changeOps env k cs ++ changeOps env (k + cs.length) ds
  | [], ds, k => by simp [changeOps]
  | c :: cs, ds, k => by
    rw [List.cons_append, changeOps, changeOps, changeOps_append env cs ds (k + 1), List.append_assoc,
      List.length_cons, show k + 1 + cs.length = k + (cs.length + 1) by omega]

theorem mem_changeOps {env : ℕ → Env} {op : DaemonOp} : ∀ {cs : List MountwatchChange} {k : ℕ},
    op ∈ changeOps env k cs → ∃ c ∈ cs, ∃ j, changeOp (env j) c = some op
  | [], _, h => by simp [changeOps] at h
  | c :: cs, k, h => by
    rcases List.mem_append.mp h with h | h
    · exact ⟨c, List.mem_cons_self, k, Option.mem_toList.mp h⟩
    · obtain ⟨c', hc', hj⟩ := mem_changeOps h
      exact ⟨c', List.mem_cons_of_mem _ hc', hj⟩

/-! ### The registry under each call -/

/-- The mount of a package. -/
def PackageEntry.pair (e : PackageEntry) : MountPair := ⟨e.mount, e.device⟩

/-- No two ids of the registry are at one address. -/
def PtrsNodup (d : Daemon) : Prop := (d.p.entry.map (·.idPtr)).Nodup

/-- `strdup` returns an address that none of the ids in use has. -/
def FreshPtr (e : Env) : Prop := ∀ es : List PackageEntry, e.idPtr es ∉ es.map (·.idPtr)

/-- What registrations of packages on a mount do to the array. -/
structure Registers (p : MountPair) (d d' : Daemon) : Prop where
  grows : ∃ new, d'.p.entry = d.p.entry ++ new ∧ ∀ x ∈ new, x.pair = p
  ptrs : PtrsNodup d → PtrsNodup d'

namespace Registers

variable {p : MountPair} {d d' d'' : Daemon}

theorem of_eq (h : d'.p.entry = d.p.entry) : Registers p d d' where
  grows := ⟨[], by simp [h], by simp⟩
  ptrs hd := by rwa [PtrsNodup, h]

theorem trans (h : Registers p d d') (h' : Registers p d' d'') : Registers p d d'' where
  grows := by
    obtain ⟨new, he, hp⟩ := h.grows
    obtain ⟨new', he', hp'⟩ := h'.grows
    exact ⟨new ++ new', by rw [he', he, List.append_assoc], List.forall_mem_append.mpr ⟨hp, hp'⟩⟩
  ptrs hd := h'.ptrs (h.ptrs hd)

theorem subset (h : Registers p d d') {e : PackageEntry} (he : e ∈ d'.p.entry) : e ∈ d.p.entry ∨ e.pair = p := by
  obtain ⟨new, heq, hp⟩ := h.grows
  rw [heq] at he
  exact (List.mem_append.mp he).imp_right (hp e)

end Registers

theorem registers_register (cfg : DBPConfig) (d : Daemon) {e : Env} (he : FreshPtr e) (path device mount : CStr) :
    Registers ⟨mount, device⟩ d (packageRegister cfg d e path device mount).2.2 := by
  have hc := packageRegister_cases cfg d e path device mount
  generalize packageRegister cfg d e path device mount = r at hc ⊢
  cases hc with
  | unreadable errid h => exact .of_eq rfl
  | noId df h hid => exact .of_eq rfl
  | rejected df id errid coll h hid hc => exact .of_eq rfl
  | added df id h hid hc =>
    have hadd := @packageAdd_added d e (packageStrings df id path device mount) hc
    have hentry := congrArg (fun r : ℤ × Daemon => r.2.p.entry) hadd
    have hexp := congrArg (fun d : Daemon => d.p.entry) (packageExport_last cfg hentry e path)
    refine ⟨⟨_, hexp, fun x hx => by rw [List.mem_singleton.mp hx]; rfl⟩, fun hnd => ?_⟩
    rw [PtrsNodup, hexp, List.map_append]
    exact nodup_concat hnd (he d.p.entry)

theorem registers_crawlMount (cfg : DBPConfig) (d : Daemon) {e : Env} (he : FreshPtr e) (device path : CStr) :
    Registers ⟨path, device⟩ d (packageCrawlMount cfg d e device path) := by
  rw [packageCrawlMount_eq]
  refine List.foldlRecOn (motive := Registers ⟨path, device⟩ d) _ _ (.of_eq rfl) fun d' h f _ => ?_
  exact h.trans (registers_register cfg d' he f device path)

theorem registers_registerPath (cfg : DBPConfig) (d : Daemon) {e : Env} (he : FreshPtr e) (device path mount : CStr) :
    Registers ⟨mount, device⟩ d (packageRegisterPath cfg d e device path mount).2.2 := by
  rw [packageRegisterPath_state]
  split_ifs
  · exact registers_register cfg d he path device mount
  · exact .of_eq rfl

/-- The loop of `package_release_mount` never meets the address it has just seen: it kills the packages of the device,
one after the other, and leaves the others. -/
theorem releaseVisit_split (cfg : DBPConfig) (device : CStr) : ∀ (es : List PackageEntry) (last : Option ℕ) (d : Daemon),
    (es.map (·.idPtr)).Nodup → (∀ x ∈ es, last ≠ some x.idPtr) →
      (mapKeep (releaseVisit cfg device) (last, d) es).1.2 =
          (es.filter (·.device = device)).foldl (packageKillFiles cfg) d ∧
        (mapKeep (releaseVisit cfg device) (last, d) es).2 = es.filter (·.device ≠ device)
  | [], _, _, _, _ => ⟨rfl, rfl⟩
  | x :: es, last, d, hnd, hlast => by
    rw [List.map_cons, List.nodup_cons] at hnd
    have hnext : ∀ y ∈ es, some x.idPtr ≠ some y.idPtr := fun y hy he =>
      hnd.1 (Option.some.inj he ▸ List.mem_map_of_mem hy)
    rw [mapKeep, releaseVisit, if_neg (hlast x List.mem_cons_self)]
    by_cases hd : x.device = device
    · rw [if_neg (not_not.mpr hd), List.filter_cons_of_pos (by simp [hd]), List.filter_cons_of_neg (by simp [hd])]
      exact releaseVisit_split cfg device es _ _ hnd.2 hnext
    · obtain ⟨hstate, hkept⟩ := releaseVisit_split cfg device es (some x.idPtr) d hnd.2 hnext
      rw [if_pos hd, List.filter_cons_of_neg (by simp [hd]), List.filter_cons_of_pos (by simp [hd])]
      exact ⟨hstate, congrArg (x :: ·) hkept⟩

/-- **The release of a device leaves the packages of the other devices.** -/
theorem entries_releaseMount (cfg : DBPConfig) {d : Daemon} (h : PtrsNodup d) (device : CStr) :
    (packageReleaseMount cfg d device).p.entry = d.p.entry.filter (·.device ≠ device) := by
  rw [packageReleaseMount_eq]
  exact (releaseVisit_split cfg device d.p.entry none d h fun _ _ => by simp).2

/-- The ids of a registration are copied to fresh addresses. -/
def OpFresh : DaemonOp → Prop
  | .registerPath e _ _ _ => FreshPtr e
  | .crawlMount e _ _ => FreshPtr e
  | _ => True

/-- A call that registers no package on the mount `p`. -/
def KeepsOut (p : MountPair) : DaemonOp → Prop
  | .registerPath _ device _ mount => (⟨mount, device⟩ : MountPair) ≠ p
  | .crawlMount _ device path => (⟨path, device⟩ : MountPair) ≠ p
  | _ => True

section Step

variable (cfg : DBPConfig) {d : Daemon} {op : DaemonOp}

theorem PtrsNodup.of_sublist {d' : Daemon} (h : PtrsNodup d) (hs : d'.p.entry.Sublist d.p.entry) : PtrsNodup d' :=
  List.Nodup.sublist (hs.map _) h

theorem ptrs_step (h : PtrsNodup d) (hop : OpFresh op) : PtrsNodup (d.step cfg op) := by
  cases op with
  | registerPath e device path mount => exact (registers_registerPath cfg d hop device path mount).ptrs h
  | crawlMount e device path => exact (registers_crawlMount cfg d hop device path).ptrs h
  | releasePath path => exact h.of_sublist (entries_releasePath_sublist cfg d path)
  | releaseMount device => exact h.of_sublist (entries_releaseMount cfg h device ▸ List.filter_sublist)
  | run ret id user => exact h.of_sublist ((sameRegistry_run d ret id user).entry ▸ .refl _)
  | stop now runId => exact h.of_sublist ((sameRegistry_stop d now runId).entry ▸ .refl _)
  | purgatoryCheck out => exact h

theorem ptrs_run (h : PtrsNodup d) {ops : List DaemonOp} (hops : ∀ op ∈ ops, OpFresh op) : PtrsNodup (d.run cfg ops) :=
  List.foldlRecOn ops _ h fun _ h op hop => ptrs_step cfg h (hops op hop)

/-- No package of a mount comes to the registry. -/
theorem absent_step {p : MountPair} (hptr : PtrsNodup d) (hfresh : OpFresh op) (hop : KeepsOut p op)
    (h : ∀ e ∈ d.p.entry, e.pair ≠ p) : ∀ e ∈ (d.step cfg op).p.entry, e.pair ≠ p := by
  have of_sub : ∀ {d' : Daemon}, d'.p.entry.Sublist d.p.entry → ∀ e ∈ d'.p.entry, e.pair ≠ p :=
    fun hs e he => h e (hs.subset he)
  have of_reg : ∀ {d' : Daemon} {p' : MountPair}, Registers p' d d' → p' ≠ p → ∀ e ∈ d'.p.entry, e.pair ≠ p :=
    fun hr hne e he => (hr.subset he).elim (h e) fun hp => hp ▸ hne
  cases op with
  | registerPath e device path mount => exact of_reg (registers_registerPath cfg d hfresh device path mount) hop
  | crawlMount e device path => exact of_reg (registers_crawlMount cfg d hfresh device path) hop
  | releasePath path => exact of_sub (entries_releasePath_sublist cfg d path)
  | releaseMount device => exact of_sub (entries_releaseMount cfg hptr device ▸ List.filter_sublist)
  | run ret id user => exact of_sub ((sameRegistry_run d ret id user).entry ▸ .refl _)
  | stop now runId => exact of_sub ((sameRegistry_stop d now runId).entry ▸ .refl _)
  | purgatoryCheck out => exact h

theorem absent_run {p : MountPair} (hptr : PtrsNodup d) {ops : List DaemonOp} (hfresh : ∀ op ∈ ops, OpFresh op)
    (hops : ∀ op ∈ ops, KeepsOut p op) (h : ∀ e ∈ d.p.entry, e.pair ≠ p) :
    ∀ e ∈ (d.run cfg ops).p.entry, e.pair ≠ p := by
  refine (List.foldlRecOn (motive := fun d => PtrsNodup d ∧ ∀ e ∈ d.p.entry, e.pair ≠ p) ops _ ⟨hptr, h⟩ ?_).2
  rintro d' ⟨hptr, h⟩ op hop
  exact ⟨ptrs_step cfg hptr (hfresh op hop), absent_step cfg hptr (hfresh op hop) (hops op hop) h⟩

end Step

/-! ### The changes of a snapshot -/

/-- An event is about the mount point of its watch. -/
theorem inotify_mount {ientry : List MountwatchInotify} {events : List InotifyEvent} {c : MountwatchChange}
    (h : c ∈ mountwatchInotifyHandle ientry events) : ∃ i ∈ ientry, c.mount = i.mount := by
  obtain ⟨ie, -, i, hi, tag, -, rfl⟩ := mem_inotifyHandle h
  exact ⟨i, hi, rfl⟩

/-- The sweep leaves no watch on the mount point of an entry it drops. -/
theorem sweep_watches : ∀ (es : List MountwatchEntry) (s : Diff) {i : MountwatchInotify},
    i ∈ (mapKeep sweepEntry s es).1.ientry → i ∈ s.ientry ∧ ∀ e ∈ es, e.tag = false → i.mount ≠ e.mount
  | [], _, _, h => ⟨h, by simp⟩
  | e :: es, s, i, h => by
    obtain ⟨hi, hes⟩ := sweep_watches es (sweepEntry s e).1 h
    cases he : e.tag with
    | true =>
      rw [show (sweepEntry s e).1 = s by simp [sweepEntry, he]] at hi
      exact ⟨hi, List.forall_mem_cons.mpr ⟨by simp [he], hes⟩⟩
    | false =>
      rw [show (sweepEntry s e).1.ientry = s.ientry.filter (·.mount ≠ e.mount) by
        simp [sweepEntry, he, mountwatchInotifyRemove]] at hi
      obtain ⟨hi, hne⟩ := List.mem_filter.mp hi
      exact ⟨hi, List.forall_mem_cons.mpr ⟨fun _ => by simpa using hne, hes⟩⟩

/-- The change for a pair that is dropped. -/
def droppedChange (p : MountPair) : MountwatchChange := ⟨p.device, p.device, [], .removed⟩

/-- The changes of a snapshot, in their order: what the lines report, the pairs that are dropped, and
the directory events, none of which is on a mount point of a pair dropped. -/
structure Changes (xs ds : List MountPair) (change : List MountwatchChange) (cs events : List MountwatchChange) : Prop where
  parts : change = cs ++ ds.map droppedChange ++ events
  lines : ∀ c ∈ cs, c.tag = .changed ∨ c.tag = .added ∧ (⟨c.mount, c.device⟩ : MountPair) ∈ xs
  events_tag : ∀ c ∈ events, c.tag = .pkgAdded ∨ c.tag = .pkgRemoved
  events_mount : ∀ c ∈ events, ∀ p ∈ ds, c.mount ≠ p.mount

theorem diff_parts (cfg : DBPConfig) (addWatch : CStr → ℤ) {w : Mountwatch} (h : Settled w) (lines : List MountLine)
    (dirChange : Option (List InotifyEvent)) : ∃ cs events,
      Changes (eligiblePairs lines) (dropped (noted Shares w.pairs (eligiblePairs lines)))
        (mountwatchDiff cfg addWatch w (.snapshot lines dirChange)).2 cs events := by
  obtain ⟨hmarks, cs, hcs, hreports⟩ := diffLines cfg addWatch lines (w.entry, ⟨w.ientry, []⟩)
  rw [marks_settled h] at hmarks
  have hnoted : Noted Shares w.pairs (eligiblePairs lines) (noted Shares w.pairs (eligiblePairs lines)) :=
    noted_spec h.nodup _
  rw [noted, ← hmarks] at hnoted
  rw [noted, ← hmarks, mountwatchDiff, diffRest]
  generalize lines.foldl (diffLine cfg addWatch) (w.entry, ⟨w.ientry, []⟩) = s at hcs hreports hnoted ⊢
  obtain ⟨-, hchange⟩ := sweepEntries s.1 s.2
  simp only [sweep_eq, hchange, hcs, List.nil_append]
  have hdrop : (dropped (marks s.1)).map droppedChange = (s.1.filter (!·.tag)).map removedChange := by
    simp only [dropped, marks, List.filter_map, List.map_map]
    rfl
  refine ⟨cs, _, by rw [hdrop], fun c hc => ?_, ?_, ?_⟩
  · refine (hreports.tags c hc).imp_right fun ht => ⟨ht, ?_⟩
    have hmem : (⟨c.mount, c.device⟩ : MountPair) ∈ changesOf .added cs :=
      List.mem_map.mpr ⟨c, List.mem_filter.mpr ⟨hc, by simpa using ht⟩, rfl⟩
    have hadded := (marks_fst s.1).trans hreports.added
    have hin := hnoted.mem ⟨c.mount, c.device⟩
    have hnd := hnoted.nodup
    rw [hadded] at hin hnd
    exact (hin.mp (List.mem_append_right _ hmem)).resolve_left
      fun hb => (List.nodup_append.mp hnd).2.2 _ hb _ hmem rfl
  · cases dirChange with
    | none => simp
    | some events => exact inotify_tags _ events
  · cases dirChange with
    | none => simp
    | some events =>
      intro c hc p hp
      obtain ⟨i, hi, hm⟩ := inotify_mount hc
      obtain ⟨x, hx, rfl⟩ := List.mem_map.mp hp
      obtain ⟨hx, htag⟩ := List.mem_filter.mp hx
      obtain ⟨e, he, rfl⟩ := List.mem_map.mp hx
      exact hm ▸ (sweep_watches s.1 s.2 hi).2 e he (by simpa using htag)

/-! ### A turn -/

/-- No pair that is gone has the device of a mount of the table, nor the mount point of one that is
tracked after it or new. -/
def Releasable (before : List MountPair) (lines : List MountLine) : Prop :=
  ∀ e ∈ before, e ∉ eligiblePairs lines → ∀ p ∈ eligiblePairs lines,
    e.device ≠ p.device ∧ (e.mount = p.mount → before.idxOf p < before.idxOf e)

instance (before : List MountPair) (lines : List MountLine) : Decidable (Releasable before lines) :=
  inferInstanceAs (Decidable (∀ e ∈ before, _ → ∀ p ∈ _, _))

/-- The mount table a turn reads, if it does, lets it release what is gone. -/
def TurnOk (s : MainState) (t : Turn) : Prop :=
  match t.poll with
  | .snapshot lines _ => Releasable s.w.pairs lines
  | _ => True

instance (s : MainState) (t : Turn) : Decidable (TurnOk s t) :=
  match t with
  | ⟨.timeout, _, _, _⟩ => isTrue trivial
  | ⟨.unreadable, _, _, _⟩ => isTrue trivial
  | ⟨.snapshot lines _, _, _, _⟩ => inferInstanceAs (Decidable (Releasable s.w.pairs lines))

/-- A turn releases the packages of the mounts that were in the latest mount table and are gone, and no
call it makes for a mount releases a package of one that is there. -/
structure ReleasesExactly (cfg : DBPConfig) (s : MainState) (t : Turn) : Prop where
  gone : ∀ p ∈ eligiblePairs s.lines, p ∉ eligiblePairs (t.poll.table s.lines) →
    ∀ e ∈ (mainTurn cfg s t).d.p.entry, e.pair ≠ p
  stays : ∀ pre device post, s.ops cfg t = pre ++ .releaseMount device :: post →
    ∀ e ∈ (s.d.run cfg pre).p.entry, e.pair ∈ eligiblePairs (t.poll.table s.lines) →
      e ∈ (s.d.run cfg (pre ++ [.releaseMount device])).p.entry

/-- The daemon and its mount watch between two turns. -/
structure LoopInv (s : MainState) : Prop where
  settled : Settled s.w
  tracked : ∀ p ∈ eligiblePairs s.lines, p ∈ s.w.pairs
  ptrs : PtrsNodup s.d

theorem loopInv_init (icons desktops execs : Dir) : LoopInv (MainState.init icons desktops execs) where
  settled := ⟨List.nodup_nil, fun _ h => absurd h List.not_mem_nil⟩
  tracked _ h := h
  ptrs := List.nodup_nil

section Turn

variable (cfg : DBPConfig) {s : MainState} {t : Turn}

theorem opFresh_changeOp {e : Env} (he : FreshPtr e) {c : MountwatchChange} {op : DaemonOp}
    (h : changeOp e c = some op) : OpFresh op := by
  obtain ⟨mount, device, path, tag⟩ := c
  cases tag <;> simp only [changeOp, Option.some.injEq, reduceCtorEq] at h <;> subst h
  · trivial
  · exact he
  · exact he
  · trivial

theorem opFresh_ops (hptr : ∀ k, FreshPtr (t.env k)) : ∀ op ∈ s.ops cfg t, OpFresh op := by
  intro op hop
  rcases List.mem_append.mp hop with hop | hop
  · obtain ⟨c, -, j, hj⟩ := mem_changeOps hop
    exact opFresh_changeOp (hptr j) hj
  · rw [List.mem_singleton.mp hop]
    trivial

theorem loopInv_turn (h : LoopInv s) (hptr : ∀ k, FreshPtr (t.env k)) : LoopInv (mainTurn cfg s t) where
  settled := settled_diff cfg t.addWatch h.settled t.poll
  ptrs := ptrs_run cfg h.ptrs (opFresh_ops cfg hptr)
  tracked := by
    unfold mainTurn MainState.diff
    cases t.poll with
    | timeout => exact h.tracked
    | unreadable => exact h.tracked
    | snapshot lines dirChange =>
      obtain ⟨cs, ds, hc⟩ := mountwatchDiff_snapshot cfg t.addWatch h.settled lines dirChange
      intro p hp
      simp only [hc.pairs]
      exact (mem_track h.settled.nodup).mpr (.inl hp)

/-- Where what is gone can be released, it is what the sweep drops. -/
theorem mem_dropped {before : List MountPair} {lines : List MountLine} (hnd : before.Nodup)
    (h : Releasable before lines) {p : MountPair} :
    p ∈ dropped (noted Shares before (eligiblePairs lines)) ↔ p ∈ before ∧ p ∉ eligiblePairs lines := by
  have hexact : ∀ e, e ∈ track Shares before (eligiblePairs lines) ↔ e ∈ eligiblePairs lines := by
    refine (track_iff hnd).mpr fun e he hout p hp hs => ?_
    obtain ⟨hdev, hmount⟩ := h e he hout p hp
    exact hs.elim (fun hm => (hmount hm).le) fun hd => absurd hd hdev
  rw [(noted_spec hnd _).dropped_eq, List.mem_filter]
  have := hexact p
  rw [track] at this
  simp [this]

/-- A call of a turn that releases a device is for a pair that was dropped. -/
theorem releaseMount_ops {lines : List MountLine} {dirChange : Option (List InotifyEvent)} {ds : List MountPair}
    {cs events : List MountwatchChange} {device : CStr} (hpoll : t.poll = .snapshot lines dirChange)
    (hc : Changes (eligiblePairs lines) ds (mountwatchDiff cfg t.addWatch s.w (.snapshot lines dirChange)).2 cs events)
    (h : DaemonOp.releaseMount device ∈ s.ops cfg t) : ∃ p ∈ ds, p.device = device := by
  rw [MainState.ops, MainState.diff, hpoll] at h
  rcases List.mem_append.mp h with h | h
  · obtain ⟨c, hmem, j, hj⟩ := mem_changeOps h
    obtain ⟨htag, hdev⟩ : c.tag = .removed ∧ c.device = device := by
      obtain ⟨mount, device', path, tag⟩ := c
      cases tag <;> simp_all [changeOp]
    rw [hc.parts, List.mem_append, List.mem_append] at hmem
    rcases hmem with (hmem | hmem) | hmem
    · rcases hc.lines c hmem with hl | ⟨hl, -⟩ <;> rw [htag] at hl <;> cases hl
    · obtain ⟨p, hp, rfl⟩ := List.mem_map.mp hmem
      exact ⟨p, hp, hdev⟩
    · rcases hc.events_tag c hmem with hl | hl <;> rw [htag] at hl <;> cases hl
  · cases List.mem_singleton.mp h

/-- After the call for a dropped pair, the calls of the turn register nothing on it. -/
theorem ops_dropped {lines : List MountLine} {dirChange : Option (List InotifyEvent)} {ds : List MountPair}
    {cs events : List MountwatchChange} {p : MountPair} (hpoll : t.poll = .snapshot lines dirChange)
    (hc : Changes (eligiblePairs lines) ds (mountwatchDiff cfg t.addWatch s.w (.snapshot lines dirChange)).2 cs events)
    (hp : p ∈ ds) : ∃ pre post, s.ops cfg t = pre ++ .releaseMount p.device :: post ∧ ∀ op ∈ post, KeepsOut p op := by
  obtain ⟨ds₁, ds₂, hds⟩ := List.append_of_mem hp
  have hparts : (mountwatchDiff cfg t.addWatch s.w (.snapshot lines dirChange)).2 =
      (cs ++ ds₁.map droppedChange) ++ droppedChange p :: (ds₂.map droppedChange ++ events) := by
    rw [hc.parts, hds]
    simp
  rw [MainState.ops, MainState.diff, hpoll, hparts, changeOps_append, changeOps]
  refine ⟨_, _, by rw [List.append_assoc]; rfl, fun op hop => ?_⟩
  rcases List.mem_append.mp hop with hop | hop
  · obtain ⟨c, hmem, j, hj⟩ := mem_changeOps hop
    rcases List.mem_append.mp hmem with hmem | hmem
    · obtain ⟨q, -, rfl⟩ := List.mem_map.mp hmem
      cases hj
      trivial
    · have hm := hc.events_mount c hmem p hp
      obtain ⟨mount, device, path, tag⟩ := c
      rcases hc.events_tag _ hmem with rfl | rfl <;> cases hj
      · exact fun he => hm (congrArg MountPair.mount he)
      · trivial
  · rw [List.mem_singleton.mp hop]
    trivial

/-- A turn that finds nothing. -/
theorem turn_idle (htable : t.poll.table s.lines = s.lines) (hdiff : (s.diff cfg t).2 = []) : ReleasesExactly cfg s t where
  gone p hp hout := by
    rw [htable] at hout
    exact absurd hp hout
  stays pre device post hops := by
    have hmem : DaemonOp.releaseMount device ∈ s.ops cfg t := by
      rw [hops]
      simp
    rw [MainState.ops, hdiff] at hmem
    simp [changeOps] at hmem

section Snapshot

variable {lines : List MountLine} {dirChange : Option (List InotifyEvent)} (h : LoopInv s) (hptr : ∀ k, FreshPtr (t.env k))
  (hpoll : t.poll = .snapshot lines dirChange) (hok : Releasable s.w.pairs lines)
include h hptr hpoll hok

/-- A mount that is gone has no packages left. -/
theorem turn_gone {p : MountPair} (hp : p ∈ eligiblePairs s.lines) (hout : p ∉ eligiblePairs lines) :
    ∀ e ∈ (mainTurn cfg s t).d.p.entry, e.pair ≠ p := by
  obtain ⟨cs, events, hc⟩ := diff_parts cfg t.addWatch h.settled lines dirChange
  have hdrop := (mem_dropped h.settled.nodup hok).mpr ⟨h.tracked p hp, hout⟩
  obtain ⟨pre, post, hops, hkeeps⟩ := ops_dropped cfg hpoll hc hdrop
  have hfresh := opFresh_ops (s := s) cfg hptr
  rw [hops] at hfresh
  have hpre := ptrs_run cfg h.ptrs fun op hop => hfresh op (List.mem_append_left _ hop)
  have hrel : PtrsNodup (Daemon.step cfg _ (.releaseMount p.device)) := ptrs_step cfg hpre trivial
  rw [mainTurn, hops, Daemon.run_append]
  -- the call for the mount releases its packages, and none come back
  apply absent_run cfg hrel (fun op hop => hfresh op (by simp [hop])) hkeeps
  intro x hx hxp
  rw [Daemon.step, entries_releaseMount cfg hpre] at hx
  have hdev : x.device ≠ p.device := by simpa using (List.mem_filter.mp hx).2
  exact hdev (congrArg MountPair.device hxp)

/-- A call for a mount leaves the packages of the mounts that are there. -/
theorem turn_stays {pre post : List DaemonOp} {device : CStr} (hops : s.ops cfg t = pre ++ .releaseMount device :: post)
    {e : PackageEntry} (he : e ∈ (s.d.run cfg pre).p.entry) (hpair : e.pair ∈ eligiblePairs lines) :
    e ∈ (s.d.run cfg (pre ++ [.releaseMount device])).p.entry := by
  obtain ⟨cs, events, hc⟩ := diff_parts cfg t.addWatch h.settled lines dirChange
  have hmem : DaemonOp.releaseMount device ∈ s.ops cfg t := by
    rw [hops]
    simp
  obtain ⟨p, hp, rfl⟩ := releaseMount_ops cfg hpoll hc hmem
  obtain ⟨hbefore, hout⟩ := (mem_dropped h.settled.nodup hok).mp hp
  have hfresh := opFresh_ops (s := s) cfg hptr
  rw [hops] at hfresh
  have hpre := ptrs_run cfg h.ptrs fun op hop => hfresh op (List.mem_append_left _ hop)
  rw [Daemon.run_append]
  change e ∈ (packageReleaseMount cfg (s.d.run cfg pre) p.device).p.entry
  rw [entries_releaseMount cfg hpre]
  have hdev : p.device ≠ e.device := (hok p hbefore hout e.pair hpair).1
  exact List.mem_filter.mpr ⟨he, by simpa using hdev.symm⟩

end Snapshot

/-- **A turn on a mount table that lets it.** -/
theorem turn_releases (h : LoopInv s) (hptr : ∀ k, FreshPtr (t.env k)) (hok : TurnOk s t) : ReleasesExactly cfg s t := by
  unfold TurnOk at hok
  cases hpoll : t.poll with
  | timeout => exact turn_idle cfg (by rw [hpoll]; rfl) (by rw [MainState.diff, hpoll]; rfl)
  | unreadable => exact turn_idle cfg (by rw [hpoll]; rfl) (by rw [MainState.diff, hpoll]; rfl)
  | snapshot lines dirChange =>
    rw [hpoll] at hok
    constructor
    · intro p hp hout
      rw [hpoll] at hout
      exact turn_gone cfg h hptr hpoll hok hp hout
    · intro pre device post hops e he hpair
      rw [hpoll] at hpair
      exact turn_stays cfg h hptr hpoll hok hops he hpair

end Turn

/-! ### Runs -/

theorem releases_run (cfg : DBPConfig) : ∀ (turns : List Turn) {s : MainState}, LoopInv s →
    (∀ t ∈ turns, ∀ k, FreshPtr (t.env k)) → Admissible (mainTurn cfg) TurnOk s turns →
      Admissible (mainTurn cfg) (ReleasesExactly cfg) s turns
  | [], _, _, _, _ => trivial
  | t :: turns, _, h, hptr, ⟨hok, hrest⟩ =>
    have hfresh := hptr t List.mem_cons_self
    ⟨turn_releases cfg h hfresh hok,
      releases_run cfg turns (loopInv_turn cfg h hfresh) (fun t' ht => hptr t' (List.mem_cons_of_mem _ ht)) hrest⟩

/-- **Unmounting.** In every run of the loop over mount tables that let it, each turn releases the packages of the
mounts that are gone, and those only. -/
theorem unmount_releases (cfg : DBPConfig) (icons desktops execs : Dir) (turns : List Turn)
    (hptr : ∀ t ∈ turns, ∀ k, FreshPtr (t.env k))
    (h : Admissible (mainTurn cfg) TurnOk (MainState.init icons desktops execs) turns) :
    Admissible (mainTurn cfg) (ReleasesExactly cfg) (MainState.init icons desktops execs) turns :=
  releases_run cfg turns (loopInv_init icons desktops execs) hptr h

/-- A turn that reads a mount table, where one package file is found on the mount `/a`. -/
def demoTurn (lines : List MountLine) : Turn where
  poll := .snapshot lines none
  addWatch _ := 1
  env _ := { demoEnv [(lit "/a/./p.dbp", [demoMeta (lit "p")])] with idPtr := fun es => (es.map (·.idPtr)).max?.getD 0 + 1 }
  out _ := ⟨true, true, true⟩

theorem freshPtr_demo (lines : List MountLine) (k : ℕ) : FreshPtr ((demoTurn lines).env k) := by
  intro es h
  have hle : (es.map (·.idPtr)).max?.getD 0 + 1 ≤ (es.map (·.idPtr)).max?.getD 0 := List.le_max?_getD_of_mem h
  omega

/-- A medium is put in and taken out. -/
def demoTurns : List Turn := [demoTurn [⟨lit "/dev/sda1", lit "/a", lit "vfat"⟩], demoTurn []]

theorem unmount_releases_demo :
    Admissible (mainTurn demoConfig) (ReleasesExactly demoConfig) (MainState.init [] [] []) demoTurns :=
  unmount_releases demoConfig [] [] [] demoTurns
    (List.forall_mem_cons.mpr ⟨freshPtr_demo _, List.forall_mem_singleton.mpr (freshPtr_demo _)⟩) (by decide)

/-- A device is mounted twice, and one of the mounts goes away. -/
def twiceTurns : List Turn :=
  [demoTurn [⟨lit "/dev/sda1", lit "/a", lit "vfat"⟩, ⟨lit "/dev/sda1", lit "/b", lit "vfat"⟩],
    demoTurn [⟨lit "/dev/sda1", lit "/a", lit "vfat"⟩]]

theorem unmount_releases_twice :
    ¬ Admissible (mainTurn demoConfig) (ReleasesExactly demoConfig) (MainState.init [] [] []) twiceTurns := by
  rintro ⟨-, h, -⟩
  have hstays := h.stays [] (lit "/dev/sda1") _ rfl
  revert hstays
  decide

end Dbp
