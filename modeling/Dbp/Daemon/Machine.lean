/-
# The daemon as a machine

Every call the daemon's two threads make on the package state, under its
mutex, is one operation; what the kernel and the file system answer is part
of the operation. A run of the daemon is a list of operations, in any order.

Key definitions: `DaemonOp`, `Daemon.step`, `Daemon.run`, `SameRegistry`, `SameMounts`, `LoopsNonneg`.
Key theorems: `sameMounts_step`, `LoopsNonneg.step`.
-/
import Dbp.Daemon.Registry
import Dbp.Lib.Run

namespace Dbp

open CLib Sweep Find

/-- A call on the package state. -/
inductive DaemonOp
  | registerPath (e : Env) (device path mount : CStr)
  | crawlMount (e : Env) (device path : CStr)
  | releasePath (path : CStr)
  | releaseMount (device : CStr)
  | run (ret : ℤ) (id user : CStr)
  | stop (now runId : ℤ)
  | purgatoryCheck (out : ℕ → TeardownOutcome)

namespace Daemon

/-- The state after a call. -/
def step (cfg : DBPConfig) (d : Daemon) : DaemonOp → Daemon
  | .registerPath e device path mount => (packageRegisterPath cfg d e device path mount).2.2
  | .crawlMount e device path => packageCrawlMount cfg d e device path
  | .releasePath path => (packageReleasePath cfg d path).2
  | .releaseMount device => packageReleaseMount cfg d device
  | .run ret id user => (packageRun d ret id user).2
  | .stop now runId => (packageStop d now runId).2
  | .purgatoryCheck out => packagePurgatoryCheck d out

/-- The state after a run. -/
abbrev run (cfg : DBPConfig) (d : Daemon) (ops : List DaemonOp) : Daemon := ops.foldl (step cfg) d

theorem run_append (cfg : DBPConfig) (d : Daemon) (ops ops' : List DaemonOp) :
    d.run cfg (ops ++ ops') = (d.run cfg ops).run cfg ops' := List.foldl_append

end Daemon

/-! ### A small installation

A configuration and the package files found on a medium, for runs on fixed
inputs. -/

/-- The shipped configuration, with one search directory. -/
def demoConfig : DBPConfig where
  fileExtension := [lit ".dbp"]
  searchDir := [lit "."]
  dataDirectory := lit "appdata"
  iconDirectory := lit "/icons"
  execDirectory := lit "/games"
  desktopDirectory := lit "/applications"
  execTemplate := lit "/etc/dbp/dbp_exec"

/-- Packages given by path and the files of their archives. -/
def demoEnv (files : List (CStr × List ArchiveFile)) : Env where
  archive path := (files.find? fun f => f.1 == path).map (·.2)
  statRegular _ := true
  readFile _ := none
  opens _ := true
  readDir _ := some (files.map fun f => findFilename f.1)
  stack := ⟨[], []⟩
  idPtr es := es.length + 1

/-- The meta data of a package with nothing but an id. -/
def demoMeta (id : CStr) : ArchiveFile :=
  (lit "meta/default.desktop", lit "[Package Entry]\nId=" ++ id ++ lit "\n")

/-! ### What running leaves alone -/

/-- A call changes neither the registered packages nor their files, and it signals nothing. -/
structure SameRegistry (d d' : Daemon) : Prop where
  entry : d'.p.entry = d.p.entry
  icons : d'.icons = d.icons
  desktops : d'.desktops = d.desktops
  execs : d'.execs = d.execs
  signals : d'.signals = d.signals

theorem packageRunMounted_entry (p : Package) (id : CStr) (loop : ℤ) :
    (packageRunMounted p id loop).2.entry = p.entry := rfl

theorem sameRegistry_run (d : Daemon) (ret : ℤ) (id user : CStr) : SameRegistry d (packageRun d ret id user).2 := by
  have hrev : (packagePurgatoryRevive d.p id).2.entry = d.p.entry := by
    have hc := packagePurgatoryRevive_cases d.p id
    generalize packagePurgatoryRevive d.p id = r at hc ⊢
    cases hc <;> rfl
  have hm : ∀ (d : Daemon) (r : ℤ × Package), r.2.entry = d.p.entry → SameRegistry d { d with p := r.2 } :=
    fun d r h => ⟨h, rfl, rfl, rfl, rfl⟩
  unfold packageRun
  split
  · exact hm d _ (packageRunMounted_entry _ _ _)
  · simp only
    split_ifs
    · exact hm d _ hrev
    · exact hm d _ ((packageRunMounted_entry _ _ _).trans hrev)
    · unfold packageRunMount
      split
      · exact hm d _ hrev
      · simp only
        split_ifs
        · exact ⟨hrev, rfl, rfl, rfl, rfl⟩
        · exact ⟨(packageRunMounted_entry _ _ _).trans hrev, rfl, rfl, rfl, rfl⟩

theorem sameRegistry_stop (d : Daemon) (now runId : ℤ) : SameRegistry d (packageStop d now runId).2 := by
  have hc := packageStop_cases d now runId
  generalize (packageStop d now runId).2 = d' at hc ⊢
  cases hc <;> exact ⟨rfl, rfl, rfl, rfl, rfl⟩

theorem sameRegistry_purgatoryCheck (d : Daemon) (out : ℕ → TeardownOutcome) :
    SameRegistry d (packagePurgatoryCheck d out) := ⟨rfl, rfl, rfl, rfl, rfl⟩

/-! ### What registration leaves alone -/

/-- A call changes neither the instances nor the purgatory nor the loop devices. -/
structure SameMounts (d d' : Daemon) : Prop where
  instance_ : d'.p.instance_ = d.p.instance_
  purgatory : d'.p.purgatory = d.p.purgatory
  runCnt : d'.p.runCnt = d.p.runCnt
  loops : d'.loops = d.loops

namespace SameMounts

theorem refl (d : Daemon) : SameMounts d d := ⟨rfl, rfl, rfl, rfl⟩

theorem trans {a b c : Daemon} (h : SameMounts a b) (h' : SameMounts b c) : SameMounts a c :=
  ⟨h'.1.trans h.1, h'.2.trans h.2, h'.3.trans h.3, h'.4.trans h.4⟩

theorem foldl {β : Type*} {f : Daemon → β → Daemon} (h : ∀ d b, SameMounts d (f d b)) :
    ∀ (bs : List β) (d : Daemon), SameMounts d (bs.foldl f d)
  | [], d => refl d
  | b :: bs, d => (h d b).trans (foldl h bs (f d b))

end SameMounts

theorem sameMounts_add (d : Daemon) (e : Env) (s : PackageStrings) : SameMounts d (packageAdd d e s).2 := by
  unfold packageAdd
  split
  · exact .refl d
  · exact ⟨rfl, rfl, rfl, rfl⟩

theorem sameMounts_export (cfg : DBPConfig) (d : Daemon) (e : Env) (path : CStr) (i : ℕ) :
    SameMounts d (packageExport cfg d e path i) := by
  unfold packageExport
  split
  · exact .refl d
  · exact ⟨rfl, rfl, rfl, rfl⟩

theorem sameMounts_register (cfg : DBPConfig) (d : Daemon) (e : Env) (path device mount : CStr) :
    SameMounts d (packageRegister cfg d e path device mount).2.2 := by
  have hc := packageRegister_cases cfg d e path device mount
  generalize packageRegister cfg d e path device mount = r at hc ⊢
  cases hc with
  | unreadable _ _ => exact .refl d
  | noId _ _ _ => exact .refl d
  | rejected _ _ _ _ _ _ _ => exact .refl d
  | added df id h hid hc => exact (sameMounts_add d e _).trans (sameMounts_export cfg _ e path _)

theorem sameMounts_registerPath (cfg : DBPConfig) (d : Daemon) (e : Env) (device path mount : CStr) :
    SameMounts d (packageRegisterPath cfg d e device path mount).2.2 := by
  unfold packageRegisterPath
  split
  · exact .refl d
  · simp only
    split <;> exact sameMounts_register cfg d e path device mount

theorem sameMounts_crawlMount (cfg : DBPConfig) (d : Daemon) (e : Env) (device path : CStr) :
    SameMounts d (packageCrawlMount cfg d e device path) := by
  refine SameMounts.foldl (fun d dir => ?_) _ d
  unfold packageCrawl
  split
  · exact .refl d
  · exact SameMounts.foldl (fun d name => sameMounts_register cfg d e _ device path) _ d

theorem sameMounts_releasePath (cfg : DBPConfig) (d : Daemon) (path : CStr) :
    SameMounts d (packageReleasePath cfg d path).2 := by
  unfold packageReleasePath
  split
  · exact .refl d
  · simp only [packageKill]
    split
    · exact .refl d
    · exact ⟨rfl, rfl, rfl, rfl⟩

theorem sameMounts_releaseMount (cfg : DBPConfig) (d : Daemon) (device : CStr) :
    SameMounts d (packageReleaseMount cfg d device) := by
  rw [packageReleaseMount_eq]
  have hvisit : ∀ s : Option ℕ × Daemon, ∀ p ∈ d.p.entry, SameMounts d s.2 → SameMounts d (releaseVisit cfg device s p).1.2 := by
    intro s p _ hs
    unfold releaseVisit
    split_ifs
    · exact hs
    · exact hs
    · exact hs.trans ⟨rfl, rfl, rfl, rfl⟩
  have h := mapKeep_state (P := fun s : Option ℕ × Daemon => SameMounts d s.2) hvisit (none, d) (.refl d)
  exact ⟨h.1, h.2, h.3, h.4⟩

/-- What a call other than a run, a stop or a check leaves alone. -/
theorem sameMounts_step (cfg : DBPConfig) (d : Daemon) {op : DaemonOp} (hrun : ∀ ret id user, op ≠ .run ret id user)
    (hstop : ∀ now runId, op ≠ .stop now runId) (hcheck : ∀ out, op ≠ .purgatoryCheck out) :
    SameMounts d (d.step cfg op) := by
  cases op with
  | registerPath e device path mount => exact sameMounts_registerPath cfg d e device path mount
  | crawlMount e device path => exact sameMounts_crawlMount cfg d e device path
  | releasePath path => exact sameMounts_releasePath cfg d path
  | releaseMount device => exact sameMounts_releaseMount cfg d device
  | run ret id user => exact absurd rfl (hrun ret id user)
  | stop now runId => exact absurd rfl (hstop now runId)
  | purgatoryCheck out => exact absurd rfl (hcheck out)

/-! ### Loop numbers -/

/-- All loop numbers in use have a property. -/
structure LoopsAll (P : ℤ → Prop) (d : Daemon) : Prop where
  instance_ : ∀ i ∈ d.p.instance_, P i.loop
  purgatory : ∀ q ∈ d.p.purgatory, P q.loopNumber

/-- A visit of the check leaves the loop number of an entry that stays. -/
theorem visit_entry {out : ℕ → TeardownOutcome} {s : ℕ × List LoopEvent} {q q' : PackagePurgatory}
    (h : (purgatoryVisit out s q).2 = some q') : q'.packageId = q.packageId ∧ q'.loopNumber = q.loopNumber := by
  unfold purgatoryVisit at h
  split_ifs at h with hc
  · simp only at h
    split_ifs at h
    obtain rfl := Option.some.inj h
    exact ⟨rfl, rfl⟩
  · obtain rfl := Option.some.inj h
    exact ⟨rfl, rfl⟩

/-- So do all visits. -/
theorem mem_purgatoryCheck {d : Daemon} {out : ℕ → TeardownOutcome} {q : PackagePurgatory}
    (h : q ∈ (packagePurgatoryCheck d out).p.purgatory) :
    ∃ q' ∈ d.p.purgatory, q.packageId = q'.packageId ∧ q.loopNumber = q'.loopNumber := by
  rw [packagePurgatoryCheck_eq] at h
  obtain ⟨q', hq', s, hs⟩ := mem_mapKeep h
  exact ⟨q', hq', visit_entry hs⟩

namespace LoopsAll

variable {P : ℤ → Prop} {d d' : Daemon}

theorem init (icons desktops execs : Dir) : LoopsAll P (Daemon.init icons desktops execs) :=
  ⟨by simp [Daemon.init, packageInit], by simp [Daemon.init, packageInit]⟩

theorem of_same (h : LoopsAll P d) (hs : SameMounts d d') : LoopsAll P d' :=
  ⟨hs.instance_ ▸ h.instance_, hs.purgatory ▸ h.purgatory⟩

/-- Only a mount brings a new loop number. -/
theorem run (h : LoopsAll P d) (hq : ∀ q ∈ d.p.purgatory, 0 ≤ q.loopNumber) {ret : ℤ} (hret : 0 ≤ ret → P ret)
    (id user : CStr) : LoopsAll P (packageRun d ret id user).2 := by
  have hc := packageRun_cases d ret id user hq
  generalize packageRun d ret id user = r at hc ⊢
  have hnew : ∀ {n : ℤ} {k : ℕ}, P n → ∀ i ∈ d.p.instance_ ++ [⟨id, k, n⟩], P i.loop := fun hn i hi => by
    rcases List.mem_append.mp hi with hi | hi
    · exact h.instance_ i hi
    · rw [List.mem_singleton.mp hi]
      exact hn
  cases hc with
  | shared i hi hid => exact ⟨hnew (h.instance_ i hi), h.purgatory⟩
  | revived pre post q hinst hq hid hre =>
    refine ⟨hnew (h.purgatory q (by rw [hq]; simp)), fun x hx => ?_⟩
    exact h.purgatory x (mem_of_rest hq hx)
  | mounted e he heid hinst hpurg h0 => exact ⟨hnew (hret h0), h.purgatory⟩
  | failed e he heid hret => exact ⟨h.instance_, h.purgatory⟩
  | refused err herr => exact h

theorem stop (h : LoopsAll P d) (now runId : ℤ) : LoopsAll P (packageStop d now runId).2 := by
  have hc := packageStop_cases d now runId
  generalize (packageStop d now runId).2 = d' at hc ⊢
  cases hc with
  | unknown hno => exact h
  | shared pre post i j hi hrun hj hid hne => exact ⟨fun x hx => h.instance_ x (mem_of_rest hi hx), h.purgatory⟩
  | last pre post i hi hrun hall =>
    refine ⟨fun x hx => h.instance_ x (mem_of_rest hi hx), fun q hq => ?_⟩
    rcases List.mem_append.mp hq with hq | hq
    · exact h.purgatory q hq
    · rw [List.mem_singleton.mp hq]
      exact h.instance_ i (by rw [hi]; simp)

theorem check (h : LoopsAll P d) (out : ℕ → TeardownOutcome) : LoopsAll P (packagePurgatoryCheck d out) := by
  refine ⟨?_, fun q hq => ?_⟩
  · rw [packagePurgatoryCheck_eq]
    exact h.instance_
  · obtain ⟨q', hq', -, hloop⟩ := mem_purgatoryCheck hq
    rw [hloop]
    exact h.purgatory q' hq'

theorem step (cfg : DBPConfig) (h : LoopsAll P d) (hq : ∀ q ∈ d.p.purgatory, 0 ≤ q.loopNumber) {op : DaemonOp}
    (hop : ∀ ret id user, op = .run ret id user → 0 ≤ ret → P ret) : LoopsAll P (d.step cfg op) := by
  cases op with
  | run ret id user => exact h.run hq (hop ret id user rfl) id user
  | stop now runId => exact h.stop now runId
  | purgatoryCheck out => exact h.check out
  | _ => exact h.of_same (sameMounts_step cfg d (by simp) (by simp) (by simp))

end LoopsAll

/-- No loop number in use is negative. -/
structure LoopsNonneg (d : Daemon) : Prop where
  instance_ : ∀ i ∈ d.p.instance_, 0 ≤ i.loop
  purgatory : ∀ q ∈ d.p.purgatory, 0 ≤ q.loopNumber

namespace LoopsNonneg

variable {d d' : Daemon}

theorem iff_all : LoopsNonneg d ↔ LoopsAll (0 ≤ ·) d := ⟨fun h => ⟨h.1, h.2⟩, fun h => ⟨h.1, h.2⟩⟩

theorem init (icons desktops execs : Dir) : LoopsNonneg (Daemon.init icons desktops execs) :=
  iff_all.mpr (.init icons desktops execs)

theorem of_same (h : LoopsNonneg d) (hs : SameMounts d d') : LoopsNonneg d' := iff_all.mpr ((iff_all.mp h).of_same hs)

theorem run (h : LoopsNonneg d) (ret : ℤ) (id user : CStr) : LoopsNonneg (packageRun d ret id user).2 :=
  iff_all.mpr ((iff_all.mp h).run h.purgatory (fun h0 => h0) id user)

theorem stop (h : LoopsNonneg d) (now runId : ℤ) : LoopsNonneg (packageStop d now runId).2 :=
  iff_all.mpr ((iff_all.mp h).stop now runId)

theorem check (h : LoopsNonneg d) (out : ℕ → TeardownOutcome) : LoopsNonneg (packagePurgatoryCheck d out) :=
  iff_all.mpr ((iff_all.mp h).check out)

theorem step (cfg : DBPConfig) (h : LoopsNonneg d) (op : DaemonOp) : LoopsNonneg (d.step cfg op) :=
  iff_all.mpr ((iff_all.mp h).step cfg h.purgatory fun _ _ _ _ h0 => h0)

end LoopsNonneg

end Dbp
