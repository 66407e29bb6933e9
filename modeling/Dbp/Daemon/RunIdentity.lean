/-
# Run ids

`package_run` numbers the instances by `run_cnt`, which starts again at 0
when it wraps around, and `package_stop` ends the first instance of a number.
As long as no run takes a number that a live instance still has, the numbers
are pairwise distinct in every state and a stop ends the instance whose run
returned the number; and only then (`run_identity`). After 2^31 runs, the
first of which is still live, another instance has its number
(`run_identity_wrapped`).

Key definitions: `Launches`, `FreshRunId`, `CounterOk`, `RunIdentity`.
Key theorems: `packageRun_launch`, `nodup_step_iff`, `packageStop_live`, `run_identity`.
-/
import Dbp.Daemon.Ownership

namespace Dbp

open CLib Sweep Find Runs

/-- `package_run` comes to a new instance: the package has one already, or its entry in purgatory can be
used, or it is registered and mounted with result `ret`. -/
def Launches (d : Daemon) (ret : ℤ) (id : CStr) : Prop :=
  (∃ i ∈ d.p.instance_, i.packageId = id) ∨
    match d.p.purgatory.find? fun q => q.packageId == id with
    | some q => 1 ≤ q.reusable
    | none => 0 ≤ ret ∧ (packageFind d.p id).isSome

instance (d : Daemon) (ret : ℤ) (id : CStr) : Decidable (Launches d ret id) := by
  unfold Launches
  cases d.p.purgatory.find? fun q => q.packageId == id <;> infer_instance

/-- A run that comes to a new instance takes a run id no live instance has. -/
def FreshRunId (d : Daemon) : DaemonOp → Prop
  | .run ret id _ => Launches d ret id → ∀ i ∈ d.p.instance_, (i.runId : ℤ) ≠ d.p.runCnt
  | _ => True

instance (d : Daemon) : (op : DaemonOp) → Decidable (FreshRunId d op)
  | .run ret id _ => inferInstanceAs (Decidable (Launches d ret id → ∀ i ∈ d.p.instance_, (i.runId : ℤ) ≠ d.p.runCnt))
  | .registerPath .. | .crawlMount .. | .releasePath .. | .releaseMount .. | .stop .. | .purgatoryCheck .. =>
    isTrue trivial

/-- The counter and the run ids are non-negative as `int`s. -/
structure CounterOk (d : Daemon) : Prop where
  cnt_nonneg : 0 ≤ d.p.runCnt
  cnt_lt : d.p.runCnt < 2 ^ 31
  id_lt : ∀ i ∈ d.p.instance_, i.runId < 2 ^ 31
  loops : LoopsNonneg d

/-- The counter after a run. -/
def nextRunCnt (cnt : ℤ) : ℤ := if cnt + 1 = 2 ^ 31 then 0 else cnt + 1

theorem packageRunMounted_eq {p : Package} (h0 : 0 ≤ p.runCnt) (h1 : p.runCnt < 2 ^ 31) (id : CStr) (loop : ℤ) :
    packageRunMounted p id loop = (p.runCnt,
      { p with runCnt := nextRunCnt p.runCnt, instance_ := p.instance_ ++ [⟨id, p.runCnt.toNat, loop⟩] }) := by
  have hid : (p.runCnt % 2 ^ 32).toNat = p.runCnt.toNat := by omega
  have hret : toInt32 (p.runCnt.toNat : ℤ) = p.runCnt := by
    rw [Int.toNat_of_nonneg h0]
    exact toInt32_eq (by omega) h1
  have hcnt : (if toInt32 (p.runCnt + 1) < 0 then 0 else toInt32 (p.runCnt + 1)) = nextRunCnt p.runCnt := by
    unfold nextRunCnt
    split_ifs with hneg hwrap hwrap
    · rfl
    · rw [toInt32_eq (by omega) (by omega)] at hneg
      omega
    · rw [hwrap] at hneg
      exact absurd (by decide) hneg
    · exact toInt32_eq (by omega) (by omega)
  simp only [packageRunMounted, hid, hret, hcnt]

/-- What a run does to the instances and the counter. -/
inductive LaunchCase (d : Daemon) (ret : ℤ) (id : CStr) : ℤ × Daemon → Prop
  | launched (loop : ℤ) (d' : Daemon) (hl : Launches d ret id)
    (hinst : d'.p.instance_ = d.p.instance_ ++ [⟨id, d.p.runCnt.toNat, loop⟩])
    (hcnt : d'.p.runCnt = nextRunCnt d.p.runCnt) : LaunchCase d ret id (d.p.runCnt, d')
  | refused (err : ℤ) (d' : Daemon) (hl : ¬ Launches d ret id) (herr : err < 0)
    (hinst : d'.p.instance_ = d.p.instance_) (hcnt : d'.p.runCnt = d.p.runCnt) : LaunchCase d ret id (err, d')

section Launch

variable {d : Daemon} (h : CounterOk d)
include h

theorem CounterOk.mounted {ret : ℤ} {id : CStr} (hl : Launches d ret id) {p : Package} {d' : Daemon} (loop : ℤ)
    (hp : p.instance_ = d.p.instance_) (hcnt : p.runCnt = d.p.runCnt) (hd : d'.p = (packageRunMounted p id loop).2) :
    LaunchCase d ret id ((packageRunMounted p id loop).1, d') := by
  have heq := packageRunMounted_eq (hcnt ▸ h.cnt_nonneg) (hcnt ▸ h.cnt_lt) id loop
  rw [heq] at hd ⊢
  rw [hcnt]
  exact .launched loop d' hl (by rw [hd, hp, hcnt]) (by rw [hd, hcnt])

theorem packageRunMount_launch (ret : ℤ) {id : CStr} (user : CStr) (hinst : ∀ i ∈ d.p.instance_, i.packageId ≠ id)
    (hpurg : ∀ q ∈ d.p.purgatory, q.packageId ≠ id) : LaunchCase d ret id (packageRunMount d ret id user) := by
  have hnone : (d.p.purgatory.find? fun q => q.packageId == id) = none := by simpa using hpurg
  have hiff : Launches d ret id ↔ 0 ≤ ret ∧ (packageFind d.p id).isSome := by
    unfold Launches
    rw [hnone]
    exact or_iff_right fun ⟨i, hi, he⟩ => hinst i hi he
  unfold packageRunMount
  cases hf : packageFind d.p id with
  | none =>
    refine .refused _ d (fun hl => ?_) (by decide) rfl rfl
    rw [hiff, hf] at hl
    exact absurd hl.2 (by simp)
  | some k =>
    obtain ⟨pre, e, post, hes, rfl, -, -⟩ := findIdx?_split hf
    have hget : d.p.entry[pre.length]? = some e := by simp [hes]
    simp only [Option.bind_some, hget]
    by_cases hret : ret < 0
    · rw [if_pos hret]
      exact .refused _ _ (fun hl => by have := (hiff.mp hl).1; omega) hret rfl rfl
    · rw [if_neg hret]
      exact h.mounted (hiff.mpr ⟨by omega, by rw [hf]; rfl⟩) ret rfl rfl rfl

theorem packageRun_launch (ret : ℤ) (id user : CStr) : LaunchCase d ret id (packageRun d ret id user) := by
  cases placeCase d.p id with
  | running i hi hid hfind =>
    rw [packageRun_shared ret user hfind]
    exact h.mounted (.inl ⟨i, hi, hid⟩) i.loop rfl rfl rfl
  | away hinst hpurg hfind =>
    rw [packageRun_unmounted ret user hinst hpurg]
    exact packageRunMount_launch h ret user hinst hpurg
  | parked pre post q hinst hq hid hpre hfind =>
    have hiff : Launches d ret id ↔ 1 ≤ q.reusable := by
      unfold Launches
      rw [hfind]
      exact or_iff_right fun ⟨i, hi, he⟩ => hinst i hi he
    have hloop := h.loops.purgatory q (by rw [hq]; simp)
    rw [packageRun_parked ret user hinst hq hid hpre hloop]
    by_cases hre : q.reusable < 1
    · rw [if_pos hre]
      exact .refused _ d (fun hl => by have := hiff.mp hl; omega) (by decide) rfl rfl
    · rw [if_neg hre]
      exact h.mounted (hiff.mpr (by omega)) q.loopNumber rfl rfl rfl

end Launch

/-! ### One call -/

/-- The run ids of the live instances. -/
abbrev Daemon.runIds (d : Daemon) : List ℕ := d.p.instance_.map (·.runId)

theorem nextRunCnt_bound {cnt : ℤ} (h0 : 0 ≤ cnt) (h1 : cnt < 2 ^ 31) : 0 ≤ nextRunCnt cnt ∧ nextRunCnt cnt < 2 ^ 31 := by
  unfold nextRunCnt
  split_ifs <;> omega

theorem counterOk_init (icons desktops execs : Dir) : CounterOk (Daemon.init icons desktops execs) where
  cnt_nonneg := by simp [Daemon.init, packageInit]
  cnt_lt := by simp [Daemon.init, packageInit]
  id_lt := by simp [Daemon.init, packageInit]
  loops := .init icons desktops execs

theorem CounterOk.of_subset {d d' : Daemon} (h : CounterOk d) (hcnt : d'.p.runCnt = d.p.runCnt)
    (hinst : d'.p.instance_ ⊆ d.p.instance_) (hloops : LoopsNonneg d') : CounterOk d' where
  cnt_nonneg := hcnt ▸ h.cnt_nonneg
  cnt_lt := hcnt ▸ h.cnt_lt
  id_lt i hi := h.id_lt i (hinst hi)
  loops := hloops

theorem CounterOk.of_same {d d' : Daemon} (h : CounterOk d) (hs : SameMounts d d') : CounterOk d' :=
  h.of_subset hs.runCnt (hs.instance_ ▸ List.Subset.refl _) (h.loops.of_same hs)

section Step

variable {d : Daemon} (h : CounterOk d)
include h

theorem CounterOk.step (cfg : DBPConfig) (op : DaemonOp) : CounterOk (d.step cfg op) := by
  have hloops := h.loops.step cfg op
  cases op with
  | run ret id user =>
    simp only [Daemon.step] at hloops ⊢
    have hc := packageRun_launch h ret id user
    generalize packageRun d ret id user = r at hc hloops ⊢
    cases hc with
    | launched loop d' hl hinst hcnt =>
      obtain ⟨h0, h1⟩ := nextRunCnt_bound h.cnt_nonneg h.cnt_lt
      refine ⟨hcnt ▸ h0, hcnt ▸ h1, fun i hi => ?_, hloops⟩
      rw [hinst] at hi
      rcases List.mem_append.mp hi with hi | hi
      · exact h.id_lt i hi
      · have hlt := h.cnt_lt
        have h0 := h.cnt_nonneg
        rw [List.mem_singleton.mp hi]
        show d.p.runCnt.toNat < 2 ^ 31
        omega
    | refused err d' hl herr hinst hcnt => exact h.of_subset hcnt (hinst ▸ List.Subset.refl _) hloops
  | stop now runId =>
    simp only [Daemon.step] at hloops ⊢
    have hc := packageStop_cases d now runId
    generalize (packageStop d now runId).2 = d' at hc hloops ⊢
    cases hc with
    | unknown hno => exact h
    | shared pre post i j hi hrun hj hid hne => exact h.of_subset rfl (fun x hx => mem_of_rest hi hx) hloops
    | last pre post i hi hrun hall => exact h.of_subset rfl (fun x hx => mem_of_rest hi hx) hloops
  | purgatoryCheck out => exact h.of_subset rfl (List.Subset.refl _) hloops
  | _ => exact h.of_same (sameMounts_step cfg d (by simp) (by simp) (by simp))

/-- The `int` of a live run id is the run id. -/
theorem CounterOk.toInt32_runId {i : PackageInstance} (hi : i ∈ d.p.instance_) : toInt32 i.runId = i.runId :=
  toInt32_eq (by omega) (by exact_mod_cast h.id_lt i hi)

/-- What a stop leaves of the instances: all of them, or all but one of the run id. -/
theorem packageStop_instances (now runId : ℤ) :
    ((∀ i ∈ d.p.instance_, (i.runId : ℤ) ≠ runId) ∧ (packageStop d now runId).2.p.instance_ = d.p.instance_) ∨
      ∃ pre i post, d.p.instance_ = pre ++ i :: post ∧ (i.runId : ℤ) = runId ∧
        (packageStop d now runId).2.p.instance_ = pre ++ post := by
  have hc := packageStop_cases d now runId
  generalize (packageStop d now runId).2 = d' at hc ⊢
  cases hc with
  | unknown hno =>
    refine .inl ⟨fun i hi => ?_, rfl⟩
    rw [← h.toInt32_runId hi]
    exact hno i hi
  | shared pre post i j hi hrun hj hid hne =>
    rw [h.toInt32_runId (by rw [hi]; simp)] at hrun
    exact .inr ⟨pre, i, post, hi, hrun, rfl⟩
  | last pre post i hi hrun hall =>
    rw [h.toInt32_runId (by rw [hi]; simp)] at hrun
    exact .inr ⟨pre, i, post, hi, hrun, rfl⟩

/-- **Run ids stay distinct in a call exactly when a run takes a fresh one.** -/
theorem nodup_step_iff (cfg : DBPConfig) (hnd : d.runIds.Nodup) (op : DaemonOp) :
    (d.step cfg op).runIds.Nodup ↔ FreshRunId d op := by
  cases op with
  | run ret id user =>
    simp only [Daemon.step, FreshRunId]
    have hc := packageRun_launch h ret id user
    generalize packageRun d ret id user = r at hc ⊢
    cases hc with
    | launched loop d' hl hinst hcnt =>
      have h0 := h.cnt_nonneg
      rw [Daemon.runIds, hinst, List.map_append, List.map_singleton, List.nodup_append_comm, List.singleton_append,
        List.nodup_cons, and_iff_left hnd]
      simp only [hl, forall_const, List.mem_map, not_exists, not_and]
      apply forall₂_congr
      intro i _
      omega
    | refused err d' hl herr hinst hcnt =>
      rw [Daemon.runIds, hinst]
      exact iff_of_true hnd fun hl' => absurd hl' hl
  | stop now runId =>
    refine iff_of_true ?_ trivial
    rcases packageStop_instances h now runId with ⟨-, he⟩ | ⟨pre, i, post, hi, -, he⟩
    · rw [Daemon.runIds, Daemon.step, he]
      exact hnd
    · rw [Daemon.runIds, Daemon.step, he]
      exact (nodup_rest hi hnd).2
  | purgatoryCheck out => exact iff_of_true hnd trivial
  | _ =>
    refine iff_of_true ?_ trivial
    rw [Daemon.runIds, (sameMounts_step cfg d (by simp) (by simp) (by simp)).instance_]
    exact hnd

/-- An instance lives on until it is stopped. -/
theorem live_step (cfg : DBPConfig) {i : PackageInstance} (hi : i ∈ d.p.instance_) {op : DaemonOp}
    (hop : ∀ now, op ≠ .stop now i.runId) : i ∈ (d.step cfg op).p.instance_ := by
  cases op with
  | run ret id user =>
    simp only [Daemon.step]
    have hc := packageRun_launch h ret id user
    generalize packageRun d ret id user = r at hc ⊢
    cases hc with
    | launched loop d' hl hinst hcnt => exact hinst ▸ List.mem_append_left _ hi
    | refused err d' hl herr hinst hcnt => exact hinst ▸ hi
  | stop now runId =>
    simp only [Daemon.step]
    rcases packageStop_instances h now runId with ⟨-, he⟩ | ⟨pre, j, post, hj, hrun, he⟩
    · exact he ▸ hi
    · rw [he]
      have hne : i ≠ j := by
        rintro rfl
        exact hop now (by rw [hrun])
      rw [hj] at hi
      simpa [hne] using hi
  | purgatoryCheck out => exact hi
  | _ =>
    rw [(sameMounts_step cfg d (by simp) (by simp) (by simp)).instance_]
    exact hi

/-- A stop ends the instance of the run id and leaves the others as they are, in order. -/
theorem packageStop_live (hnd : d.runIds.Nodup) {pre post : List PackageInstance} {i : PackageInstance}
    (hi : d.p.instance_ = pre ++ i :: post) (now : ℤ) :
    (packageStop d now i.runId).2.p.instance_ = pre ++ post := by
  rcases packageStop_instances h now i.runId with ⟨hno, -⟩ | ⟨pre', j, post', hj, hrun, he⟩
  · exact absurd rfl (hno i (by rw [hi]; simp))
  · have hnd' : ((pre' ++ j :: post').map (·.runId)).Nodup := by rwa [← hj]
    obtain ⟨rfl, rfl⟩ := split_unique (hj.symm.trans hi) hnd' (by exact_mod_cast hrun)
    exact he

end Step

/-! ### Runs -/

/-- What is asked of run ids, over a run of the daemon from `d`. -/
structure RunIdentity (cfg : DBPConfig) (d : Daemon) (ops : List DaemonOp) : Prop where
  /-- In every state the live instances have distinct run ids. -/
  distinct : ∀ pre, pre <+: ops → (d.run cfg pre).runIds.Nodup
  /-- A run that returned `r` made an instance that lives until `r` is stopped, and then ends alone. -/
  stop : ∀ pre ret id user mid, pre ++ .run ret id user :: mid <+: ops →
    let before := d.run cfg pre
    let r := packageRun before ret id user
    let after := d.run cfg (pre ++ .run ret id user :: mid)
    0 ≤ r.1 → (∀ now, .stop now r.1 ∉ mid) →
      ∃ i l₁ l₂, r.2.p.instance_ = before.p.instance_ ++ [i] ∧ i.packageId = id ∧
        after.p.instance_ = l₁ ++ i :: l₂ ∧ ∀ now, (packageStop after now r.1).2.p.instance_ = l₁ ++ l₂

theorem counterOk_run (cfg : DBPConfig) {d : Daemon} (h : CounterOk d) (ops : List DaemonOp) :
    CounterOk (d.run cfg ops) :=
  List.foldlRecOn ops _ h fun _ h op _ => h.step cfg op

theorem live_run (cfg : DBPConfig) {i : PackageInstance} : ∀ (ops : List DaemonOp) {d : Daemon}, CounterOk d →
    i ∈ d.p.instance_ → (∀ now, .stop now i.runId ∉ ops) → i ∈ (d.run cfg ops).p.instance_
  | [], _, _, hi, _ => hi
  | op :: ops, d, h, hi, hno => by
    refine live_run cfg ops (h.step cfg op) (live_step h cfg hi fun now he => ?_) fun now hm => ?_
    · exact hno now (by rw [he]; simp)
    · exact hno now (List.mem_cons_of_mem _ hm)

/-- With distinct run ids, a stop ends the instance whose run returned the id. -/
theorem runIdentity_of_distinct (cfg : DBPConfig) {d : Daemon} (h : CounterOk d) {ops : List DaemonOp}
    (hnd : ∀ pre, pre <+: ops → (d.run cfg pre).runIds.Nodup) : RunIdentity cfg d ops where
  distinct := hnd
  stop pre ret id user mid hpre hr hno := by
    have hbefore := counterOk_run cfg h pre
    have hafter := counterOk_run cfg h (pre ++ .run ret id user :: mid)
    have hsplit : d.run cfg (pre ++ .run ret id user :: mid) =
        (packageRun (d.run cfg pre) ret id user).2.run cfg mid := Daemon.run_append cfg d pre _
    have hok := hbefore.step cfg (.run ret id user)
    have hnd' := hnd _ hpre
    simp only [Daemon.step] at hok
    rw [hsplit] at hafter hnd' ⊢
    have hc := packageRun_launch hbefore ret id user
    generalize packageRun (d.run cfg pre) ret id user = r at hc hr hno hok hafter hnd' ⊢
    cases hc with
    | refused err d' hl herr hinst hcnt => exact absurd hr (by simp only; omega)
    | launched loop d' hl hinst hcnt =>
      have hid : (((d.run cfg pre).p.runCnt.toNat : ℕ) : ℤ) = (d.run cfg pre).p.runCnt := Int.toNat_of_nonneg hr
      have hlive := @live_run cfg ⟨id, (d.run cfg pre).p.runCnt.toNat, loop⟩ mid _ hok (by rw [hinst]; simp)
        (by simpa only [hid] using hno)
      obtain ⟨l₁, l₂, hl⟩ := List.append_of_mem hlive
      refine ⟨_, l₁, l₂, hinst, rfl, hl, fun now => ?_⟩
      have hstop := packageStop_live hafter hnd' hl now
      rwa [hid] at hstop

/-- **Run ids identify instances** over a run exactly when every run in it that comes to a new instance takes a
run id no live instance has. -/
theorem run_identity (cfg : DBPConfig) (icons desktops execs : Dir) (ops : List DaemonOp) :
    RunIdentity cfg (Daemon.init icons desktops execs) ops ↔
      Admissible (Daemon.step cfg) FreshRunId (Daemon.init icons desktops execs) ops := by
  have h0 := counterOk_init icons desktops execs
  have hiff := @run_iff _ _ (Daemon.step cfg) FreshRunId (fun d => CounterOk d ∧ d.runIds.Nodup) ops
    (Daemon.init icons desktops execs) (fun d op _ ⟨h, hnd⟩ => ?_) ⟨h0, List.nodup_nil⟩
  · rw [← hiff]
    refine ⟨fun h pre hpre => ⟨counterOk_run cfg h0 pre, h.distinct pre hpre⟩, fun h => ?_⟩
    exact runIdentity_of_distinct cfg h0 fun pre hpre => (h pre hpre).2
  · rw [← nodup_step_iff h cfg hnd op]
    exact ⟨fun h => h.2, fun hn => ⟨h.step cfg op, hn⟩⟩

/-! ### The counter wraps around -/

/-- The stop of the second of two instances of a package. -/
theorem packageStop_second {d : Daemon} {i j : PackageInstance} (hinst : d.p.instance_ = [i, j])
    (hid : i.packageId = j.packageId) {r : ℤ} (hi : toInt32 i.runId ≠ r) (hj : toInt32 j.runId = r) (now : ℤ) :
    (packageStop d now r).2 = { d with p := { d.p with instance_ := [i] } } := by
  have hc := packageStop_cases d now r
  generalize (packageStop d now r).2 = d' at hc ⊢
  cases hc with
  | unknown hno => exact absurd hj (hno j (by simp [hinst]))
  | shared pre post k l hk hrun hl hlid hne =>
    rw [hinst] at hk
    rcases pre with _ | ⟨x, pre⟩
    · obtain ⟨rfl, -⟩ := List.cons.inj hk
      exact absurd hrun hi
    · obtain ⟨rfl, ht⟩ := List.cons.inj hk
      rcases pre with _ | ⟨y, pre⟩
      · obtain ⟨-, rfl⟩ := List.cons.inj ht
        rfl
      · exact absurd (congrArg List.length ht) (by simp)
  | last pre post k hk hrun hall =>
    have hkj : k = j := by
      have hmem : k ∈ d.p.instance_ := by rw [hk]; simp
      rw [hinst] at hmem
      rcases List.mem_pair.mp hmem with rfl | rfl
      · exact absurd hrun hi
      · rfl
    subst hkj
    exact absurd (hall i (by simp [hinst]) hid) hi

/-- A run of the only package that is running, and a stop of the new instance. -/
theorem run_stop_round (cfg : DBPConfig) {d : Daemon} {i : PackageInstance} (hi : d.p.instance_ = [i])
    (h0 : i.runId < d.p.runCnt) (h1 : d.p.runCnt < 2 ^ 31) (ret now : ℤ) (user : CStr) :
    d.run cfg [.run ret i.packageId user, .stop now d.p.runCnt] =
      { d with p := { d.p with runCnt := nextRunCnt d.p.runCnt } } := by
  have hpos : 0 ≤ d.p.runCnt := by omega
  have hfind : (d.p.instance_.find? fun j => j.packageId == i.packageId) = some i := by simp [hi]
  have hold : toInt32 (i.runId : ℤ) ≠ d.p.runCnt := by
    rw [toInt32_eq (by omega) (by omega)]
    omega
  have hnew : toInt32 (d.p.runCnt.toNat : ℤ) = d.p.runCnt := by
    rw [Int.toNat_of_nonneg hpos]
    exact toInt32_eq (by omega) h1
  have hrun : d.step cfg (.run ret i.packageId user) = { d with p := { d.p with
      runCnt := nextRunCnt d.p.runCnt, instance_ := [i, ⟨i.packageId, d.p.runCnt.toNat, i.loop⟩] } } := by
    rw [Daemon.step, packageRun_shared ret user hfind, packageRunMounted_eq hpos h1, hi]
    rfl
  rw [Daemon.run, List.foldl_cons, hrun, List.foldl_cons, List.foldl_nil, Daemon.step]
  refine (@packageStop_second _ i ⟨i.packageId, d.p.runCnt.toNat, i.loop⟩ rfl rfl _ hold hnew now).trans ?_
  rw [← hi]

/-- A package that keeps running, and another one. -/
def wrapStart : List DaemonOp :=
  let e := demoEnv [(lit "/m/a.dbp", [demoMeta (lit "a")]), (lit "/m/b.dbp", [demoMeta (lit "b")])]
  [.registerPath e (lit "/dev/sda1") (lit "/m/a.dbp") (lit "/m"),
    .registerPath e (lit "/dev/sda1") (lit "/m/b.dbp") (lit "/m"), .run 3 (lit "a") (lit "u")]

/-- `n` more instances of the first package, one after the other. -/
def wrapRounds (n : ℕ) : List DaemonOp :=
  (List.range n).flatMap fun (k : ℕ) => [.run (-1) (lit "a") (lit "u"), .stop 0 (k + 1)]

/-- The daemon before the rounds. -/
def wrapDaemon : Daemon := Daemon.run demoConfig (Daemon.init [] [] []) wrapStart

theorem run_wrapRounds : ∀ n ≤ 2 ^ 31 - 1, wrapDaemon.run demoConfig (wrapRounds n) =
    { wrapDaemon with p := { wrapDaemon.p with runCnt := if n = 2 ^ 31 - 1 then 0 else (n : ℤ) + 1 } }
  | 0, _ => by decide
  | n + 1, hn => by
    have ih := run_wrapRounds n (by omega)
    have hlt : n ≠ 2 ^ 31 - 1 := by omega
    rw [if_neg hlt] at ih
    have hsplit : wrapRounds (n + 1) = wrapRounds n ++ [.run (-1) (lit "a") (lit "u"), .stop 0 (n + 1)] := by
      simp [wrapRounds, List.range_succ]
    have hinst : wrapDaemon.p.instance_ = [⟨lit "a", 0, 3⟩] := by decide
    have hround := @run_stop_round demoConfig
      { wrapDaemon with p := { wrapDaemon.p with runCnt := (n : ℤ) + 1 } } ⟨lit "a", 0, 3⟩ hinst
      (by show ((0 : ℕ) : ℤ) < (n : ℤ) + 1; omega) (by show (n : ℤ) + 1 < 2 ^ 31; omega) (-1) 0 (lit "u")
    rw [hsplit, Daemon.run_append, ih]
    refine hround.trans ?_
    have hnext : nextRunCnt ((n : ℤ) + 1) = if n + 1 = 2 ^ 31 - 1 then 0 else ((n + 1 : ℕ) : ℤ) + 1 := by
      unfold nextRunCnt
      split_ifs <;> omega
    rw [hnext]

/-- After 2^31 instances of the first package, the second one gets the run id of the instance still live. -/
theorem run_identity_wrapped : ¬ RunIdentity demoConfig (Daemon.init [] [] [])
    (wrapStart ++ wrapRounds (2 ^ 31 - 1) ++ [.run 5 (lit "b") (lit "u")]) := fun h => by
  have hnd := h.distinct _ List.prefix_rfl
  have hrounds := run_wrapRounds (2 ^ 31 - 1) le_rfl
  rw [if_pos rfl] at hrounds
  have hstart : Daemon.run demoConfig (Daemon.init [] [] []) wrapStart = wrapDaemon := rfl
  rw [Daemon.run_append, Daemon.run_append, hstart, hrounds] at hnd
  exact absurd hnd (by decide)

end Dbp
