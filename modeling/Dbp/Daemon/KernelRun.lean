/-
# The daemon on its kernel

A run of the daemon records its calls on loop devices and mounts. Here a kernel
answers them, one after the other, from the kernel `k₀` that the daemon found:
`dbp_loop_mount` with whatever device it finds free, the steps of
`dbp_loop_umount` with or without success. That a mounted device is nobody
else's, which the accounts of the daemon take for granted, is the kernel's
doing. After every run the kernel is `k₀` with the packages on top that the
daemon has in its lists, as far as it has them (`kernel_matches`): no mount or
device is lost, and none is touched that is not the daemon's. When nothing
runs, one check that goes through brings back `k₀` itself (`kernel_restored`).

Key definitions: `Staged`, `stages`, `Matched`, `Sound`.
Key theorems: `holds_umount`, `Sound.run`, `Sound.stop`, `Sound.check`, `kernel_matches`, `kernel_restored`.
-/
import Dbp.Base.LoopAnswers
import Dbp.Daemon.Ownership
import Dbp.Daemon.Teardown

namespace Dbp

open CLib Sweep Find Leases Runs

/-! ### A teardown on the kernel -/

section Umount

variable {cfg : LoopConfig} {k₀ k k' : LoopKernel} {σ : Stages} {id : CStr} {n : ℤ}

/-- The stages after an attempt with this result. -/
def Stages.after (σ : Stages) (id : CStr) (n ret : ℤ) : Stages :=
  Function.update σ id (if ret = 0 then none else some (n, stepsDone ret))

theorem Stages.after_self (ret : ℤ) (hid : σ id = some (n, stepsDone ret)) (h : ret ≠ 0) : σ.after id n ret = σ := by
  rw [Stages.after, if_neg h, ← hid, Function.update_eq_self]

theorem Stages.after_update (ret : ℤ) (v : Option (ℤ × ℕ)) :
    Stages.after (Function.update σ id v) id n ret = σ.after id n ret := Function.update_idem ..

theorem holds_umountLoop (h : KernelHolds cfg k₀ k σ) (hid : σ id = some (n, 2)) (o : TeardownOutcome)
    (hk : AnswersAll cfg k (loopUmountLoop o id n).2 k') :
    KernelHolds cfg k₀ k' (σ.after id n (loopUmountLoop o id n).1) := by
  unfold loopUmountLoop at hk ⊢
  cases ho : o.reset with
  | true =>
    rw [ho] at hk
    cases answersAll_singleton.mp hk with
    | loopReset _ _ hb hu => exact h.loopReset hid hu
  | false =>
    rw [ho] at hk
    cases answersAll_singleton.mp hk with
    | busyLoop => exact (Stages.after_self (-3) hid (by decide)).symm ▸ h

theorem holds_umountImg (hcfg : Separate cfg) (h : KernelHolds cfg k₀ k σ) (hid : σ id = some (n, 1)) (o : TeardownOutcome)
    {prev : ℤ} (hp : ¬ prev < -2) (hk : AnswersAll cfg k (loopUmountImg o id n prev).2 k') :
    KernelHolds cfg k₀ k' (σ.after id n (loopUmountImg o id n prev).1) := by
  unfold loopUmountImg at hk ⊢
  rw [if_neg hp] at hk ⊢
  cases ho : o.img with
  | true =>
    rw [ho] at hk
    obtain ⟨k₁, h1, h2⟩ := hk
    cases h1 with
    | umountImg _ hm =>
      have hnext := holds_umountLoop (h.umountImg hcfg hid) (Function.update_self ..) o h2
      rwa [Stages.after_update] at hnext
  | false =>
    rw [ho] at hk
    cases answersAll_singleton.mp hk with
    | busyImg => exact (Stages.after_self (-2) hid (by decide)).symm ▸ h

theorem holds_umountUnion (hcfg : Separate cfg) (h : KernelHolds cfg k₀ k σ) (hid : σ id = some (n, 0))
    (o : TeardownOutcome) (hk : AnswersAll cfg k (dbpLoopUmount o id n 1).2 k') :
    KernelHolds cfg k₀ k' (σ.after id n (dbpLoopUmount o id n 1).1) := by
  unfold dbpLoopUmount at hk ⊢
  rw [if_neg (by decide)] at hk ⊢
  cases ho : o.union with
  | true =>
    rw [ho] at hk
    obtain ⟨k₁, h1, h2⟩ := hk
    cases h1 with
    | umountUnion _ hm =>
      have hnext := holds_umountImg hcfg (h.umountUnion hcfg hid) (Function.update_self ..) o (by decide) h2
      rwa [Stages.after_update] at hnext
  | false =>
    rw [ho] at hk
    cases answersAll_singleton.mp hk with
    | busyUnion => exact (Stages.after_self 1 hid (by decide)).symm ▸ h

/-- **An attempt on the kernel** takes the package on from where its last attempt stopped. -/
theorem holds_umount (hcfg : Separate cfg) (h : KernelHolds cfg k₀ k σ) {state : ℤ} (hs : Pending state)
    (hid : σ id = some (n, stepsDone state)) (o : TeardownOutcome) (hk : AnswersAll cfg k (dbpLoopUmount o id n state).2 k') :
    KernelHolds cfg k₀ k' (σ.after id n (dbpLoopUmount o id n state).1) := by
  rcases hs with rfl | rfl | rfl
  · exact holds_umountUnion hcfg h hid o hk
  · exact holds_umountImg hcfg h hid o (show ¬ (-2 : ℤ) < -2 by decide) hk
  · exact holds_umountLoop h hid o hk

/-- Every step of a teardown succeeds. -/
def TeardownOutcome.ok : TeardownOutcome := ⟨true, true, true⟩

theorem exists_umountLoop (h : KernelHolds cfg k₀ k σ) (hid : σ id = some (n, 2)) :
    ∃ k', AnswersAll cfg k (loopUmountLoop .ok id n).2 k' :=
  ⟨_, answersAll_singleton.mpr (.loopReset id n (h.devices.bound hid).2 (h.not_inUse hid))⟩

theorem exists_umountImg (hcfg : Separate cfg) (h : KernelHolds cfg k₀ k σ) (hid : σ id = some (n, 1)) {prev : ℤ}
    (hp : ¬ prev < -2) : ∃ k', AnswersAll cfg k (loopUmountImg .ok id n prev).2 k' := by
  obtain ⟨k', hk'⟩ := exists_umountLoop (h.umountImg hcfg hid) (Function.update_self ..)
  unfold loopUmountImg
  rw [if_neg hp]
  exact ⟨k', _, .umountImg id ((h.mountedOn hid).2 (by decide)), hk'⟩

/-- Nothing but a step that fails keeps a teardown from its end. -/
theorem exists_umount (hcfg : Separate cfg) (h : KernelHolds cfg k₀ k σ) {state : ℤ} (hs : Pending state)
    (hid : σ id = some (n, stepsDone state)) : ∃ k', AnswersAll cfg k (dbpLoopUmount .ok id n state).2 k' := by
  rcases hs with rfl | rfl | rfl
  · obtain ⟨k', hk'⟩ := exists_umountImg hcfg (h.umountUnion hcfg hid) (Function.update_self ..) (show ¬ (1 : ℤ) < -2 by decide)
    exact ⟨k', _, .umountUnion id ((h.mountedOn hid).1 (by decide)), hk'⟩
  · exact exists_umountImg hcfg h hid (show ¬ (-2 : ℤ) < -2 by decide)
  · exact exists_umountLoop h hid

theorem umount_ok (id : CStr) (n state : ℤ) : (dbpLoopUmount .ok id n state).1 = 0 := by
  have himg : ∀ prev, (loopUmountImg .ok id n prev).1 = 0 := fun prev => by
    unfold loopUmountImg
    by_cases hp : prev < -2 <;> simp [hp, loopUmountLoop, TeardownOutcome.ok]
  unfold dbpLoopUmount
  by_cases hs : state < -1
  · rw [if_pos hs]
    exact himg state
  · rw [if_neg hs]
    exact himg _

end Umount

/-! ### Stages of the daemon's packages -/

/-- How far the daemon is with its packages: those with an instance are in place, those in purgatory as their entries
say. -/
def Staged (d : Daemon) (σ : Stages) : Prop := ∀ id n j, σ id = some (n, j) ↔
  (j = 0 ∧ ∃ i ∈ d.p.instance_, i.packageId = id ∧ i.loop = n) ∨
    ∃ q ∈ d.p.purgatory, q.packageId = id ∧ q.loopNumber = n ∧ stepsDone q.reusable = j

/-- The stages, from the lists. -/
def stages (d : Daemon) : Stages := fun id =>
  match d.p.instance_.find? fun i => i.packageId == id with
  | some i => some (i.loop, 0)
  | none => (d.p.purgatory.find? fun q => q.packageId == id).map fun q => (q.loopNumber, stepsDone q.reusable)

theorem Staged.eq_stages {d : Daemon} {σ : Stages} (h : Staged d σ) : σ = stages d := by
  funext id
  unfold stages
  cases hi : d.p.instance_.find? fun i => i.packageId == id with
  | some i =>
    have hid : i.packageId = id := by simpa using List.find?_some hi
    exact (h id i.loop 0).mpr (.inl ⟨rfl, i, List.mem_of_find?_eq_some hi, hid, rfl⟩)
  | none =>
    cases hq : d.p.purgatory.find? fun q => q.packageId == id with
    | some q =>
      have hid : q.packageId = id := by simpa using List.find?_some hq
      exact (h id q.loopNumber _).mpr (.inr ⟨q, List.mem_of_find?_eq_some hq, hid, rfl, rfl⟩)
    | none =>
      refine Option.eq_none_iff_forall_ne_some.mpr fun ⟨n, j⟩ hid => ?_
      rcases (h id n j).mp hid with ⟨-, i, him, he, -⟩ | ⟨q, hqm, he, -⟩
      · exact absurd he (by simpa using List.find?_eq_none.mp hi i him)
      · exact absurd he (by simpa using List.find?_eq_none.mp hq q hqm)

/-- The kernel is what the daemon's lists say. -/
structure Matched (cfg : LoopConfig) (k₀ k : LoopKernel) (d : Daemon) : Prop where
  lease : ∃ L, Represents d L
  pending : ∀ q ∈ d.p.purgatory, Pending q.reusable
  held : ∃ σ, Staged d σ ∧ KernelHolds cfg k₀ k σ

/-- Whatever the kernel has answered, it is what the daemon's lists say. -/
def Sound (cfg : LoopConfig) (k₀ : LoopKernel) (d : Daemon) : Prop :=
  ∀ k, AnswersAll cfg k₀ d.loops k → Matched cfg k₀ k d

/-! ### Runs and stops -/

section Calls

variable {cfg : LoopConfig} {k₀ k : LoopKernel} {d d' : Daemon} {σ : Stages}

theorem Staged.absent (h : Staged d σ) {id : CStr} (hinst : ∀ i ∈ d.p.instance_, i.packageId ≠ id)
    (hpurg : ∀ q ∈ d.p.purgatory, q.packageId ≠ id) : σ id = none := by
  refine Option.eq_none_iff_forall_ne_some.mpr fun ⟨n, j⟩ hid => ?_
  rcases (h id n j).mp hid with ⟨-, hi⟩ | hq
  · exact not_exists_key hinst hi
  · exact not_exists_key hpurg hq

/-- One more instance of a package, on the device of another. -/
theorem Staged.shared (h : Staged d σ) {i : PackageInstance} (hi : i ∈ d.p.instance_) {id : CStr} (hid : i.packageId = id) :
    Staged { d with p := (packageRunMounted d.p id i.loop).2 } σ := by
  intro a n j
  rw [h a n j]
  simp only [packageRunMounted, exists_mem_concat]
  refine or_congr_left (and_congr_right fun _ => ⟨.inl, ?_⟩)
  rintro (hold | ⟨rfl, rfl⟩)
  · exact hold
  · exact ⟨i, hi, hid, rfl⟩

/-- A package that is taken back from purgatory, where nothing was done to it yet. -/
theorem Staged.revived (h : Staged d σ) {L : Lease CStr ℤ} (hL : Represents d L) {pre post : List PackagePurgatory}
    {q : PackagePurgatory} (hq : d.p.purgatory = pre ++ q :: post) (hdone : stepsDone q.reusable = 0) :
    Staged { d with p := (packageRunMounted { d.p with purgatory := pre ++ post } q.packageId q.loopNumber).2 } σ := by
  intro a n j
  obtain ⟨hother, -⟩ := nodup_rest hq hL.nodup
  rw [h a n j, hq, exists_mem_middle]
  simp only [packageRunMounted, exists_mem_concat, hdone]
  constructor
  · rintro (⟨h0, hi⟩ | ⟨he, hn, h0⟩ | hx)
    · exact .inl ⟨h0, .inl hi⟩
    · exact .inl ⟨h0.symm, .inr ⟨he, hn⟩⟩
    · exact .inr hx
  · rintro (⟨h0, hi | ⟨he, hn⟩⟩ | hx)
    · exact .inl ⟨h0, hi⟩
    · exact .inr (.inl ⟨he, hn, h0.symm⟩)
    · exact .inr (.inr hx)

/-- A package that is mounted. -/
theorem Staged.mounted (h : Staged d σ) {id : CStr} (hinst : ∀ i ∈ d.p.instance_, i.packageId ≠ id)
    (hpurg : ∀ q ∈ d.p.purgatory, q.packageId ≠ id) (n : ℤ) (evs : List LoopEvent) :
    Staged { d with p := (packageRunMounted d.p id n).2, loops := evs } (Function.update σ id (some (n, 0))) := by
  intro a m j
  simp only [packageRunMounted, exists_mem_concat]
  by_cases ha : a = id
  · subst ha
    rw [Function.update_self, Option.some.injEq, Prod.mk.injEq]
    constructor
    · rintro ⟨rfl, rfl⟩
      exact .inl ⟨rfl, .inr ⟨rfl, rfl⟩⟩
    · rintro (⟨h0, hi | ⟨-, hn⟩⟩ | hq)
      · exact absurd hi (not_exists_key hinst)
      · exact ⟨hn, h0.symm⟩
      · exact absurd hq (not_exists_key hpurg)
  · have hne : ¬ (id = a ∧ n = m) := fun he => ha he.1.symm
    rw [Function.update_of_ne ha, h a m j, or_iff_left hne]

/-- **A run.** The device of a mount is one that nobody has. -/
theorem Sound.run (hcfg : Separate cfg) (h : Sound cfg k₀ d) (hloops : LoopsNonneg d) (ret : ℤ) (id user : CStr) :
    Sound cfg k₀ (packageRun d ret id user).2 := by
  intro k hk
  have hc := packageRun_cases d ret id user hloops.purgatory
  generalize packageRun d ret id user = r at hc hk ⊢
  cases hc with
  | shared i hi hid =>
    obtain ⟨⟨L, hL⟩, hpend, σ, hσ, hheld⟩ := h k hk
    exact ⟨⟨L, hL.run_shared hi id hid⟩, hpend, σ, hσ.shared hi hid, hheld⟩
  | revived pre post q hinst hq hid hre =>
    obtain ⟨⟨L, hL⟩, hpend, σ, hσ, hheld⟩ := h k hk
    subst hid
    have hdone : stepsDone q.reusable = 0 := by
      rcases hpend q (by rw [hq]; simp) with he | he | he
      · rw [he]
        rfl
      · omega
      · omega
    exact ⟨⟨_, hL.run_revived q.packageId hinst hq rfl⟩, fun x hx => hpend x (mem_of_rest hq hx), σ,
      hσ.revived hL hq hdone, hheld⟩
  | mounted e he heid hinst hpurg hret =>
    obtain ⟨k₁, hk₁, hlast⟩ := answersAll_append.mp hk
    obtain ⟨⟨L, hL⟩, hpend, σ, hσ, hheld⟩ := h k₁ hk₁
    have hres := (answersAll_singleton.mp hlast).mount_inv
    have hnone := hσ.absent hinst hpurg
    cases hres with
    | failed _ hneg => omega
    | mounted _ _ hb hs opt =>
      -- What is in use is bound, and this device was not.
      have hfresh : ¬ L.Taken ret := by
        intro ht
        rcases (hL.ownsLoop ret).mpr ht with ⟨i, hi, hl⟩ | ⟨q, hq, hl⟩
        · exact (hheld.devices.bound ((hσ i.packageId ret 0).mpr (.inl ⟨rfl, i, hi, rfl, hl⟩))).2 hb
        · exact (hheld.devices.bound ((hσ q.packageId ret _).mpr (.inr ⟨q, hq, rfl, hl, rfl⟩))).2 hb
      refine ⟨⟨_, hL.run_mounted id ret _ hinst hpurg hret hfresh ?_⟩, hpend, _, hσ.mounted hinst hpurg ret _,
        hheld.mount hcfg hnone hb hs opt⟩
      rw [outstanding_mount, if_pos hret]
  | failed e he heid hret =>
    obtain ⟨k₁, hk₁, hlast⟩ := answersAll_append.mp hk
    obtain ⟨⟨L, hL⟩, hpend, σ, hσ, hheld⟩ := h k₁ hk₁
    have hres := (answersAll_singleton.mp hlast).mount_inv
    cases hres with
    | failed _ _ =>
      refine ⟨⟨L, hL.of_pairs rfl rfl ?_⟩, hpend, σ, hσ, hheld⟩
      rw [outstanding_mount, if_neg (by omega)]
    | mounted _ hn _ _ _ => omega
  | refused err herr => exact h k hk

/-- One of several instances of a package ends. -/
theorem Staged.stop_shared (h : Staged d σ) {L : Lease CStr ℤ} (hL : Represents d L) {pre post : List PackageInstance}
    {i j : PackageInstance} (hi : d.p.instance_ = pre ++ i :: post) (hj : j ∈ pre ++ post)
    (hid : j.packageId = i.packageId) : Staged { d with p := { d.p with instance_ := pre ++ post } } σ := by
  have hloop : j.loop = i.loop := by
    have hheld := hL.held_instance (mem_of_rest hi hj)
    rw [hid, hL.held_instance (by rw [hi]; simp)] at hheld
    simpa using hheld.symm
  intro a n k
  rw [h a n k, hi, exists_mem_middle]
  refine or_congr_left (and_congr_right fun _ => ⟨?_, .inr⟩)
  rintro (⟨ha, hn⟩ | hold)
  · exact ⟨j, hj, hid.trans ha, hloop.trans hn⟩
  · exact hold

/-- The last instance of a package ends. -/
theorem Staged.stop_last (h : Staged d σ) {pre post : List PackageInstance} {i : PackageInstance}
    (hi : d.p.instance_ = pre ++ i :: post) (expiry : ℤ) :
    Staged { d with p := { d.p with
      instance_ := pre ++ post
      purgatory := d.p.purgatory ++ [⟨i.packageId, i.loop, 1, expiry⟩] } } σ := by
  have h1 : stepsDone 1 = 0 := rfl
  intro a n k
  rw [h a n k, hi, exists_mem_middle]
  simp only [exists_mem_concat, h1]
  constructor
  · rintro (⟨h0, ⟨ha, hn⟩ | hold⟩ | hq)
    · exact .inr (.inr ⟨ha, hn, h0.symm⟩)
    · exact .inl ⟨h0, hold⟩
    · exact .inr (.inl hq)
  · rintro (⟨h0, hold⟩ | hq | ⟨ha, hn, h0⟩)
    · exact .inl ⟨h0, .inr hold⟩
    · exact .inr hq
    · exact .inl ⟨h0.symm, .inl ⟨ha, hn⟩⟩

/-- **A stop.** -/
theorem Sound.stop (h : Sound cfg k₀ d) (ha : Apart d) (now runId : ℤ) : Sound cfg k₀ (packageStop d now runId).2 := by
  intro k hk
  have hc := packageStop_cases d now runId
  generalize (packageStop d now runId).2 = d' at hc hk ⊢
  cases hc with
  | unknown hno => exact h k hk
  | shared pre post i j hi hrun hj hid hne =>
    obtain ⟨⟨L, hL⟩, hpend, σ, hσ, hheld⟩ := h k hk
    have hji : j ∈ pre ++ post := by
      rw [hi] at hj
      have hij : j ≠ i := fun e => hne (e ▸ hrun)
      simpa [hij] using hj
    exact ⟨⟨L, hL.stop_shared hi hji hid⟩, hpend, σ, hσ.stop_shared hL hi hji hid, hheld⟩
  | last pre post i hi hrun hall =>
    obtain ⟨⟨L, hL⟩, hpend, σ, hσ, hheld⟩ := h k hk
    have hlast : ∀ j ∈ pre ++ post, j.packageId ≠ i.packageId := fun j hj hid =>
      ha pre i post hi j hj ((hall j (mem_of_rest hi hj) hid).trans hrun.symm)
    refine ⟨⟨_, hL.stop_last hi hlast _⟩, fun q hq => ?_, σ, hσ.stop_last hi _, hheld⟩
    rcases List.mem_append.mp hq with hq | hq
    · exact hpend q hq
    · rw [List.mem_singleton.mp hq]
      exact .inl rfl

/-! ### Checks -/

/-- An entry of purgatory that is another step further, or gone. -/
theorem Staged.visited {kept rest : List PackagePurgatory} {q : PackagePurgatory} {evs evs' : List LoopEvent}
    (h : Staged (d.setPurgatory (kept ++ q :: rest) evs) σ) {L : Lease CStr ℤ}
    (hL : Represents (d.setPurgatory (kept ++ q :: rest) evs) L) (ret : ℤ) :
    Staged (d.setPurgatory (kept ++ (if ret = 0 then none else some { q with reusable := ret }).toList ++ rest) evs')
      (σ.after q.packageId q.loopNumber ret) := by
  have hq : (d.setPurgatory (kept ++ q :: rest) evs).p.purgatory = kept ++ q :: rest := rfl
  have hmem : q ∈ (d.setPurgatory (kept ++ q :: rest) evs).p.purgatory := by simp [hq]
  obtain ⟨hother, -⟩ := nodup_rest hq hL.nodup
  have hinst : ∀ i ∈ d.p.instance_, i.packageId ≠ q.packageId := fun i hi => hL.disjoint hi hmem
  intro a n j
  have hold := h a n j
  simp only [Daemon.setPurgatory, exists_mem_middle] at hold ⊢
  by_cases ha : a = q.packageId
  · subst ha
    have hkept : ¬ ∃ x ∈ kept ++ rest, x.packageId = q.packageId ∧ x.loopNumber = n ∧ stepsDone x.reusable = j :=
      not_exists_key hother
    have hrun : ¬ (j = 0 ∧ ∃ i ∈ d.p.instance_, i.packageId = q.packageId ∧ i.loop = n) :=
      fun hi => not_exists_key hinst hi.2
    rw [Stages.after, Function.update_self, or_iff_right hrun]
    split_ifs with hret
    · simp only [Option.toList_none, List.append_nil, hkept]
    · rw [Option.toList_some, List.append_assoc, List.singleton_append, exists_mem_middle, or_iff_left hkept]
      simp
  · rw [Stages.after, Function.update_of_ne ha, hold]
    have hne : ¬ (q.packageId = a ∧ q.loopNumber = n ∧ stepsDone q.reusable = j) := fun hc => ha hc.1.symm
    rw [or_iff_right hne]
    split_ifs
    · simp only [Option.toList_none, List.append_nil]
    · have hne' : ¬ (q.packageId = a ∧ q.loopNumber = n ∧ stepsDone ret = j) := fun hc => ha hc.1.symm
      rw [Option.toList_some, List.append_assoc, List.singleton_append, exists_mem_middle, or_iff_right hne']

/-- A visit of the check. -/
theorem Sound.visit (hcfg : Separate cfg) (out : ℕ → TeardownOutcome) {s : ℕ × List LoopEvent}
    {kept rest : List PackagePurgatory} {q : PackagePurgatory}
    (h : Sound cfg k₀ (d.setPurgatory (kept ++ q :: rest) (d.loops ++ s.2))) :
    Sound cfg k₀ (d.setPurgatory (kept ++ (purgatoryVisit out s q).2.toList ++ rest)
      (d.loops ++ (purgatoryVisit out s q).1.2)) := by
  intro k hk
  by_cases hc : q.reusable < 1 ∨ q.expiry ≠ 0
  · have hevs : (purgatoryVisit out s q).1.2 =
        s.2 ++ (dbpLoopUmount (out s.1) q.packageId q.loopNumber q.reusable).2 := by
      simp only [purgatoryVisit, hc, ↓reduceIte]
    have hentry : (purgatoryVisit out s q).2 =
        if (dbpLoopUmount (out s.1) q.packageId q.loopNumber q.reusable).1 = 0 then none
        else some { q with reusable := (dbpLoopUmount (out s.1) q.packageId q.loopNumber q.reusable).1 } := by
      simp only [purgatoryVisit, hc, ↓reduceIte]
    have hk' := hk
    simp only [Daemon.setPurgatory, hevs, ← List.append_assoc] at hk'
    obtain ⟨k₁, hk₁, hlast⟩ := answersAll_append.mp hk'
    obtain ⟨⟨L, hL⟩, hpend, σ, hσ, hheld⟩ := h k₁ hk₁
    have hmem : q ∈ (d.setPurgatory (kept ++ q :: rest) (d.loops ++ s.2)).p.purgatory := by simp [Daemon.setPurgatory]
    have hid : σ q.packageId = some (q.loopNumber, stepsDone q.reusable) :=
      (hσ _ _ _).mpr (.inr ⟨q, hmem, rfl, rfl, rfl⟩)
    refine ⟨hL.visit out, fun x hx => ?_, _, ?_, holds_umount hcfg hheld (hpend q hmem) hid (out s.1) hlast⟩
    · have hstate := (completed_umount (out s.1) q.packageId q.loopNumber (hpend q hmem)).state
      simp only [Daemon.setPurgatory, hentry] at hx hpend
      split_ifs at hx with hret
      · have hx' : x ∈ kept ++ rest := by simpa using hx
        exact hpend x (mem_of_rest rfl hx')
      · simp only [Option.toList_some, List.append_assoc, List.singleton_append, List.mem_append, List.mem_cons] at hx
        rcases hx with hx | rfl | hx
        · exact hpend x (by simp [hx])
        · exact hstate.resolve_left hret
        · exact hpend x (by simp [hx])
    · rw [hentry]
      exact hσ.visited hL _
  · have hsame : purgatoryVisit out s q = (s, some q) := by simp only [purgatoryVisit, hc, ↓reduceIte]
    simp only [hsame, Option.toList_some, List.append_assoc, List.singleton_append] at hk ⊢
    exact h k hk

/-- **A check.** -/
theorem Sound.check (hcfg : Separate cfg) (h : Sound cfg k₀ d) (out : ℕ → TeardownOutcome) :
    Sound cfg k₀ (packagePurgatoryCheck d out) := by
  rw [packagePurgatoryCheck_eq]
  have hinv := mapKeep_invariant (f := purgatoryVisit out)
    (P := fun s kept rest => Sound cfg k₀ (d.setPurgatory (kept ++ rest) (d.loops ++ s.2)))
    (fun s kept q rest hs => hs.visit hcfg out) d.p.purgatory (0, []) [] (by simpa [Daemon.setPurgatory] using h)
  simpa [Daemon.setPurgatory] using hinv

/-! ### Every run -/

theorem Sound.same (h : Sound cfg k₀ d) (hs : SameMounts d d') : Sound cfg k₀ d' := by
  intro k hk
  rw [hs.loops] at hk
  obtain ⟨⟨L, hL⟩, hpend, σ, hσ, hheld⟩ := h k hk
  refine ⟨⟨L, hL.of_same hs⟩, hs.purgatory ▸ hpend, σ, ?_, hheld⟩
  rw [Staged, hs.instance_, hs.purgatory]
  exact hσ

/-- Every call, run ids being distinct. -/
theorem Sound.step (hcfg : Separate cfg) (h : Sound cfg k₀ d) (hloops : LoopsNonneg d) (ha : Apart d) (op : DaemonOp) :
    Sound cfg k₀ (d.step cfg.toDBPConfig op) := by
  cases op with
  | run ret id user => exact h.run hcfg hloops ret id user
  | stop now runId => exact h.stop ha now runId
  | purgatoryCheck out => exact h.check hcfg out
  | _ => exact h.same (sameMounts_step cfg.toDBPConfig d (by simp) (by simp) (by simp))

end Calls

section Run

variable (cfg : LoopConfig) (k₀ : LoopKernel) (icons desktops execs : Dir)

/-- After every run of fewer than 2^31 `package_run` calls the kernel is what the daemon's lists say. -/
theorem sound_run (hcfg : Separate cfg) (ops : List DaemonOp) (hn : ops.countP DaemonOp.isRun < 2 ^ 31) :
    Sound cfg k₀ (Daemon.run cfg.toDBPConfig (Daemon.init icons desktops execs) ops) := by
  have hrun := @run_history _ _ (Daemon.step cfg.toDBPConfig) (fun _ _ => True)
    (fun as d => as.countP DaemonOp.isRun < 2 ^ 31 →
      LoopsNonneg d ∧ RunIds d (as.countP DaemonOp.isRun) ∧ Sound cfg k₀ d)
    (Daemon.init icons desktops execs)
    (fun _ => ⟨.init icons desktops execs, (represents_init icons desktops execs).2, fun k hk => ?_⟩)
    (fun as op d ih _ hlt => ?_) ops ?_ hn
  · exact hrun.2.2
  · obtain rfl : k = k₀ := hk
    refine ⟨⟨_, (represents_init icons desktops execs).1⟩, ?_, _, ?_, KernelHolds.base cfg k⟩
    · simp [Daemon.init, packageInit]
    · simp [Staged, Daemon.init, packageInit]
  · have hcount : (as ++ [op]).countP DaemonOp.isRun =
        if op.isRun then as.countP DaemonOp.isRun + 1 else as.countP DaemonOp.isRun := by
      rw [List.countP_append, List.countP_singleton]
      split_ifs <;> rfl
    rw [hcount] at hlt ⊢
    have hn' : as.countP DaemonOp.isRun < 2 ^ 31 := by split_ifs at hlt <;> omega
    obtain ⟨hloops, hids, hsound⟩ := ih hn'
    exact ⟨hloops.step cfg.toDBPConfig op, runIds_step cfg.toDBPConfig hloops hids op hlt,
      hsound.step hcfg hloops (hids.apart hn') op⟩
  · exact (admissible_forall _ _).mpr fun _ _ => trivial

/-- **The kernel matches the daemon's lists.** After every run, whichever mounts and teardown steps failed: on top of the
mounts and devices the daemon found there are those of the packages with an instance, and of those in purgatory as far
as their teardown has come, and no others; so every instance has its image and its union. -/
theorem kernel_matches (hcfg : Separate cfg) (ops : List DaemonOp) (hn : ops.countP DaemonOp.isRun < 2 ^ 31)
    {k : LoopKernel}
    (hk : AnswersAll cfg k₀ (Daemon.run cfg.toDBPConfig (Daemon.init icons desktops execs) ops).loops k) :
    let d := Daemon.run cfg.toDBPConfig (Daemon.init icons desktops execs) ops
    KernelHolds cfg k₀ k (stages d) ∧ ∀ i ∈ d.p.instance_, k.bound i.loop ≠ none ∧
      ⟨.loop i.loop, imgDir cfg i.packageId⟩ ∈ k.mounts ∧ ∃ opt, ⟨.union opt, unionDir cfg i.packageId⟩ ∈ k.mounts := by
  obtain ⟨-, -, σ, hσ, hheld⟩ := sound_run cfg k₀ icons desktops execs hcfg ops hn k hk
  refine ⟨hσ.eq_stages ▸ hheld, fun i hi => hheld.in_place ((hσ _ _ 0).mpr (.inl ⟨rfl, i, hi, rfl, rfl⟩))⟩

end Run

/-- A package is registered and run, on a kernel with a free device. -/
def demoMountOps : List DaemonOp :=
  [.registerPath (demoEnv [(lit "/m/a.dbp", [demoMeta (lit "a")])]) (lit "/dev/sda1") (lit "/m/a.dbp") (lit "/m"),
    .run 0 (lit "a") (lit "u")]

/-- The kernel after it. -/
def demoMountedKernel : LoopKernel :=
  (dbpLoopMount demoLoopConfig demoOutcome demoKernel (lit "/m/a.dbp") (lit "a") (lit "u") (lit "/m") (lit "a")).2

theorem demoMountOps_answers :
    AnswersAll demoLoopConfig demoKernel (Daemon.run demoConfig (Daemon.init [] [] []) demoMountOps).loops
      demoMountedKernel := by
  have hloops : (Daemon.run demoConfig (Daemon.init [] [] []) demoMountOps).loops =
      [.mount (lit "/m/a.dbp") (lit "a") (lit "u") (lit "/m") (lit "a") (dbpLoopMount demoLoopConfig demoOutcome demoKernel
        (lit "/m/a.dbp") (lit "a") (lit "u") (lit "/m") (lit "a")).1] := by decide
  rw [hloops, answersAll_singleton]
  refine .mount demoOutcome _ _ _ _ _ fun _ _ => ⟨by decide, ?_⟩
  have hfailure : mountFailure demoLoopConfig demoOutcome demoKernel (loopAvailableGet demoOutcome demoKernel)
      (lit "/m/a.dbp") (lit "a") (lit "u") (lit "/m") (lit "a") = none := by decide
  rw [hfailure]
  trivial

theorem kernel_matches_demo :
    KernelHolds demoLoopConfig demoKernel demoMountedKernel
        (stages (Daemon.run demoConfig (Daemon.init [] [] []) demoMountOps)) ∧
      ∀ i ∈ (Daemon.run demoConfig (Daemon.init [] [] []) demoMountOps).p.instance_, demoMountedKernel.bound i.loop ≠ none ∧
        ⟨.loop i.loop, imgDir demoLoopConfig i.packageId⟩ ∈ demoMountedKernel.mounts ∧
        ∃ opt, ⟨.union opt, unionDir demoLoopConfig i.packageId⟩ ∈ demoMountedKernel.mounts :=
  kernel_matches demoLoopConfig demoKernel [] [] [] (by decide) demoMountOps (by decide) demoMountOps_answers

/-! ### Nothing left -/

/-- The entries of purgatory have a time. -/
def Clocked (d : Daemon) : Prop := ∀ q ∈ d.p.purgatory, q.expiry ≠ 0

theorem Clocked.of_same {d d' : Daemon} (h : Clocked d) (hs : SameMounts d d') : Clocked d' := fun q hq =>
  h q (hs.purgatory ▸ hq)

theorem Clocked.step (cfg : DBPConfig) {d : Daemon} (h : Clocked d) (hloops : LoopsNonneg d) (op : DaemonOp)
    (hop : ∀ now runId, op = .stop now runId → 0 ≤ now) : Clocked (d.step cfg op) := by
  cases op with
  | run ret id user =>
    show Clocked (packageRun d ret id user).2
    have hc := packageRun_cases d ret id user hloops.purgatory
    generalize packageRun d ret id user = r at hc ⊢
    cases hc with
    | revived pre post q hinst hq hid hre => exact fun x hx => h x (mem_of_rest hq hx)
    | _ => exact h
  | stop now runId =>
    show Clocked (packageStop d now runId).2
    have hnow := hop now runId rfl
    have hc := packageStop_cases d now runId
    generalize (packageStop d now runId).2 = d' at hc ⊢
    cases hc with
    | last pre post i hi hrun hall =>
      intro q hq
      rcases List.mem_append.mp hq with hq | hq
      · exact h q hq
      · rw [List.mem_singleton.mp hq]
        show now + 5 ≠ 0
        omega
    | _ => exact h
  | purgatoryCheck out =>
    intro q hq
    have hq' : q ∈ (packagePurgatoryCheck d out).p.purgatory := hq
    rw [packagePurgatoryCheck_eq] at hq'
    obtain ⟨q', hmem, s, hs⟩ := mem_mapKeep hq'
    have hexpiry : q.expiry = q'.expiry := by
      unfold purgatoryVisit at hs
      simp only at hs
      split_ifs at hs <;> cases hs <;> rfl
    exact hexpiry ▸ h q' hmem
  | _ => exact h.of_same (sameMounts_step cfg d (by simp) (by simp) (by simp))

/-- A check in which every step succeeds. -/
abbrev Daemon.drained (d : Daemon) : Daemon := packagePurgatoryCheck d fun _ => .ok

/-- It leaves nothing in purgatory. -/
theorem purgatory_drained {d : Daemon} (h : Clocked d) : d.drained.p.purgatory = [] := by
  refine List.eq_nil_iff_forall_not_mem.mpr fun q hq => ?_
  rw [Daemon.drained, packagePurgatoryCheck_eq] at hq
  obtain ⟨q', hmem, s, hs⟩ := mem_mapKeep hq
  simp [purgatoryVisit, h q' hmem, umount_ok] at hs

/-- The kernel can answer it. -/
theorem exists_drained {cfg : LoopConfig} {k₀ k : LoopKernel} {d : Daemon} (hcfg : Separate cfg) (h : Sound cfg k₀ d)
    (hk : AnswersAll cfg k₀ d.loops k) : ∃ k', AnswersAll cfg k₀ d.drained.loops k' := by
  have hinv := mapKeep_invariant (f := purgatoryVisit fun _ => .ok)
    (P := fun s kept rest => Sound cfg k₀ (d.setPurgatory (kept ++ rest) (d.loops ++ s.2)) ∧
      ∃ k, AnswersAll cfg k₀ (d.loops ++ s.2) k)
    (fun s kept q rest ⟨hs, k, hk⟩ => ⟨hs.visit hcfg _, ?_⟩) d.p.purgatory (0, []) []
    ⟨by simpa [Daemon.setPurgatory] using h, k, by simpa using hk⟩
  · rw [Daemon.drained, packagePurgatoryCheck_eq]
    exact hinv.2
  · obtain ⟨-, hpend, σ, hσ, hheld⟩ := hs k hk
    have hmem : q ∈ (d.setPurgatory (kept ++ q :: rest) (d.loops ++ s.2)).p.purgatory := by simp [Daemon.setPurgatory]
    unfold purgatoryVisit
    split_ifs
    · obtain ⟨k', hk'⟩ := exists_umount hcfg hheld (hpend q hmem) ((hσ _ _ _).mpr (.inr ⟨q, hmem, rfl, rfl, rfl⟩))
      rw [← List.append_assoc]
      exact ⟨k', answersAll_append.mpr ⟨k, hk, hk'⟩⟩
    · exact ⟨k, hk⟩

/-- **Everything is given back.** When nothing runs after a run, a check in which every step succeeds can be answered,
and the kernel is then the one the daemon found. -/
theorem kernel_restored (cfg : LoopConfig) (k₀ : LoopKernel) (icons desktops execs : Dir) (hcfg : Separate cfg)
    (ops : List DaemonOp) (hn : ops.countP DaemonOp.isRun < 2 ^ 31)
    (hclock : ∀ now runId, .stop now runId ∈ ops → 0 ≤ now) {k : LoopKernel}
    (hk : AnswersAll cfg k₀ (Daemon.run cfg.toDBPConfig (Daemon.init icons desktops execs) ops).loops k)
    (hidle : (Daemon.run cfg.toDBPConfig (Daemon.init icons desktops execs) ops).p.instance_ = []) (k' : LoopKernel) :
    AnswersAll cfg k₀ (Daemon.run cfg.toDBPConfig (Daemon.init icons desktops execs) ops).drained.loops k' ↔ k' = k₀ := by
  have hsound := sound_run cfg k₀ icons desktops execs hcfg ops hn
  have hclocked : Clocked (Daemon.run cfg.toDBPConfig (Daemon.init icons desktops execs) ops) := by
    have hboth := List.foldlRecOn (motive := fun d => LoopsNonneg d ∧ Clocked d) ops (Daemon.step cfg.toDBPConfig)
      (b := Daemon.init icons desktops execs) ⟨.init icons desktops execs, fun q hq => absurd hq List.not_mem_nil⟩
      fun d hd op hop => ⟨hd.1.step _ op, hd.2.step _ hd.1 op fun now runId he => hclock now runId (he ▸ hop)⟩
    exact hboth.2
  generalize Daemon.run cfg.toDBPConfig (Daemon.init icons desktops execs) ops = d at hk hidle hsound hclocked ⊢
  have heq : ∀ k', AnswersAll cfg k₀ d.drained.loops k' → k' = k₀ := by
    intro k' hk'
    obtain ⟨-, -, σ, hσ, hheld⟩ := hsound.check hcfg _ k' hk'
    have hinst : d.drained.p.instance_ = [] := by rwa [Daemon.drained, packagePurgatoryCheck_eq]
    refine hheld.eq_base fun id => hσ.absent ?_ ?_
    · simp [hinst]
    · simp [purgatory_drained hclocked]
  refine ⟨heq k', ?_⟩
  rintro rfl
  obtain ⟨k', hk'⟩ := exists_drained hcfg hsound hk
  exact heq k' hk' ▸ hk'

/-- The package is stopped again. -/
def demoStoppedOps : List DaemonOp := demoMountOps ++ [.stop 0 0]

theorem kernel_restored_demo : AnswersAll demoLoopConfig demoKernel
    (Daemon.run demoConfig (Daemon.init [] [] []) demoStoppedOps).drained.loops demoKernel := by
  have hloops : (Daemon.run demoConfig (Daemon.init [] [] []) demoStoppedOps).loops =
      (Daemon.run demoConfig (Daemon.init [] [] []) demoMountOps).loops := by decide
  have hk : AnswersAll demoLoopConfig demoKernel (Daemon.run demoConfig (Daemon.init [] [] []) demoStoppedOps).loops
      demoMountedKernel := hloops ▸ demoMountOps_answers
  exact (kernel_restored demoLoopConfig demoKernel [] [] [] (by decide) demoStoppedOps (by decide)
    (by simp [demoStoppedOps, demoMountOps]) hk (by decide) demoKernel).mpr rfl

end Dbp
