/-
# Who owns a mounted loop device

A mounted package is held by its id: in use by one or more instances, or
parked in purgatory. `Represents d L` says that the lease `L` is what the
instances and the purgatory of `d` hold, and that its resources are the
loop numbers outstanding: mounted by `dbp_loop_mount` and not completely
torn down. Every call keeps the daemon's state a representation of a lease
(`represents_step`): a run shares, revives or acquires, the last stop parks,
and a completed teardown drops. As a lease has one holder per resource, so
has every loop device, in every run of fewer than 2^31 `package_run` calls
(`mount_ownership`); the bound keeps run ids apart, which is what
`package_stop` tells instances by (`RunIds`).

Key definitions: `outstanding`, `Represents`, `RunIds`, `FreshMounts`.
Key theorems: `represents_step`, `represents_of_run`, `mount_ownership`.
-/
import Dbp.Daemon.Machine
import Dbp.Lib.Lease
import Mathlib.Data.List.Nodup

namespace Dbp

open CLib Sweep Find Leases Runs

/-! ### Outstanding loop numbers -/

/-- The outstanding loop numbers after an event: a mount adds one, the reset
of its device, the last teardown step, takes it away. -/
def outstandingStep (s : List ℤ) : LoopEvent → List ℤ
  | .mount _ _ _ _ _ ret => if 0 ≤ ret then ret :: s else s
  | .loopReset _ loop ok => if ok then s.filter (· ≠ loop) else s
  | .umountUnion _ _ => s
  | .umountImg _ _ => s

/-- The loop numbers mounted and not completely torn down. -/
def outstanding (evs : List LoopEvent) : List ℤ := evs.foldl outstandingStep []

theorem outstanding_mount (evs : List LoopEvent) (a b c e f : CStr) (n : ℤ) :
    outstanding (evs ++ [.mount a b c e f n]) =
      if 0 ≤ n then n :: outstanding evs else outstanding evs := by
  simp [outstanding, outstandingStep]

theorem outstanding_skip (evs es : List LoopEvent) {e : LoopEvent} (he : ∀ s, outstandingStep s e = s) :
    outstanding (evs ++ e :: es) = outstanding (evs ++ es) := by
  simp [outstanding, he]

/-- What a teardown with result `r` leaves outstanding. -/
def afterTeardown (evs : List LoopEvent) (loop : ℤ) (r : ℤ) : List ℤ :=
  if r = 0 then (outstanding evs).filter (· ≠ loop) else outstanding evs

theorem outstanding_umountLoop (evs : List LoopEvent) (o : TeardownOutcome) (id : CStr) (loop : ℤ) :
    outstanding (evs ++ (loopUmountLoop o id loop).2) =
      afterTeardown evs loop (loopUmountLoop o id loop).1 := by
  unfold loopUmountLoop
  cases o.reset <;> simp [afterTeardown, outstanding, outstandingStep]

theorem outstanding_umountImg (evs : List LoopEvent) (o : TeardownOutcome) (id : CStr) (loop prev : ℤ) :
    outstanding (evs ++ (loopUmountImg o id loop prev).2) =
      afterTeardown evs loop (loopUmountImg o id loop prev).1 := by
  unfold loopUmountImg
  by_cases hp : prev < -2
  · simp only [hp, ↓reduceIte]
    exact outstanding_umountLoop evs o id loop
  · cases o.img
    · simp [hp, afterTeardown, outstanding, outstandingStep]
    · simp only [hp, ↓reduceIte]
      rw [outstanding_skip evs _ fun _ => rfl]
      exact outstanding_umountLoop evs o id loop

/-- A teardown takes its loop number away if it is complete, and no other. -/
theorem outstanding_umount (evs : List LoopEvent) (o : TeardownOutcome) (id : CStr) (loop prev : ℤ) :
    outstanding (evs ++ (dbpLoopUmount o id loop prev).2) =
      afterTeardown evs loop (dbpLoopUmount o id loop prev).1 := by
  unfold dbpLoopUmount
  by_cases hp : prev < -1
  · simp only [hp, ↓reduceIte]
    exact outstanding_umountImg evs o id loop prev
  · cases o.union
    · have h0 : (if prev < 0 then prev else 1) ≠ 0 := by split_ifs <;> omega
      simp [hp, afterTeardown, outstanding, outstandingStep, h0]
    · simp only [hp, ↓reduceIte]
      rw [outstanding_skip evs _ fun _ => rfl]
      exact outstanding_umountImg evs o id loop _

/-! ### The lease the daemon represents -/

/-- The lease `L` is what the daemon's instances and purgatory hold. -/
structure Represents (d : Daemon) (L : Lease CStr ℤ) : Prop where
  running : ∀ k n, L.held k = some (n, true) ↔ ∃ i ∈ d.p.instance_, i.packageId = k ∧ i.loop = n
  parked : ∀ k n, L.held k = some (n, false) ↔ ∃ q ∈ d.p.purgatory, q.packageId = k ∧ q.loopNumber = n
  nodup : (d.p.purgatory.map (·.packageId)).Nodup
  taken : ∀ n, n ∈ outstanding d.loops ↔ L.Taken n
  nonneg : ∀ n, L.Taken n → 0 ≤ n

namespace Represents

variable {d d' : Daemon} {L : Lease CStr ℤ}

/-- The representation depends on the ids and loop numbers in purgatory only. -/
theorem of_pairs (h : Represents d L) (hi : d'.p.instance_ = d.p.instance_)
    (hp : d'.p.purgatory.map (fun q => (q.packageId, q.loopNumber)) =
      d.p.purgatory.map fun q => (q.packageId, q.loopNumber))
    (ho : outstanding d'.loops = outstanding d.loops) : Represents d' L where
  running := by rw [hi]; exact h.running
  parked k n := by
    have hex : ∀ qs : List PackagePurgatory, (∃ q ∈ qs, q.packageId = k ∧ q.loopNumber = n) ↔
        (k, n) ∈ qs.map fun q => (q.packageId, q.loopNumber) := by simp
    rw [h.parked, hex, hex, hp]
  nodup := by
    have := congrArg (List.map Prod.fst) hp
    simp only [List.map_map, Function.comp_def] at this
    rw [this]
    exact h.nodup
  taken := by rw [ho]; exact h.taken
  nonneg := h.nonneg

theorem of_same (h : Represents d L) (hs : SameMounts d d') : Represents d' L :=
  h.of_pairs hs.instance_ (by rw [hs.purgatory]) (by rw [hs.loops])

theorem held_instance (h : Represents d L) {i : PackageInstance} (hi : i ∈ d.p.instance_) :
    L.held i.packageId = some (i.loop, true) :=
  (h.running _ _).mpr ⟨i, hi, rfl, rfl⟩

theorem held_purgatory (h : Represents d L) {q : PackagePurgatory} (hq : q ∈ d.p.purgatory) :
    L.held q.packageId = some (q.loopNumber, false) :=
  (h.parked _ _).mpr ⟨q, hq, rfl, rfl⟩

/-- No package is both running and in purgatory. -/
theorem disjoint (h : Represents d L) {i : PackageInstance} {q : PackagePurgatory}
    (hi : i ∈ d.p.instance_) (hq : q ∈ d.p.purgatory) : i.packageId ≠ q.packageId := by
  intro he
  have h1 := h.held_instance hi
  rw [he, h.held_purgatory hq] at h1
  simp at h1

theorem loopsNonneg (h : Represents d L) : LoopsNonneg d where
  instance_ _ hi := h.nonneg _ ⟨_, _, h.held_instance hi⟩
  purgatory _ hq := h.nonneg _ ⟨_, _, h.held_purgatory hq⟩

/-- A package nobody runs and that is not in purgatory holds nothing. -/
theorem held_none (h : Represents d L) {id : CStr} (hi : ∀ i ∈ d.p.instance_, i.packageId ≠ id)
    (hq : ∀ q ∈ d.p.purgatory, q.packageId ≠ id) : L.held id = none := by
  rcases hh : L.held id with _ | ⟨n, _ | _⟩
  · rfl
  · obtain ⟨q, hm, he, -⟩ := (h.parked _ _).mp hh
    exact absurd he (hq q hm)
  · obtain ⟨i, hm, he, -⟩ := (h.running _ _).mp hh
    exact absurd he (hi i hm)

/-! ### Runs -/

/-- A run of a package with an instance shares its loop device. -/
theorem run_shared (h : Represents d L) {i : PackageInstance} (hi : i ∈ d.p.instance_) (id : CStr)
    (hid : i.packageId = id) :
    Represents { d with p := (packageRunMounted d.p id i.loop).2 } L where
  running k n := by
    rw [h.running]
    simp only [packageRunMounted, exists_mem_concat]
    refine ⟨Or.inl, ?_⟩
    rintro (hj | ⟨rfl, rfl⟩)
    · exact hj
    · exact ⟨i, hi, hid, rfl⟩
  parked := h.parked
  nodup := h.nodup
  taken := h.taken
  nonneg := h.nonneg

/-- The holders in use, where an instance of a package without one is added. -/
theorem running_mounted (h : Represents d L) {id : CStr} (hinst : ∀ i ∈ d.p.instance_, i.packageId ≠ id) {p : Package}
    (hp : p.instance_ = d.p.instance_) (loop : ℤ) (k : CStr) (n : ℤ) :
    (if k = id then some (loop, true) else L.held k) = some (n, true) ↔
      ∃ i ∈ (packageRunMounted p id loop).2.instance_, i.packageId = k ∧ i.loop = n := by
  simp only [packageRunMounted, hp, exists_mem_concat]
  by_cases hk : k = id
  · subst hk
    simp [not_exists_key (P := (·.loop = n)) hinst]
  · rw [if_neg hk, h.running]
    simp [Ne.symm hk]

/-- A run of a package in purgatory takes its mount back into use. -/
theorem run_revived (h : Represents d L) {pre post : List PackagePurgatory} {q : PackagePurgatory}
    (id : CStr) (hinst : ∀ i ∈ d.p.instance_, i.packageId ≠ id) (hq : d.p.purgatory = pre ++ q :: post)
    (hid : q.packageId = id) :
    Represents { d with p := (packageRunMounted { d.p with purgatory := pre ++ post } id q.loopNumber).2 }
      (L.setUse id true) := by
  have hmem : q ∈ d.p.purgatory := by rw [hq]; simp
  have hheld : L.held id = some (q.loopNumber, false) := hid ▸ h.held_purgatory hmem
  obtain ⟨hother, hnd⟩ := nodup_rest hq h.nodup
  refine ⟨fun k n => ?_, fun k n => ?_, ?_, fun n => ?_, fun n hn => ?_⟩
  · rw [Lease.held_setUse, hheld]
    exact h.running_mounted hinst (p := { d.p with purgatory := pre ++ post }) rfl q.loopNumber k n
  · rw [Lease.held_setUse]
    simp only [packageRunMounted]
    by_cases hk : k = id
    · subst hk
      rw [if_pos rfl, hheld, iff_false_right (not_exists_key (hid ▸ hother))]
      simp
    · rw [if_neg hk, h.parked, hq, exists_mem_middle, hid]
      simp [Ne.symm hk]
  · exact hnd
  · rw [Lease.taken_setUse]
    exact h.taken n
  · rw [Lease.taken_setUse] at hn
    exact h.nonneg n hn

/-- A run that mounts a package acquires a loop device nobody has. -/
theorem run_mounted (h : Represents d L) (id : CStr) (ret : ℤ) (ev : LoopEvent)
    (hinst : ∀ i ∈ d.p.instance_, i.packageId ≠ id) (hpurg : ∀ q ∈ d.p.purgatory, q.packageId ≠ id)
    (hret : 0 ≤ ret) (hfresh : ¬ L.Taken ret)
    (hev : outstanding (d.loops ++ [ev]) = ret :: outstanding d.loops) :
    Represents { d with p := (packageRunMounted d.p id ret).2, loops := d.loops ++ [ev] }
      (L.acquire id ret hfresh) := by
  have hnone := h.held_none hinst hpurg
  refine ⟨fun k n => ?_, fun k n => ?_, h.nodup, fun n => ?_, fun n hn => ?_⟩
  · rw [Lease.held_acquire]
    exact h.running_mounted hinst (p := d.p) rfl ret k n
  · rw [Lease.held_acquire]
    by_cases hk : k = id
    · subst hk
      simp [packageRunMounted, not_exists_key (P := (·.loopNumber = n)) hpurg]
    · rw [if_neg hk]
      exact h.parked k n
  · rw [Lease.taken_acquire L hnone, ← h.taken, hev, List.mem_cons]
  · rcases (Lease.taken_acquire L hnone ret n hfresh).mp hn with rfl | hn
    · exact hret
    · exact h.nonneg n hn

/-! ### Stops -/

/-- The end of one of several instances of a package. -/
theorem stop_shared (h : Represents d L) {pre post : List PackageInstance} {i j : PackageInstance}
    (hi : d.p.instance_ = pre ++ i :: post) (hj : j ∈ pre ++ post) (hid : j.packageId = i.packageId) :
    Represents { d with p := { d.p with instance_ := pre ++ post } } L where
  running k n := by
    have hloop : j.loop = i.loop := by
      have h1 := h.held_instance (mem_of_rest hi hj)
      rw [hid, h.held_instance (by rw [hi]; simp)] at h1
      simpa using h1.symm
    rw [h.running, hi, exists_mem_middle]
    refine ⟨?_, Or.inr⟩
    rintro (⟨h1, h2⟩ | hx)
    · exact ⟨j, hj, hid.trans h1, hloop.trans h2⟩
    · exact hx
  parked := h.parked
  nodup := h.nodup
  taken := h.taken
  nonneg := h.nonneg

/-- The end of the last instance of a package puts its mount in purgatory. -/
theorem stop_last (h : Represents d L) {pre post : List PackageInstance} {i : PackageInstance}
    (hi : d.p.instance_ = pre ++ i :: post) (hlast : ∀ j ∈ pre ++ post, j.packageId ≠ i.packageId)
    (expiry : ℤ) :
    Represents
      { d with
        p := { d.p with
          instance_ := pre ++ post
          purgatory := d.p.purgatory ++ [⟨i.packageId, i.loop, 1, expiry⟩] } }
      (L.setUse i.packageId false) := by
  have hmem : i ∈ d.p.instance_ := by rw [hi]; simp
  have hheld := h.held_instance hmem
  refine ⟨fun k n => ?_, fun k n => ?_, ?_, fun n => ?_, fun n hn => ?_⟩
  · rw [Lease.held_setUse, hheld]
    by_cases hk : k = i.packageId
    · subst hk
      rw [if_pos rfl, iff_false_right (not_exists_key hlast)]
      simp
    · rw [if_neg hk, h.running, hi, exists_mem_middle]
      simp [Ne.symm hk]
  · rw [Lease.held_setUse, hheld]
    simp only [exists_mem_concat]
    by_cases hk : k = i.packageId
    · subst hk
      have hpurg : ∀ q ∈ d.p.purgatory, q.packageId ≠ i.packageId := fun q hq => (h.disjoint hmem hq).symm
      simp [not_exists_key (P := (·.loopNumber = n)) hpurg]
    · rw [if_neg hk, h.parked]
      simp [Ne.symm hk]
  · rw [List.map_append, List.map_singleton]
    apply nodup_concat h.nodup
    intro hm
    obtain ⟨q, hq, he⟩ := List.mem_map.mp hm
    exact h.disjoint hmem hq he.symm
  · rw [Lease.taken_setUse]
    exact h.taken n
  · rw [Lease.taken_setUse] at hn
    exact h.nonneg n hn

end Represents

/-! ### The check of purgatory -/

/-- The daemon with another purgatory and record of loop calls. -/
def Daemon.setPurgatory (d : Daemon) (qs : List PackagePurgatory) (evs : List LoopEvent) : Daemon :=
  { d with p := { d.p with purgatory := qs }, loops := evs }

/-- A completed teardown: its holder drops the loop device. -/
theorem Represents.reaped {d : Daemon} {L : Lease CStr ℤ} {kept rest : List PackagePurgatory}
    {q : PackagePurgatory} {evs evs' : List LoopEvent}
    (h : Represents (d.setPurgatory (kept ++ q :: rest) evs) L)
    (ho : outstanding evs' = (outstanding evs).filter (· ≠ q.loopNumber)) :
    Represents (d.setPurgatory (kept ++ rest) evs') (L.drop q.packageId) := by
  have hq : q ∈ (d.setPurgatory (kept ++ q :: rest) evs).p.purgatory := by simp [Daemon.setPurgatory]
  have hheld := h.held_purgatory hq
  obtain ⟨hother, hnd⟩ := nodup_rest (show (d.setPurgatory (kept ++ q :: rest) evs).p.purgatory = kept ++ q :: rest from rfl) h.nodup
  refine ⟨fun k n => ?_, fun k n => ?_, hnd, fun n => ?_, fun n hn => ?_⟩
  · rw [Lease.held_drop]
    by_cases hk : k = q.packageId
    · subst hk
      simp only [↓reduceIte, reduceCtorEq, false_iff]
      exact not_exists_key fun i hi => h.disjoint hi hq
    · rw [if_neg hk]
      exact h.running k n
  · rw [Lease.held_drop]
    by_cases hk : k = q.packageId
    · subst hk
      simp only [↓reduceIte, reduceCtorEq, false_iff]
      exact not_exists_key hother
    · rw [if_neg hk, h.parked]
      simp only [Daemon.setPurgatory, exists_mem_middle]
      simp [Ne.symm hk]
  · have ht := h.taken n
    simp only [Daemon.setPurgatory] at ht ⊢
    rw [ho, Lease.taken_drop L hheld, List.mem_filter, ht]
    simp [and_comm]
  · exact h.nonneg n ((Lease.taken_drop L hheld n).mp hn).2

/-- A visit of the check: the entry stays, with another `reusable`, or its
teardown is complete. -/
theorem Represents.visit {d : Daemon} {L : Lease CStr ℤ} (out : ℕ → TeardownOutcome)
    {s : ℕ × List LoopEvent} {kept rest : List PackagePurgatory} {q : PackagePurgatory}
    (h : Represents (d.setPurgatory (kept ++ q :: rest) (d.loops ++ s.2)) L) :
    ∃ L', Represents (d.setPurgatory (kept ++ (purgatoryVisit out s q).2.toList ++ rest)
      (d.loops ++ (purgatoryVisit out s q).1.2)) L' := by
  have ho := outstanding_umount (d.loops ++ s.2) (out s.1) q.packageId q.loopNumber q.reusable
  rw [List.append_assoc] at ho
  unfold purgatoryVisit
  by_cases hc : q.reusable < 1 ∨ q.expiry ≠ 0
  · by_cases hr : (dbpLoopUmount (out s.1) q.packageId q.loopNumber q.reusable).1 = 0
    · simp only [hc, hr, ↓reduceIte, Option.toList_none, List.append_nil]
      exact ⟨_, h.reaped (by rw [ho, afterTeardown, if_pos hr])⟩
    · simp only [hc, hr, ↓reduceIte, Option.toList_some]
      refine ⟨L, h.of_pairs rfl ?_ ?_⟩
      · simp [Daemon.setPurgatory]
      · simp only [Daemon.setPurgatory]
        rw [ho, afterTeardown, if_neg hr]
  · simp only [hc, ↓reduceIte, Option.toList_some]
    exact ⟨L, by simpa [Daemon.setPurgatory] using h⟩

theorem represents_check {d : Daemon} {L : Lease CStr ℤ} (h : Represents d L) (out : ℕ → TeardownOutcome) :
    ∃ L', Represents (packagePurgatoryCheck d out) L' := by
  rw [packagePurgatoryCheck_eq]
  have := mapKeep_invariant (f := purgatoryVisit out)
    (P := fun s kept rest => ∃ L', Represents (d.setPurgatory (kept ++ rest) (d.loops ++ s.2)) L')
    (fun s kept q rest ⟨L', hL⟩ => hL.visit out) d.p.purgatory (0, []) [] ⟨L, by
      simpa [Daemon.setPurgatory] using h⟩
  simpa [Daemon.setPurgatory] using this

/-! ### Run ids -/

/-- After at most `n` runs, run ids are below `run_cnt`, which has not
wrapped around, and pairwise distinct. -/
structure RunIds (d : Daemon) (n : ℕ) : Prop where
  cnt_nonneg : 0 ≤ d.p.runCnt
  cnt_le : d.p.runCnt ≤ n
  lt_cnt : ∀ i ∈ d.p.instance_, (i.runId : ℤ) < d.p.runCnt
  nodup : (d.p.instance_.map (·.runId)).Nodup

/-- The `int`s of the run ids tell the instances apart. -/
def Apart (d : Daemon) : Prop :=
  ∀ pre i post, d.p.instance_ = pre ++ i :: post → ∀ j ∈ pre ++ post, toInt32 j.runId ≠ toInt32 i.runId

namespace RunIds

variable {d d' : Daemon} {n : ℕ}

theorem of_same (h : RunIds d n) (hs : SameMounts d d') : RunIds d' n where
  cnt_nonneg := by rw [hs.runCnt]; exact h.cnt_nonneg
  cnt_le := by rw [hs.runCnt]; exact h.cnt_le
  lt_cnt := by rw [hs.instance_, hs.runCnt]; exact h.lt_cnt
  nodup := by rw [hs.instance_]; exact h.nodup

theorem mono (h : RunIds d n) : RunIds d (n + 1) where
  cnt_nonneg := h.cnt_nonneg
  cnt_le := by have := h.cnt_le; push_cast; omega
  lt_cnt := h.lt_cnt
  nodup := h.nodup

/-- A new instance takes the next run id. -/
theorem run (h : RunIds d n) (hn : n + 1 < 2 ^ 31) (p : Package) (hp : p.instance_ = d.p.instance_)
    (hc : p.runCnt = d.p.runCnt) {id : CStr} {loop : ℤ}
    (hd : d'.p = (packageRunMounted p id loop).2) : RunIds d' (n + 1) := by
  have h0 := h.cnt_nonneg
  have hle := h.cnt_le
  have hcnt : toInt32 (d.p.runCnt + 1) = d.p.runCnt + 1 := toInt32_eq (by omega) (by omega)
  have hid : ((d.p.runCnt % 2 ^ 32).toNat : ℤ) = d.p.runCnt := by omega
  have hnew : d'.p.runCnt = d.p.runCnt + 1 := by
    rw [hd]
    simp only [packageRunMounted, hc, hcnt]
    rw [if_neg (by omega)]
  have hinst : d'.p.instance_ = d.p.instance_ ++ [⟨id, (d.p.runCnt % 2 ^ 32).toNat, loop⟩] := by
    rw [hd]
    simp only [packageRunMounted, hp, hc]
  refine ⟨by omega, by rw [hnew]; push_cast; omega, ?_, ?_⟩
  · rw [hinst, hnew]
    intro i hi
    rcases List.mem_append.mp hi with hi | hi
    · have := h.lt_cnt i hi
      omega
    · rw [List.mem_singleton.mp hi]
      show ((d.p.runCnt % 2 ^ 32).toNat : ℤ) < _
      omega
  · rw [hinst, List.map_append]
    apply nodup_concat h.nodup
    intro hm
    obtain ⟨i, hi, he⟩ := List.mem_map.mp hm
    have := h.lt_cnt i hi
    simp only at he
    omega

theorem stop (h : RunIds d n) {pre post : List PackageInstance} {i : PackageInstance}
    (hi : d.p.instance_ = pre ++ i :: post) (hd : d'.p.instance_ = pre ++ post)
    (hc : d'.p.runCnt = d.p.runCnt) : RunIds d' n where
  cnt_nonneg := by rw [hc]; exact h.cnt_nonneg
  cnt_le := by rw [hc]; exact h.cnt_le
  lt_cnt := by
    rw [hd, hc]
    exact fun j hj => h.lt_cnt j (mem_of_rest hi hj)
  nodup := by
    rw [hd]
    exact (nodup_rest hi h.nodup).2

/-- The `int` of a run id tells instances apart. -/
theorem apart (h : RunIds d n) (hn : n < 2 ^ 31) : Apart d := by
  intro pre i post hi j hj
  have hmi : i ∈ d.p.instance_ := by rw [hi]; simp
  have hlt : ∀ x ∈ d.p.instance_, toInt32 x.runId = x.runId := fun x hx => by
    have h1 := h.lt_cnt x hx
    have h2 := h.cnt_le
    exact toInt32_eq (by omega) (by omega)
  rw [hlt j (mem_of_rest hi hj), hlt i hmi]
  exact fun he => (nodup_rest hi h.nodup).1 j hj (by exact_mod_cast he)

end RunIds

/-! ### One call -/

/-- A loop number that an instance or a purgatory entry has. -/
def OwnsLoop (d : Daemon) (n : ℤ) : Prop :=
  (∃ i ∈ d.p.instance_, i.loop = n) ∨ ∃ q ∈ d.p.purgatory, q.loopNumber = n

/-- A successful `dbp_loop_mount` returns a loop number nobody owns. -/
def FreshMounts (d : Daemon) : DaemonOp → Prop
  | .run ret _ _ => 0 ≤ ret → ¬ OwnsLoop d ret
  | _ => True

instance (d : Daemon) (n : ℤ) : Decidable (OwnsLoop d n) := by unfold OwnsLoop; infer_instance

instance (d : Daemon) : (op : DaemonOp) → Decidable (FreshMounts d op)
  | .run ret _ _ => inferInstanceAs (Decidable (0 ≤ ret → ¬ OwnsLoop d ret))
  | .registerPath .. | .crawlMount .. | .releasePath .. | .releaseMount .. | .stop .. | .purgatoryCheck .. =>
    isTrue trivial

/-- A call of `package_run`. -/
def DaemonOp.isRun : DaemonOp → Bool
  | .run .. => true
  | _ => false

theorem Represents.ownsLoop {d : Daemon} {L : Lease CStr ℤ} (h : Represents d L) (n : ℤ) :
    OwnsLoop d n ↔ L.Taken n := by
  refine ⟨?_, fun ⟨k, u, hk⟩ => ?_⟩
  · rintro (⟨i, hi, rfl⟩ | ⟨q, hq, rfl⟩)
    · exact ⟨_, _, h.held_instance hi⟩
    · exact ⟨_, _, h.held_purgatory hq⟩
  · cases u
    · obtain ⟨q, hq, -, h2⟩ := (h.parked k n).mp hk
      exact Or.inr ⟨q, hq, h2⟩
    · obtain ⟨i, hi, -, h2⟩ := (h.running k n).mp hk
      exact Or.inl ⟨i, hi, h2⟩

theorem represents_run {d : Daemon} {L : Lease CStr ℤ} (h : Represents d L) {ret : ℤ} {id user : CStr}
    (hf : 0 ≤ ret → ¬ OwnsLoop d ret) : ∃ L', Represents (packageRun d ret id user).2 L' := by
  have hc := packageRun_cases d ret id user h.loopsNonneg.purgatory
  generalize packageRun d ret id user = r at hc ⊢
  cases hc with
  | shared i hi hid => exact ⟨L, h.run_shared hi id hid⟩
  | revived pre post q hinst hq hid hre => exact ⟨_, h.run_revived id hinst hq hid⟩
  | mounted e he heid hinst hpurg hret =>
    have hfresh : ¬ L.Taken ret := fun ht => hf hret ((h.ownsLoop ret).mpr ht)
    refine ⟨_, h.run_mounted id ret _ hinst hpurg hret hfresh ?_⟩
    rw [outstanding_mount, if_pos hret]
  | failed e he heid hret =>
    refine ⟨L, h.of_pairs rfl rfl ?_⟩
    rw [outstanding_mount, if_neg (by omega)]
  | refused err herr => exact ⟨L, h⟩

theorem runIds_run {d : Daemon} (h : LoopsNonneg d) {n : ℕ} (hr : RunIds d n) (hn : n + 1 < 2 ^ 31) (ret : ℤ)
    (id user : CStr) : RunIds (packageRun d ret id user).2 (n + 1) := by
  have hc := packageRun_cases d ret id user h.purgatory
  generalize packageRun d ret id user = r at hc ⊢
  cases hc with
  | shared i hi hid => exact hr.run hn d.p rfl rfl rfl
  | revived pre post q hinst hq hid hre => exact hr.run hn { d.p with purgatory := pre ++ post } rfl rfl rfl
  | mounted e he heid hinst hpurg hret => exact hr.run hn d.p rfl rfl rfl
  | failed e he heid hret => exact ⟨hr.cnt_nonneg, hr.mono.cnt_le, hr.lt_cnt, hr.nodup⟩
  | refused err herr => exact hr.mono

theorem represents_stop {d : Daemon} {L : Lease CStr ℤ} (h : Represents d L) (ha : Apart d) (now runId : ℤ) :
    ∃ L', Represents (packageStop d now runId).2 L' := by
  have hc := packageStop_cases d now runId
  generalize (packageStop d now runId).2 = d' at hc ⊢
  cases hc with
  | unknown hno => exact ⟨L, h⟩
  | shared pre post i j hi hrun hj hid hne =>
    have hji : j ∈ pre ++ post := by
      rw [hi] at hj
      have : j ≠ i := fun e => hne (e ▸ hrun)
      simpa [this] using hj
    exact ⟨L, h.stop_shared hi hji hid⟩
  | last pre post i hi hrun hall =>
    refine ⟨_, h.stop_last hi (fun j hj hid => ?_) _⟩
    exact ha pre i post hi j hj ((hall j (mem_of_rest hi hj) hid).trans hrun.symm)

theorem runIds_stop {d : Daemon} {n : ℕ} (hr : RunIds d n) (now runId : ℤ) :
    RunIds (packageStop d now runId).2 n := by
  have hc := packageStop_cases d now runId
  generalize (packageStop d now runId).2 = d' at hc ⊢
  cases hc with
  | unknown hno => exact hr
  | shared pre post i j hi hrun hj hid hne => exact hr.stop hi rfl rfl
  | last pre post i hi hrun hall => exact hr.stop hi rfl rfl

/-- **Every call keeps the daemon a representation of a lease**, run ids being
distinct. -/
theorem represents_step (cfg : DBPConfig) {d : Daemon} {L : Lease CStr ℤ} (h : Represents d L) (ha : Apart d)
    (op : DaemonOp) (hf : FreshMounts d op) : ∃ L', Represents (Daemon.step cfg d op) L' := by
  cases op with
  | run ret id user => exact represents_run h hf
  | stop now runId => exact represents_stop h ha now runId
  | purgatoryCheck out => exact represents_check h out
  | _ => exact ⟨L, h.of_same (sameMounts_step cfg d (by simp) (by simp) (by simp))⟩

theorem runIds_step (cfg : DBPConfig) {d : Daemon} (h : LoopsNonneg d) {n : ℕ} (hr : RunIds d n) (op : DaemonOp)
     (hn : (if op.isRun then n + 1 else n) < 2 ^ 31) :
    RunIds (Daemon.step cfg d op) (if op.isRun then n + 1 else n) := by
  cases op with
  | run ret id user => exact runIds_run h hr hn ret id user
  | stop now runId => exact runIds_stop hr now runId
  | purgatoryCheck out => exact ⟨hr.cnt_nonneg, hr.cnt_le, hr.lt_cnt, hr.nodup⟩
  | _ => exact hr.of_same (sameMounts_step cfg d (by simp) (by simp) (by simp))

/-! ### Every run -/

theorem represents_init (icons desktops execs : Dir) :
    Represents (Daemon.init icons desktops execs) Lease.empty ∧ RunIds (Daemon.init icons desktops execs) 0 := by
  have hno : ∀ n, ¬ (Lease.empty : Lease CStr ℤ).Taken n := fun n ⟨k, u, hk⟩ => by simp [Lease.empty] at hk
  refine ⟨⟨?_, ?_, ?_, ?_, fun n hn => absurd hn (hno n)⟩, ?_⟩
  · simp [Daemon.init, packageInit, Lease.empty]
  · simp [Daemon.init, packageInit, Lease.empty]
  · simp [Daemon.init, packageInit]
  · simp [Daemon.init, outstanding, hno]
  · refine ⟨?_, ?_, ?_, ?_⟩ <;> simp [Daemon.init, packageInit]

/-- After every run of fewer than 2^31 `package_run` calls the daemon
represents a lease. -/
theorem represents_of_run (cfg : DBPConfig) (icons desktops execs : Dir) (ops : List DaemonOp)
    (hf : Admissible (Daemon.step cfg) FreshMounts (Daemon.init icons desktops execs) ops)
    (hn : ops.countP DaemonOp.isRun < 2 ^ 31) :
    ∃ L, Represents (Daemon.run cfg (Daemon.init icons desktops execs) ops) L := by
  obtain ⟨h0, hr0⟩ := represents_init icons desktops execs
  have := @run_history _ _ (Daemon.step cfg) FreshMounts
    (fun as d => as.countP DaemonOp.isRun < 2 ^ 31 →
      (∃ L, Represents d L) ∧ RunIds d (as.countP DaemonOp.isRun))
    _ (fun _ => ⟨⟨_, h0⟩, hr0⟩) (fun as op d ih hop hlt => ?_) ops hf hn
  · exact this.1
  · have hcount : (as ++ [op]).countP DaemonOp.isRun =
        if op.isRun then as.countP DaemonOp.isRun + 1 else as.countP DaemonOp.isRun := by
      rw [List.countP_append, List.countP_singleton]
      split_ifs <;> rfl
    rw [hcount] at hlt ⊢
    obtain ⟨⟨L, hL⟩, hr⟩ := ih (by split_ifs at hlt <;> omega)
    have hn' : as.countP DaemonOp.isRun < 2 ^ 31 := by split_ifs at hlt <;> omega
    exact ⟨represents_step cfg hL (hr.apart hn') op hop, runIds_step cfg hL.loopsNonneg hr op hlt⟩

/-- The events of a check are teardowns of packages in purgatory. -/
theorem check_events (d : Daemon) (out : ℕ → TeardownOutcome) :
    ∃ evs, (packagePurgatoryCheck d out).loops = d.loops ++ evs ∧
      ∀ ev ∈ evs, ∃ q ∈ d.p.purgatory, ev.teardownOf = some q.packageId := by
  rw [packagePurgatoryCheck_eq]
  refine ⟨_, rfl, mapKeep_state (f := purgatoryVisit out)
    (P := fun s : ℕ × List LoopEvent => ∀ ev ∈ s.2, ∃ q ∈ d.p.purgatory, ev.teardownOf = some q.packageId)
    (fun s q hq hev => ?_) (0, []) (by simp)⟩
  unfold purgatoryVisit
  split_ifs with hc
  · intro ev hm
    rcases List.mem_append.mp hm with hm | hm
    · exact hev ev hm
    · exact ⟨q, hq, teardownOf_umount _ _ _ _ ev hm⟩
  · exact hev

/-- What mount ownership asks of a state of the daemon. -/
structure MountOwnership (d : Daemon) : Prop where
  /-- An outstanding loop number is owned by one id: by instances of it and by
  nothing in purgatory, or by one purgatory entry and by no instance. -/
  owner : ∀ n ∈ outstanding d.loops, ∃! id,
    ((∃ i ∈ d.p.instance_, i.packageId = id ∧ i.loop = n) ∧
      ∀ q ∈ d.p.purgatory, q.packageId ≠ id ∧ q.loopNumber ≠ n) ∨
    ((∃ q, d.p.purgatory.filter (fun q => q.loopNumber = n) = [q] ∧ q.packageId = id) ∧
      ∀ i ∈ d.p.instance_, i.packageId ≠ id ∧ i.loop ≠ n)
  /-- What is owned is outstanding. -/
  owned : ∀ n, OwnsLoop d n → n ∈ outstanding d.loops
  /-- Instances have the same loop number if and only if they have the same id. -/
  instances : ∀ i ∈ d.p.instance_, ∀ j ∈ d.p.instance_, i.packageId = j.packageId ↔ i.loop = j.loop
  /-- A package is in purgatory once at most. -/
  purgatory : (d.p.purgatory.map (·.packageId)).Nodup
  /-- A check of purgatory attempts no teardown step of a package with an instance. -/
  check : ∀ out, ∃ evs, (packagePurgatoryCheck d out).loops = d.loops ++ evs ∧
    ∀ ev ∈ evs, ∀ i ∈ d.p.instance_, ev.teardownOf ≠ some i.packageId

/-- The holder of an outstanding loop number, and whoever else has that number. -/
theorem Represents.holder {d : Daemon} {L : Lease CStr ℤ} (h : Represents d L) {n : ℤ} (hn : n ∈ outstanding d.loops) :
    ∃ k u, L.held k = some (n, u) ∧ (∀ i ∈ d.p.instance_, i.loop = n → i.packageId = k) ∧
      ∀ q ∈ d.p.purgatory, q.loopNumber = n → q.packageId = k := by
  obtain ⟨k, ⟨u, hk⟩, huniq⟩ := Lease.existsUnique_holder ((h.taken n).mp hn)
  refine ⟨k, u, hk, fun i hi hl => ?_, fun q hq hl => ?_⟩
  · exact huniq _ ⟨true, hl ▸ h.held_instance hi⟩
  · exact huniq _ ⟨false, hl ▸ h.held_purgatory hq⟩

/-- An entry in purgatory is the only one with its loop number. -/
theorem Represents.filter_purgatory {d : Daemon} {L : Lease CStr ℤ} (h : Represents d L) {q : PackagePurgatory}
    (hq : q ∈ d.p.purgatory) : d.p.purgatory.filter (fun x => x.loopNumber = q.loopNumber) = [q] := by
  obtain ⟨pre, post, hsplit⟩ := List.append_of_mem hq
  have hother : ∀ x ∈ pre ++ post, ¬ decide (x.loopNumber = q.loopNumber) = true := by
    intro x hx hl
    have hheld := h.held_purgatory (mem_of_rest hsplit hx)
    rw [of_decide_eq_true hl] at hheld
    exact (nodup_rest hsplit h.nodup).1 x hx (L.excl hheld (h.held_purgatory hq))
  have hpre := List.filter_eq_nil_iff.mpr fun x hx => hother x (List.mem_append_left _ hx)
  have hpost := List.filter_eq_nil_iff.mpr fun x hx => hother x (List.mem_append_right _ hx)
  rw [hsplit, List.filter_append, List.filter_cons_of_pos (by simp), hpre, hpost, List.nil_append]

theorem Represents.mountOwnership {d : Daemon} {L : Lease CStr ℤ} (h : Represents d L) :
    MountOwnership d where
  owner n hn := by
    obtain ⟨k, u, hk, hinst, hpurg⟩ := h.holder hn
    refine ⟨k, ?_, ?_⟩
    · cases u
      · obtain ⟨q, hq, rfl, rfl⟩ := (h.parked k n).mp hk
        refine Or.inr ⟨⟨q, h.filter_purgatory hq, rfl⟩, fun i hi => ?_⟩
        exact ⟨h.disjoint hi hq, fun hl => h.disjoint hi hq (hinst i hi hl)⟩
      · obtain ⟨i, hi, rfl, rfl⟩ := (h.running k n).mp hk
        refine Or.inl ⟨⟨i, hi, rfl, rfl⟩, fun q hq => ?_⟩
        exact ⟨(h.disjoint hi hq).symm, fun hl => h.disjoint hi hq (hpurg q hq hl).symm⟩
    · rintro id (⟨⟨i, hi, rfl, hl⟩, -⟩ | ⟨⟨q, hq, rfl⟩, -⟩)
      · exact hinst i hi hl
      · have hm : q ∈ d.p.purgatory.filter (fun q => q.loopNumber = n) := by rw [hq]; simp
        obtain ⟨hm, hl⟩ := List.mem_filter.mp hm
        exact hpurg q hm (by simpa using hl)
  owned n hn := (h.taken n).mpr ((h.ownsLoop n).mp hn)
  instances i hi j hj := by
    have h1 := h.held_instance hi
    have h2 := h.held_instance hj
    refine ⟨fun he => ?_, fun he => ?_⟩
    · rw [he, h2] at h1
      simpa using h1.symm
    · exact L.excl h1 (he ▸ h2)
  purgatory := h.nodup
  check out := by
    obtain ⟨evs, he, hev⟩ := check_events d out
    refine ⟨evs, he, fun ev hm i hi => ?_⟩
    obtain ⟨q, hq, ht⟩ := hev ev hm
    rw [ht]
    exact fun hid => h.disjoint hi hq (Option.some.inj hid).symm

/-- **Mount ownership.** After every run of fewer than 2^31 `package_run`
calls, whatever the kernel answers, as long as a successful `dbp_loop_mount`
returns a loop number nobody owns. -/
theorem mount_ownership (cfg : DBPConfig) (icons desktops execs : Dir) (ops : List DaemonOp)
    (hf : Admissible (Daemon.step cfg) FreshMounts (Daemon.init icons desktops execs) ops)
    (hn : ops.countP DaemonOp.isRun < 2 ^ 31) :
    MountOwnership (Daemon.run cfg (Daemon.init icons desktops execs) ops) := by
  obtain ⟨L, hL⟩ := represents_of_run cfg icons desktops execs ops hf hn
  exact hL.mountOwnership

/-- A package is run twice, stopped twice and torn down up to its loop device. -/
def demoRun : List DaemonOp :=
  [.registerPath (demoEnv [(lit "/m/a.dbp", [demoMeta (lit "a")])]) (lit "/dev/sda1") (lit "/m/a.dbp") (lit "/m"),
    .run 3 (lit "a") (lit "u"), .run (-1) (lit "a") (lit "u"), .stop 100 0, .stop 100 1,
    .purgatoryCheck fun _ => ⟨true, true, false⟩]

theorem mount_ownership_demo :
    outstanding (Daemon.run demoConfig (Daemon.init [] [] []) demoRun).loops = [3] ∧
      MountOwnership (Daemon.run demoConfig (Daemon.init [] [] []) demoRun) :=
  ⟨by decide, mount_ownership demoConfig [] [] [] demoRun (by decide) (by decide)⟩

end Dbp
