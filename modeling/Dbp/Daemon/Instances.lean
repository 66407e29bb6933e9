/-
# Running packages

`package_run`, `package_stop` and the purgatory of `dbpd/package.c`. A
package is mounted by its first instance; the last one to stop puts the
mount in purgatory, from where a later run takes it back or
`package_purgatory_check` tears it down. The result of `dbp_loop_mount` and
the outcomes of the teardown steps are the kernel's, so they are arguments
here; allocations succeed.

Key definitions: `packageRun`, `packageStop`, `packagePurgatoryCheck`.
Key theorems: `packagePurgatoryRevive_cases`, `packageRun_cases`, `packageRun_loops`, `packageRun_shared`,
`placeCase`, `packagePurgatoryRevive_parked`, `packageRun_parked`, `packageRun_unmounted`, `packageStop_eraseP`,
`packageStop_cases`, `packagePurgatoryCheck_eq`.
-/
import Dbp.Daemon.Types
import Dbp.Lib.Sweep
import Dbp.Lib.Find

namespace Dbp

open CLib Sweep Find

/-- `package_find`, which is `package_id_lookup`: the first entry of that id. -/
def packageFind (p : Package) (id : CStr) : Option ℕ := p.entry.findIdx? fun e => e.id == id

/-- `package_purgatory_find`. -/
def packagePurgatoryFind (p : Package) (pkgid : CStr) : Option ℕ :=
  p.purgatory.findIdx? fun q => q.packageId == pkgid

/-- `package_purgatory_revive`: -1 if the package is not in purgatory, -2 if
it cannot be used any more, else its loop number, and it leaves purgatory. -/
def packagePurgatoryRevive (p : Package) (pkgid : CStr) : ℤ × Package :=
  match packagePurgatoryFind p pkgid with
  | none => (-1, p)
  | some i =>
    match p.purgatory[i]? with
    | none => (-1, p)
    | some q =>
      if q.reusable < 1 then (-2, p)
      else (q.loopNumber, { p with purgatory := p.purgatory.eraseIdx i })

/-- `package_run` from the label `mounted` on: a new instance on the loop
device. `run_cnt` is an `int`, set to 0 when it wraps around. -/
def packageRunMounted (p : Package) (id : CStr) (loop : ℤ) : ℤ × Package :=
  let cnt := toInt32 (p.runCnt + 1)
  let inst : PackageInstance := ⟨id, (p.runCnt % 2 ^ 32).toNat, loop⟩
  (toInt32 inst.runId,
    { p with runCnt := if cnt < 0 then 0 else cnt, instance_ := p.instance_ ++ [inst] })

/-- `package_run` for a package that is not mounted, with `ret` what
`dbp_loop_mount` returns if it is called. -/
def packageRunMount (d : Daemon) (ret : ℤ) (id user : CStr) : ℤ × Daemon :=
  match (packageFind d.p id).bind (d.p.entry[·]?) with
  | none => (DBP_ERROR_BAD_PKG_ID, d)
  | some e =>
    let d := { d with loops := d.loops ++ [.mount e.path id user e.mount e.appdata ret] }
    if ret < 0 then (ret, d)
    else
      let r := packageRunMounted d.p id ret
      (r.1, { d with p := r.2 })

/-- `package_run`, with `ret` what `dbp_loop_mount` returns if it is called. -/
def packageRun (d : Daemon) (ret : ℤ) (id user : CStr) : ℤ × Daemon :=
  match d.p.instance_.find? fun i => i.packageId == id with
  | some i =>
    let r := packageRunMounted d.p id i.loop
    (r.1, { d with p := r.2 })
  | none =>
    let rev := packagePurgatoryRevive d.p id
    let d := { d with p := rev.2 }
    if rev.1 < -1 then (DBP_ERROR_MUTILATED, d)
    else if rev.1 > -1 then
      let r := packageRunMounted d.p id rev.1
      (r.1, { d with p := r.2 })
    else packageRunMount d ret id user

/-- What a revival can do: it finds no entry of the package, or an entry that is not reusable, or it
takes the entry out of purgatory. -/
inductive ReviveCase (p : Package) (id : CStr) : ℤ × Package → Prop
  | absent (h : ∀ q ∈ p.purgatory, q.packageId ≠ id) : ReviveCase p id (-1, p)
  | mutilated : ReviveCase p id (-2, p)
  | revived (pre post : List PackagePurgatory) (q : PackagePurgatory) (hq : p.purgatory = pre ++ q :: post)
    (hid : q.packageId = id) (hre : 1 ≤ q.reusable) :
    ReviveCase p id (q.loopNumber, { p with purgatory := pre ++ post })

theorem packagePurgatoryRevive_cases (p : Package) (id : CStr) : ReviveCase p id (packagePurgatoryRevive p id) := by
  unfold packagePurgatoryRevive
  cases hq : packagePurgatoryFind p id with
  | none => exact .absent fun q hqm => by simpa using findIdx?_none hq q hqm
  | some k =>
    obtain ⟨pre, q, post, hxs, rfl, hx, -⟩ := findIdx?_split hq
    have hget : p.purgatory[pre.length]? = some q := by simp [hxs]
    have hera : p.purgatory.eraseIdx pre.length = pre ++ post := hxs ▸ eraseIdx_middle
    by_cases hre : q.reusable < 1
    · simp only [hget, hre, ↓reduceIte]
      exact .mutilated
    · simp only [hget, hre, ↓reduceIte, hera]
      exact .revived pre post q hxs (by simpa using hx) (by omega)

/-- What a run can do: it shares the mount of an instance, takes a mount back
from purgatory, makes a new mount, fails to make one, or leaves the state as
it is. -/
inductive RunCase (d : Daemon) (ret : ℤ) (id user : CStr) : ℤ × Daemon → Prop
  | shared (i : PackageInstance) (hi : i ∈ d.p.instance_) (hid : i.packageId = id) :
    RunCase d ret id user ((packageRunMounted d.p id i.loop).1,
      { d with p := (packageRunMounted d.p id i.loop).2 })
  | revived (pre post : List PackagePurgatory) (q : PackagePurgatory)
    (hinst : ∀ i ∈ d.p.instance_, i.packageId ≠ id) (hq : d.p.purgatory = pre ++ q :: post)
    (hid : q.packageId = id) (hre : 1 ≤ q.reusable) :
    RunCase d ret id user ((packageRunMounted { d.p with purgatory := pre ++ post } id q.loopNumber).1,
      { d with p := (packageRunMounted { d.p with purgatory := pre ++ post } id q.loopNumber).2 })
  | mounted (e : PackageEntry) (he : e ∈ d.p.entry) (heid : e.id = id)
    (hinst : ∀ i ∈ d.p.instance_, i.packageId ≠ id) (hpurg : ∀ q ∈ d.p.purgatory, q.packageId ≠ id)
    (hret : 0 ≤ ret) :
    RunCase d ret id user ((packageRunMounted d.p id ret).1,
      { d with
        p := (packageRunMounted d.p id ret).2
        loops := d.loops ++ [.mount e.path id user e.mount e.appdata ret] })
  | failed (e : PackageEntry) (he : e ∈ d.p.entry) (heid : e.id = id) (hret : ret < 0) :
    RunCase d ret id user (ret,
      { d with loops := d.loops ++ [.mount e.path id user e.mount e.appdata ret] })
  | refused (err : ℤ) (herr : err < 0) : RunCase d ret id user (err, d)

theorem packageRunMount_cases (d : Daemon) (ret : ℤ) (id user : CStr)
    (hinst : ∀ i ∈ d.p.instance_, i.packageId ≠ id) (hpurg : ∀ q ∈ d.p.purgatory, q.packageId ≠ id) :
    RunCase d ret id user (packageRunMount d ret id user) := by
  unfold packageRunMount
  cases he : (packageFind d.p id).bind (d.p.entry[·]?) with
  | none => exact .refused _ (by decide)
  | some e =>
    obtain ⟨i, hi, hei⟩ := Option.bind_eq_some_iff.mp he
    obtain ⟨pre, x, post, hxs, rfl, hx, -⟩ := findIdx?_split hi
    have hxe : x = e := by simpa [hxs] using hei
    subst hxe
    have hmem : x ∈ d.p.entry := by rw [hxs]; simp
    have hid : x.id = id := by simpa using hx
    by_cases hret : ret < 0
    · simp only [hret, ↓reduceIte]
      exact .failed x hmem hid hret
    · simp only [hret, ↓reduceIte]
      exact .mounted x hmem hid hinst hpurg (by omega)

/-- The cases of `package_run`, loop numbers in purgatory not being negative. -/
theorem packageRun_cases (d : Daemon) (ret : ℤ) (id user : CStr)
    (hpos : ∀ q ∈ d.p.purgatory, 0 ≤ q.loopNumber) :
    RunCase d ret id user (packageRun d ret id user) := by
  unfold packageRun
  cases hf : d.p.instance_.find? fun i => i.packageId == id with
  | some i =>
    exact .shared i (List.mem_of_find?_eq_some hf) (by simpa using List.find?_some hf)
  | none =>
    have hinst : ∀ i ∈ d.p.instance_, i.packageId ≠ id := by simpa using hf
    have hrev := packagePurgatoryRevive_cases d.p id
    generalize packagePurgatoryRevive d.p id = rev at hrev ⊢
    cases hrev with
    | absent hpurg => exact packageRunMount_cases d ret id user hinst hpurg
    | mutilated => exact .refused _ (by decide)
    | revived pre post q hq hid hre =>
      have h0 : 0 ≤ q.loopNumber := hpos q (by rw [hq]; simp)
      have h1 : ¬ q.loopNumber < -1 := by omega
      have h2 : q.loopNumber > -1 := by omega
      simp only [h1, h2, ↓reduceIte]
      exact .revived pre post q hinst hq hid hre

theorem packageRunMount_loops (d : Daemon) (ret : ℤ) (id user : CStr) :
    (packageRunMount d ret id user).2.loops = d.loops ∨
      ∃ e, (packageFind d.p id).bind (d.p.entry[·]?) = some e ∧
        (packageRunMount d ret id user).2.loops = d.loops ++ [.mount e.path id user e.mount e.appdata ret] := by
  unfold packageRunMount
  split
  · exact .inl rfl
  · next e he =>
    refine .inr ⟨e, he, ?_⟩
    dsimp only
    split_ifs <;> rfl

/-- The daemon mounts a package with what its entry has, or not at all. -/
theorem packageRun_loops (d : Daemon) (ret : ℤ) (id user : CStr) :
    (packageRun d ret id user).2.loops = d.loops ∨
      ∃ e, (packageFind d.p id).bind (d.p.entry[·]?) = some e ∧
        (packageRun d ret id user).2.loops = d.loops ++ [.mount e.path id user e.mount e.appdata ret] := by
  unfold packageRun
  cases d.p.instance_.find? fun i => i.packageId == id with
  | some i => exact .inl rfl
  | none =>
    have hrev := packagePurgatoryRevive_cases d.p id
    generalize packagePurgatoryRevive d.p id = rev at hrev ⊢
    cases hrev with
    | absent h => exact packageRunMount_loops d ret id user
    | mutilated => exact .inl rfl
    | revived pre post q hq hid hre =>
      dsimp only
      split_ifs
      · exact .inl rfl
      · exact .inl rfl
      · exact packageRunMount_loops { d with p := { d.p with purgatory := pre ++ post } } ret id user

section Run

variable {d : Daemon} {id : CStr} (ret : ℤ) (user : CStr)

/-- A run of a package with an instance shares the mount of the first one. -/
theorem packageRun_shared {i : PackageInstance} (h : (d.p.instance_.find? fun i => i.packageId == id) = some i) :
    packageRun d ret id user = ((packageRunMounted d.p id i.loop).1, { d with p := (packageRunMounted d.p id i.loop).2 }) := by
  rw [packageRun, h]

/-- Where a run finds a package: running, in purgatory behind entries of others, or neither. -/
inductive PlaceCase (p : Package) (id : CStr) : Prop
  | running (i : PackageInstance) (hi : i ∈ p.instance_) (hid : i.packageId = id)
    (hfind : (p.instance_.find? fun i => i.packageId == id) = some i)
  | parked (pre post : List PackagePurgatory) (q : PackagePurgatory) (hinst : ∀ i ∈ p.instance_, i.packageId ≠ id)
    (hq : p.purgatory = pre ++ q :: post) (hid : q.packageId = id) (hpre : ∀ x ∈ pre, x.packageId ≠ id)
    (hfind : (p.purgatory.find? fun q => q.packageId == id) = some q)
  | away (hinst : ∀ i ∈ p.instance_, i.packageId ≠ id) (hpurg : ∀ q ∈ p.purgatory, q.packageId ≠ id)
    (hfind : (p.purgatory.find? fun q => q.packageId == id) = none)

theorem placeCase (p : Package) (id : CStr) : PlaceCase p id := by
  cases hf : p.instance_.find? fun i => i.packageId == id with
  | some i => exact .running i (List.mem_of_find?_eq_some hf) (by simpa using List.find?_some hf) hf
  | none =>
    have hinst : ∀ i ∈ p.instance_, i.packageId ≠ id := by simpa using hf
    cases hq : p.purgatory.findIdx? fun q => q.packageId == id with
    | none =>
      have hpurg : ∀ q ∈ p.purgatory, q.packageId ≠ id := fun q hm => by simpa using findIdx?_none hq q hm
      exact .away hinst hpurg (by simpa using hpurg)
    | some k =>
      obtain ⟨pre, q, post, hqs, rfl, hid, hpre⟩ := findIdx?_split hq
      refine .parked pre post q hinst hqs (by simpa using hid) (fun x hx => by simpa using hpre x hx) ?_
      rw [hqs, List.find?_append, List.find?_eq_none.mpr fun x hx => by simp [hpre x hx], List.find?_cons, hid]
      rfl

/-- A package that is not in purgatory is not revived. -/
theorem packagePurgatoryRevive_away {p : Package} (hpurg : ∀ q ∈ p.purgatory, q.packageId ≠ id) :
    packagePurgatoryRevive p id = (-1, p) := by
  have hfind : packagePurgatoryFind p id = none := by
    rw [packagePurgatoryFind, List.findIdx?_eq_none_iff]
    intro q hq
    rw [beq_eq_false_iff_ne]
    exact hpurg q hq
  simp only [packagePurgatoryRevive, hfind]

/-- Of a package that waits in purgatory the first entry is revived, if it can be used. -/
theorem packagePurgatoryRevive_parked {p : Package} {pre post : List PackagePurgatory} {q : PackagePurgatory}
    (hq : p.purgatory = pre ++ q :: post) (hid : q.packageId = id) (hpre : ∀ x ∈ pre, x.packageId ≠ id) :
    packagePurgatoryRevive p id =
      if q.reusable < 1 then (-2, p) else (q.loopNumber, { p with purgatory := pre ++ post }) := by
  have hfind : packagePurgatoryFind p id = some pre.length := by
    rw [packagePurgatoryFind, hq, List.findIdx?_append, List.findIdx?_eq_none_iff.mpr fun x hx => by simpa using hpre x hx]
    simp [List.findIdx?_cons, hid]
  have hget : p.purgatory[pre.length]? = some q := by simp [hq]
  have hera : p.purgatory.eraseIdx pre.length = pre ++ post := hq ▸ eraseIdx_middle
  simp only [packagePurgatoryRevive, hfind, hget, hera]

/-- A run of a package that is neither running nor in purgatory. -/
theorem packageRun_unmounted (hinst : ∀ i ∈ d.p.instance_, i.packageId ≠ id)
    (hpurg : ∀ q ∈ d.p.purgatory, q.packageId ≠ id) : packageRun d ret id user = packageRunMount d ret id user := by
  have hnone : (d.p.instance_.find? fun i => i.packageId == id) = none := by simpa using hinst
  simp only [packageRun, packagePurgatoryRevive_away hpurg, hnone, show ¬ (-1 : ℤ) < -1 by decide, ↓reduceIte]

/-- A run of a package that waits in purgatory takes the first entry of it out, or is refused. -/
theorem packageRun_parked {pre post : List PackagePurgatory} {q : PackagePurgatory}
    (hinst : ∀ i ∈ d.p.instance_, i.packageId ≠ id) (hq : d.p.purgatory = pre ++ q :: post) (hid : q.packageId = id)
    (hpre : ∀ x ∈ pre, x.packageId ≠ id) (hloop : 0 ≤ q.loopNumber) :
    packageRun d ret id user =
      if q.reusable < 1 then (DBP_ERROR_MUTILATED, d)
      else
        let r := packageRunMounted { d.p with purgatory := pre ++ post } id q.loopNumber
        (r.1, { d with p := r.2 }) := by
  have hnone : (d.p.instance_.find? fun i => i.packageId == id) = none := by simpa using hinst
  simp only [packageRun, hnone, packagePurgatoryRevive_parked hq hid hpre]
  by_cases hre : q.reusable < 1
  · simp only [hre, ↓reduceIte, show (-2 : ℤ) < -1 by decide]
  · have h1 : ¬ q.loopNumber < -1 := by omega
    have h2 : q.loopNumber > -1 := by omega
    simp only [hre, h1, h2, ↓reduceIte]

end Run

/-- `package_purgatory_add` at time `now`. -/
def packagePurgatoryAdd (p : Package) (now : ℤ) (pkgId : CStr) (loop reusable : ℤ) : Package :=
  { p with purgatory := p.purgatory ++ [⟨pkgId, loop, reusable, now + 5⟩] }

/-- `package_stop` at time `now`. It returns 1 also for an unknown run id. -/
def packageStop (d : Daemon) (now runId : ℤ) : ℤ × Daemon :=
  match d.p.instance_.findIdx? fun i => toInt32 i.runId == runId with
  | none => (1, d)
  | some rid =>
    match d.p.instance_[rid]? with
    | none => (1, d)
    | some inst =>
      let other := d.p.instance_.any fun i => i.packageId == inst.packageId && toInt32 i.runId != runId
      let p := if other then d.p else packagePurgatoryAdd d.p now inst.packageId inst.loop 1
      (1, { d with p := { p with instance_ := p.instance_.eraseIdx rid } })

/-- A stop ends the first instance of the run id. -/
theorem packageStop_eraseP (d : Daemon) (now runId : ℤ) :
    (packageStop d now runId).2.p.instance_ = d.p.instance_.eraseP fun i => toInt32 i.runId == runId := by
  unfold packageStop
  rw [List.eraseP_eq_eraseIdx]
  cases d.p.instance_.findIdx? fun i => toInt32 i.runId == runId with
  | none => rfl
  | some k =>
    cases h : d.p.instance_[k]? with
    | none => simp only [h, List.eraseIdx_of_length_le (List.getElem?_eq_none_iff.mp h)]
    | some inst =>
      simp only [h]
      split_ifs <;> rfl

/-- What a stop can do: nothing for an unknown run id, else the first instance
of the run id ends, and unless another one of its package is there the
mount goes to purgatory. -/
inductive StopCase (d : Daemon) (now runId : ℤ) : Daemon → Prop
  | unknown (h : ∀ i ∈ d.p.instance_, toInt32 i.runId ≠ runId) : StopCase d now runId d
  | shared (pre post : List PackageInstance) (i j : PackageInstance) (hi : d.p.instance_ = pre ++ i :: post)
    (hrun : toInt32 i.runId = runId) (hj : j ∈ d.p.instance_) (hid : j.packageId = i.packageId)
    (hne : toInt32 j.runId ≠ runId) :
    StopCase d now runId { d with p := { d.p with instance_ := pre ++ post } }
  | last (pre post : List PackageInstance) (i : PackageInstance) (hi : d.p.instance_ = pre ++ i :: post)
    (hrun : toInt32 i.runId = runId)
    (hall : ∀ j ∈ d.p.instance_, j.packageId = i.packageId → toInt32 j.runId = runId) :
    StopCase d now runId
      { d with
        p := { d.p with
          instance_ := pre ++ post
          purgatory := d.p.purgatory ++ [⟨i.packageId, i.loop, 1, now + 5⟩] } }

theorem packageStop_cases (d : Daemon) (now runId : ℤ) :
    StopCase d now runId (packageStop d now runId).2 := by
  unfold packageStop
  cases hf : d.p.instance_.findIdx? fun i => toInt32 i.runId == runId with
  | none =>
    exact .unknown fun i hi => by simpa using findIdx?_none hf i hi
  | some k =>
    obtain ⟨pre, i, post, hxs, rfl, hx, -⟩ := findIdx?_split hf
    have hget : d.p.instance_[pre.length]? = some i := by simp [hxs]
    have hera : d.p.instance_.eraseIdx pre.length = pre ++ post := hxs ▸ eraseIdx_middle
    have hrun : toInt32 i.runId = runId := by simpa using hx
    by_cases ho : ∃ j ∈ d.p.instance_, j.packageId = i.packageId ∧ toInt32 j.runId ≠ runId
    · obtain ⟨j, hj, hid, hne⟩ := ho
      have hany : (d.p.instance_.any fun j => j.packageId == i.packageId && toInt32 j.runId != runId) = true :=
        List.any_eq_true.mpr ⟨j, hj, by simp [hid, hne]⟩
      simp only [hget, hany, ↓reduceIte, hera]
      exact .shared pre post i j hxs hrun hj hid hne
    · have hall : ∀ j ∈ d.p.instance_, j.packageId = i.packageId → toInt32 j.runId = runId := by
        intro j hj hid
        by_contra hne
        exact ho ⟨j, hj, hid, hne⟩
      have hany : (d.p.instance_.any fun j => j.packageId == i.packageId && toInt32 j.runId != runId) = false := by
        rw [List.any_eq_false]
        intro j hj h
        simp only [Bool.and_eq_true, beq_iff_eq, bne_iff_ne] at h
        exact h.2 (hall j hj h.1)
      simp only [hget, hany, packagePurgatoryAdd, Bool.false_eq_true, ↓reduceIte, hera]
      exact .last pre post i hxs hrun hall

/-- The body of the loop of `package_purgatory_check`, with
`package_purgatory_reap`: the entry to keep, if it is kept. The state is the
number of teardowns attempted so far, which selects the outcome of the next
one, and the events. -/
def purgatoryVisit (out : ℕ → TeardownOutcome) (s : ℕ × List LoopEvent) (q : PackagePurgatory) :
    (ℕ × List LoopEvent) × Option PackagePurgatory :=
  if q.reusable < 1 ∨ q.expiry ≠ 0 then
    let r := dbpLoopUmount (out s.1) q.packageId q.loopNumber q.reusable
    ((s.1 + 1, s.2 ++ r.2), if r.1 = 0 then none else some { q with reusable := r.1 })
  else (s, some q)

/-- `package_purgatory_check`. -/
def packagePurgatoryCheck (d : Daemon) (out : ℕ → TeardownOutcome) : Daemon :=
  let r := sweep (purgatoryVisit out) d.p.purgatory.length 0 (0, []) d.p.purgatory
  { d with p := { d.p with purgatory := r.2 }, loops := d.loops ++ r.1.2 }

/-- The check visits every entry of the list once, in order. -/
theorem packagePurgatoryCheck_eq (d : Daemon) (out : ℕ → TeardownOutcome) :
    packagePurgatoryCheck d out =
      { d with
        p := { d.p with purgatory := (mapKeep (purgatoryVisit out) (0, []) d.p.purgatory).2 }
        loops := d.loops ++ (mapKeep (purgatoryVisit out) (0, []) d.p.purgatory).1.2 } := by
  unfold packagePurgatoryCheck
  rw [sweep_eq]

end Dbp
