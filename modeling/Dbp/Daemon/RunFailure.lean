/-
# Failures of a run

`package_run` when allocations may fail. The array of instances is counted
by `p->instances` apart from it, and the count is raised before the `realloc`
that makes room for the new instance: when that fails, the count stays
raised, and the mount the run has made or taken out of purgatory is
forgotten. So a run that fails leaves all as it was exactly if it does not
come that far (`runAtomic_iff`). Where allocations succeed the run is
`packageRun` (`packageRunAlloc_ok`).

Key definitions: `RunAlloc`, `RunState`, `packageRunAlloc`, `RunAtomic`, `RunSafe`.
Key theorems: `packageRunAlloc_ok`, `runAtomic_mounted_iff`, `runAtomic_iff`.
-/
import Dbp.Daemon.Instances

namespace Dbp

open CLib Find

/-- Which of the allocations of `package_run` succeed: the `realloc` of the
array and the `strdup` of the id. -/
structure RunAlloc where
  realloc : Bool
  strdup : Bool
deriving Repr, DecidableEq

/-- `struct package_instance_s`, its `package_id` NULL if the `strdup` has failed. -/
structure InstanceSlot where
  packageId : Option CStr
  runId : ℕ
  loop : ℤ
deriving Repr, DecidableEq

/-- `struct package_s` with the array of instances and its count apart, and
what was asked of the loop layer. -/
structure RunState where
  entry : List PackageEntry
  runCnt : ℤ
  instance_ : List InstanceSlot
  instances : ℕ
  purgatory : List PackagePurgatory
  loops : List LoopEvent
deriving Repr, DecidableEq

/-- An instance in the array. -/
def PackageInstance.slot (i : PackageInstance) : InstanceSlot := ⟨some i.packageId, i.runId, i.loop⟩

/-- The state of a daemon whose array is as long as its count says. -/
def Daemon.runState (d : Daemon) : RunState :=
  ⟨d.p.entry, d.p.runCnt, d.p.instance_.map PackageInstance.slot, d.p.instance_.length, d.p.purgatory, d.loops⟩

/-- `package_run` from the label `mounted` on. -/
def packageRunMountedAlloc (a : RunAlloc) (s : RunState) (id : CStr) (loop : ℤ) : ℤ × RunState :=
  let s := { s with instances := s.instances + 1 }
  if a.realloc then
    let cnt := toInt32 (s.runCnt + 1)
    let slot : InstanceSlot := ⟨if a.strdup then some id else none, (s.runCnt % 2 ^ 32).toNat, loop⟩
    (toInt32 slot.runId, { s with runCnt := if cnt < 0 then 0 else cnt, instance_ := s.instance_ ++ [slot] })
  else (DBP_ERROR_NO_MEMORY, s)

/-- `package_run` for a package that is not mounted, with `ret` what
`dbp_loop_mount` returns if it is called. -/
def packageRunMountAlloc (a : RunAlloc) (d : Daemon) (ret : ℤ) (id user : CStr) : ℤ × RunState :=
  match (packageFind d.p id).bind (d.p.entry[·]?) with
  | none => (DBP_ERROR_BAD_PKG_ID, d.runState)
  | some e =>
    let s := { d.runState with loops := d.loops ++ [.mount e.path id user e.mount e.appdata ret] }
    if ret < 0 then (ret, s) else packageRunMountedAlloc a s id ret

/-- `package_run`, with `ret` what `dbp_loop_mount` returns if it is called. -/
def packageRunAlloc (a : RunAlloc) (d : Daemon) (ret : ℤ) (id user : CStr) : ℤ × RunState :=
  match d.p.instance_.find? fun i => i.packageId == id with
  | some i => packageRunMountedAlloc a d.runState id i.loop
  | none =>
    let rev := packagePurgatoryRevive d.p id
    let d := { d with p := rev.2 }
    if rev.1 < -1 then (DBP_ERROR_MUTILATED, d.runState)
    else if rev.1 > -1 then packageRunMountedAlloc a d.runState id rev.1
    else packageRunMountAlloc a d ret id user

theorem packageRunMountedAlloc_ok {d : Daemon} {s : RunState} (hs : s = d.runState) (id : CStr) (loop : ℤ) :
    packageRunMountedAlloc ⟨true, true⟩ s id loop =
      ((packageRunMounted d.p id loop).1, { d with p := (packageRunMounted d.p id loop).2 }.runState) := by
  subst hs
  simp only [packageRunMountedAlloc, packageRunMounted, Daemon.runState, ↓reduceIte, List.map_append, List.map_cons,
    List.map_nil, PackageInstance.slot, List.length_append, List.length_singleton]
  congr

/-- Where allocations succeed, it is the run of the daemon's machine. -/
theorem packageRunAlloc_ok (d : Daemon) (ret : ℤ) (id user : CStr) :
    packageRunAlloc ⟨true, true⟩ d ret id user =
      ((packageRun d ret id user).1, (packageRun d ret id user).2.runState) := by
  have hmount : ∀ d : Daemon, packageRunMountAlloc ⟨true, true⟩ d ret id user =
      ((packageRunMount d ret id user).1, (packageRunMount d ret id user).2.runState) := by
    intro d
    unfold packageRunMountAlloc packageRunMount
    cases (packageFind d.p id).bind (d.p.entry[·]?) with
    | none => rfl
    | some e =>
      by_cases hret : ret < 0
      · simp only [hret, ↓reduceIte]
        rfl
      · simp only [hret, ↓reduceIte]
        exact packageRunMountedAlloc_ok
          (d := { d with loops := d.loops ++ [.mount e.path id user e.mount e.appdata ret] }) rfl id ret
  unfold packageRunAlloc packageRun
  cases d.p.instance_.find? fun i => i.packageId == id with
  | some i =>
    dsimp only
    exact packageRunMountedAlloc_ok (d := d) rfl id i.loop
  | none =>
    dsimp only
    by_cases h1 : (packagePurgatoryRevive d.p id).1 < -1
    · simp only [h1, ↓reduceIte]
    by_cases h2 : (packagePurgatoryRevive d.p id).1 > -1
    · simp only [h1, h2, ↓reduceIte]
      exact packageRunMountedAlloc_ok (d := { d with p := (packagePurgatoryRevive d.p id).2 }) rfl id _
    · simp only [h1, h2, ↓reduceIte]
      exact hmount _

/-! ### Atomic on failure -/

/-- A mount is owned by an instance of its package, or by an entry of it in purgatory. -/
def RunState.Owned (s : RunState) (id : CStr) (loop : ℤ) : Prop :=
  (∃ i ∈ s.instance_, i.packageId = some id ∧ i.loop = loop) ∨
    ∃ q ∈ s.purgatory, q.packageId = id ∧ q.loopNumber = loop

/-- A run with a result below 0 has left the entries, the instances, the purgatory and the run count as they
were, and no mount without an owner that it has made or taken out of purgatory. -/
structure RunFailsClean (s s' : RunState) : Prop where
  entry : s'.entry = s.entry
  instance_ : s'.instance_ = s.instance_ ∧ s'.instances = s.instances
  purgatory : s'.purgatory = s.purgatory
  runCnt : s'.runCnt = s.runCnt
  created : ∃ evs, s'.loops = s.loops ++ evs ∧
    ∀ image id user srcMount appdata ret, .mount image id user srcMount appdata ret ∈ evs → 0 ≤ ret → s'.Owned id ret
  taken : ∀ q ∈ s.purgatory, q ∉ s'.purgatory → s'.Owned q.packageId q.loopNumber

/-- A call of `package_run` is atomic on failure. -/
def RunAtomic (a : RunAlloc) (d : Daemon) (ret : ℤ) (id user : CStr) : Prop :=
  (packageRunAlloc a d ret id user).1 < 0 → RunFailsClean d.runState (packageRunAlloc a d ret id user).2

/-- The new instance finds room, and its run id is not a negative number. -/
def RunAlloc.Room (a : RunAlloc) (p : Package) : Prop := a.realloc = true ∧ 0 ≤ toInt32 p.runCnt

/-- The package is registered. -/
def Registered (p : Package) (id : CStr) : Prop := ∃ e ∈ p.entry, e.id = id

/-- What a run that fails must not have come to: a new instance without room, or a mount taken out of purgatory
whose loop number reads as that of a package that is not there. -/
def RunSafe (a : RunAlloc) (d : Daemon) (ret : ℤ) (id : CStr) : Prop :=
  match d.p.instance_.find? fun i => i.packageId == id, d.p.purgatory.find? fun q => q.packageId == id with
  | some _, _ => a.Room d.p
  | none, none => Registered d.p id → 0 ≤ ret → a.Room d.p
  | none, some q =>
    1 ≤ q.reusable → a.Room d.p ∧ (0 ≤ q.loopNumber ∨ q.loopNumber = -1 ∧ Registered d.p id ∧ 0 ≤ ret)

theorem registered_iff (p : Package) (id : CStr) :
    Registered p id ↔ (packageFind p id).bind (p.entry[·]?) ≠ none := by
  cases h : packageFind p id with
  | none =>
    have hnone : ∀ e ∈ p.entry, e.id ≠ id := fun e he => by simpa using findIdx?_none h e he
    simpa [Registered] using hnone
  | some i =>
    obtain ⟨pre, e, post, hes, rfl, he, -⟩ := findIdx?_split h
    have hreg : Registered p id := ⟨e, by rw [hes]; simp, by simpa using he⟩
    simp [hreg, hes]

theorem packageRunMountedAlloc_instances (a : RunAlloc) (s : RunState) (id : CStr) (loop : ℤ) :
    (packageRunMountedAlloc a s id loop).2.instances = s.instances + 1 := by
  unfold packageRunMountedAlloc
  split_ifs <;> rfl

theorem packageRunMountedAlloc_neg {a : RunAlloc} {p : Package} {s : RunState} (hc : s.runCnt = p.runCnt) (id : CStr)
    (loop : ℤ) : (packageRunMountedAlloc a s id loop).1 < 0 ↔ ¬ a.Room p := by
  unfold packageRunMountedAlloc RunAlloc.Room
  cases a.realloc with
  | false => exact iff_of_true (show DBP_ERROR_NO_MEMORY < 0 by decide) (by simp)
  | true =>
    have hid : toInt32 ((p.runCnt % 2 ^ 32).toNat : ℤ) = toInt32 p.runCnt := by
      rw [Int.toNat_of_nonneg (Int.emod_nonneg _ (by decide)), toInt32, toInt32]
      exact Int.emod_bmod p.runCnt (2 ^ 32)
    dsimp only
    rw [if_pos rfl, hc, hid]
    simp only [true_and]
    omega

/-- From the label `mounted` on, a result below 0 comes with a raised count. -/
theorem runAtomic_mounted_iff {a : RunAlloc} {p : Package} {s s' : RunState} (hn : s'.instances = s.instances)
    (hc : s'.runCnt = p.runCnt) (id : CStr) (loop : ℤ) :
    ((packageRunMountedAlloc a s' id loop).1 < 0 → RunFailsClean s (packageRunMountedAlloc a s' id loop).2) ↔
      a.Room p := by
  have hcount := packageRunMountedAlloc_instances a s' id loop
  rw [packageRunMountedAlloc_neg hc]
  constructor
  · intro h
    by_contra hroom
    have := (h hroom).instance_.2
    omega
  · intro hroom h
    exact absurd hroom h

/-- A run that has changed nothing, or only asked for a mount in vain. -/
theorem RunFailsClean.unchanged (s : RunState) : RunFailsClean s s :=
  ⟨rfl, ⟨rfl, rfl⟩, rfl, rfl, ⟨[], (List.append_nil _).symm, fun _ _ _ _ _ _ h => absurd h List.not_mem_nil⟩,
    fun _ hq hq' => absurd hq hq'⟩

theorem RunFailsClean.in_vain {s : RunState} {image id user srcMount appdata : CStr} {ret : ℤ} (hret : ret < 0) :
    RunFailsClean s { s with loops := s.loops ++ [.mount image id user srcMount appdata ret] } := by
  refine ⟨rfl, ⟨rfl, rfl⟩, rfl, rfl, ⟨_, rfl, ?_⟩, fun _ hq hq' => absurd hq hq'⟩
  intro image' id' user' srcMount' appdata' ret' hm h0
  obtain ⟨-, -, -, -, -, hret'⟩ := LoopEvent.mount.injEq .. ▸ List.mem_singleton.mp hm
  omega

/-- A run of a package that is neither running nor in purgatory is atomic unless it comes to a new instance without room. -/
theorem runAtomic_mount_iff (a : RunAlloc) (d : Daemon) (ret : ℤ) (id user : CStr) :
    ((packageRunMountAlloc a d ret id user).1 < 0 →
      RunFailsClean d.runState (packageRunMountAlloc a d ret id user).2) ↔ (Registered d.p id → 0 ≤ ret → a.Room d.p) := by
  rw [registered_iff]
  unfold packageRunMountAlloc
  cases he : (packageFind d.p id).bind (d.p.entry[·]?) with
  | none => exact iff_of_true (fun _ => .unchanged _) fun h => absurd rfl h
  | some e =>
    by_cases hret : ret < 0
    · have h0 : ¬ 0 ≤ ret := by omega
      simp only [hret, ↓reduceIte]
      exact iff_of_true (fun _ => .in_vain hret) fun _ h => absurd h h0
    · have h0 : 0 ≤ ret := by omega
      simp only [hret, ↓reduceIte]
      refine (runAtomic_mounted_iff (p := d.p) (by rfl) (by rfl) id ret).trans ?_
      simp [h0]

/-- With an entry of the package gone from purgatory before, no failure is atomic. -/
theorem runAtomic_mount_taken_iff {a : RunAlloc} {d : Daemon} {ret : ℤ} {id user : CStr}
    {pre post : List PackagePurgatory} {q : PackagePurgatory} (hq : d.p.purgatory = pre ++ q :: post) :
    ((packageRunMountAlloc a { d with p := { d.p with purgatory := pre ++ post } } ret id user).1 < 0 →
      RunFailsClean d.runState
        (packageRunMountAlloc a { d with p := { d.p with purgatory := pre ++ post } } ret id user).2) ↔
      a.Room d.p ∧ Registered d.p id ∧ 0 ≤ ret := by
  have htaken : ∀ s : RunState, s.purgatory = pre ++ post → ¬ RunFailsClean d.runState s := by
    intro s hs h
    have hlen := congrArg List.length (hs.symm.trans (h.purgatory.trans hq))
    simp at hlen
  have hfind : packageFind { d.p with purgatory := pre ++ post } id = packageFind d.p id := rfl
  rw [registered_iff]
  unfold packageRunMountAlloc
  dsimp only
  rw [hfind]
  cases he : (packageFind d.p id).bind (d.p.entry[·]?) with
  | none => exact iff_of_false (fun h => htaken _ rfl (h (show DBP_ERROR_BAD_PKG_ID < 0 by decide))) fun h => h.2.1 rfl
  | some e =>
    by_cases hret : ret < 0
    · have h0 : ¬ 0 ≤ ret := by omega
      simp only [hret, ↓reduceIte]
      exact iff_of_false (fun h => htaken _ rfl (h trivial)) fun h => h0 h.2.2
    · have h0 : 0 ≤ ret := by omega
      simp only [hret, ↓reduceIte]
      refine (runAtomic_mounted_iff (p := d.p) (by rfl) (by rfl) id ret).trans ?_
      simp [h0]

/-- A call of `package_run` is atomic on failure exactly if, failing, it has not come to a new instance or to an
entry of purgatory with a negative loop number. -/
theorem runAtomic_iff (a : RunAlloc) (d : Daemon) (ret : ℤ) (id user : CStr) :
    RunAtomic a d ret id user ↔ RunSafe a d ret id := by
  unfold RunAtomic packageRunAlloc RunSafe
  cases placeCase d.p id with
  | running i hi hid hfind =>
    rw [hfind]
    exact runAtomic_mounted_iff (p := d.p) rfl rfl id i.loop
  | away hinst hpurg hfind =>
    have hnone : (d.p.instance_.find? fun i => i.packageId == id) = none := by simpa using hinst
    rw [hnone, hfind, packagePurgatoryRevive_away hpurg]
    exact runAtomic_mount_iff a d ret id user
  | parked pre post q hinst hq hid hpre hfind =>
    have hnone : (d.p.instance_.find? fun i => i.packageId == id) = none := by simpa using hinst
    rw [hnone, hfind, packagePurgatoryRevive_parked hq hid hpre]
    by_cases hre : q.reusable < 1
    · have hnot : ¬ 1 ≤ q.reusable := by omega
      simp only [hre, ↓reduceIte, show (-2 : ℤ) < -1 by decide]
      exact iff_of_true (fun _ => .unchanged _) fun h => absurd h hnot
    have hre' : 1 ≤ q.reusable := by omega
    by_cases h1 : q.loopNumber < -1
    · have hnot : ¬ (0 ≤ q.loopNumber ∨ q.loopNumber = -1 ∧ Registered d.p id ∧ 0 ≤ ret) := by omega
      simp only [hre, h1, ↓reduceIte]
      refine iff_of_false (fun h => ?_) fun h => hnot (h hre').2
      have hlen := congrArg List.length ((h (by decide)).purgatory.trans hq)
      simp [Daemon.runState] at hlen
    by_cases h2 : q.loopNumber > -1
    · have hge : 0 ≤ q.loopNumber := by omega
      simp only [hre, h1, h2, ↓reduceIte]
      refine (runAtomic_mounted_iff (p := d.p) (by rfl) (by rfl) id q.loopNumber).trans ?_
      simp [hre', hge]
    · have heq : q.loopNumber = -1 := by omega
      simp only [hre, h1, h2, ↓reduceIte]
      refine (runAtomic_mount_taken_iff hq).trans ?_
      simp [hre', heq]

/-- A package waits in purgatory on loop device 3, and is run while memory is short. -/
def purgatoryConfig : Daemon := ⟨⟨[], 0, [], [⟨lit "pkg", 3, 1, 105⟩]⟩, [], [], [], [], []⟩

/-- Its run fails; the device is owned by no one any more, and the count is 1 over an empty array. -/
theorem runAtomic_no_memory :
    (packageRunAlloc ⟨false, true⟩ purgatoryConfig 0 (lit "pkg") (lit "user")).1 = DBP_ERROR_NO_MEMORY ∧
      ¬ RunAtomic ⟨false, true⟩ purgatoryConfig 0 (lit "pkg") (lit "user") := by
  refine ⟨by decide, fun h => ?_⟩
  rcases (h (by decide)).taken ⟨lit "pkg", 3, 1, 105⟩ (by decide) (by decide) with ⟨i, hi, -⟩ | ⟨q, hq, -⟩
  · exact absurd hi List.not_mem_nil
  · exact absurd hq List.not_mem_nil

end Dbp
