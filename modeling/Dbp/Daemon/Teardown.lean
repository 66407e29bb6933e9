/-
# The teardown of purgatory entries

A package in purgatory is torn down in three steps, over as many checks as
it takes: the umount of its union, the umount of its image and the reset of
its loop device. `Monitored` runs the daemon and keeps, beside each entry of
purgatory, the attempts made since it got there. The number in `reusable`
says how many steps are done (`stepsDone`), and an attempt goes on from
there (`completed_umount`). So in every run each entry's completed steps are
the first ones, in their order and each once; the entry is removed when all
three are; and it can be taken back as long as its union is mounted
(`teardown_protocol`).

Key definitions: `completed`, `stepsDone`, `Tracked`, `Monitored`, `TeardownProtocol`.
Key theorems: `completed_umount`, `purgatoryVisit_cases`, `reaped_iff`, `teardown_protocol`.
-/
import Dbp.Daemon.Machine

namespace Dbp

open CLib Sweep Find Runs

/-! ### Steps -/

/-- A step of a teardown. -/
inductive TeardownStep
  | union
  | img
  | reset
deriving DecidableEq, Repr

/-- The steps of a complete teardown, in their order. -/
def teardownSteps : List TeardownStep := [.union, .img, .reset]

/-- The step an attempt has completed. -/
def LoopEvent.completed : LoopEvent → Option TeardownStep
  | .mount .. => none
  | .umountUnion _ ok => if ok then some .union else none
  | .umountImg _ ok => if ok then some .img else none
  | .loopReset _ _ ok => if ok then some .reset else none

/-- The steps completed by attempts. -/
def completed (evs : List LoopEvent) : List TeardownStep := evs.filterMap LoopEvent.completed

@[simp] theorem completed_append (evs evs' : List LoopEvent) :
    completed (evs ++ evs') = completed evs ++ completed evs' := List.filterMap_append

/-- How many steps are done in a state of the teardown; 0 is its end. -/
def stepsDone (state : ℤ) : ℕ := if state = 0 then 3 else if state = -3 then 2 else if state = -2 then 1 else 0

/-- A state of a teardown that is not complete. -/
def Pending (state : ℤ) : Prop := state = 1 ∨ state = -2 ∨ state = -3

theorem Pending.stepsDone_lt {state : ℤ} (h : Pending state) : stepsDone state < 3 := by
  rcases h with rfl | rfl | rfl <;> decide

/-- The union is mounted in the states above 0. -/
theorem Pending.pos_iff {state : ℤ} (h : Pending state) :
    0 < state ↔ TeardownStep.union ∉ teardownSteps.take (stepsDone state) := by
  rcases h with rfl | rfl | rfl <;> decide

/-- What an attempt makes of a teardown after `k` steps. -/
structure Resumes (k : ℕ) (r : ℤ × List LoopEvent) : Prop where
  state : r.1 = 0 ∨ Pending r.1
  steps : teardownSteps.take k ++ completed r.2 = teardownSteps.take (stepsDone r.1)

theorem resumes_loop (o : TeardownOutcome) (id : CStr) (loop : ℤ) : Resumes 2 (loopUmountLoop o id loop) := by
  unfold loopUmountLoop
  cases o.reset with
  | true => exact ⟨.inl rfl, rfl⟩
  | false => exact ⟨.inr (.inr (.inr rfl)), rfl⟩

theorem resumes_img (o : TeardownOutcome) (id : CStr) (loop : ℤ) {prev : ℤ} (hp : ¬ prev < -2) :
    Resumes 1 (loopUmountImg o id loop prev) := by
  obtain ⟨hstate, hsteps⟩ := resumes_loop o id loop
  unfold loopUmountImg
  rw [if_neg hp]
  cases o.img with
  | true => exact ⟨hstate, hsteps⟩
  | false => exact ⟨.inr (.inr (.inl rfl)), rfl⟩

theorem resumes_union (o : TeardownOutcome) (id : CStr) (loop : ℤ) : Resumes 0 (dbpLoopUmount o id loop 1) := by
  obtain ⟨hstate, hsteps⟩ := resumes_img o id loop (show ¬ (1 : ℤ) < -2 by decide)
  unfold dbpLoopUmount
  cases o.union with
  | true => exact ⟨hstate, hsteps⟩
  | false => exact ⟨.inr (.inl rfl), rfl⟩

/-- **An attempt goes on where the last one stopped.** -/
theorem completed_umount (o : TeardownOutcome) (id : CStr) (loop : ℤ) {state : ℤ} (h : Pending state) :
    Resumes (stepsDone state) (dbpLoopUmount o id loop state) := by
  rcases h with rfl | rfl | rfl
  · exact resumes_union o id loop
  · exact resumes_img o id loop (show ¬ (-2 : ℤ) < -2 by decide)
  · exact resumes_loop o id loop

/-! ### Entries with their attempts -/

/-- An entry of purgatory, and the attempts to tear it down since it got there. -/
structure Tracked where
  entry : PackagePurgatory
  attempts : List LoopEvent
deriving DecidableEq, Repr

/-- The attempts after a visit of the check, which is handed the number of teardowns and the events so far. -/
def Tracked.attemptsAfter (out : ℕ → TeardownOutcome) (s : ℕ × List LoopEvent) (t : Tracked) : List LoopEvent :=
  t.attempts ++ (purgatoryVisit out s t.entry).1.2.drop s.2.length

/-- `purgatoryVisit`, with the entries reaped so far. -/
def trackedVisit (out : ℕ → TeardownOutcome) (s : (ℕ × List LoopEvent) × List Tracked) (t : Tracked) :
    ((ℕ × List LoopEvent) × List Tracked) × Option Tracked :=
  let r := purgatoryVisit out s.1 t.entry
  match r.2 with
  | none => ((r.1, s.2 ++ [⟨t.entry, t.attemptsAfter out s.1⟩]), none)
  | some q => ((r.1, s.2), some ⟨q, t.attemptsAfter out s.1⟩)

/-- The visit of an entry is that of the daemon. -/
theorem trackedVisit_entry (out : ℕ → TeardownOutcome) (s : (ℕ × List LoopEvent) × List Tracked) (t : Tracked) :
    purgatoryVisit out s.1 t.entry = ((trackedVisit out s t).1.1, (trackedVisit out s t).2.map (·.entry)) := by
  unfold trackedVisit
  rcases purgatoryVisit out s.1 t.entry with ⟨r, _ | q⟩ <;> rfl

/-- An entry whose `reusable` says what has been done. -/
structure Tracked.Ok (t : Tracked) : Prop where
  pending : Pending t.entry.reusable
  steps : completed t.attempts = teardownSteps.take (stepsDone t.entry.reusable)

/-- A visit: the entry stays and still has steps to do, or it goes, all steps done. -/
inductive VisitCase (out : ℕ → TeardownOutcome) (s : ℕ × List LoopEvent) (t : Tracked) : Option PackagePurgatory → Prop
  | stays (q : PackagePurgatory) (hid : q.packageId = t.entry.packageId) (hloop : q.loopNumber = t.entry.loopNumber)
    (hok : Tracked.Ok ⟨q, t.attemptsAfter out s⟩) : VisitCase out s t (some q)
  | goes (hdone : completed (t.attemptsAfter out s) = teardownSteps) : VisitCase out s t none

theorem purgatoryVisit_cases (out : ℕ → TeardownOutcome) (s : ℕ × List LoopEvent) {t : Tracked} (h : t.Ok) :
    VisitCase out s t (purgatoryVisit out s t.entry).2 := by
  by_cases hc : t.entry.reusable < 1 ∨ t.entry.expiry ≠ 0
  · obtain ⟨hstate, hsteps⟩ := completed_umount (out s.1) t.entry.packageId t.entry.loopNumber h.pending
    have hafter : t.attemptsAfter out s = t.attempts ++
        (dbpLoopUmount (out s.1) t.entry.packageId t.entry.loopNumber t.entry.reusable).2 := by
      simp only [Tracked.attemptsAfter, purgatoryVisit, hc, ↓reduceIte, List.drop_left]
    rw [← h.steps, ← completed_append, ← hafter] at hsteps
    by_cases hr : (dbpLoopUmount (out s.1) t.entry.packageId t.entry.loopNumber t.entry.reusable).1 = 0
    · rw [hr] at hsteps
      simp only [purgatoryVisit, hc, hr, ↓reduceIte]
      exact .goes hsteps
    · simp only [purgatoryVisit, hc, hr, ↓reduceIte]
      exact .stays _ rfl rfl ⟨hstate.resolve_left hr, hsteps⟩
  · have hafter : t.attemptsAfter out s = t.attempts := by
      simp only [Tracked.attemptsAfter, purgatoryVisit, hc, ↓reduceIte, List.drop_length, List.append_nil]
    simp only [purgatoryVisit, hc, ↓reduceIte]
    exact .stays _ rfl rfl (hafter ▸ h)

/-- An entry is reaped exactly when its steps are all done. -/
theorem reaped_iff (out : ℕ → TeardownOutcome) (s : ℕ × List LoopEvent) {t : Tracked} (h : t.Ok) :
    (purgatoryVisit out s t.entry).2 = none ↔ completed (t.attemptsAfter out s) = teardownSteps := by
  have hc := purgatoryVisit_cases out s h
  generalize (purgatoryVisit out s t.entry).2 = r at hc ⊢
  cases hc with
  | goes hdone => exact iff_of_true rfl hdone
  | stays q hid hloop hok =>
    apply iff_of_false (by simp)
    intro hdone
    have hlt := hok.pending.stepsDone_lt
    have hlen := congrArg List.length (hok.steps.symm.trans hdone)
    rw [List.length_take_of_le (show stepsDone q.reusable ≤ teardownSteps.length from hlt.le)] at hlen
    exact absurd hlen hlt.ne

/-! ### The daemon with its entries monitored -/

/-- The daemon, its purgatory with the attempts, and the entries that were reaped. -/
structure Monitored where
  d : Daemon
  live : List Tracked
  reaped : List Tracked

namespace Monitored

/-- The daemon after `package_init`. -/
def init (icons desktops execs : Dir) : Monitored := ⟨Daemon.init icons desktops execs, [], []⟩

/-- After a stop, with `d` the daemon it leaves: what is new in purgatory has no attempts. -/
def afterStop (m : Monitored) (d : Daemon) : Monitored :=
  ⟨d, m.live ++ (d.p.purgatory.drop m.live.length).map (⟨·, []⟩), m.reaped⟩

/-- After a run of the package `id`: its first entry is gone if one is. -/
def afterRun (m : Monitored) (id : CStr) (d : Daemon) : Monitored :=
  if d.p.purgatory.length < m.live.length then
    ⟨d, m.live.eraseIdx (m.live.findIdx fun t => t.entry.packageId == id), m.reaped⟩
  else ⟨d, m.live, m.reaped⟩

/-- After a check: each entry was visited once. -/
def afterCheck (m : Monitored) (out : ℕ → TeardownOutcome) (d : Daemon) : Monitored :=
  let r := mapKeep (trackedVisit out) ((0, []), m.reaped) m.live
  ⟨d, r.2, r.1.2⟩

/-- A call. -/
def step (cfg : DBPConfig) (m : Monitored) (op : DaemonOp) : Monitored :=
  match op with
  | .stop _ _ => m.afterStop (m.d.step cfg op)
  | .run _ id _ => m.afterRun id (m.d.step cfg op)
  | .purgatoryCheck out => m.afterCheck out (m.d.step cfg op)
  | _ => ⟨m.d.step cfg op, m.live, m.reaped⟩

/-- The state after a run. -/
abbrev run (cfg : DBPConfig) (m : Monitored) (ops : List DaemonOp) : Monitored := ops.foldl (step cfg) m

/-- Monitoring does not interfere. -/
theorem step_d (cfg : DBPConfig) (m : Monitored) (op : DaemonOp) : (m.step cfg op).d = m.d.step cfg op := by
  have hrun : ∀ id d, (m.afterRun id d).d = d := fun id d => by
    unfold afterRun
    split_ifs <;> rfl
  cases op with
  | run ret id user => exact hrun id _
  | _ => rfl

theorem run_d (cfg : DBPConfig) (m : Monitored) (ops : List DaemonOp) : (m.run cfg ops).d = m.d.run cfg ops :=
  run_simulates (R := fun (m : Monitored) d => m.d = d) (fun m _ op h => h ▸ step_d cfg m op) ops rfl

end Monitored

/-! ### Runs of a package in purgatory -/

section Run

variable {d : Daemon} {id : CStr}

/-- A run that leaves purgatory alone. -/
theorem packageRun_unparked (ret : ℤ) (user : CStr)
    (h : (∃ i ∈ d.p.instance_, i.packageId = id) ∨ ∀ q ∈ d.p.purgatory, q.packageId ≠ id) :
    (packageRun d ret id user).2.p.purgatory = d.p.purgatory := by
  cases placeCase d.p id with
  | running i hi hid hfind =>
    rw [packageRun_shared ret user hfind]
    rfl
  | parked pre post q hinst hq hid hpre hfind =>
    have hpurg := h.resolve_left fun ⟨i, hi, he⟩ => hinst i hi he
    exact absurd hid (hpurg q (by rw [hq]; simp))
  | away hinst hpurg hfind =>
    rw [packageRun_unmounted ret user hinst hpurg]
    unfold packageRunMount
    cases (packageFind d.p id).bind (d.p.entry[·]?) with
    | none => rfl
    | some e =>
      simp only
      split_ifs <;> rfl

end Run

/-! ### The protocol -/

/-- What the teardown protocol asks of a state. -/
structure TeardownProtocol (m : Monitored) : Prop where
  /-- The completed steps of an entry are the first ones, in order and each once, and not all. -/
  waiting : ∀ t ∈ m.live, ∃ k < 3, completed t.attempts = teardownSteps.take k
  /-- The steps of an entry that was reaped are all completed, in order and each once. -/
  reaped : ∀ t ∈ m.reaped, completed t.attempts = teardownSteps
  /-- `reusable` is positive while the union is mounted. -/
  reusable : ∀ t ∈ m.live, 0 < t.entry.reusable ↔ TeardownStep.union ∉ completed t.attempts
  /-- The check removes an entry exactly when the last of its steps succeeds. -/
  reaps : ∀ out s, ∀ t ∈ m.live, (purgatoryVisit out s t.entry).2 = none ↔
    completed (t.attemptsAfter out s) = teardownSteps
  /-- A run of a package that has no instance and waits in purgatory. -/
  parked : ∀ pre t post, m.live = pre ++ t :: post → (∀ x ∈ pre, x.entry.packageId ≠ t.entry.packageId) →
    (∀ i ∈ m.d.p.instance_, i.packageId ≠ t.entry.packageId) → ∀ ret user,
      let r := packageRun m.d ret t.entry.packageId user
      if TeardownStep.union ∈ completed t.attempts then r = (DBP_ERROR_MUTILATED, m.d)
      else r.2.p.purgatory = (pre ++ post).map (·.entry) ∧ ∃ runId,
        r.2.p.instance_ = m.d.p.instance_ ++ [⟨t.entry.packageId, runId, t.entry.loopNumber⟩]
  /-- Every other run leaves purgatory as it is. -/
  unparked : ∀ ret id user, ((∃ i ∈ m.d.p.instance_, i.packageId = id) ∨ ∀ t ∈ m.live, t.entry.packageId ≠ id) →
    (packageRun m.d ret id user).2.p.purgatory = m.live.map (·.entry)

namespace Monitored

/-- The entries are those of purgatory, and their attempts are what `reusable` says. -/
structure Inv (m : Monitored) : Prop where
  aligned : m.live.map (·.entry) = m.d.p.purgatory
  ok : ∀ t ∈ m.live, t.Ok
  reaped : ∀ t ∈ m.reaped, completed t.attempts = teardownSteps
  loops : LoopsNonneg m.d

namespace Inv

variable {m : Monitored} (h : Inv m)
include h

theorem loop_nonneg {t : Tracked} (ht : t ∈ m.live) : 0 ≤ t.entry.loopNumber :=
  h.loops.purgatory _ (h.aligned ▸ List.mem_map_of_mem ht)

theorem no_parked {id : CStr} (hno : ∀ t ∈ m.live, t.entry.packageId ≠ id) :
    ∀ q ∈ m.d.p.purgatory, q.packageId ≠ id := by
  rw [← h.aligned]
  intro q hq
  obtain ⟨t, ht, rfl⟩ := List.mem_map.mp hq
  exact hno t ht

/-- A run of a package that waits in purgatory, as its entry says. -/
theorem run_parked {pre post : List Tracked} {t : Tracked} (hl : m.live = pre ++ t :: post)
    (hpre : ∀ x ∈ pre, x.entry.packageId ≠ t.entry.packageId)
    (hinst : ∀ i ∈ m.d.p.instance_, i.packageId ≠ t.entry.packageId) (ret : ℤ) (user : CStr) :
    packageRun m.d ret t.entry.packageId user =
      if t.entry.reusable < 1 then (DBP_ERROR_MUTILATED, m.d)
      else
        let r := packageRunMounted { m.d.p with purgatory := (pre ++ post).map (·.entry) } t.entry.packageId
          t.entry.loopNumber
        (r.1, { m.d with p := r.2 }) := by
  have hq : m.d.p.purgatory = pre.map (·.entry) ++ t.entry :: post.map (·.entry) := by
    rw [← h.aligned, hl, List.map_append, List.map_cons]
  have hpre' : ∀ x ∈ pre.map (·.entry), x.packageId ≠ t.entry.packageId := fun x hx => by
    obtain ⟨y, hy, rfl⟩ := List.mem_map.mp hx
    exact hpre y hy
  rw [packageRun_parked ret user hinst hq rfl hpre' (h.loop_nonneg (by rw [hl]; simp)), List.map_append]

theorem protocol : TeardownProtocol m where
  waiting t ht := ⟨_, (h.ok t ht).pending.stepsDone_lt, (h.ok t ht).steps⟩
  reaped := h.reaped
  reusable t ht := by
    rw [(h.ok t ht).steps]
    exact (h.ok t ht).pending.pos_iff
  reaps out s t ht := reaped_iff out s (h.ok t ht)
  parked pre t post hl hpre hinst ret user := by
    have hok := h.ok t (by rw [hl]; simp)
    have hpos := hok.pending.pos_iff
    rw [← hok.steps] at hpos
    simp only [h.run_parked hl hpre hinst ret user]
    by_cases hu : TeardownStep.union ∈ completed t.attempts
    · rw [if_pos hu, if_pos (by by_contra hlt; exact hpos.mp (by omega) hu)]
    · have hlt := hpos.mpr hu
      rw [if_neg hu, if_neg (by omega)]
      exact ⟨rfl, _, rfl⟩
  unparked ret id user hno := by
    rw [h.aligned]
    exact packageRun_unparked ret user (hno.imp_right h.no_parked)

end Inv

theorem inv_init (icons desktops execs : Dir) : Inv (init icons desktops execs) :=
  ⟨rfl, by simp [init], by simp [init], .init icons desktops execs⟩

variable {m : Monitored}

theorem Inv.same (h : Inv m) {d : Daemon} (hp : d.p.purgatory = m.d.p.purgatory) (hloops : LoopsNonneg d) :
    Inv ⟨d, m.live, m.reaped⟩ :=
  ⟨h.aligned.trans hp.symm, h.ok, h.reaped, hloops⟩

theorem Inv.length (h : Inv m) : m.live.length = m.d.p.purgatory.length := by
  rw [← h.aligned, List.length_map]

theorem Inv.stop (h : Inv m) (now runId : ℤ) : Inv (m.afterStop (packageStop m.d now runId).2) := by
  have hloops := h.loops.stop now runId
  have hc := packageStop_cases m.d now runId
  have hlen := h.length
  generalize (packageStop m.d now runId).2 = d at hc hloops ⊢
  have hsame : d.p.purgatory = m.d.p.purgatory → Inv (m.afterStop d) := fun hp => by
    rw [afterStop, hp, hlen, List.drop_length, List.map_nil, List.append_nil]
    exact h.same hp hloops
  cases hc with
  | unknown hno => exact hsame rfl
  | shared pre post i j hi hrun hj hid hne => exact hsame rfl
  | last pre post i hi hrun hall =>
    simp only [afterStop, hlen, List.drop_left, List.map_cons, List.map_nil]
    refine ⟨by simp [h.aligned], fun t ht => ?_, h.reaped, hloops⟩
    rcases List.mem_append.mp ht with ht | ht
    · exact h.ok t ht
    · rw [List.mem_singleton.mp ht]
      exact ⟨.inl rfl, rfl⟩

theorem Inv.run (h : Inv m) (ret : ℤ) (id user : CStr) : Inv (m.afterRun id (packageRun m.d ret id user).2) := by
  have hloops := h.loops.run ret id user
  have hlen := h.length
  unfold afterRun
  by_cases hno : (∃ i ∈ m.d.p.instance_, i.packageId = id) ∨ ∀ t ∈ m.live, t.entry.packageId ≠ id
  · have hp := packageRun_unparked ret user (hno.imp_right h.no_parked)
    rw [if_neg (by rw [hp, hlen]; omega)]
    exact h.same hp hloops
  · rw [not_or, not_exists] at hno
    obtain ⟨hinst, hex⟩ := hno
    cases hf : m.live.findIdx? fun t => t.entry.packageId == id with
    | none => exact absurd (fun t ht => by simpa using findIdx?_none hf t ht) hex
    | some k =>
      obtain ⟨pre, t, post, hl, rfl, hid, hpre⟩ := findIdx?_split hf
      obtain rfl : t.entry.packageId = id := by simpa using hid
      have hrun := h.run_parked hl (fun x hx => by simpa using hpre x hx) (fun i hi he => hinst i ⟨hi, he⟩) ret user
      by_cases hre : t.entry.reusable < 1
      · rw [hrun, if_pos hre]
        simp only [hlen, lt_irrefl, ↓reduceIte]
        exact h
      · rw [hrun, if_neg hre] at hloops ⊢
        have hshort : (pre ++ post).length < m.live.length := by simp [hl]
        have hidx : m.live.findIdx (fun x => x.entry.packageId == t.entry.packageId) = pre.length := by
          rw [List.findIdx_eq_getD_findIdx?, hf]
          rfl
        simp only [packageRunMounted, List.length_map, hshort, ↓reduceIte, hidx]
        have hera : m.live.eraseIdx pre.length = pre ++ post := hl ▸ eraseIdx_middle
        rw [hera]
        exact ⟨rfl, fun x hx => h.ok x (mem_of_rest hl hx), h.reaped, hloops⟩

theorem Inv.check (h : Inv m) (out : ℕ → TeardownOutcome) : Inv (m.afterCheck out (packagePurgatoryCheck m.d out)) := by
  have hloops := h.loops.check out
  have hmap := mapKeep_map (trackedVisit_entry out) m.live ((0, []), m.reaped)
  rw [h.aligned] at hmap
  have hinv := mapKeep_invariant (f := trackedVisit out)
    (P := fun s kept rest => (∀ t ∈ kept, t.Ok) ∧ (∀ t ∈ rest, t.Ok) ∧ ∀ t ∈ s.2, completed t.attempts = teardownSteps)
    (fun s kept t rest ⟨hkept, hrest, hreaped⟩ => ?_) m.live ((0, []), m.reaped) [] ⟨by simp, h.ok, h.reaped⟩
  · refine ⟨?_, hinv.1, hinv.2.2, hloops⟩
    rw [packagePurgatoryCheck_eq, hmap]
    rfl
  · have hc := purgatoryVisit_cases out s.1 (hrest t List.mem_cons_self)
    have hrest' : ∀ x ∈ rest, x.Ok := fun x hx => hrest x (List.mem_cons_of_mem _ hx)
    unfold trackedVisit
    generalize purgatoryVisit out s.1 t.entry = r at hc ⊢
    obtain ⟨s', q⟩ := r
    cases hc with
    | stays q hid hloop hok =>
      refine ⟨fun x hx => ?_, hrest', hreaped⟩
      rcases List.mem_append.mp hx with hx | hx
      · exact hkept x hx
      · rw [List.mem_singleton.mp hx]
        exact hok
    | goes hdone =>
      refine ⟨by simpa using hkept, hrest', fun x hx => ?_⟩
      rcases List.mem_append.mp hx with hx | hx
      · exact hreaped x hx
      · rw [List.mem_singleton.mp hx]
        exact hdone

/-- Every call keeps the entries and their attempts in step. -/
theorem Inv.step (cfg : DBPConfig) (h : Inv m) (op : DaemonOp) : Inv (m.step cfg op) := by
  cases op with
  | run ret id user => exact h.run ret id user
  | stop now runId => exact h.stop now runId
  | purgatoryCheck out => exact h.check out
  | _ => exact h.same (sameMounts_step cfg m.d (by simp) (by simp) (by simp)).purgatory (h.loops.step cfg _)

theorem inv_run (cfg : DBPConfig) (icons desktops execs : Dir) (ops : List DaemonOp) :
    Inv ((init icons desktops execs).run cfg ops) :=
  List.foldlRecOn ops _ (inv_init icons desktops execs) fun _ h op _ => h.step cfg op

end Monitored

/-- **The teardown protocol.** After every run, whichever teardown attempts fail. -/
theorem teardown_protocol (cfg : DBPConfig) (icons desktops execs : Dir) (ops : List DaemonOp) :
    let m := (Monitored.init icons desktops execs).run cfg ops
    m.d = Daemon.run cfg (Daemon.init icons desktops execs) ops ∧ m.live.map (·.entry) = m.d.p.purgatory ∧
      TeardownProtocol m :=
  have h := Monitored.inv_run cfg icons desktops execs ops
  ⟨Monitored.run_d cfg _ ops, h.aligned, h.protocol⟩

end Dbp
