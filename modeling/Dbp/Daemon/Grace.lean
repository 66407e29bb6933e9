/-
# The grace period of purgatory

A package that is not used any more waits in purgatory, and its entry has the
time until which it shall stay mounted: `package_purgatory_check` ought to
tear down what is not reusable and what has expired, and nothing else. The
loop is run here with a log of its visits (`visits`). It visits each entry
once, in order, and what it leaves are the entries not completely torn down
(`visits_log`). But the time is only tested for being set, so a reusable
entry is torn down at the next check, expired or not: the grace period holds
in a check exactly if in each reusable entry the time is set just when it has
passed (`gracePeriod_iff`).

Key definitions: `Visit`, `visits`, `Due`, `GracePeriod`.
Key theorems: `purgatoryVisit_attempts`, `visits_log`, `gracePeriod_iff`.
-/
import Dbp.Daemon.Instances

namespace Dbp

open CLib Sweep

/-! ### The loop with a log -/

/-- A visit of the check: an entry of the list and its position, and what `dbp_loop_umount` returned and
asked for, if it was called. -/
structure Visit where
  entry : PackagePurgatory
  pos : ℕ
  teardown : Option (ℤ × List LoopEvent)
deriving Repr, DecidableEq

/-- What is to be left of the entry: nothing if it was completely torn down. -/
def Visit.left (v : Visit) : Option PackagePurgatory :=
  match v.teardown with
  | none => some v.entry
  | some r => if r.1 = 0 then none else some { v.entry with reusable := r.1 }

/-- What the visit asked of the loop layer. -/
def Visit.asked (v : Visit) : List LoopEvent :=
  match v.teardown with
  | none => []
  | some r => r.2

/-- `purgatoryVisit`, with a log beside its state. It has called the teardown if its number of attempts has moved. -/
def loggedVisit (out : ℕ → TeardownOutcome) (t : (ℕ × List LoopEvent) × List Visit) (e : PackagePurgatory × ℕ) :
    ((ℕ × List LoopEvent) × List Visit) × Option (PackagePurgatory × ℕ) :=
  let r := purgatoryVisit out t.1 e.1
  let call :=
    if r.1.1 = t.1.1 then none
    else some (dbpLoopUmount (out t.1.1) e.1.packageId e.1.loopNumber e.1.reusable)
  ((r.1, t.2 ++ [⟨e.1, e.2, call⟩]), r.2.map fun q => (q, e.2))

/-- The loop of the check over the list, each entry with its position. -/
def loggedCheck (out : ℕ → TeardownOutcome) (qs : List PackagePurgatory) :
    ((ℕ × List LoopEvent) × List Visit) × List (PackagePurgatory × ℕ) :=
  sweep (loggedVisit out) qs.length 0 ((0, []), []) qs.zipIdx

/-- The visits of the check, in their order. -/
def visits (out : ℕ → TeardownOutcome) (qs : List PackagePurgatory) : List Visit := (loggedCheck out qs).1.2

theorem loggedCheck_eq (out : ℕ → TeardownOutcome) (qs : List PackagePurgatory) :
    loggedCheck out qs = mapKeep (loggedVisit out) ((0, []), []) qs.zipIdx := by
  rw [loggedCheck, ← List.length_zipIdx (l := qs) (i := 0), sweep_eq]

/-- Without its log the loop is the one of the check. -/
theorem packagePurgatoryCheck_logged (d : Daemon) (out : ℕ → TeardownOutcome) :
    packagePurgatoryCheck d out =
      { d with
        p := { d.p with purgatory := (loggedCheck out d.p.purgatory).2.map (·.1) }
        loops := d.loops ++ (loggedCheck out d.p.purgatory).1.1.2 } := by
  have hvisit : ∀ (t : (ℕ × List LoopEvent) × List Visit) (e : PackagePurgatory × ℕ),
      purgatoryVisit out t.1 e.1 = ((loggedVisit out t e).1.1, (loggedVisit out t e).2.map (·.1)) := by
    simp [loggedVisit, Function.comp_def]
  have herase := mapKeep_map hvisit d.p.purgatory.zipIdx ((0, []), [])
  rw [List.zipIdx_map_fst] at herase
  rw [packagePurgatoryCheck_eq, herase, loggedCheck_eq]

/-- What the code tests before it calls the teardown. -/
def Attempted (q : PackagePurgatory) : Prop := q.reusable < 1 ∨ q.expiry ≠ 0

/-- A visit calls the teardown, and does to the list what the teardown has come to, or leaves all as it is. -/
theorem purgatoryVisit_attempts (out : ℕ → TeardownOutcome) (s : ℕ × List LoopEvent) (q : PackagePurgatory) :
    let r := dbpLoopUmount (out s.1) q.packageId q.loopNumber q.reusable
    (Attempted q ∧ purgatoryVisit out s q =
      ((s.1 + 1, s.2 ++ r.2), if r.1 = 0 then none else some { q with reusable := r.1 })) ∨
    (¬ Attempted q ∧ purgatoryVisit out s q = (s, some q)) := by
  by_cases h : Attempted q
  · exact .inl ⟨h, if_pos h⟩
  · exact .inr ⟨h, if_neg h⟩

/-- What the log says of the loop at each of its turns, `rest` still to be visited. -/
structure LogInv (qs : List PackagePurgatory) (t : (ℕ × List LoopEvent) × List Visit)
    (kept rest : List (PackagePurgatory × ℕ)) : Prop where
  visited : t.2.map (fun v => (v.entry, v.pos)) ++ rest = qs.zipIdx
  attempted : ∀ v ∈ t.2, v.teardown.isSome ↔ Attempted v.entry
  kept : kept.map (·.1) = t.2.filterMap Visit.left
  asked : t.1.2 = t.2.flatMap Visit.asked

theorem LogInv.visit {qs : List PackagePurgatory} {out : ℕ → TeardownOutcome} {t : (ℕ × List LoopEvent) × List Visit}
    {kept rest : List (PackagePurgatory × ℕ)} {e : PackagePurgatory × ℕ} (h : LogInv qs t kept (e :: rest)) :
    LogInv qs (loggedVisit out t e).1 (kept ++ (loggedVisit out t e).2.toList) rest := by
  have hvisited : ∀ c, (t.2 ++ [(⟨e.1, e.2, c⟩ : Visit)]).map (fun v => (v.entry, v.pos)) ++ rest = qs.zipIdx := by
    intro c
    rw [← h.visited]
    simp
  have hattempted : ∀ c : Option (ℤ × List LoopEvent), (c.isSome ↔ Attempted e.1) →
      ∀ v ∈ t.2 ++ [(⟨e.1, e.2, c⟩ : Visit)], v.teardown.isSome ↔ Attempted v.entry := by
    intro c hc v hv
    rcases List.mem_append.mp hv with hv | hv
    · exact h.attempted v hv
    · rw [List.mem_singleton.mp hv]
      exact hc
  rcases purgatoryVisit_attempts out t.1 e.1 with ⟨hq, hv⟩ | ⟨hq, hv⟩
  · have hmoved : t.1.1 + 1 ≠ t.1.1 := by omega
    refine ⟨?_, ?_, ?_, ?_⟩ <;> simp only [loggedVisit, hv, hmoved, ↓reduceIte]
    · exact hvisited _
    · exact hattempted _ (by simp [hq])
    · rw [List.map_append, List.filterMap_append, h.kept]
      simp only [List.filterMap_cons, List.filterMap_nil, Visit.left]
      split_ifs <;> rfl
    · rw [List.flatMap_append, ← h.asked]
      simp [Visit.asked]
  · refine ⟨?_, ?_, ?_, ?_⟩ <;> simp only [loggedVisit, hv, ↓reduceIte]
    · exact hvisited _
    · exact hattempted _ (by simp [hq])
    · rw [List.map_append, List.filterMap_append, h.kept]
      rfl
    · rw [List.flatMap_append, ← h.asked]
      simp [Visit.asked]

/-- What the log says after the loop. -/
theorem visits_log (out : ℕ → TeardownOutcome) (qs : List PackagePurgatory) :
    LogInv qs (loggedCheck out qs).1 (loggedCheck out qs).2 [] := by
  rw [loggedCheck_eq]
  exact mapKeep_invariant (P := LogInv qs) (fun _ _ _ _ h => h.visit) qs.zipIdx ((0, []), []) []
    ⟨rfl, fun _ hv => absurd hv List.not_mem_nil, rfl, rfl⟩

/-! ### What the check ought to do -/

/-- An entry is due for its teardown at time `now`: it is not reusable any more, or its time has passed. -/
def Due (now : ℤ) (q : PackagePurgatory) : Prop := q.reusable < 1 ∨ q.expiry ≤ now

/-- A check at time `now` keeps to the grace period: it visits each entry once, in order, calls the teardown in
the visits of those that are due and in no other, and leaves the entries not completely torn down, in order. -/
structure GracePeriod (now : ℤ) (d : Daemon) (out : ℕ → TeardownOutcome) : Prop where
  visited : (visits out d.p.purgatory).map (fun v => (v.entry, v.pos)) = d.p.purgatory.zipIdx
  attempted : ∀ v ∈ visits out d.p.purgatory, v.teardown.isSome ↔ Due now v.entry
  kept : (packagePurgatoryCheck d out).p.purgatory = (visits out d.p.purgatory).filterMap Visit.left
  asked : (packagePurgatoryCheck d out).loops = d.loops ++ (visits out d.p.purgatory).flatMap Visit.asked

/-- The entry of a log's visit is in the list, and each entry of the list has its visit. -/
theorem mem_visits {out : ℕ → TeardownOutcome} {qs : List PackagePurgatory} {q : PackagePurgatory} :
    (∃ v ∈ visits out qs, v.entry = q) ↔ q ∈ qs := by
  have hvisited : (visits out qs).map (·.entry) = qs := by
    have h := congrArg (List.map Prod.fst) (visits_log out qs).visited
    rw [List.append_nil, List.map_map, List.zipIdx_map_fst] at h
    exact h
  conv => rhs; rw [← hvisited]
  simp

/-- The check keeps to the grace period exactly if the time of each reusable entry is set just when it has passed. -/
theorem gracePeriod_iff (now : ℤ) (d : Daemon) (out : ℕ → TeardownOutcome) :
    GracePeriod now d out ↔ ∀ q ∈ d.p.purgatory, 1 ≤ q.reusable → (q.expiry ≠ 0 ↔ q.expiry ≤ now) := by
  have hlog := visits_log out d.p.purgatory
  constructor
  · intro h q hq hre
    obtain ⟨v, hv, rfl⟩ := mem_visits.mpr hq
    have hiff : Attempted v.entry ↔ Due now v.entry := (hlog.attempted v hv).symm.trans (h.attempted v hv)
    have hnot : ¬ v.entry.reusable < 1 := by omega
    simpa [Attempted, Due, hnot] using hiff
  · intro h
    refine ⟨(List.append_nil _).symm.trans hlog.visited, fun v hv => (hlog.attempted v hv).trans ?_, ?_, ?_⟩
    · by_cases hre : v.entry.reusable < 1
      · exact iff_of_true (.inl hre) (.inl hre)
      · simpa [Attempted, Due, hre] using h v.entry (mem_visits.mp ⟨v, hv, rfl⟩) (by omega)
    · rw [packagePurgatoryCheck_logged]
      exact hlog.kept
    · rw [packagePurgatoryCheck_logged]
      exact congrArg (d.loops ++ ·) hlog.asked

/-- A package put in purgatory at time 100, to stay there until 105, is torn down by a check at time 100. -/
theorem gracePeriod_early :
    ¬ GracePeriod 100 ⟨packagePurgatoryAdd packageInit 100 (lit "pkg") 3 1, [], [], [], [], []⟩ fun _ => ⟨true, true, true⟩ := by
  intro h
  have hdue := (h.attempted ⟨⟨lit "pkg", 3, 1, 105⟩, 0, some (0, [.umountUnion (lit "pkg") true, .umountImg (lit "pkg") true,
    .loopReset (lit "pkg") 3 true])⟩ (by decide)).mp rfl
  simp [Due] at hdue

end Dbp
