/-
# The state file

`dbpd/state.c`: at shutdown the daemon writes its instances and its run
counter as a desktop file, each instance as two entries with the run id as
their locale, and at the next start within the same boot it reads them back.
An instance is put together from the entries of its run id, which may come in
any order or not at all, and only the instance of the last entry is checked.
So what is recovered is well formed exactly when that instance is not, and
all is thrown away, or all of them are (`recovered_well_formed`).

Key definitions: `StateInstance`, `stateDump`, `stateRead`, `stateLoad`,
`stateRecover`, `CompleteRun`.
Key theorems: `stateLoad_eq`, `complete_iff`, `recovered_well_formed`.
-/
import Dbp.Daemon.Meta
import Dbp.Lib.Group
import Dbp.C.Decimal

namespace Dbp

open CLib Group

/-! ### Dumping -/

/-- `snprintf` into a buffer of 16. -/
def snprintf16 (s : CStr) : CStr := s.take 15

/-- The entries of an instance. -/
def stateDumpInstance (section_ : ℕ) (df : DesktopFile) (i : PackageInstance) : DesktopFile :=
  let buff := snprintf16 (Nat.toDigits 10 i.runId)
  let df := (dbpDesktopEntryNew df (lit "PkgId") buff i.packageId section_).1
  (dbpDesktopEntryNew df (lit "Loop") buff (snprintf16 (formatInt i.loop)) section_).1

/-- The file `state_dump` builds, where `btime` is what `state_btime` returns. -/
def stateDumpFile (btime : ℤ) (b : ParseBufs) (p : Package) : DesktopFile :=
  let df := dbpDesktopParse (lit "Type=DBPStateFile\n") b
  let control := dbpDesktopSectionNew df (some (lit "DBPStateControl"))
  let df := (dbpDesktopEntryNew control.1 (lit "SystemBootup") [] (snprintf16 (formatInt btime)) control.2).1
  let df := (dbpDesktopEntryNew df (lit "RunCnt") [] (snprintf16 (formatInt p.runCnt)) control.2).1
  let instances := dbpDesktopSectionNew df (some (lit "Instances"))
  p.instance_.foldl (stateDumpInstance instances.2) instances.1

/-- `state_dump`: the text it writes. -/
def stateDump (btime : ℤ) (b : ParseBufs) (p : Package) : CStr := dbpDesktopWrite (stateDumpFile btime b p)

/-! ### Recovering -/

/-- `struct package_instance_s` while the state is read: `package_id` is NULL until its entry comes. -/
structure StateInstance where
  packageId : Option CStr
  runId : ℕ
  loop : ℤ
deriving Repr, DecidableEq

/-- What `state_recover` sets of `struct package_s`. -/
structure StatePackage where
  runCnt : ℤ
  instance_ : List StateInstance
deriving Repr, DecidableEq

/-- `package_init`. -/
def StatePackage.init : StatePackage := ⟨0, []⟩

/-- The instance `state_add_instance` appends, with its run id. -/
def stateNew (run : ℕ) : StateInstance := ⟨none, run, -1⟩

/-- `state_get_instance` from the `run` on it has read: the instances and the index of the one of the run. -/
def stateGetInstance (is : List StateInstance) (run : ℕ) : List StateInstance × ℕ :=
  match is.findIdx? (·.runId == run) with
  | some i => (is, i)
  | none => (is ++ [stateNew run], is.length)

/-- What an entry sets of its instance. -/
def stateSet (e : DesktopEntry) (i : StateInstance) : StateInstance :=
  if e.key = lit "PkgId" then { i with packageId := some e.value }
  else if e.key = lit "Loop" then { i with loop := atoi e.value }
  else i

/-- A turn of the first loop of `state_recover`: the instances, and `id`. -/
def stateLoadEntry (s : List StateInstance × ℕ) (x : ℕ × DesktopEntry) : List StateInstance × ℕ :=
  let r := stateGetInstance s.1 x.1
  (r.1.modify r.2 (stateSet x.2), r.2)

/-- The entries with the run ids that `state_get_instance` reads from their locales. Where there is no
number, `run` is what the stack holds, `junk i` for entry `i`. -/
def stateRuns (junk : ℕ → ℕ) (es : List DesktopEntry) : List (ℕ × DesktopEntry) :=
  es.mapIdx fun i e => ((scanUnsigned e.locale).getD (junk i), e)

/-- An instance the second loop of `state_recover` accepts. -/
def StateInstance.Complete (i : StateInstance) : Prop := i.packageId.isSome ∧ 0 ≤ i.loop

instance (i : StateInstance) : Decidable i.Complete := inferInstanceAs (Decidable (_ ∧ _))

/-- The loops of `state_recover` over the entries. The second one looks at instance `id`, the one of
the last entry, in each of its turns. -/
def stateLoad (junk : ℕ → ℕ) (runCnt : ℤ) (is : List StateInstance) (es : List DesktopEntry) : StatePackage :=
  let r := (stateRuns junk es).foldl stateLoadEntry (is, 0)
  if es = [] ∨ ∀ i ∈ r.1[r.2]?, i.Complete then ⟨runCnt, r.1⟩ else ⟨runCnt, []⟩

/-- `state_recover` up to the loops: the run counter and the entries of a file that is not ignored. -/
def stateRead (b : ParseBufs) (btime : ℤ) (text : CStr) : Option (ℤ × List DesktopEntry) :=
  let df := dbpDesktopParse (cString text) b
  match dbpDesktopLookup df (lit "SystemBootup") [] (some (lit "DBPStateControl")) with
  | none => none
  | some s =>
    if atoll s - btime < -1 ∨ 1 < atoll s - btime then none
    else
      match dbpDesktopLookupSection df (some (lit "Instances")) with
      | none => none
      | some section_ =>
        match dbpDesktopLookup df (lit "RunCnt") [] (some (lit "DBPStateControl")) with
        | none => none
        | some s => some (toInt32 (atoll s), (df.sec section_).entry)

/-- `state_recover` on a file that can be read, or not. -/
def stateRecover (b : ParseBufs) (junk : ℕ → ℕ) (btime : ℤ) (file : Option CStr) (p : StatePackage) : StatePackage :=
  match file with
  | none => p
  | some text =>
    match stateRead b btime text with
    | none => p
    | some (runCnt, es) => stateLoad junk runCnt p.instance_ es

/-! ### What the entries make -/

theorem stateSet_runId (e : DesktopEntry) (i : StateInstance) : (stateSet e i).runId = i.runId := by
  unfold stateSet
  split_ifs <;> rfl

/-- A turn of the loop puts the entry on the instance of its run, which `id` is then. -/
theorem stateLoadEntry_eq (s : List StateInstance × ℕ) (x : ℕ × DesktopEntry) :
    (stateLoadEntry s x).1 = upsert (·.runId) stateNew (stateSet x.2) x.1 s.1 ∧
      ∃ i, (stateLoadEntry s x).1[(stateLoadEntry s x).2]? = some i ∧ i.runId = x.1 := by
  unfold stateLoadEntry stateGetInstance upsert
  cases h : s.1.findIdx? (·.runId == x.1) with
  | none =>
    simp only [modify_last]
    exact ⟨trivial, stateSet x.2 (stateNew x.1), by simp, stateSet_runId ..⟩
  | some i =>
    obtain ⟨hi, hrun, -⟩ := List.findIdx?_eq_some_iff_getElem.mp h
    refine ⟨rfl, stateSet x.2 s.1[i], by simp [hi], ?_⟩
    rw [stateSet_runId]
    simpa using hrun

/-- What the entries of a run make of its instance. -/
def stateOfRun (res : List (ℕ × DesktopEntry)) (run : ℕ) : StateInstance :=
  ofKey stateNew Prod.fst (fun x => stateSet x.2) res run

theorem stateOfRun_runId (res : List (ℕ × DesktopEntry)) (run : ℕ) : (stateOfRun res run).runId = run := by
  refine List.foldlRecOn (motive := fun i : StateInstance => i.runId = run) _ _ rfl fun i hi x _ => ?_
  rw [stateSet_runId, hi]

/-- The run ids of the entries, each once. -/
def stateRunIds (res : List (ℕ × DesktopEntry)) : List ℕ := (firsts Prod.fst res).map Prod.fst

theorem foldl_stateLoadEntry (res : List (ℕ × DesktopEntry)) (s : List StateInstance × ℕ) :
    (res.foldl stateLoadEntry s).1 =
      res.foldl (fun is x => upsert (·.runId) stateNew (stateSet x.2) x.1 is) s.1 := by
  induction res generalizing s with
  | nil => rfl
  | cons x res ih => rw [List.foldl_cons, List.foldl_cons, ih, (stateLoadEntry_eq s x).1]

theorem loaded_instances (res : List (ℕ × DesktopEntry)) :
    (res.foldl stateLoadEntry ([], 0)).1 = (stateRunIds res).map (stateOfRun res) := by
  rw [foldl_stateLoadEntry]
  exact @group_eq _ _ _ _ _ stateNew _ (fun x => stateSet x.2) (fun _ => rfl) (fun x i => stateSet_runId x.2 i) res

/-- The instance that is checked is the one of the last entry. -/
theorem loaded_last (res : List (ℕ × DesktopEntry)) (x : ℕ × DesktopEntry) :
    ((res ++ [x]).foldl stateLoadEntry ([], 0)).1[((res ++ [x]).foldl stateLoadEntry ([], 0)).2]? =
      some (stateOfRun (res ++ [x]) x.1) := by
  have hlist := loaded_instances (res ++ [x])
  rw [List.foldl_append] at hlist ⊢
  obtain ⟨-, i, hi, hrun⟩ := stateLoadEntry_eq (res.foldl stateLoadEntry ([], 0)) x
  simp only [List.foldl_cons, List.foldl_nil] at hlist ⊢
  rw [hi]
  have hmem := List.mem_of_getElem? hi
  rw [hlist] at hmem
  obtain ⟨run, -, rfl⟩ := List.mem_map.mp hmem
  rw [stateOfRun_runId] at hrun
  rw [hrun]

/-- **Loading.** All instances are kept if that of the last entry is complete, and none otherwise. -/
theorem stateLoad_eq (junk : ℕ → ℕ) (runCnt : ℤ) (es : List DesktopEntry) : stateLoad junk runCnt [] es =
    if ∀ x ∈ (stateRuns junk es).getLast?, (stateOfRun (stateRuns junk es) x.1).Complete then
      ⟨runCnt, (stateRunIds (stateRuns junk es)).map (stateOfRun (stateRuns junk es))⟩
    else ⟨runCnt, []⟩ := by
  have hnil : es = [] ↔ stateRuns junk es = [] := by simp [stateRuns]
  simp only [stateLoad, loaded_instances, hnil]
  generalize stateRuns junk es = res
  rcases List.eq_nil_or_concat' res with rfl | ⟨res, x, rfl⟩
  · simp
  · have hlast := loaded_last res x
    rw [loaded_instances] at hlast
    have hne : res ++ [x] ≠ [] := by simp
    simp only [hlast, hne, false_or, List.getLast?_concat, Option.mem_def, Option.some.injEq, forall_eq']

/-! ### Well-formed states -/

/-- The last loop number entry of a run. -/
def lastLoop (res : List (ℕ × DesktopEntry)) (run : ℕ) : Option (ℕ × DesktopEntry) :=
  (res.filter fun x => x.1 = run ∧ x.2.key = lit "Loop").getLast?

/-- A run with a package id and, in the last of its entries for it, a loop number. -/
structure CompleteRun (res : List (ℕ × DesktopEntry)) (run : ℕ) : Prop where
  pkgId : ∃ x ∈ res, x.1 = run ∧ x.2.key = lit "PkgId"
  loop : ∃ x ∈ lastLoop res run, 0 ≤ atoi x.2.value

theorem stateOfRun_concat (res : List (ℕ × DesktopEntry)) (x : ℕ × DesktopEntry) (run : ℕ) :
    stateOfRun (res ++ [x]) run = if run = x.1 then stateSet x.2 (stateOfRun res run) else stateOfRun res run :=
  ofKey_concat _ res x run

theorem isSome_packageId (res : List (ℕ × DesktopEntry)) (run : ℕ) :
    (stateOfRun res run).packageId.isSome ↔ ∃ x ∈ res, x.1 = run ∧ x.2.key = lit "PkgId" := by
  induction res using List.reverseRecOn with
  | nil => simp [stateOfRun, ofKey, stateNew]
  | append_singleton res x ih =>
    rw [stateOfRun_concat]
    simp only [List.mem_append, or_and_right, exists_or, ← ih, List.mem_singleton, exists_eq_left]
    by_cases hx : run = x.1
    · subst hx
      rw [if_pos rfl, stateSet]
      split_ifs with hp hl <;> simp [hp]
    · simp [hx, Ne.symm hx]

theorem loop_eq (res : List (ℕ × DesktopEntry)) (run : ℕ) :
    (stateOfRun res run).loop = ((lastLoop res run).map fun x => atoi x.2.value).getD (-1) := by
  induction res using List.reverseRecOn with
  | nil => rfl
  | append_singleton res x ih =>
    rw [stateOfRun_concat, lastLoop, List.filter_append]
    by_cases hx : x.1 = run ∧ x.2.key = lit "Loop"
    · obtain ⟨rfl, hl⟩ := hx
      rw [if_pos rfl, stateSet, hl, if_neg (by decide), if_pos rfl]
      simp [hl]
    · rw [List.filter_cons_of_neg (by simpa using hx), List.filter_nil, List.append_nil, ← lastLoop, ← ih]
      split_ifs with hr
      · have hl : x.2.key ≠ lit "Loop" := fun hl => hx ⟨hr.symm, hl⟩
        rw [stateSet, if_neg hl]
        split_ifs <;> rfl
      · rfl

theorem complete_iff (res : List (ℕ × DesktopEntry)) (run : ℕ) :
    (stateOfRun res run).Complete ↔ CompleteRun res run := by
  rw [StateInstance.Complete, isSome_packageId, loop_eq]
  refine ⟨fun ⟨hp, hl⟩ => ⟨hp, ?_⟩, fun h => ⟨h.pkgId, ?_⟩⟩
  · cases hlast : lastLoop res run with
    | none => simp [hlast] at hl
    | some x => exact ⟨x, rfl, by simpa [hlast] using hl⟩
  · obtain ⟨x, hx, h0⟩ := h.loop
    simpa [Option.mem_def.mp hx] using h0

/-- No instances, or each with a package id and a loop number. -/
def StatePackage.WellFormed (p : StatePackage) : Prop :=
  p.instance_ = [] ∨ ∀ i ∈ p.instance_, i.packageId ≠ none ∧ 0 ≤ i.loop

instance (p : StatePackage) : Decidable p.WellFormed := inferInstanceAs (Decidable (_ ∨ ∀ i ∈ p.instance_, _))

/-- The run of the last entry is not complete, or every run is. -/
def WholeRuns (res : List (ℕ × DesktopEntry)) : Prop :=
  (∀ x ∈ res.getLast?, CompleteRun res x.1) → ∀ x ∈ res, CompleteRun res x.1

theorem stateLoad_wellFormed (junk : ℕ → ℕ) (runCnt : ℤ) (es : List DesktopEntry) :
    (stateLoad junk runCnt [] es).WellFormed ↔ WholeRuns (stateRuns junk es) := by
  rw [stateLoad_eq]
  generalize stateRuns junk es = res
  have hlast : (∀ x ∈ res.getLast?, (stateOfRun res x.1).Complete) ↔ ∀ x ∈ res.getLast?, CompleteRun res x.1 :=
    forall₂_congr fun x _ => complete_iff res x.1
  have hall : (∀ i ∈ (stateRunIds res).map (stateOfRun res), i.packageId ≠ none ∧ 0 ≤ i.loop) ↔
      ∀ x ∈ res, CompleteRun res x.1 := by
    have hmem : ∀ run, run ∈ stateRunIds res ↔ run ∈ res.map Prod.fst := mem_keys_firsts Prod.fst res
    simp only [List.forall_mem_map, hmem, ← complete_iff, StateInstance.Complete, Option.isSome_iff_ne_none]
  have hnil : (stateRunIds res).map (stateOfRun res) = [] → ∀ x ∈ res, CompleteRun res x.1 := by
    rw [List.map_eq_nil_iff, stateRunIds, List.map_eq_nil_iff, ← List.map_eq_nil_iff (f := Prod.fst)]
    intro h x hx
    have hx' := (mem_keys_firsts Prod.fst res x.1).mpr (List.mem_map_of_mem hx)
    rw [h] at hx'
    cases hx'
  unfold WholeRuns
  split_ifs with h
  · exact ⟨fun hw _ => hw.elim hnil hall.mp, fun hw => .inr (hall.mpr (hw (hlast.mp h)))⟩
  · exact ⟨fun _ hw => absurd (hlast.mpr hw) h, fun _ => .inl rfl⟩

/-- **Recovering.** What is recovered from a file is well formed exactly when the file is ignored, or the run of its
last instance entry is not complete, or all runs with an entry are. -/
theorem recovered_well_formed (b : ParseBufs) (junk : ℕ → ℕ) (btime : ℤ) (text : CStr) :
    (stateRecover b junk btime (some text) .init).WellFormed ↔
      ∀ r ∈ stateRead b btime text, WholeRuns (stateRuns junk r.2) := by
  simp only [stateRecover]
  cases h : stateRead b btime text with
  | none => exact ⟨fun _ _ hr => absurd hr (by simp), fun _ => .inl rfl⟩
  | some r =>
    obtain ⟨runCnt, es⟩ := r
    simpa [StatePackage.init] using stateLoad_wellFormed junk runCnt es

/-- The first instance has lost its package id, the last one is complete. -/
theorem recovered_half_built : ¬ (stateRecover ⟨[], []⟩ (fun _ => 0) 5 (some (lit
    "[DBPStateControl]\nSystemBootup=5\nRunCnt=2\n[Instances]\nLoop[0]=0\nPkgId[1]=b\nLoop[1]=1\n")) .init).WellFormed := by
  decide

end Dbp
