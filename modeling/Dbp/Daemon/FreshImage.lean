/-
# The image a launch runs from

A package that is running, or parked in purgatory, is launched from the
mount it has, and `package_run` looks for that mount by the package's id
before it looks at the registry. The loop device of the mount is bound to
the file the package had when it was mounted (`Sourced`), so a launch runs
from the file that is registered now exactly when the package is still
registered, from the file it was mounted from (`fresh_image`). A package
that is removed and registered again from another file within the few
seconds its mount is parked is launched from the old file
(`fresh_image_moved`).

Key definitions: `boundImage`, `mountedFile`, `FreshImage`, `SameFile`, `Sourced`.
Key theorems: `boundImage_kept`, `sourced_step`, `freshImage_iff`, `fresh_image`.
-/
import Dbp.Daemon.RunIdentity

namespace Dbp

open CLib Sweep Find Leases Runs

/-! ### What a loop device is bound to -/

/-- The image on loop device `n` after an event. -/
def boundStep (n : ℤ) (s : Option CStr) : LoopEvent → Option CStr
  | .mount image _ _ _ _ ret => if ret = n then some image else s
  | .loopReset _ loop ok => if ok ∧ loop = n then none else s
  | .umountUnion _ _ => s
  | .umountImg _ _ => s

/-- The image on loop device `n`: that of the last mount on it, if it was not reset since. -/
def boundImage (evs : List LoopEvent) (n : ℤ) : Option CStr := evs.foldl (boundStep n) none

/-- The file the package `id` is mounted from after an event. -/
def mountedStep (id : CStr) (s : Option CStr) : LoopEvent → Option CStr
  | .mount image id' _ _ _ ret => if id' = id ∧ 0 ≤ ret then some image else s
  | _ => s

/-- The file the package `id` was last mounted from. -/
def mountedFile (evs : List LoopEvent) (id : CStr) : Option CStr := evs.foldl (mountedStep id) none

theorem boundImage_mount (evs : List LoopEvent) (image id user m appdata : CStr) (ret n : ℤ) :
    boundImage (evs ++ [.mount image id user m appdata ret]) n = if ret = n then some image else boundImage evs n := by
  rw [boundImage, List.foldl_append]
  rfl

theorem mountedFile_mount (evs : List LoopEvent) (image id user m appdata : CStr) (ret : ℤ) (id' : CStr) :
    mountedFile (evs ++ [.mount image id user m appdata ret]) id' =
      if id = id' ∧ 0 ≤ ret then some image else mountedFile evs id' := by
  rw [mountedFile, List.foldl_append]
  rfl

/-- Teardowns do not mount. -/
theorem mountedFile_teardown {evs : List LoopEvent} (h : ∀ ev ∈ evs, ev.teardownOf.isSome) (old : List LoopEvent)
    (id : CStr) : mountedFile (old ++ evs) id = mountedFile old id := by
  rw [mountedFile, List.foldl_append, ← mountedFile]
  apply List.foldlRecOn (motive := (· = mountedFile old id)) evs _ rfl
  intro s hs ev hev
  cases ev with
  | mount image id' user m appdata ret => exact absurd (h _ hev) (by simp [LoopEvent.teardownOf])
  | _ => exact hs

theorem mem_outstandingStep {s : List ℤ} {ev : LoopEvent} (h : ev.teardownOf.isSome) {n : ℤ}
    (hn : n ∈ outstandingStep s ev) : n ∈ s ∧ ∀ b, boundStep n b ev = b := by
  cases ev with
  | mount image id user m appdata ret => exact absurd h (by simp [LoopEvent.teardownOf])
  | umountUnion id ok => exact ⟨hn, fun _ => rfl⟩
  | umountImg id ok => exact ⟨hn, fun _ => rfl⟩
  | loopReset id loop ok =>
    simp only [outstandingStep] at hn
    split_ifs at hn with hok
    · obtain ⟨hm, hne⟩ := List.mem_filter.mp hn
      refine ⟨hm, fun b => if_neg fun hb => ?_⟩
      exact of_decide_eq_true hne hb.2.symm
    · exact ⟨hn, fun b => if_neg fun hb => hok hb.1⟩

/-- Teardowns that leave a loop device outstanding leave it bound. -/
theorem boundImage_kept : ∀ (evs : List LoopEvent), (∀ ev ∈ evs, ev.teardownOf.isSome) → ∀ (old : List LoopEvent) {n : ℤ},
    n ∈ outstanding (old ++ evs) → boundImage (old ++ evs) n = boundImage old n := by
  intro evs
  induction evs using List.reverseRecOn with
  | nil => simp
  | append_singleton evs ev ih =>
    intro h old n hn
    have hevs : ∀ ev ∈ evs, ev.teardownOf.isSome := fun x hx => h x (List.mem_append_left _ hx)
    rw [← List.append_assoc] at hn ⊢
    rw [outstanding, List.foldl_append] at hn
    obtain ⟨hmem, hbound⟩ := mem_outstandingStep (h ev (by simp)) hn
    rw [boundImage, List.foldl_append, ← boundImage]
    exact (hbound _).trans (ih hevs old hmem)

/-! ### Mounts and their source -/

/-- The package `id` has loop device `n`, for an instance or in purgatory. -/
def HasLoop (d : Daemon) (id : CStr) (n : ℤ) : Prop :=
  (∃ i ∈ d.p.instance_, i.packageId = id ∧ i.loop = n) ∨ ∃ q ∈ d.p.purgatory, q.packageId = id ∧ q.loopNumber = n

/-- The loop device of a mounted package is bound to the file it was mounted from. -/
def Sourced (d : Daemon) : Prop :=
  ∀ id n, HasLoop d id n → ∃ image, boundImage d.loops n = some image ∧ mountedFile d.loops id = some image

theorem Represents.hasLoop_iff {d : Daemon} {L : Lease CStr ℤ} (h : Represents d L) (id : CStr) (n : ℤ) :
    HasLoop d id n ↔ ∃ u, L.held id = some (n, u) := by
  refine ⟨?_, fun ⟨u, hu⟩ => ?_⟩
  · rintro (hi | hq)
    · exact ⟨true, (h.running id n).mpr hi⟩
    · exact ⟨false, (h.parked id n).mpr hq⟩
  · cases u with
    | true => exact .inl ((h.running id n).mp hu)
    | false => exact .inr ((h.parked id n).mp hu)

/-- The file a package is registered from. -/
def registeredFile (d : Daemon) (id : CStr) : Option CStr :=
  ((packageFind d.p id).bind (d.p.entry[·]?)).map (·.path)

/-- A launch that succeeds is of a registered package, and runs from the file that is registered. -/
def FreshImage (d : Daemon) : DaemonOp → Prop
  | .run ret id user =>
    let r := packageRun d ret id user
    0 ≤ r.1 → ∃ file i, registeredFile d id = some file ∧ r.2.p.instance_ = d.p.instance_ ++ [i] ∧
      boundImage r.2.loops i.loop = some file
  | _ => True

/-- The package has a mount that a launch can use: it is running, or its entry in purgatory is reusable. -/
def MountReady (d : Daemon) (id : CStr) : Prop :=
  (∃ i ∈ d.p.instance_, i.packageId = id) ∨
    match d.p.purgatory.find? fun q => q.packageId == id with
    | some q => 1 ≤ q.reusable
    | none => False

/-- A package found in purgatory, or not, is reusable. -/
def decidableReusable : (q? : Option PackagePurgatory) →
    Decidable (match q? with | some q => 1 ≤ q.reusable | none => False)
  | some q => Int.decLe 1 q.reusable
  | none => isFalse not_false

instance (d : Daemon) (id : CStr) : Decidable (MountReady d id) :=
  @instDecidableOr _ _ (List.decidableBEx _ _) (decidableReusable _)

/-- A launch of a package that has a mount ready finds it registered, from the file it was mounted from. -/
def SameFile (d : Daemon) : DaemonOp → Prop
  | .run _ id _ => MountReady d id → registeredFile d id = mountedFile d.loops id
  | _ => True

instance (d : Daemon) : (op : DaemonOp) → Decidable (SameFile d op)
  | .run _ id _ => inferInstanceAs (Decidable (MountReady d id → registeredFile d id = mountedFile d.loops id))
  | .registerPath .. | .crawlMount .. | .releasePath .. | .releaseMount .. | .stop .. | .purgatoryCheck .. =>
    isTrue trivial

/-! ### One call -/

/-- What holds of the mounts in every state: they are leased, by instances with distinct run ids, and each
loop device is bound to the file of its mount. -/
structure Mounted (d : Daemon) : Prop where
  leased : ∃ L, Represents d L
  counter : CounterOk d
  nodup : d.runIds.Nodup
  sourced : Sourced d

theorem CounterOk.apart {d : Daemon} (h : CounterOk d) (hnd : d.runIds.Nodup) : Apart d := by
  intro pre i post hi j hj
  rw [h.toInt32_runId (mem_of_rest hi hj), h.toInt32_runId (by rw [hi]; simp)]
  exact fun he => (nodup_rest hi hnd).1 j hj (by exact_mod_cast he)

section Sourced

variable {d : Daemon} (hs : Sourced d)
include hs

theorem Sourced.of_subset {d' : Daemon} (hloops : d'.loops = d.loops) (h : ∀ id n, HasLoop d' id n → HasLoop d id n) :
    Sourced d' := fun id n hn => by
  rw [hloops]
  exact hs id n (h id n hn)

theorem Sourced.stop (now runId : ℤ) : Sourced (packageStop d now runId).2 := by
  have hc := packageStop_cases d now runId
  generalize (packageStop d now runId).2 = d' at hc ⊢
  cases hc with
  | unknown hno => exact hs
  | shared pre post i j hi hrun hj hid hne =>
    refine hs.of_subset rfl fun id n => ?_
    rintro (⟨x, hx, h⟩ | hq)
    · exact .inl ⟨x, mem_of_rest hi hx, h⟩
    · exact .inr hq
  | last pre post i hi hrun hall =>
    refine hs.of_subset rfl fun id n => ?_
    rintro (⟨x, hx, h⟩ | hq)
    · exact .inl ⟨x, mem_of_rest hi hx, h⟩
    · rcases exists_mem_concat.mp hq with hq | h
      · exact .inr hq
      · exact .inl ⟨i, by rw [hi]; simp, h⟩

/-- A check leaves the devices bound that it leaves mounted. -/
theorem Sourced.check {L : Lease CStr ℤ} (h : Represents d L) (out : ℕ → TeardownOutcome) :
    Sourced (packagePurgatoryCheck d out) := by
  obtain ⟨L', hL'⟩ := represents_check h out
  obtain ⟨evs, he, hev⟩ := check_events d out
  have htear : ∀ ev ∈ evs, ev.teardownOf.isSome := fun ev hm => by
    obtain ⟨q, -, hq⟩ := hev ev hm
    rw [hq]
    rfl
  intro id n hn
  have hold : HasLoop d id n := by
    rcases hn with hi | ⟨q, hq, hqid, hqloop⟩
    · rw [packagePurgatoryCheck_eq] at hi
      exact .inl hi
    · obtain ⟨q', hq', hid, hloop⟩ := mem_purgatoryCheck hq
      exact .inr ⟨q', hq', hid.symm.trans hqid, hloop.symm.trans hqloop⟩
  obtain ⟨image, hbound, hfile⟩ := hs id n hold
  have hout : n ∈ outstanding (d.loops ++ evs) := by
    obtain ⟨u, hu⟩ := (hL'.hasLoop_iff id n).mp hn
    rw [← he]
    exact (hL'.taken n).mpr ⟨id, u, hu⟩
  refine ⟨image, ?_, ?_⟩
  · rw [he, boundImage_kept evs htear d.loops hout, hbound]
  · rw [he, mountedFile_teardown htear, hfile]

omit hs in
/-- A new instance has its loop device, and the others keep theirs. -/
theorem hasLoop_concat {d' : Daemon} {i : PackageInstance} {id : CStr} {n : ℤ} (h : HasLoop d' id n)
    (hi : d'.p.instance_ = d.p.instance_ ++ [i]) (hq : d'.p.purgatory = d.p.purgatory) :
    HasLoop d id n ∨ i.packageId = id ∧ i.loop = n := by
  rw [HasLoop, hi, hq] at h
  rcases h with hx | hx
  · rcases exists_mem_concat.mp hx with hx | hx
    · exact .inl (.inl hx)
    · exact .inr hx
  · exact .inl (.inr hx)

omit hs in
theorem HasLoop.ownsLoop {id : CStr} {n : ℤ} (h : HasLoop d id n) : OwnsLoop d n := by
  rcases h with ⟨x, hx, -, hl⟩ | ⟨x, hx, -, hl⟩
  · exact .inl ⟨x, hx, hl⟩
  · exact .inr ⟨x, hx, hl⟩

/-- A launch binds a device that nobody has. -/
theorem Sourced.run {L : Lease CStr ℤ} (h : Represents d L) {ret : ℤ} {id user : CStr}
    (hf : 0 ≤ ret → ¬ OwnsLoop d ret) : Sourced (packageRun d ret id user).2 := by
  have hc := packageRun_cases d ret id user h.loopsNonneg.purgatory
  generalize packageRun d ret id user = r at hc ⊢
  cases hc with
  | shared i hi hid =>
    refine hs.of_subset rfl fun id' n hn => ?_
    rcases hasLoop_concat (d := d) hn rfl rfl with hold | ⟨rfl, rfl⟩
    · exact hold
    · exact .inl ⟨i, hi, hid, rfl⟩
  | revived pre post q hinst hq hid hre =>
    refine hs.of_subset rfl fun id' n => ?_
    rintro (hx | ⟨x, hx, hxid⟩)
    · rcases exists_mem_concat.mp hx with hx | ⟨rfl, rfl⟩
      · exact .inl hx
      · exact .inr ⟨q, by rw [hq]; simp, hid, rfl⟩
    · exact .inr ⟨x, mem_of_rest hq hx, hxid⟩
  | mounted e he heid hinst hpurg hret =>
    intro id' n hn
    rw [boundImage_mount, mountedFile_mount]
    rcases hasLoop_concat (d := d) hn rfl rfl with hold | ⟨rfl, rfl⟩
    · have hne : ret ≠ n := by
        rintro rfl
        exact hf hret hold.ownsLoop
      have hid : id ≠ id' := by
        rintro rfl
        rcases hold with ⟨x, hx, hxid, -⟩ | ⟨x, hx, hxid, -⟩
        · exact hinst x hx hxid
        · exact hpurg x hx hxid
      rw [if_neg hne, if_neg fun hh => hid hh.1]
      exact hs id' n hold
    · rw [if_pos rfl, if_pos ⟨rfl, hret⟩]
      exact ⟨e.path, rfl, rfl⟩
  | failed e he heid hret =>
    intro id' n hn
    obtain ⟨u, hu⟩ := (h.hasLoop_iff id' n).mp hn
    have h0 := h.nonneg n ⟨id', u, hu⟩
    rw [boundImage_mount, mountedFile_mount, if_neg (by omega), if_neg fun hh => by omega]
    exact hs id' n hn
  | refused err herr => exact hs

end Sourced

/-- **Every call leaves the mounts leased and bound to their files.** -/
theorem sourced_step (cfg : DBPConfig) {d : Daemon} (h : Mounted d) (op : DaemonOp)
    (hok : FreshMounts d op ∧ FreshRunId d op) : Mounted (d.step cfg op) := by
  obtain ⟨⟨L, hL⟩, hcnt, hnd, hs⟩ := h
  refine ⟨represents_step cfg hL (hcnt.apart hnd) op hok.1, hcnt.step cfg op, (nodup_step_iff hcnt cfg hnd op).mpr hok.2, ?_⟩
  cases op with
  | run ret id user => exact hs.run hL hok.1
  | stop now runId => exact hs.stop now runId
  | purgatoryCheck out => exact hs.check hL out
  | _ =>
    have hsame : ∀ {d'}, SameMounts d d' → Sourced d' := fun h => hs.of_subset h.loops fun id n => by
      unfold HasLoop
      rw [h.instance_, h.purgatory]
      exact fun hh => hh
    exact hsame (sameMounts_step cfg d (by simp) (by simp) (by simp))

/-- A launch that comes to no instance is refused. -/
theorem fresh_refused {d : Daemon} {id user : CStr} {ret : ℤ} (hready : ¬ MountReady d id) {r : ℤ × Daemon}
    (hr : packageRun d ret id user = r) (hneg : r.1 < 0) :
    FreshImage d (.run ret id user) ↔ SameFile d (.run ret id user) := by
  simp only [FreshImage, SameFile, hr, hready, false_implies, iff_true]
  exact fun hpos => absurd hneg (by omega)

/-- A launch that mounts the package mounts the file that is registered. -/
theorem fresh_mount {d : Daemon} {id : CStr} (ret : ℤ) (user : CStr) (hinst : ∀ i ∈ d.p.instance_, i.packageId ≠ id)
    (hpurg : ∀ q ∈ d.p.purgatory, q.packageId ≠ id) : FreshImage d (.run ret id user) := by
  simp only [FreshImage]
  rw [packageRun_unmounted ret user hinst hpurg]
  unfold packageRunMount registeredFile
  cases (packageFind d.p id).bind (d.p.entry[·]?) with
  | none => exact fun hpos => absurd hpos (show ¬ 0 ≤ DBP_ERROR_BAD_PKG_ID by decide)
  | some e =>
    simp only
    by_cases hret : ret < 0
    · rw [if_pos hret]
      exact fun hpos => absurd hret (by simpa using hpos)
    · rw [if_neg hret]
      exact fun _ => ⟨e.path, _, rfl, rfl, by rw [boundImage_mount, if_pos rfl]⟩

section Fresh

variable {d : Daemon} (h : Mounted d)
include h

/-- A launch on a mount that is there, with loop device `n`. -/
theorem Mounted.fresh_iff {id user : CStr} {ret n : ℤ} (hn : HasLoop d id n) (hready : MountReady d id) {r : ℤ × Daemon}
    (hr : packageRun d ret id user = r) (hpos : 0 ≤ r.1) {runId : ℕ}
    (hinst : r.2.p.instance_ = d.p.instance_ ++ [⟨id, runId, n⟩]) (hloops : r.2.loops = d.loops) :
    FreshImage d (.run ret id user) ↔ SameFile d (.run ret id user) := by
  obtain ⟨image, hbound, hfile⟩ := h.sourced id n hn
  simp only [FreshImage, SameFile, hr, hpos, forall_const, hready, hfile]
  refine ⟨?_, fun hreg => ⟨image, _, hreg, hinst, hloops ▸ hbound⟩⟩
  rintro ⟨file, i, hreg, hi, hb⟩
  obtain rfl : i = ⟨id, runId, n⟩ := by simpa [hinst, eq_comm] using hi
  rw [hloops, hbound] at hb
  exact hreg.trans hb.symm

/-- **A launch is fresh exactly when the package is still registered from the file it was mounted from.** -/
theorem freshImage_iff (op : DaemonOp) : FreshImage d op ↔ SameFile d op := by
  cases op with
  | run ret id user =>
    cases placeCase d.p id with
    | running i hi hid hfind =>
      have hr := packageRun_shared ret user hfind
      rw [packageRunMounted_eq h.counter.cnt_nonneg h.counter.cnt_lt] at hr
      exact h.fresh_iff (.inl ⟨i, hi, hid, rfl⟩) (.inl ⟨i, hi, hid⟩) hr h.counter.cnt_nonneg rfl rfl
    | away hinst hpurg hfind =>
      apply iff_of_true (fresh_mount ret user hinst hpurg)
      intro hready
      rcases hready with ⟨i, hi, hid⟩ | hpark
      · exact absurd hid (hinst i hi)
      · rw [hfind] at hpark
        exact hpark.elim
    | parked pre post q hinst hq hid hpre hfind =>
      have hmem : q ∈ d.p.purgatory := by rw [hq]; simp
      have hr := packageRun_parked ret user hinst hq hid hpre (h.counter.loops.purgatory q hmem)
      have hready : MountReady d id ↔ 1 ≤ q.reusable := by
        unfold MountReady
        rw [hfind]
        exact or_iff_right fun ⟨i, hi, he⟩ => hinst i hi he
      by_cases hre : q.reusable < 1
      · rw [if_pos hre] at hr
        exact fresh_refused (fun hh => by have := hready.mp hh; omega) hr (show DBP_ERROR_MUTILATED < 0 by decide)
      · have heq := @packageRunMounted_eq { d.p with purgatory := pre ++ post } h.counter.cnt_nonneg h.counter.cnt_lt id
          q.loopNumber
        simp only [if_neg hre, heq] at hr
        exact h.fresh_iff (.inr ⟨q, hmem, hid, rfl⟩) (hready.mpr (by omega)) hr h.counter.cnt_nonneg rfl rfl
  | _ => exact Iff.rfl

end Fresh

/-! ### Runs -/

theorem mounted_init (icons desktops execs : Dir) : Mounted (Daemon.init icons desktops execs) where
  leased := ⟨_, (represents_init icons desktops execs).1⟩
  counter := counterOk_init icons desktops execs
  nodup := List.nodup_nil
  sourced id n hn := by
    rcases hn with ⟨i, hi, -⟩ | ⟨q, hq, -⟩
    · exact absurd hi List.not_mem_nil
    · exact absurd hq List.not_mem_nil

/-- **Fresh images.** In a run whose launches take fresh run ids, with a kernel that hands out loop devices nobody
owns, every launch that succeeds runs from the file registered at that moment exactly when every launch of a
package that has a mount ready finds it registered from the file it was mounted from. -/
theorem fresh_image (cfg : DBPConfig) (icons desktops execs : Dir) (ops : List DaemonOp)
    (hf : Admissible (Daemon.step cfg) FreshMounts (Daemon.init icons desktops execs) ops)
    (hr : Admissible (Daemon.step cfg) FreshRunId (Daemon.init icons desktops execs) ops) :
    Admissible (Daemon.step cfg) FreshImage (Daemon.init icons desktops execs) ops ↔
      Admissible (Daemon.step cfg) SameFile (Daemon.init icons desktops execs) ops := by
  refine admissible_congr (fun d op h hok => sourced_step cfg h op hok) (fun d op h _ => freshImage_iff h op) ops
    (mounted_init icons desktops execs) ?_
  exact (admissible_and _ ops).mpr ⟨hf, hr⟩

/-- A package is launched, ends, and comes back from another medium while its mount is parked. -/
def movedRun : List DaemonOp :=
  [.registerPath (demoEnv [(lit "/m/a.dbp", [demoMeta (lit "a")])]) (lit "/dev/sda1") (lit "/m/a.dbp") (lit "/m"),
    .run 3 (lit "a") (lit "u"), .stop 100 0, .releasePath (lit "/m/a.dbp"),
    .registerPath (demoEnv [(lit "/n/a.dbp", [demoMeta (lit "a")])]) (lit "/dev/sdb1") (lit "/n/a.dbp") (lit "/n")]

theorem fresh_image_demo :
    Admissible (Daemon.step demoConfig) FreshImage (Daemon.init [] [] []) demoRun :=
  (fresh_image demoConfig [] [] [] demoRun (by decide) (by decide)).mpr (by decide)

/-- The next launch takes the parked mount, which is of the file that is gone. -/
theorem fresh_image_moved : ¬ Admissible (Daemon.step demoConfig) FreshImage (Daemon.init [] [] [])
    (movedRun ++ [.run 4 (lit "a") (lit "u")]) := by
  rw [admissible_append]
  rintro ⟨-, h, -⟩
  have hpos : 0 ≤ (packageRun (Daemon.run demoConfig (Daemon.init [] [] []) movedRun) 4 (lit "a") (lit "u")).1 := by decide
  obtain ⟨file, i, hreg, hinst, hbound⟩ := h hpos
  have hi : i = ⟨lit "a", 1, 3⟩ := by
    have hlast := congrArg List.getLast? hinst
    rw [List.getLast?_concat] at hlast
    exact (Option.some.inj (hlast.symm.trans (by decide)))
  have hfile : some file = some (lit "/n/a.dbp") := hreg.symm.trans (by decide)
  rw [hi, hfile] at hbound
  exact absurd hbound (by decide)

end Dbp
