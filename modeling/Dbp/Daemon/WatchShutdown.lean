/-
# Shutting the threads down

A signal stops the main thread wherever it is: `shutdown` sets `should_die`
and waits until the two threads of the mount watch have said that they died.
It never gives back what the main thread held. So the threads end, in every
schedule in which each of them runs again and again, unless the signal came
before both were created, the mount thread could not open `/proc/mounts`, or
the main thread had `dir_watch_mutex` while the directory thread was past its
last test of `should_die` and about to take it (`shutdown_completes_iff`).

Key definitions: `WatchThread`, `WatchThreads.mountwatchDied`, `Hangs`, `Dying`, `Stuck`, `WatchThreads.work`.
Key theorems: `dying_descends`, `hangs_forever`, `shutdown_completes_iff`.
-/
import Dbp.Daemon.WatchThreads
import Dbp.Lib.Fair

namespace Dbp

open CLib Fair

/-- The threads that a shutdown waits for. -/
inductive WatchThread
  | dir
  | mounts
deriving Repr, DecidableEq

/-- Whose step an operation is. -/
def WatchOp.agent : WatchOp → Option WatchThread
  | .dir => some .dir
  | .mounts _ => some .mounts
  | .event _ | .mounted | .main _ | .signal => none

/-- `mountwatch_died`. -/
def WatchThreads.mountwatchDied (s : WatchThreads) : Bool := s.died && s.died2

/-- A thread that will never say that it died: it is not there, or it waits for a mutex that the main thread holds and will
not give back. -/
def Hangs (s : WatchThreads) : Prop :=
  s.mounts = .absent ∨ s.mounts = .failed ∨ s.dir = .absent ∨ s.main.inside ∧ s.dir = .lock

instance (s : WatchThreads) : Decidable (Hangs s) := inferInstanceAs (Decidable (_ ∨ _ ∨ _ ∨ _))

/-- A shutdown under way. -/
structure InShutdown (s : WatchThreads) : Prop extends ThreadsInv s where
  shutdown : s.main = .shutdown

/-- One that nothing holds up. -/
structure Dying (s : WatchThreads) : Prop extends InShutdown s where
  mounts_there : s.mounts ≠ .absent ∧ s.mounts ≠ .failed
  dir_there : s.dir ≠ .absent
  mutex : s.dir = .lock → s.dirWatchMutex ≠ some .main

/-- One that something holds up. -/
structure Stuck (s : WatchThreads) : Prop extends InShutdown s where
  stuck : s.mounts = .absent ∨ s.mounts = .failed ∨ s.dir = .absent ∨ s.dirWatchMutex = some .main ∧ s.dir = .lock

/-- The steps a thread is from its end, once it is to die. -/
def DirPc.work : DirPc → ℕ
  | .exited => 0
  | .woken => 1
  | .select => 2
  | .waiting => 3
  | .unlock => 4
  | .post => 5
  | .mark => 6
  | .lock => 7
  | .absent => 0

def MountsPc.work : MountsPc → ℕ
  | .exited => 0
  | .dying => 1
  | .top => 2
  | .post => 3
  | .opening => 3
  | .polling => 4
  | .absent | .failed => 0

/-- The steps both are from their ends. -/
def WatchThreads.work (s : WatchThreads) : ℕ := s.dir.work + s.mounts.work

/-- The thread that is sure to get on: the mount thread until it has ended, which lets the directory thread go. -/
def WatchThreads.helper (s : WatchThreads) : WatchThread := if s.mounts = .exited then .dir else .mounts

section Shutdown

variable {cfg : DBPConfig} {s : WatchThreads}

/-- What a signal makes of a state. -/
theorem signal_cases (h : ThreadsInv s) (hs : s.main ≠ .shutdown) :
    (Hangs s → Stuck (s.step cfg .signal)) ∧ (¬ Hangs s → Dying (s.step cfg .signal)) := by
  have hi : InShutdown (s.step cfg .signal) := ⟨h.step .signal, rfl⟩
  constructor
  · rintro (hh | hh | hh | ⟨hh, hd⟩)
    · exact ⟨hi, .inl hh⟩
    · exact ⟨hi, .inr (.inl hh)⟩
    · exact ⟨hi, .inr (.inr (.inl hh))⟩
    · exact ⟨hi, .inr (.inr (.inr ⟨(h.mutex_main hs).mpr hh, hd⟩))⟩
  · intro hh
    simp only [Hangs, not_or] at hh
    exact ⟨hi, ⟨hh.1, hh.2.1⟩, hh.2.2.1, fun hd hm => hh.2.2.2 ⟨(h.mutex_main hs).mp hm, hd⟩⟩

theorem InShutdown.shouldDie (h : InShutdown s) : s.shouldDie = true := h.flag.mpr h.shutdown

theorem InShutdown.step (h : InShutdown s) (op : WatchOp) : InShutdown (s.step cfg op) :=
  ⟨h.toThreadsInv.step op, WatchThreads.shutdown_step cfg h.shutdown op⟩

theorem InShutdown.main (h : InShutdown s) (a : MainAnswer) : s.step cfg (.main a) = s := by
  simp only [WatchThreads.step, WatchThreads.mainStep, h.shutdown]

/-! ### Threads that end -/

/-- A step of the directory thread brings it nearer to its end, or it has ended, or it waits and the mount thread has yet
to let it go. -/
theorem Dying.dirchange (h : Dying s) : s.mountwatchDirchange.work < s.work ∨
    s.mountwatchDirchange = s ∧ (s.died2 = true ∨ s.mounts ≠ .exited) := by
  have hc := mountwatchDirchange_cases s
  generalize s.mountwatchDirchange = s' at hc ⊢
  cases hc with
  | still hstill =>
    right
    refine ⟨rfl, ?_⟩
    rcases hstill with hs | hs | ⟨-, -, hs⟩ | ⟨hs, hm⟩ | ⟨hs, hn⟩
    · exact absurd hs h.dir_there
    · exact .inl (h.died2.mpr hs)
    · simp [h.shouldDie] at hs
    · rcases hm' : s.dirWatchMutex with _ | (_ | _)
      · exact absurd hm' hm
      · exact absurd (h.mutex_dir.mp hm') (by simp [hs, DirPc.inside])
      · exact absurd hm' (h.mutex hs)
    · exact .inr fun he => by simpa [hn] using h.released he (by rw [hs]; rfl)
  | dies hd _ => rcases hd with hd | hd <;> simp [WatchThreads.work, DirPc.work, hd]
  | goes _ hs => simp [h.shouldDie] at hs
  | wakes hd _ | locks hd _ | marks hd | posts hd | unlocks hd | continues hd =>
    left
    simp [WatchThreads.work, DirPc.work, hd]

/-- So does a step of the mount thread. -/
theorem Dying.loop (h : Dying s) : (s.mountwatchLoop true).work < s.work ∨
    s.mountwatchLoop true = s ∧ s.mounts = .exited := by
  have hc := mountwatchLoop_cases s true
  generalize s.mountwatchLoop true = s' at hc ⊢
  cases hc with
  | still hstill =>
    rcases hstill with hs | hs | hs
    · exact absurd hs h.mounts_there.1
    · exact .inr ⟨rfl, hs⟩
    · exact absurd hs h.mounts_there.2
  | fails _ ho => cases ho
  | polls _ hs => simp [h.shouldDie] at hs
  | loops hm => rcases hm with hm | hm <;> simp [WatchThreads.work, MountsPc.work, hm]
  | dies hm _ | wakes hm | posts hm | exits hm =>
    left
    simp [WatchThreads.work, MountsPc.work, hm]

theorem Dying.step (h : Dying s) (op : WatchOp) (hop : op ≠ .mounts false) : Dying (s.step cfg op) := by
  have hi : InShutdown (s.step cfg op) := h.toInShutdown.step op
  cases op with
  | event | mounted | signal => exact ⟨hi, h.mounts_there, h.dir_there, h.mutex⟩
  | main a => rwa [h.main]
  | dir =>
    simp only [WatchThreads.step] at hi ⊢
    have hc := mountwatchDirchange_cases s
    generalize s.mountwatchDirchange = s' at hc hi ⊢
    cases hc with
    | still _ => exact h
    | goes _ hs => simp [h.shouldDie] at hs
    | wakes | dies | locks | marks | posts | unlocks | continues =>
      exact ⟨hi, h.mounts_there, by simp, by simp⟩
  | mounts opened =>
    simp only [WatchThreads.step] at hi ⊢
    have hc := mountwatchLoop_cases s opened
    generalize s.mountwatchLoop opened = s' at hc hi ⊢
    cases hc with
    | still _ => exact h
    | fails _ ho => exact absurd (by rw [ho]) hop
    | loops | dies | polls | wakes | posts | exits => exact ⟨hi, by simp, h.dir_there, h.mutex⟩

/-- The steps left go down to none. -/
theorem dying_descends (cfg : DBPConfig) : Descends (WatchThreads.step cfg) WatchOp.agent (· ≠ .mounts false) Dying
    (fun s => s.mountwatchDied) WatchThreads.work WatchThreads.helper where
  keeps _ op hop h := h.step op hop
  lowers s op hop h hlive := by
    right
    have hstill : op.agent ≠ some s.helper → s.step cfg op = s → (s.step cfg op).work < s.work ∨
        (s.step cfg op).work = s.work ∧ (s.step cfg op).helper = s.helper ∧ op.agent ≠ some s.helper :=
      fun hne he => .inr ⟨by rw [he], by rw [he], hne⟩
    cases op with
    | event | mounted => exact .inr ⟨rfl, rfl, by simp [WatchOp.agent]⟩
    | signal => exact .inr ⟨rfl, rfl, by simp [WatchOp.agent]⟩
    | main a => exact hstill (by simp [WatchOp.agent]) (h.main a)
    | dir =>
      rcases h.dirchange with hlt | ⟨he, hor⟩
      · exact .inl hlt
      · refine hstill ?_ he
        have hm : s.mounts ≠ .exited := by
          rintro hm
          refine hor.elim (fun hd => hlive ?_) fun hne => hne hm
          simp [WatchThreads.mountwatchDied, hd, h.died.mpr (by rw [hm]; rfl)]
        simp [WatchOp.agent, WatchThreads.helper, hm]
    | mounts opened =>
      obtain rfl : opened = true := by
        cases opened
        · exact absurd rfl hop
        · rfl
      rcases h.loop with hlt | ⟨he, hm⟩
      · exact .inl hlt
      · exact hstill (by simp [WatchOp.agent, WatchThreads.helper, hm]) he

/-! ### Threads that never end -/

theorem Stuck.not_died (h : Stuck s) : s.mountwatchDied = false := by
  have hd : s.died = true → s.mounts.ended = true := h.died.mp
  have hd2 : s.died2 = true → s.dir = .exited := h.died2.mp
  rw [WatchThreads.mountwatchDied, Bool.and_eq_false_iff, ← Bool.not_eq_true, ← Bool.not_eq_true]
  rcases h.stuck with hh | hh | hh | ⟨-, hh⟩
  · exact .inl fun hc => by simpa [hh, MountsPc.ended] using hd hc
  · exact .inl fun hc => by simpa [hh, MountsPc.ended] using hd hc
  · exact .inr fun hc => by simpa [hh] using hd2 hc
  · exact .inr fun hc => by simpa [hh] using hd2 hc

theorem Stuck.step (h : Stuck s) (op : WatchOp) : Stuck (s.step cfg op) := by
  refine ⟨h.toInShutdown.step op, ?_⟩
  cases op with
  | event | mounted | signal => exact h.stuck
  | main a =>
    rw [h.main]
    exact h.stuck
  | dir =>
    simp only [WatchThreads.step]
    have hc := mountwatchDirchange_cases s
    generalize s.mountwatchDirchange = s' at hc ⊢
    have hst := h.stuck
    cases hc with
    | still _ => exact hst
    | goes _ hs => simp [h.shouldDie] at hs
    | dies hd _ => rcases hd with hd | hd <;> simp_all
    | wakes hd _ | locks hd _ | marks hd | posts hd | unlocks hd | continues hd => simp_all
  | mounts opened =>
    simp only [WatchThreads.step]
    have hc := mountwatchLoop_cases s opened
    generalize s.mountwatchLoop opened = s' at hc ⊢
    have hst := h.stuck
    cases hc with
    | still _ => exact hst
    | loops hm => rcases hm with hm | hm <;> simp_all
    | fails hm _ | dies hm _ | polls hm _ | wakes hm | posts hm | exits hm => simp_all

/-- What holds the threads up holds them up for ever. -/
theorem hangs_forever (cfg : DBPConfig) (h : Stuck s) (ops : List WatchOp) : (s.run cfg ops).mountwatchDied = false :=
  (List.foldlRecOn (motive := Stuck) ops (WatchThreads.step cfg) h fun _ h op _ => h.step op).not_died

/-- The threads in turn, the mount table opening. -/
def inTurn (n : ℕ) : WatchOp := if n % 2 = 0 then .dir else .mounts true

theorem inTurn_fair : IsFair WatchOp.agent inTurn := by
  rintro (_ | _) n
  · exact ⟨2 * n, by omega, by simp [inTurn, WatchOp.agent]⟩
  · exact ⟨2 * n + 1, by omega, by simp [inTurn, WatchOp.agent, Nat.add_mod]⟩

/-- **A shutdown completes**, in every schedule in which both threads run again and again and the mount table opens, exactly
if the signal finds both threads there, the mount table opened, and not the main thread with the mutex that the directory
thread is about to take. -/
theorem shutdown_completes_iff (cfg : DBPConfig) (ops : List WatchOp) :
    let s := WatchThreads.init.run cfg ops
    s.main ≠ .shutdown →
      ((∀ f, IsFair WatchOp.agent f → (∀ n, f n ≠ .mounts false) →
        ∃ n, (after (WatchThreads.step cfg) (s.step cfg .signal) f n).mountwatchDied) ↔ ¬ Hangs s) := by
  intro s hs
  obtain ⟨hstuck, hdying⟩ := @signal_cases cfg _ (threadsInv_run cfg ops) hs
  refine ⟨fun hall hh => ?_, fun hh f hf hok => ?_⟩
  · obtain ⟨n, hn⟩ := hall inTurn inTurn_fair fun n => by unfold inTurn; split_ifs <;> simp
    rw [after_eq_foldl, hangs_forever cfg (hstuck hh)] at hn
    cases hn
  · exact (dying_descends cfg).reaches _ f _ le_rfl hf hok (hdying hh)

theorem shutdown_completes_demo :
    ((∀ f, IsFair WatchOp.agent f → (∀ n, f n ≠ .mounts false) →
      ∃ n, (after (WatchThreads.step demoConfig)
        ((WatchThreads.init.run demoConfig demoWatchOps).step demoConfig .signal) f n).mountwatchDied) ↔
      ¬ Hangs (WatchThreads.init.run demoConfig demoWatchOps)) :=
  shutdown_completes_iff demoConfig demoWatchOps (by decide)

/-- The main thread reads the mount table as an event wakes the directory thread. -/
example : Hangs (WatchThreads.init.run demoConfig (List.replicate 5 (.main ⟨true, [], fun _ => 1, 0⟩) ++
    [.event ⟨1, IN_CREATE, lit "a.dbp"⟩, .dir, .dir])) := by decide

end Shutdown

end Dbp
