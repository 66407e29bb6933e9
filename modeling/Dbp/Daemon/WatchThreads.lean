/-
# The threads of the mount watch

`mountwatch_loop` waits for changes of the mount table, `mountwatch_dirchange`
for events of the watched directories, and the main thread asks
`mountwatch_diff` for what changed. They share two semaphores, a mutex and a
few flags: `changed` wakes the main thread, `dir_change` tells it that there
are directory events, and the directory thread waits on `dir_watch_continue`
until these have been read. A signal turns the main thread into `shutdown`,
whatever it holds at that moment, which waits for the other two to end.

Each thread has a program counter, and one operation is one step of one
thread between two accesses to what is shared, with what the kernel answers.
Between two passes the main thread has got from `mountwatch_diff` what the
sequential calls of `Mountwatch.lean` return, over the directory events in the
order they arrived (`watch_refines`). Once it sleeps and the other two are at
rest there is no event left, and it has read the mount table since its last
change after `mountwatch_loop` opened it; this takes that the table opens for
the main thread whenever there is something to be seen (`watch_at_rest`).

Key definitions: `DirPc`, `MountsPc`, `DiffPc`, `WatchThreads`, `WatchOp`, `WatchThreads.step`, `WatchLog`, `Handshake`,
`Reported`, `AtRest`.
Key theorems: `watch_refines`, `watch_at_rest`.
-/
import Dbp.Daemon.Machine
import Dbp.Daemon.Mountwatch

namespace Dbp

open CLib Sweep Runs

/-! ### The threads -/

/-- Where `mountwatch_dirchange` is: before its creation, at `select`, at the second test of `should_die`, then each step
of the locked section, at `sem_wait`, and after `pthread_exit`. -/
inductive DirPc
  | absent
  | select
  | woken
  | lock
  | mark
  | post
  | unlock
  | waiting
  | exited
deriving Repr, DecidableEq

/-- Where `mountwatch_loop` is: `failed` if it could not open `/proc/mounts`. -/
inductive MountsPc
  | absent
  | opening
  | top
  | polling
  | post
  | dying
  | exited
  | failed
deriving Repr, DecidableEq

/-- `mountwatch_loop` has opened `/proc/mounts`; `select` reports the changes after that. -/
def MountsPc.opened : MountsPc → Bool
  | .absent | .opening | .failed => false
  | _ => true

/-- Where the main thread is: in `mountwatch_init` before the first or the second thread is created, `away` from
`mountwatch_diff`, in it, with the changes found so far, or in `shutdown`. -/
inductive DiffPc
  | init
  | created
  | away
  | wait
  | lock
  | openMounts
  | giveUp
  | readMounts
  | takeDir (change : List MountwatchChange)
  | unlock (change : List MountwatchChange) (n : Bool)
  | drain (change : List MountwatchChange)
  | goOn (change : List MountwatchChange)
  | shutdown
deriving Repr, DecidableEq

/-- Who has locked `dir_watch_mutex`. -/
inductive WatchHolder
  | dir
  | main
deriving Repr, DecidableEq

/-- `struct mountwatch_s` with the threads' program counters, the events `dir_fd` holds, whether `select` will report
`/proc/mounts`, and the changes `mountwatch_diff` has returned so far. -/
structure WatchThreads where
  w : Mountwatch
  changed : ℕ
  dirWatchContinue : ℕ
  dirWatchMutex : Option WatchHolder
  dirChange : Bool
  shouldDie : Bool
  died : Bool
  died2 : Bool
  dir : DirPc
  mounts : MountsPc
  main : DiffPc
  queue : List InotifyEvent
  mountEvent : Bool
  returned : List MountwatchChange
deriving DecidableEq, Repr

/-- What the kernel answers the main thread: whether `/proc/mounts` opens, the mount table, the handles of new watches,
and how many events a `read` returns beyond the first. -/
structure MainAnswer where
  opened : Bool
  lines : List MountLine
  addWatch : CStr → ℤ
  taken : ℕ

/-- What happens next: a directory event, a change of the mount table, a step of a thread, or a signal. -/
inductive WatchOp
  | event (e : InotifyEvent)
  | mounted
  | dir
  | mounts (opened : Bool)
  | main (a : MainAnswer)
  | signal

namespace WatchThreads

/-- Before `mountwatch_init`. -/
def init : WatchThreads where
  w := ⟨[], []⟩
  changed := 1
  dirWatchContinue := 0
  dirWatchMutex := none
  dirChange := false
  shouldDie := false
  died := false
  died2 := false
  dir := .absent
  mounts := .absent
  main := .init
  queue := []
  mountEvent := false
  returned := []

/-- A step of `mountwatch_dirchange`; none while it waits for the mutex or the semaphore. -/
def mountwatchDirchange (s : WatchThreads) : WatchThreads :=
  match s.dir with
  | .absent | .exited => s
  | .select =>
    if s.queue ≠ [] then { s with dir := .woken }
    -- the time is over
    else if s.shouldDie then { s with died2 := true, dir := .exited }
    else s
  | .woken => if s.shouldDie then { s with died2 := true, dir := .exited } else { s with dir := .lock }
  | .lock => if s.dirWatchMutex = none then { s with dirWatchMutex := some .dir, dir := .mark } else s
  | .mark => { s with dirChange := true, dir := .post }
  | .post => { s with changed := s.changed + 1, dir := .unlock }
  | .unlock => { s with dirWatchMutex := none, dir := .waiting }
  | .waiting =>
    if 0 < s.dirWatchContinue then { s with dirWatchContinue := s.dirWatchContinue - 1, dir := .select } else s

/-- A step of `mountwatch_loop`. -/
def mountwatchLoop (s : WatchThreads) (opened : Bool) : WatchThreads :=
  match s.mounts with
  | .absent | .exited | .failed => s
  | .opening => { s with mounts := if opened then .top else .failed }
  | .top => if s.shouldDie then { s with died := true, mounts := .dying } else { s with mounts := .polling }
  | .polling => if s.mountEvent then { s with mountEvent := false, mounts := .post } else { s with mounts := .top }
  | .post => { s with changed := s.changed + 1, mounts := .top }
  | .dying => { s with dirWatchContinue := s.dirWatchContinue + 1, mounts := .exited }

variable (cfg : DBPConfig)

/-- A step of the main thread: `mountwatch_init`, `mountwatch_diff`, and what is between its calls. -/
def mainStep (s : WatchThreads) (a : MainAnswer) : WatchThreads :=
  match s.main with
  | .init => { s with mounts := .opening, main := .created }
  | .created => { s with dir := .select, main := .away }
  | .away => { s with main := .wait }
  | .wait => if 0 < s.changed then { s with changed := s.changed - 1, main := .lock } else { s with main := .away }
  | .lock => if s.dirWatchMutex = none then { s with dirWatchMutex := some .main, main := .openMounts } else s
  | .openMounts => { s with main := if a.opened then .readMounts else .giveUp }
  | .giveUp => { s with dirWatchMutex := none, main := .away }
  | .readMounts =>
    let r := mountwatchDiff cfg a.addWatch s.w (.snapshot a.lines none)
    { s with w := r.1, main := .takeDir r.2 }
  | .takeDir change => { s with dirChange := false, main := .unlock change s.dirChange }
  | .unlock change n =>
    { s with
      dirWatchMutex := none
      main := if n then .drain change else if change = [] then .wait else .away
      returned := if n then s.returned else s.returned ++ change }
  | .drain change =>
    if s.queue = [] then { s with main := .goOn change }
    else
      { s with
        queue := s.queue.drop (a.taken + 1)
        main := .drain (change ++ mountwatchInotifyHandle s.w.ientry (s.queue.take (a.taken + 1))) }
  | .goOn change =>
    { s with dirWatchContinue := s.dirWatchContinue + 1, main := .away, returned := s.returned ++ change }
  | .shutdown => s

/-- The state after an operation. The handler of a signal runs in the main thread, and never returns. -/
def step (s : WatchThreads) : WatchOp → WatchThreads
  | .event e => { s with queue := s.queue ++ [e] }
  | .mounted => { s with mountEvent := s.mountEvent || s.mounts.opened }
  | .dir => s.mountwatchDirchange
  | .mounts opened => s.mountwatchLoop opened
  | .main a => s.mainStep cfg a
  | .signal => { s with shouldDie := true, main := .shutdown }

/-- The state after a run. -/
abbrev run (s : WatchThreads) (ops : List WatchOp) : WatchThreads := ops.foldl (step cfg) s

end WatchThreads

/-- What a step of the directory thread can do. -/
inductive DirCase (s : WatchThreads) : WatchThreads → Prop
  | still (h : s.dir = .absent ∨ s.dir = .exited ∨ s.dir = .select ∧ s.queue = [] ∧ s.shouldDie = false ∨
      s.dir = .lock ∧ s.dirWatchMutex ≠ none ∨ s.dir = .waiting ∧ s.dirWatchContinue = 0) : DirCase s s
  | wakes (hd : s.dir = .select) (hq : s.queue ≠ []) : DirCase s { s with dir := .woken }
  | dies (hd : s.dir = .select ∨ s.dir = .woken) (hs : s.shouldDie = true) :
      DirCase s { s with died2 := true, dir := .exited }
  | goes (hd : s.dir = .woken) (hs : s.shouldDie = false) : DirCase s { s with dir := .lock }
  | locks (hd : s.dir = .lock) (hm : s.dirWatchMutex = none) :
      DirCase s { s with dirWatchMutex := some .dir, dir := .mark }
  | marks (hd : s.dir = .mark) : DirCase s { s with dirChange := true, dir := .post }
  | posts (hd : s.dir = .post) : DirCase s { s with changed := s.changed + 1, dir := .unlock }
  | unlocks (hd : s.dir = .unlock) : DirCase s { s with dirWatchMutex := none, dir := .waiting }
  | continues (hd : s.dir = .waiting) (n : ℕ) (hn : s.dirWatchContinue = n + 1) :
      DirCase s { s with dirWatchContinue := n, dir := .select }

/-- What a step of the mount thread can do. -/
inductive MountsCase (s : WatchThreads) (opened : Bool) : WatchThreads → Prop
  | still (h : s.mounts = .absent ∨ s.mounts = .exited ∨ s.mounts = .failed) : MountsCase s opened s
  | fails (hm : s.mounts = .opening) (ho : opened = false) : MountsCase s opened { s with mounts := .failed }
  | loops (hm : s.mounts = .opening ∨ s.mounts = .polling) : MountsCase s opened { s with mounts := .top }
  | dies (hm : s.mounts = .top) (hs : s.shouldDie = true) :
      MountsCase s opened { s with died := true, mounts := .dying }
  | polls (hm : s.mounts = .top) (hs : s.shouldDie = false) : MountsCase s opened { s with mounts := .polling }
  | wakes (hm : s.mounts = .polling) : MountsCase s opened { s with mountEvent := false, mounts := .post }
  | posts (hm : s.mounts = .post) : MountsCase s opened { s with changed := s.changed + 1, mounts := .top }
  | exits (hm : s.mounts = .dying) :
      MountsCase s opened { s with dirWatchContinue := s.dirWatchContinue + 1, mounts := .exited }

section Cases

variable (s : WatchThreads)

theorem mountwatchDirchange_cases : DirCase s s.mountwatchDirchange := by
  unfold WatchThreads.mountwatchDirchange
  cases hd : s.dir with
  | absent => exact .still (by simp [hd])
  | exited => exact .still (by simp [hd])
  | select =>
    dsimp only
    split_ifs with hq hs
    · exact .wakes hd hq
    · exact .dies (.inl hd) hs
    · exact .still (by simp_all)
  | woken =>
    dsimp only
    split_ifs with hs
    · exact .dies (.inr hd) hs
    · exact .goes hd (by simpa using hs)
  | lock =>
    dsimp only
    split_ifs with hm
    · exact .locks hd hm
    · exact .still (by simp [hd, hm])
  | mark => exact .marks hd
  | post => exact .posts hd
  | unlock => exact .unlocks hd
  | waiting =>
    cases hn : s.dirWatchContinue with
    | zero => exact .still (by simp [hd, hn])
    | succ n => exact .continues hd n hn

theorem mountwatchLoop_cases (opened : Bool) : MountsCase s opened (s.mountwatchLoop opened) := by
  unfold WatchThreads.mountwatchLoop
  cases hm : s.mounts with
  | absent | exited | failed => exact .still (by simp [hm])
  | opening =>
    cases opened
    · exact .fails hm rfl
    · exact .loops (.inl hm)
  | top =>
    dsimp only
    split_ifs with hs
    · exact .dies hm hs
    · exact .polls hm (by simpa using hs)
  | polling =>
    dsimp only
    split_ifs
    · exact .wakes hm
    · exact .loops (.inr hm)
  | post => exact .posts hm
  | dying => exact .exits hm

end Cases

/-! ### What the main thread gets -/

/-- The changes a pass has found so far. -/
def DiffPc.found : DiffPc → List MountwatchChange
  | .takeDir change | .unlock change _ | .drain change | .goOn change => change
  | _ => []

/-- The mount table has been compared, and `mountwatch_diff` has not returned yet. -/
def DiffPc.inPass : DiffPc → Bool
  | .takeDir _ | .unlock _ _ | .drain _ | .goOn _ => true
  | _ => false

/-- The threads, with the directory events that arrived, what the main thread was answered each time it read the mount
table, and whether that has changed since, after `mountwatch_loop` opened it. -/
structure WatchLog where
  threads : WatchThreads
  arrived : List InotifyEvent
  passes : List MainAnswer
  unread : Bool

namespace WatchLog

/-- Nothing has happened. -/
def init : WatchLog := ⟨.init, [], [], false⟩

variable (cfg : DBPConfig)

def step (l : WatchLog) (op : WatchOp) : WatchLog where
  threads := l.threads.step cfg op
  arrived := match op with
    | .event e => l.arrived ++ [e]
    | _ => l.arrived
  passes := match op, l.threads.main with
    | .main a, .readMounts => l.passes ++ [a]
    | _, _ => l.passes
  unread := match op with
    | .mounted => l.unread || l.threads.mounts.opened
    | .main _ => l.unread && l.threads.main != .readMounts
    | _ => l.unread

abbrev run (l : WatchLog) (ops : List WatchOp) : WatchLog := ops.foldl (step cfg) l

end WatchLog

/-- The main thread finds a mount, and watches its directory; then a file is created there and the mount table changes,
the two threads call, and the main thread looks twice more. -/
def demoWatchOps : List WatchOp :=
  let main := WatchOp.main ⟨true, [⟨lit "/dev/sda1", lit "/m", lit "ext4"⟩], fun _ => 1, 0⟩
  List.replicate 9 main ++ [.mounts true, .event ⟨1, IN_CREATE, lit "a.dbp"⟩, .mounted] ++ List.replicate 6 .dir ++
    List.replicate 3 (.mounts true) ++ List.replicate 10 main ++ [.dir] ++ List.replicate 7 main

/-- What it gets. -/
def demoWatchChanges : List MountwatchChange :=
  [⟨lit "/m", lit "/dev/sda1", [], .added⟩, ⟨lit "/m", lit "/dev/sda1", lit "/m/./a.dbp", .pkgAdded⟩]

section Sequential

variable (cfg : DBPConfig)

/-- One after another the calls of `mountwatch_diff` over mount tables and directory events: the watcher's data, and all
changes returned. -/
def sequential (ps : List (MainAnswer × List InotifyEvent)) : Mountwatch × List MountwatchChange :=
  ps.foldl (fun r p =>
    let x := mountwatchDiff cfg p.1.addWatch r.1 (.snapshot p.1.lines (some p.2))
    (x.1, r.2 ++ x.2)) (⟨[], []⟩, [])

theorem sequential_concat (ps : List (MainAnswer × List InotifyEvent)) (a : MainAnswer) (evs : List InotifyEvent) :
    sequential cfg (ps ++ [(a, evs)]) =
      ((mountwatchDiff cfg a.addWatch (sequential cfg ps).1 (.snapshot a.lines (some evs))).1,
        (sequential cfg ps).2 ++ (mountwatchDiff cfg a.addWatch (sequential cfg ps).1 (.snapshot a.lines (some evs))).2) := by
  simp [sequential]

variable (addWatch : CStr → ℤ) (w : Mountwatch) (lines : List MountLine)

/-- No events are as good as none. -/
theorem mountwatchDiff_some_nil :
    mountwatchDiff cfg addWatch w (.snapshot lines (some [])) = mountwatchDiff cfg addWatch w (.snapshot lines none) := by
  simp [mountwatchDiff, diffRest, mountwatchInotifyHandle]

/-- Events read later add their changes. -/
theorem mountwatchDiff_events (evs evs' : List InotifyEvent) :
    mountwatchDiff cfg addWatch w (.snapshot lines (some (evs ++ evs'))) =
      ((mountwatchDiff cfg addWatch w (.snapshot lines (some evs))).1,
        (mountwatchDiff cfg addWatch w (.snapshot lines (some evs))).2 ++
          mountwatchInotifyHandle (mountwatchDiff cfg addWatch w (.snapshot lines (some evs))).1.ientry evs') := by
  simp [mountwatchDiff, diffRest, mountwatchInotifyHandle, List.append_assoc]

end Sequential

/-- The watcher's data, and the changes returned and found in the pass under way, are those of sequential calls over the
mount tables read, which have the events that are no longer in the queue. -/
def Refines (cfg : DBPConfig) (l : WatchLog) : Prop :=
  ∃ ps : List (MainAnswer × List InotifyEvent), ps.map Prod.fst = l.passes ∧
    sequential cfg ps = (l.threads.w, l.threads.returned ++ l.threads.main.found) ∧
      ps.flatMap Prod.snd ++ l.threads.queue = l.arrived ∧ (l.threads.main.inPass → ps ≠ [])

section Refines

variable {cfg : DBPConfig} {l : WatchLog}

/-- Steps that leave the watcher's data and the queue alone, and the changes in all. -/
theorem Refines.of_eq {l' : WatchLog} (h : Refines cfg l) (hp : l'.passes = l.passes) (ha : l'.arrived = l.arrived)
    (hw : l'.threads.w = l.threads.w) (hq : l'.threads.queue = l.threads.queue)
    (hr : l'.threads.returned ++ l'.threads.main.found = l.threads.returned ++ l.threads.main.found)
    (hin : l'.threads.main.inPass → l.threads.main.inPass) : Refines cfg l' := by
  obtain ⟨ps, h1, h2, h3, h4⟩ := h
  exact ⟨ps, h1.trans hp.symm, by rw [h2, hw, hr], by rw [hq, h3, ha], fun hl => h4 (hin hl)⟩

theorem mountwatchDirchange_same (s : WatchThreads) : s.mountwatchDirchange.w = s.w ∧ s.mountwatchDirchange.queue = s.queue ∧
    s.mountwatchDirchange.main = s.main ∧ s.mountwatchDirchange.returned = s.returned := by
  have hc := mountwatchDirchange_cases s
  generalize s.mountwatchDirchange = s' at hc ⊢
  cases hc <;> exact ⟨rfl, rfl, rfl, rfl⟩

theorem mountwatchLoop_same (s : WatchThreads) (opened : Bool) :
    (s.mountwatchLoop opened).w = s.w ∧ (s.mountwatchLoop opened).queue = s.queue ∧
      (s.mountwatchLoop opened).main = s.main ∧ (s.mountwatchLoop opened).returned = s.returned := by
  have hc := mountwatchLoop_cases s opened
  generalize s.mountwatchLoop opened = s' at hc ⊢
  cases hc <;> exact ⟨rfl, rfl, rfl, rfl⟩

/-- The handler of a signal does not return. -/
theorem WatchThreads.shutdown_step (cfg : DBPConfig) {s : WatchThreads} (hm : s.main = .shutdown) (op : WatchOp) :
    (s.step cfg op).main = .shutdown := by
  cases op with
  | dir => exact (mountwatchDirchange_same s).2.2.1.trans hm
  | mounts opened => exact (mountwatchLoop_same s opened).2.2.1.trans hm
  | main a => simp only [WatchThreads.step, WatchThreads.mainStep, hm]
  | event | mounted => exact hm
  | signal => rfl

/-- A read of the directory events. -/
theorem Refines.drain (h : Refines cfg l) {change : List MountwatchChange} (hm : l.threads.main = .drain change) (k : ℕ) :
    Refines cfg { l with threads := { l.threads with
      queue := l.threads.queue.drop k
      main := .drain (change ++ mountwatchInotifyHandle l.threads.w.ientry (l.threads.queue.take k)) } } := by
  obtain ⟨ps, h1, h2, h3, h4⟩ := h
  obtain ⟨ps', ⟨a, evs⟩, rfl⟩ := (List.eq_nil_or_concat' ps).resolve_left (h4 (by rw [hm]; rfl))
  rw [hm, sequential_concat] at h2
  obtain ⟨hw, hr⟩ := Prod.mk.inj h2
  refine ⟨ps' ++ [(a, evs ++ l.threads.queue.take k)], by simpa using h1, ?_, ?_, by simp⟩
  · rw [sequential_concat, mountwatchDiff_events, hw, ← List.append_assoc, hr]
    simp [DiffPc.found]
  · simpa using h3

theorem Refines.main (h : Refines cfg l) (a : MainAnswer) (hs : l.threads.main ≠ .shutdown) :
    Refines cfg (l.step cfg (.main a)) := by
  unfold WatchLog.step WatchThreads.step WatchThreads.mainStep
  cases hm : l.threads.main with
  | readMounts =>
    obtain ⟨ps, h1, h2, h3, -⟩ := h
    refine ⟨ps ++ [(a, [])], by simpa using h1, ?_, by simpa using h3, by simp⟩
    rw [hm] at h2
    rw [sequential_concat, mountwatchDiff_some_nil, h2]
    simp [DiffPc.found]
  | drain change =>
    by_cases hq : l.threads.queue = []
    · simp only [hq, ↓reduceIte]
      exact h.of_eq rfl rfl rfl hq.symm (by simp [hm, DiffPc.found]) (by simp [hm, DiffPc.inPass])
    · simp only [hq, ↓reduceIte]
      exact h.drain hm (a.taken + 1)
  | unlock change n =>
    cases n
    · refine h.of_eq rfl rfl rfl rfl ?_ (by simp [hm, DiffPc.inPass])
      simp only [hm, Bool.false_eq_true, ↓reduceIte, DiffPc.found]
      split_ifs <;> simp
    · exact h.of_eq rfl rfl rfl rfl (by simp [hm, DiffPc.found]) (by simp [hm, DiffPc.inPass])
  | shutdown => exact absurd hm hs
  | wait =>
    refine h.of_eq rfl rfl ?_ ?_ ?_ ?_ <;> dsimp only <;> split_ifs <;> simp [hm, DiffPc.found, DiffPc.inPass]
  | lock =>
    refine h.of_eq rfl rfl ?_ ?_ ?_ ?_ <;> dsimp only <;> split_ifs <;> simp [hm, DiffPc.found, DiffPc.inPass]
  | openMounts =>
    refine h.of_eq rfl rfl rfl rfl ?_ ?_ <;> dsimp only <;> split_ifs <;> simp [hm, DiffPc.found, DiffPc.inPass]
  | init | created | away | giveUp | takeDir | goOn =>
    exact h.of_eq rfl rfl rfl rfl (by simp [hm, DiffPc.found]) (by simp [hm, DiffPc.inPass])

theorem Refines.step (h : Refines cfg l) (op : WatchOp) (hs : (l.step cfg op).threads.main ≠ .shutdown) :
    Refines cfg (l.step cfg op) := by
  cases op with
  | event e =>
    obtain ⟨ps, h1, h2, h3, h4⟩ := h
    exact ⟨ps, h1, h2, by simp only [WatchLog.step, WatchThreads.step, ← h3, List.append_assoc], h4⟩
  | mounted => exact h
  | dir =>
    obtain ⟨hw, hq, hm, hr⟩ := mountwatchDirchange_same l.threads
    exact h.of_eq rfl rfl hw hq (by simp only [WatchLog.step, WatchThreads.step, hm, hr]) fun hin => by rwa [← hm]
  | mounts opened =>
    obtain ⟨hw, hq, hm, hr⟩ := mountwatchLoop_same l.threads opened
    exact h.of_eq rfl rfl hw hq (by simp only [WatchLog.step, WatchThreads.step, hm, hr]) fun hin => by rwa [← hm]
  | main a =>
    refine h.main a fun hm => hs ?_
    simp only [WatchLog.step, WatchThreads.step, WatchThreads.mainStep, hm]
  | signal => exact absurd rfl hs

theorem refines_run (cfg : DBPConfig) (ops : List WatchOp) : (WatchLog.init.run cfg ops).threads.main ≠ .shutdown →
    Refines cfg (WatchLog.init.run cfg ops) := by
  refine List.foldlRecOn (motive := fun l : WatchLog => l.threads.main ≠ .shutdown → Refines cfg l) ops (WatchLog.step cfg)
    (fun _ => ⟨[], rfl, rfl, rfl, by simp [WatchLog.init, WatchThreads.init, DiffPc.inPass]⟩) fun l ih op _ hs => ?_
  by_cases hm : l.threads.main = .shutdown
  · exact absurd (WatchThreads.shutdown_step cfg hm op) hs
  · exact (ih hm).step op hs

/-- **The main thread sees sequential calls** in every interleaving: between two passes the watcher's data and the changes
returned are those of `mountwatch_diff` called on the mount tables it read one after another, with directory events that,
put together and followed by those still in the queue, are the events that arrived, in their order. -/
theorem watch_refines (cfg : DBPConfig) (ops : List WatchOp) :
    let l := WatchLog.init.run cfg ops
    l.threads.main ≠ .shutdown → l.threads.main.inPass = false →
      ∃ ps : List (MainAnswer × List InotifyEvent), ps.map Prod.fst = l.passes ∧
        sequential cfg ps = (l.threads.w, l.threads.returned) ∧ ps.flatMap Prod.snd ++ l.threads.queue = l.arrived := by
  intro l hs hin
  obtain ⟨ps, h1, h2, h3, -⟩ := refines_run cfg ops hs
  have hfound : l.threads.main.found = [] := by
    cases hm : l.threads.main <;> simp_all [DiffPc.found, DiffPc.inPass]
  exact ⟨ps, h1, by rw [h2, hfound, List.append_nil], h3⟩

theorem watch_refines_demo : (WatchLog.init.run demoConfig demoWatchOps).threads.returned = demoWatchChanges ∧
    ∃ ps : List (MainAnswer × List InotifyEvent),
      ps.map Prod.fst = (WatchLog.init.run demoConfig demoWatchOps).passes ∧
        sequential demoConfig ps = ((WatchLog.init.run demoConfig demoWatchOps).threads.w,
          (WatchLog.init.run demoConfig demoWatchOps).threads.returned) ∧
          ps.flatMap Prod.snd ++ (WatchLog.init.run demoConfig demoWatchOps).threads.queue =
            (WatchLog.init.run demoConfig demoWatchOps).arrived :=
  ⟨by decide +kernel, watch_refines demoConfig demoWatchOps (by decide +kernel) (by decide +kernel)⟩

end Refines

/-! ### No call is lost -/

/-- The directory thread holds the mutex. -/
def DirPc.inside : DirPc → Bool
  | .mark | .post | .unlock => true
  | _ => false

/-- The directory thread has set `dir_change` and is not back at `select`. -/
def DirPc.inRound : DirPc → Bool
  | .post | .unlock | .waiting => true
  | _ => false

/-- The directory thread has posted `changed` in this round. -/
def DirPc.called : DirPc → Bool
  | .unlock | .waiting => true
  | _ => false

/-- The main thread holds the mutex. -/
def DiffPc.inside : DiffPc → Bool
  | .openMounts | .giveUp | .readMounts | .takeDir _ | .unlock _ _ => true
  | _ => false

/-- The main thread has been woken and will look at `dir_change`. -/
def DiffPc.willLook : DiffPc → Bool
  | .lock | .openMounts | .readMounts | .takeDir _ => true
  | _ => false

/-- The main thread has been woken and will read the mount table. -/
def DiffPc.willRead : DiffPc → Bool
  | .lock | .openMounts | .readMounts => true
  | _ => false

/-- The main thread has found `dir_change` set and has not posted `dir_watch_continue`. -/
def DiffPc.took : DiffPc → Bool
  | .unlock _ n => n
  | .drain _ | .goOn _ => true
  | _ => false

/-- The main thread is in `mountwatch_init`. -/
def DiffPc.starting : DiffPc → Bool
  | .init | .created => true
  | _ => false

/-- The directory thread has passed its last test of `should_die` and has yet to wait. -/
def DirPc.owes : DirPc → Bool
  | .lock | .mark | .post | .unlock | .waiting => true
  | _ => false

/-- The mount thread has seen `should_die`. -/
def MountsPc.ended : MountsPc → Bool
  | .dying | .exited => true
  | _ => false

/-- What holds in every state: who has the mutex, and what the flags of the shutdown say. -/
structure ThreadsInv (s : WatchThreads) : Prop where
  flag : s.shouldDie ↔ s.main = .shutdown
  mutex_dir : s.dirWatchMutex = some .dir ↔ s.dir.inside
  mutex_main : s.main ≠ .shutdown → (s.dirWatchMutex = some .main ↔ s.main.inside)
  absent : s.main ≠ .shutdown → (s.dir = .absent ↔ s.main.starting)
  mounts_absent : s.main = .init → s.mounts = .absent
  died : s.died ↔ s.mounts.ended
  died2 : s.died2 ↔ s.dir = .exited
  told : s.died ∨ s.died2 → s.shouldDie
  released : s.mounts = .exited → s.dir.owes → 0 < s.dirWatchContinue

/-- What holds before a signal: a round of the directory thread is in one place, in `dir_change`, with the main thread, or
in `dir_watch_continue`; and as long as it is in `dir_change` the main thread is about to look. -/
structure Handshake (s : WatchThreads) : Prop where
  round : s.dirChange.toNat + s.main.took.toNat + s.dirWatchContinue = s.dir.inRound.toNat
  wake : s.dirChange → s.dir.called → 0 < s.changed ∨ s.main.willLook

/-- What holds before a signal of a change of the mount table that has not been read: `select` will report it, or the
mount thread calls, or the main thread is about to read. -/
def Reported (l : WatchLog) : Prop :=
  l.unread → l.threads.mountEvent ∨ l.threads.mounts = .post ∨ 0 < l.threads.changed ∨ l.threads.main.willRead

/-- The mount table opens for the main thread if `dir_change` is set or the table has changed. -/
def OpensWhenCalled (l : WatchLog) : WatchOp → Prop
  | .main a => l.threads.main = .openMounts → l.threads.dirChange ∨ l.unread → a.opened
  | _ => True

instance (l : WatchLog) : (op : WatchOp) → Decidable (OpensWhenCalled l op)
  | .main _ => inferInstanceAs (Decidable (_ → _ → _))
  | .event _ | .mounted | .dir | .mounts _ | .signal => isTrue trivial

section ThreadsInv

variable {cfg : DBPConfig} {s : WatchThreads}

theorem threadsInv_init : ThreadsInv .init := by
  constructor <;> simp [WatchThreads.init, DirPc.inside, DirPc.owes, DiffPc.inside, DiffPc.starting, MountsPc.ended]

theorem ThreadsInv.dirchange (h : ThreadsInv s) : ThreadsInv s.mountwatchDirchange := by
  have hc := mountwatchDirchange_cases s
  generalize s.mountwatchDirchange = s' at hc ⊢
  obtain ⟨h1, h2, h3, h4, h5, h6, h7, h8, h9⟩ := id h
  cases hc with
  | still _ => exact h
  | dies hd hs =>
    rcases hd with hd | hd <;> constructor <;> simp_all [DirPc.inside, DirPc.owes]
  | goes hd hs =>
    have hexit : s.mounts ≠ .exited := fun he => by simp [hs, h6.mpr (by rw [he]; rfl)] at h8
    constructor <;> simp_all [DirPc.inside, DirPc.owes]
  | wakes hd _ | locks hd _ | marks hd | posts hd | unlocks hd | continues hd =>
    constructor <;> simp_all [DirPc.inside, DirPc.owes]

theorem ThreadsInv.loop (h : ThreadsInv s) (opened : Bool) : ThreadsInv (s.mountwatchLoop opened) := by
  have hc := mountwatchLoop_cases s opened
  generalize s.mountwatchLoop opened = s' at hc ⊢
  obtain ⟨h1, h2, h3, h4, h5, h6, h7, h8, h9⟩ := id h
  cases hc with
  | still _ => exact h
  | loops hm => rcases hm with hm | hm <;> constructor <;> simp_all [MountsPc.ended]
  | dies hm _ | exits hm | posts hm | fails hm _ | polls hm _ | wakes hm => constructor <;> simp_all [MountsPc.ended]

theorem ThreadsInv.main (h : ThreadsInv s) (a : MainAnswer) : ThreadsInv (s.mainStep cfg a) := by
  obtain ⟨h1, h2, h3, h4, h5, h6, h7, h8, h9⟩ := id h
  unfold WatchThreads.mainStep
  cases hm : s.main with
  | init =>
    constructor <;> simp_all [DiffPc.inside, DiffPc.starting, MountsPc.ended]
  | created =>
    constructor <;> simp_all [DiffPc.inside, DiffPc.starting, DirPc.inside, DirPc.owes]
  | away | giveUp | readMounts | takeDir | goOn =>
    constructor <;> simp_all [DiffPc.inside, DiffPc.starting]
  | wait =>
    dsimp only
    split_ifs <;> constructor <;> simp_all [DiffPc.inside, DiffPc.starting]
  | lock =>
    dsimp only
    split_ifs
    · constructor <;> simp_all [DiffPc.inside, DiffPc.starting]
    · exact h
  | openMounts =>
    dsimp only
    split_ifs <;> constructor <;> simp_all [DiffPc.inside, DiffPc.starting]
  | unlock change n =>
    cases n <;> dsimp only <;> split_ifs <;> constructor <;> simp_all [DiffPc.inside, DiffPc.starting]
  | drain change =>
    dsimp only
    split_ifs <;> constructor <;> simp_all [DiffPc.inside, DiffPc.starting]
  | shutdown => exact h

theorem ThreadsInv.step (h : ThreadsInv s) (op : WatchOp) : ThreadsInv (s.step cfg op) := by
  cases op with
  | event | mounted =>
    exact ⟨h.flag, h.mutex_dir, h.mutex_main, h.absent, h.mounts_absent, h.died, h.died2, h.told, h.released⟩
  | dir => exact h.dirchange
  | mounts opened => exact h.loop opened
  | main a => exact h.main a
  | signal =>
    exact ⟨by simp [WatchThreads.step], h.mutex_dir, by simp [WatchThreads.step], by simp [WatchThreads.step],
      by simp [WatchThreads.step], h.died, h.died2, fun _ => rfl, h.released⟩

theorem threadsInv_run (cfg : DBPConfig) (ops : List WatchOp) : ThreadsInv (WatchThreads.init.run cfg ops) :=
  List.foldlRecOn ops (WatchThreads.step cfg) threadsInv_init fun _ h op _ => h.step op

end ThreadsInv

section Handshake

variable {cfg : DBPConfig} {s : WatchThreads}

theorem handshake_init : Handshake .init := ⟨rfl, by decide⟩

theorem Handshake.dirchange (h : Handshake s) (hi : ThreadsInv s) (hs : s.main ≠ .shutdown) :
    Handshake s.mountwatchDirchange := by
  have hc := mountwatchDirchange_cases s
  generalize s.mountwatchDirchange = s' at hc ⊢
  obtain ⟨h1, h2⟩ := id h
  cases hc with
  | still _ => exact h
  | dies _ hd => exact absurd (hi.flag.mp hd) hs
  | wakes hd _ | goes hd _ | locks hd _ | marks hd | posts hd | unlocks hd =>
    constructor <;> simp_all [DirPc.inRound, DirPc.called]
  | continues hd n hn =>
    have hround : s.dirChange.toNat + s.main.took.toNat + n = 0 := by
      simp only [hd, hn, DirPc.inRound, Bool.toNat_true] at h1
      omega
    constructor <;> simp_all [DirPc.inRound, DirPc.called]

theorem Handshake.loop (h : Handshake s) (hi : ThreadsInv s) (hs : s.main ≠ .shutdown) (opened : Bool) :
    Handshake (s.mountwatchLoop opened) := by
  have hc := mountwatchLoop_cases s opened
  generalize s.mountwatchLoop opened = s' at hc ⊢
  cases hc with
  | still _ => exact h
  | exits hm => exact absurd (hi.flag.mp (hi.told (.inl (hi.died.mpr (by rw [hm]; rfl))))) hs
  | posts hm => exact ⟨h.round, fun _ _ => .inl (Nat.succ_pos _)⟩
  | fails _ _ | loops _ | polls _ _ | wakes _ | dies _ _ => exact ⟨h.round, h.wake⟩

theorem Handshake.main (h : Handshake s) (hi : ThreadsInv s) (a : MainAnswer)
    (ha : s.main = .openMounts → s.dirChange → a.opened) : Handshake (s.mainStep cfg a) := by
  obtain ⟨h1, h2⟩ := id h
  have habs := hi.absent
  unfold WatchThreads.mainStep
  cases hm : s.main with
  | init | away | giveUp | readMounts | takeDir =>
    constructor <;> simp_all [DiffPc.willLook, DiffPc.took]
  | created =>
    constructor <;> simp_all [DiffPc.willLook, DiffPc.took, DiffPc.starting, DirPc.inRound, DirPc.called]
  | wait =>
    dsimp only
    split_ifs <;> constructor <;> simp_all [DiffPc.willLook, DiffPc.took]
  | lock =>
    dsimp only
    split_ifs
    · constructor <;> simp_all [DiffPc.willLook, DiffPc.took]
    · exact h
  | openMounts =>
    dsimp only
    split_ifs <;> constructor <;> simp_all [DiffPc.willLook, DiffPc.took]
  | unlock change n =>
    cases n <;> dsimp only <;> split_ifs <;> constructor <;> simp_all [DiffPc.willLook, DiffPc.took]
  | drain change =>
    dsimp only
    split_ifs <;> constructor <;> simp_all [DiffPc.willLook, DiffPc.took]
  | goOn change =>
    have hround : s.dirChange.toNat + (s.dirWatchContinue + 1) = s.dir.inRound.toNat := by
      simp only [hm, DiffPc.took, Bool.toNat_true] at h1
      omega
    constructor <;> simp_all [DiffPc.willLook, DiffPc.took]
  | shutdown => exact h

theorem Handshake.step (h : Handshake s) (hi : ThreadsInv s) (op : WatchOp)
    (hok : ∀ a, op = .main a → s.main = .openMounts → s.dirChange → a.opened) (hs : (s.step cfg op).main ≠ .shutdown) :
    Handshake (s.step cfg op) := by
  have hs' : s.main ≠ .shutdown := fun hm => hs (WatchThreads.shutdown_step cfg hm op)
  cases op with
  | event | mounted => exact ⟨h.round, h.wake⟩
  | dir => exact h.dirchange hi hs'
  | mounts opened => exact h.loop hi hs' opened
  | main a => exact h.main hi a (hok a rfl)
  | signal => exact absurd rfl hs

/-- The steps of the directory thread do not take a report away. -/
theorem mountwatchDirchange_reports (s : WatchThreads) : s.mountwatchDirchange.mountEvent = s.mountEvent ∧
    s.mountwatchDirchange.mounts = s.mounts ∧ s.changed ≤ s.mountwatchDirchange.changed := by
  have hc := mountwatchDirchange_cases s
  generalize s.mountwatchDirchange = s' at hc ⊢
  cases hc <;> exact ⟨rfl, rfl, by simp⟩

/-- Those of the mount thread pass it on. -/
theorem mountwatchLoop_reports {s : WatchThreads} {opened : Bool} (h : s.mountEvent ∨ s.mounts = .post ∨ 0 < s.changed) :
    (s.mountwatchLoop opened).mountEvent ∨ (s.mountwatchLoop opened).mounts = .post ∨ 0 < (s.mountwatchLoop opened).changed := by
  have hc := mountwatchLoop_cases s opened
  generalize s.mountwatchLoop opened = s' at hc ⊢
  cases hc with
  | still _ => exact h
  | wakes _ => exact .inr (.inl rfl)
  | posts _ => exact .inr (.inr (Nat.succ_pos _))
  | fails hm _ | dies hm _ | polls hm _ | exits hm =>
    rcases h with he | hp | hch
    · exact .inl he
    · rw [hm] at hp
      cases hp
    · exact .inr (.inr hch)
  | loops hm =>
    rcases h with he | hp | hch
    · exact .inl he
    · rcases hm with hm | hm <;> rw [hm] at hp <;> cases hp
    · exact .inr (.inr hch)

theorem Reported.main {l : WatchLog} (h : Reported l) (hi : ThreadsInv l.threads) (a : MainAnswer)
    (ha : l.threads.main = .openMounts → l.unread → a.opened) : Reported (l.step cfg (.main a)) := by
  intro hu
  obtain ⟨hunread, hm⟩ : l.unread = true ∧ l.threads.main ≠ .readMounts := by
    simpa [WatchLog.step] using hu
  have hr := h hunread
  unfold WatchLog.step WatchThreads.step WatchThreads.mainStep
  cases hpc : l.threads.main with
  | readMounts => exact absurd hpc hm
  | wait =>
    dsimp only
    split_ifs <;> simp_all [DiffPc.willRead]
  | lock =>
    dsimp only
    split_ifs <;> simp_all [DiffPc.willRead]
  | openMounts => simp_all [DiffPc.willRead]
  | drain change =>
    dsimp only
    split_ifs <;> simp_all [DiffPc.willRead]
  | unlock change n => cases n <;> dsimp only <;> split_ifs <;> simp_all [DiffPc.willRead]
  | init =>
    have habs := hi.mounts_absent hpc
    simp_all [DiffPc.willRead]
  | created | away | giveUp | takeDir | goOn | shutdown => simp_all [DiffPc.willRead]

theorem Reported.step {l : WatchLog} (h : Reported l) (hi : ThreadsInv l.threads) (op : WatchOp) (hok : OpensWhenCalled l op)
    (hs : (l.step cfg op).threads.main ≠ .shutdown) : Reported (l.step cfg op) := by
  cases op with
  | event e => exact h
  | mounted =>
    intro hu
    rcases Bool.or_eq_true_iff.mp hu with hu | hu
    · rcases h hu with he | hrest
      · exact .inl (Bool.or_eq_true_iff.mpr (.inl he))
      · exact .inr hrest
    · exact .inl (Bool.or_eq_true_iff.mpr (.inr hu))
  | dir =>
    intro hu
    obtain ⟨he, hp, hch⟩ := mountwatchDirchange_reports l.threads
    have hm := (mountwatchDirchange_same l.threads).2.2.1
    simp only [WatchLog.step, WatchThreads.step, he, hp, hm]
    exact (h hu).imp_right fun h => h.imp_right fun h => h.imp_left fun hpos => lt_of_lt_of_le hpos hch
  | mounts opened =>
    intro hu
    have hm := (mountwatchLoop_same l.threads opened).2.2.1
    simp only [WatchLog.step, WatchThreads.step, hm]
    by_cases hread : l.threads.main.willRead
    · exact .inr (.inr (.inr hread))
    · have hr := (h hu).imp_right fun h => h.imp_right fun h => h.resolve_right hread
      exact (mountwatchLoop_reports hr).imp_right fun h => h.imp_right .inl
  | main a => exact h.main hi a fun hm hu => hok hm (.inr hu)
  | signal => exact absurd rfl hs

/-- What holds of a run. -/
theorem handshake_run (cfg : DBPConfig) (ops : List WatchOp)
    (hok : Admissible (WatchLog.step cfg) OpensWhenCalled .init ops)
    (hs : (WatchLog.init.run cfg ops).threads.main ≠ .shutdown) :
    ThreadsInv (WatchLog.init.run cfg ops).threads ∧ Handshake (WatchLog.init.run cfg ops).threads ∧
      Reported (WatchLog.init.run cfg ops) := by
  have hinv := run_history (I := fun _ l => ThreadsInv l.threads ∧
      (l.threads.main ≠ .shutdown → Handshake l.threads ∧ Reported l))
    ⟨threadsInv_init, fun _ => ⟨handshake_init, fun hu => absurd hu Bool.false_ne_true⟩⟩
    (fun _ op l ih hop => ⟨ih.1.step op, fun hs => ?_⟩) ops hok
  · exact ⟨hinv.1, hinv.2 hs⟩
  · obtain ⟨hhand, hrep⟩ := ih.2 fun hm => hs (WatchThreads.shutdown_step cfg hm op)
    refine ⟨hhand.step ih.1 op (fun a ha hm hdir => ?_) hs, hrep.step ih.1 op hop hs⟩
    subst ha
    exact hop hm (.inl hdir)

/-- The main thread sleeps with nothing to wake it, the directory thread can do nothing, and the mount thread has nothing
to report. -/
def AtRest (s : WatchThreads) : Prop :=
  (s.main = .wait ∧ s.changed = 0) ∧ s.mountwatchDirchange = s ∧ s.mountEvent = false ∧ s.mounts ≠ .post

instance (s : WatchThreads) : Decidable (AtRest s) := inferInstanceAs (Decidable ((_ ∧ _) ∧ _ ∧ _ ∧ _))

/-- At rest the directory thread waits for events, and there are none. -/
theorem Handshake.at_rest (h : Handshake s) (hi : ThreadsInv s) (hr : AtRest s) : s.dir = .select ∧ s.queue = [] := by
  obtain ⟨⟨hm, hch⟩, hd, -, -⟩ := hr
  have hmain : s.main ≠ .shutdown := by simp [hm]
  have hcase := mountwatchDirchange_cases s
  generalize s.mountwatchDirchange = s' at hcase hd
  have hpc := congrArg WatchThreads.dir hd
  cases hcase with
  | still hstill =>
    rcases hstill with hs | hs | ⟨hs, hq, -⟩ | ⟨hs, hmut⟩ | ⟨hs, hn⟩
    · exact absurd ((hi.absent hmain).mp hs) (by simp [hm, DiffPc.starting])
    · exact absurd (hi.flag.mp (hi.told (.inr (hi.died2.mpr hs)))) hmain
    · exact ⟨hs, hq⟩
    · -- the mutex is nobody's: the main thread sleeps and the directory thread does not have it yet
      rcases hmut' : s.dirWatchMutex with _ | (_ | _)
      · exact absurd hmut' hmut
      · exact absurd (hi.mutex_dir.mp hmut') (by simp [hs, DirPc.inside])
      · exact absurd ((hi.mutex_main hmain).mp hmut') (by simp [hm, DiffPc.inside])
    · -- its round is in `dir_change`, so that the main thread has been woken
      have hround := h.round
      simp only [hm, hs, hn, DiffPc.took, DirPc.inRound] at hround
      have hwake := h.wake (by cases hc : s.dirChange <;> simp_all) (by rw [hs]; rfl)
      simp [hch, hm, DiffPc.willLook] at hwake
  | wakes hs _ | goes hs _ | locks hs _ | marks hs | posts hs | unlocks hs | continues hs => simp [hs] at hpc
  | dies hs _ => rcases hs with hs | hs <;> simp [hs] at hpc

/-- And no change of the mount table is left. -/
theorem Reported.at_rest {l : WatchLog} (h : Reported l) (hr : AtRest l.threads) : l.unread = false := by
  obtain ⟨⟨hm, hch⟩, -, he, hp⟩ := hr
  by_contra hu
  rcases h (by simpa using hu) with h | h | h | h
  · simp [he] at h
  · exact hp h
  · omega
  · simp [hm, DiffPc.willRead] at h

/-- **Nothing is left behind** in a run in which the mount table opens for the main thread whenever the directory thread has
called or the table has changed: when the main thread sleeps with nothing to wake it and the other two can do nothing, the
changes returned are those of sequential calls that had all the events that arrived, and the mount table has not changed
since the last of them, or not after `mountwatch_loop` opened it. -/
theorem watch_at_rest (cfg : DBPConfig) (ops : List WatchOp)
    (hok : Admissible (WatchLog.step cfg) OpensWhenCalled .init ops) :
    let l := WatchLog.init.run cfg ops
    AtRest l.threads →
      l.threads.dir = .select ∧ l.unread = false ∧
        ∃ ps : List (MainAnswer × List InotifyEvent), ps.map Prod.fst = l.passes ∧
          sequential cfg ps = (l.threads.w, l.threads.returned) ∧ ps.flatMap Prod.snd = l.arrived := by
  intro l hr
  have hs : l.threads.main ≠ .shutdown := by simp [hr.1.1]
  obtain ⟨hinv, hhand, hrep⟩ := handshake_run cfg ops hok hs
  obtain ⟨hd, hq⟩ := hhand.at_rest hinv hr
  obtain ⟨ps, h1, h2, h3, -⟩ := refines_run cfg ops hs
  exact ⟨hd, hrep.at_rest hr, ps, h1,
    by rw [h2, show l.threads.main.found = [] by rw [hr.1.1]; rfl, List.append_nil],
    by rw [← h3, hq, List.append_nil]⟩

theorem watch_at_rest_demo : (WatchLog.init.run demoConfig demoWatchOps).threads.returned = demoWatchChanges ∧
    (WatchLog.init.run demoConfig demoWatchOps).threads.dir = .select ∧
      (WatchLog.init.run demoConfig demoWatchOps).unread = false ∧
        ∃ ps : List (MainAnswer × List InotifyEvent),
          ps.map Prod.fst = (WatchLog.init.run demoConfig demoWatchOps).passes ∧
            sequential demoConfig ps = ((WatchLog.init.run demoConfig demoWatchOps).threads.w,
              (WatchLog.init.run demoConfig demoWatchOps).threads.returned) ∧
              ps.flatMap Prod.snd = (WatchLog.init.run demoConfig demoWatchOps).arrived :=
  ⟨by decide +kernel, watch_at_rest demoConfig demoWatchOps (by decide +kernel) (by decide +kernel)⟩

end Handshake

end Dbp
