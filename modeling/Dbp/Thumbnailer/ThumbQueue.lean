/-
# The queue of the thumbnailer

`thumb_queue` of `dbp-thumbnailer` is to hand a request to a worker thread:
the requests stand in a linked list, from `thumb_state.first` to
`thumb_state.last`, under one lock, and the worker waits for the semaphore
`thumb_state.work`. The worker's side keeps the list in order
(`listed_worker`). `thumb_queue` does not put its entry in the list: it sets
`last`, and neither `first` nor the link of the entry before, and it posts
nothing (`not_inOrder_queue`). So the list is in order as long as nothing is
queued (`thumbQueue_inOrder_iff`), and no request is ever taken
(`starved_run`).

A step is what happens under the lock, with what the thread does on its own
before or after it. `queued` and `taken` record the requests that were queued
and those the worker has taken.

Key definitions: `ThumbState`, `thumbQueue`, `workerStep`, `ThumbStep`, `InOrder`, `Listed`.
Key theorems: `listed_worker`, `not_inOrder_queue`, `thumbQueue_inOrder_iff`, `starved_run`.
-/
import Dbp.C.Scanf
import Dbp.Lib.Chain
import Dbp.Lib.Run

namespace Dbp

open CLib Linked Runs

/-- An address of the thumbnailer's heap, of which the null pointer is none. -/
abbrev Addr := ℕ

/-- What is asked of the thumbnailer. -/
structure ThumbRequest where
  uri : CStr
  flavour : CStr
  id : ℤ
deriving Repr, DecidableEq

/-- `struct ThumbQueue`: a request, and the entry after it. -/
structure ThumbQueue extends ThumbRequest where
  next : Option Addr
deriving Repr, DecidableEq

/-- Where the worker thread is. -/
inductive ThumbWorker
  /-- In `sem_wait`. -/
  | waiting
  /-- In front of the lock. -/
  | polling
  /-- It works on the entry at this address. -/
  | working (this : Addr)
  /-- It has followed a pointer to an entry that was freed. -/
  | faulted
deriving Repr, DecidableEq

/-- `thumb_state`, the heap, the worker, and the requests so far. -/
structure ThumbState where
  heap : List (Addr × ThumbQueue)
  first : Option Addr
  last : Option Addr
  work : ℕ
  counter : ℤ
  worker : ThumbWorker
  queued : List ThumbRequest
  taken : List ThumbRequest
deriving Repr, DecidableEq

/-- `thumb_queue_init`. -/
def thumbQueueInit : ThumbState := ⟨[], none, none, 0, 0, .waiting, [], []⟩

/-- `thumb_queue`: the state after the call, and the id it returns. -/
def thumbQueue (malloc : Allocator Addr) (uri flavour : CStr) (s : ThumbState) : ThumbState × ℤ :=
  let new := malloc.addr (s.heap.map Prod.fst)
  let request : ThumbRequest := ⟨uri, flavour, s.counter⟩
  ({ s with
      heap := (new, { toThumbRequest := request, next := none }) :: s.heap
      last := some new
      counter := toInt32 (s.counter + 1)
      queued := s.queued ++ [request] }, s.counter)

/-- The critical section of `thumb_worker`: the worker takes the first entry, or waits again if there is none. -/
def thumbWorkerTake (s : ThumbState) : ThumbState :=
  match s.first with
  | none => { s with worker := .waiting }
  | some this =>
    match readCell s.heap this with
    | none => { s with worker := .faulted }
    | some entry =>
      { s with first := entry.next, worker := .working this, taken := s.taken ++ [entry.toThumbRequest] }

/-- What the worker does next. -/
inductive WorkerStep
  /-- `sem_wait` returns, as the semaphore was posted. -/
  | wake
  /-- `sem_wait` returns, as a signal interrupted it. -/
  | interrupt
  /-- The critical section. -/
  | take
  /-- `create_thumbnail` and `clear_entry` return. -/
  | finish
deriving Repr, DecidableEq

/-- The worker's steps; one it is not at has no effect. -/
def workerStep (s : ThumbState) : WorkerStep → ThumbState
  | .wake => if s.worker = .waiting ∧ 0 < s.work then { s with work := s.work - 1, worker := .polling } else s
  | .interrupt => if s.worker = .waiting then { s with worker := .polling } else s
  | .take => if s.worker = .polling then thumbWorkerTake s else s
  | .finish =>
    match s.worker with
    | .working this => { s with heap := freeCell this s.heap, worker := .polling }
    | _ => s

/-- A call of `thumb_queue`, or a step of the worker. -/
inductive ThumbStep
  | queue (uri flavour : CStr)
  | worker (w : WorkerStep)
deriving Repr, DecidableEq

def thumbStep (malloc : Allocator Addr) (s : ThumbState) : ThumbStep → ThumbState
  | .queue uri flavour => (thumbQueue malloc uri flavour s).1
  | .worker w => workerStep s w

/-- The entries `first` leads to. -/
abbrev Reachable (s : ThumbState) (entries : List (Addr × ThumbQueue)) : Prop :=
  Chain ThumbQueue.next (readCell s.heap) s.first entries

/-- The requests of entries. -/
abbrev requests (entries : List (Addr × ThumbQueue)) : List ThumbRequest := entries.map (·.2.toThumbRequest)

/-- The entries that `first` leads to are the requests queued and not yet taken, in the order they were queued. -/
def InOrder (s : ThumbState) : Prop := ∃ entries, Reachable s entries ∧ s.queued = s.taken ++ requests entries

/-- In order, with the worker's entry out of the list. -/
structure Listed (s : ThumbState) (entries : List (Addr × ThumbQueue)) : Prop where
  reachable : Reachable s entries
  queued : s.queued = s.taken ++ requests entries
  apart : ∀ this, s.worker = .working this → this ∉ entries.map Prod.fst

variable {s : ThumbState} {entries : List (Addr × ThumbQueue)}

theorem Listed.inOrder (h : Listed s entries) : InOrder s := ⟨entries, h.reachable, h.queued⟩

theorem listed_init : Listed thumbQueueInit [] := ⟨.null, rfl, by simp [thumbQueueInit]⟩

/-! ### The worker -/

/-- The worker takes the first entry of the list, and leaves the others. -/
theorem Listed.take (h : Listed s entries) : Listed (thumbWorkerTake s) entries.tail := by
  obtain ⟨heap, first, last, work, counter, worker, queued, taken⟩ := s
  obtain ⟨hchain, hqueued, -⟩ := h
  cases hchain with
  | null => exact ⟨.null, hqueued, by simp [thumbWorkerTake]⟩
  | @cell this entry rest hread hrest =>
    have htake : thumbWorkerTake ⟨heap, some this, last, work, counter, worker, queued, taken⟩ =
        ⟨heap, entry.next, last, work, counter, .working this, queued, taken ++ [entry.toThumbRequest]⟩ := by
      simp only [thumbWorkerTake, hread]
    rw [htake]
    refine ⟨hrest, by simpa using hqueued, fun a ha => ?_⟩
    obtain rfl : this = a := by simpa using ha
    exact (List.nodup_cons.mp (Chain.cell hread hrest).nodup).1

/-- What the worker frees is not in the list. -/
theorem Listed.finish (h : Listed s entries) {this : Addr} (hw : s.worker = .working this) :
    Listed { s with heap := freeCell this s.heap, worker := .polling } entries where
  reachable := h.reachable.frame fun c hc =>
    readCell_freeCell (ne_of_mem_of_not_mem (List.mem_map_of_mem hc) (h.apart this hw)) s.heap
  queued := h.queued
  apart := by simp

theorem listed_worker (w : WorkerStep) (h : ∃ entries, Listed s entries) : ∃ entries, Listed (workerStep s w) entries := by
  obtain ⟨entries, h⟩ := h
  cases w with
  | wake =>
    rw [workerStep]
    split_ifs
    · exact ⟨entries, h.reachable, h.queued, by simp⟩
    · exact ⟨entries, h⟩
  | interrupt =>
    rw [workerStep]
    split_ifs
    · exact ⟨entries, h.reachable, h.queued, by simp⟩
    · exact ⟨entries, h⟩
  | take =>
    rw [workerStep]
    split_ifs
    · exact ⟨entries.tail, h.take⟩
    · exact ⟨entries, h⟩
  | finish =>
    rw [workerStep]
    split
    · next this hw => exact ⟨entries, h.finish hw⟩
    · exact ⟨entries, h⟩

/-! ### Queueing -/

section Queueing

variable (malloc : Allocator Addr) (uri flavour : CStr)

/-- The list is the same after a call. -/
theorem reachable_queue (h : Reachable s entries) : Reachable (thumbQueue malloc uri flavour s).1 entries := by
  refine h.frame fun c hc => readCell_cons_of_ne ?_ _ s.heap
  have hused : c.1 ∈ s.heap.map Prod.fst := mem_of_readCell (h.read_of_mem c hc)
  exact ne_of_mem_of_not_mem hused (malloc.fresh _)

/-- So it lacks the request. -/
theorem not_inOrder_queue (h : InOrder s) : ¬ InOrder (thumbQueue malloc uri flavour s).1 := by
  obtain ⟨entries, hreach, hqueued⟩ := h
  rintro ⟨entries', hreach', hqueued'⟩
  obtain rfl := (reachable_queue malloc uri flavour hreach).unique hreach'
  have hone : s.queued ++ [⟨uri, flavour, s.counter⟩] = s.queued := hqueued'.trans hqueued.symm
  simp at hone

end Queueing

/-! ### Runs -/

/-- A step that is no call. -/
def IsWorker : ThumbStep → Prop
  | .queue .. => False
  | .worker _ => True

section Run

variable (malloc : Allocator Addr)

theorem inOrder_step_iff (a : ThumbStep) (h : ∃ entries, Listed s entries) :
    InOrder (thumbStep malloc s a) ↔ IsWorker a := by
  cases a with
  | queue uri flavour =>
    obtain ⟨entries, hlisted⟩ := h
    exact iff_of_false (not_inOrder_queue malloc uri flavour hlisted.inOrder) id
  | worker w =>
    obtain ⟨entries, hlisted⟩ := listed_worker w h
    exact iff_of_true hlisted.inOrder trivial

/-- A run of calls and steps of the worker has the list in order all along if no call is in it, and only then. -/
theorem thumbQueue_inOrder_iff (steps : List ThumbStep) :
    (∀ pre, pre <+: steps → InOrder (pre.foldl (thumbStep malloc) thumbQueueInit)) ↔
      ∀ uri flavour, .queue uri flavour ∉ steps := by
  have hinit : ∃ entries, Listed thumbQueueInit entries := ⟨[], listed_init⟩
  have hiff : ∀ t, ∀ a ∈ steps, (∃ entries, Listed t entries) → (InOrder (thumbStep malloc t a) ↔ IsWorker a) :=
    fun t a _ h => inOrder_step_iff malloc a h
  have hstep : ∀ t, ∀ a ∈ steps, (∃ entries, Listed t entries) → IsWorker a →
      ∃ entries, Listed (thumbStep malloc t a) entries := by
    rintro t (_ | w) - h ha
    · exact absurd ha id
    · exact listed_worker w h
  rw [run_iff_of steps thumbQueueInit hiff hstep hinit listed_init.inOrder, admissible_forall]
  constructor
  · intro h uri flavour hmem
    exact h _ hmem
  · rintro h (⟨uri, flavour⟩ | w) ha
    · exact h uri flavour ha
    · trivial

/-- One call, and its request is in no list. -/
theorem thumbQueue_lost :
    ¬ InOrder (thumbStep .above thumbQueueInit (.queue (lit "file:///media/card/game.dbp") (lit "normal"))) :=
  not_inOrder_queue .above (lit "file:///media/card/game.dbp") (lit "normal") listed_init.inOrder

/-- Nothing is in the list, nothing was posted and nothing taken. -/
structure Starved (s : ThumbState) : Prop where
  first : s.first = none
  work : s.work = 0
  taken : s.taken = []

theorem starved_step (h : Starved s) (a : ThumbStep) : Starved (thumbStep malloc s a) := by
  obtain ⟨hfirst, hwork, htaken⟩ := h
  cases a with
  | queue uri flavour => exact ⟨hfirst, hwork, htaken⟩
  | worker w =>
    rw [thumbStep]
    cases w with
    | wake =>
      rw [workerStep, if_neg (by simp [hwork])]
      exact ⟨hfirst, hwork, htaken⟩
    | interrupt =>
      rw [workerStep]
      split_ifs <;> exact ⟨hfirst, hwork, htaken⟩
    | take =>
      rw [workerStep]
      split_ifs
      · rw [thumbWorkerTake, hfirst]
        exact ⟨rfl, hwork, htaken⟩
      · exact ⟨hfirst, hwork, htaken⟩
    | finish =>
      rw [workerStep]
      split <;> exact ⟨hfirst, hwork, htaken⟩

/-- The worker never takes a request, whatever is queued. -/
theorem starved_run (steps : List ThumbStep) : Starved (steps.foldl (thumbStep malloc) thumbQueueInit) :=
  List.foldlRecOn steps (thumbStep malloc) (motive := Starved) ⟨rfl, rfl, rfl⟩ fun _ h a _ => starved_step malloc h a

end Run

end Dbp
