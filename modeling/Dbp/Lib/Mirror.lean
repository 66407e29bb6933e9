/-
# A mirror kept by a snapshot and a stream

Items come and go in a source, and every change is announced after it is
made. A mirror is filled from a snapshot of the source, item by item, and
follows the announcements at the same time, which come late but in order.
`Item` is what there is to say about one item.

`Step` is what may happen to it. Three of the steps have conditions that a
careless mirror does not meet: a change is announced to nobody only as long
as the snapshot will see it, an announced removal is not followed between
the snapshot's reading of the item and its copy, and the snapshot reads
only what is in the source. Then an item that has come to rest is in the
mirror exactly if it is in the source (`Inv.settled`).

Key definitions: `Item`, `Step`, `Inv`.
Key theorems: `Step.inv`, `Inv.settled`.
-/
import Mathlib.Logic.Relation
import Mathlib.Tactic.Common

namespace Mirrors

/-- What is announced. -/
inductive Update
  | add
  | remove
deriving Repr, DecidableEq

/-- One item. -/
@[ext]
structure Item where
  /-- It is in the source. -/
  present : Prop
  /-- Its last change is still to be announced. -/
  coming : Option Update
  /-- What has been announced and not been followed. -/
  queue : List Update
  /-- The follower has read it and will put it into the mirror. -/
  handling : Prop
  /-- The snapshot has read it and will put it into the mirror. -/
  copying : Prop
  /-- The snapshot will still read it, if it is there. -/
  due : Prop
  /-- It is in the mirror. -/
  mirror : Prop

/-- What may happen to an item. -/
inductive Step (s : Item) : Item → Prop
  | appear (hc : s.coming = none) : Step s { s with present := True, coming := some .add }
  | vanish (d : Prop) (hc : s.coming = none) :
    Step s { s with present := False, coming := some .remove, due := d }
  | heard (u : Update) (hc : s.coming = some u) : Step s { s with coming := none, queue := s.queue ++ [u] }
  | unheard (u : Update) (hc : s.coming = some u) (hd : s.due) (hq : s.queue = []) (hm : ¬ s.mirror)
    (hh : ¬ s.handling) (hcopy : ¬ s.copying) : Step s { s with coming := none }
  | followAdd (q : List Update) (b : Prop) (hq : s.queue = .add :: q) (hb : s.present → b) :
    Step s { s with queue := q, handling := b }
  | followRemove (q : List Update) (hq : s.queue = .remove :: q) (hh : ¬ s.handling) (hcopy : ¬ s.copying) :
    Step s { s with queue := q, mirror := False }
  | followed (hh : s.handling) : Step s { s with handling := False, mirror := True }
  | read (d : Prop) (hp : s.present) : Step s { s with copying := True, due := d }
  | copied (hcopy : s.copying) : Step s { s with copying := False, mirror := True }
  | narrow (d : Prop) (hd : s.present → s.due → d) : Step s { s with due := d }

/-- The last announcement decides, and what is in the mirror or on the way there is in the source or will be removed. -/
structure Inv (s : Item) : Prop where
  coming_add : s.coming = some .add → s.present
  coming_remove : s.coming = some .remove → ¬ s.present
  last : s.queue.getLast? = some .add → s.present ∨ s.coming = some .remove
  stale : s.mirror ∨ s.handling ∨ s.copying → s.present ∨ s.coming = some .remove ∨ .remove ∈ s.queue
  fresh : s.present → s.coming = some .add ∨ s.queue.getLast? = some .add ∨
    s.queue = [] ∧ (s.mirror ∨ s.handling ∨ s.copying ∨ s.due)

namespace Inv

/-- An item nobody has heard of. -/
theorem start {s : Item} (hp : ¬ s.present) (hc : s.coming = none) (hq : s.queue = []) (hm : ¬ s.mirror)
    (hh : ¬ s.handling) (hcopy : ¬ s.copying) : Inv s where
  coming_add h := by simp [hc] at h
  coming_remove h := by simp [hc] at h
  last h := by simp [hq] at h
  stale h := by simp [hm, hh, hcopy] at h
  fresh h := absurd h hp

/-- **An item at rest** is in the mirror exactly if it is in the source. -/
theorem settled {s : Item} (h : Inv s) (hc : s.coming = none) (hq : s.queue = []) (hh : ¬ s.handling)
    (hcopy : ¬ s.copying) (hd : ¬ s.due) : s.mirror ↔ s.present := by
  constructor
  · intro hm
    simpa [hc, hq] using h.stale (.inl hm)
  · intro hp
    simpa [hc, hq, hh, hcopy, hd] using h.fresh hp

end Inv

/-- Without a removal after it, an announcement that an item came stands. -/
theorem getLast?_of_no_remove {q : List Update} (h : .remove ∉ q) : (Update.add :: q).getLast? = some .add := by
  have hall : ∀ u ∈ Update.add :: q, u = .add := by
    intro u hu
    cases u with
    | add => rfl
    | remove => exact absurd (by simpa using hu) h
  have hlast := List.getLast?_eq_some_getLast (List.cons_ne_nil Update.add q)
  rw [hlast, hall _ (List.getLast_mem _)]

/-- The last announcement of the rest of the queue is the queue's. -/
theorem Inv.last_tail {s : Item} (h : Inv s) {u : Update} {q : List Update} (hq : s.queue = u :: q)
    (hlast : q.getLast? = some .add) : s.present ∨ s.coming = some .remove := by
  have hne : q ≠ [] := by
    rintro rfl
    simp at hlast
  apply h.last
  rw [hq, List.getLast?_cons_of_ne_nil hne, hlast]

/-- Where the rest of the queue does not say that the item came, the head does. -/
theorem Inv.fresh_tail {s : Item} (h : Inv s) {u : Update} {q : List Update} (hq : s.queue = u :: q) (hp : s.present) :
    s.coming = some .add ∨ q.getLast? = some .add ∨ q = [] ∧ u = .add := by
  rcases h.fresh hp with hc | hlast | ⟨hnil, -⟩
  · exact .inl hc
  · rw [hq] at hlast
    by_cases hne : q = []
    · exact .inr (.inr ⟨hne, by simpa [hne] using hlast⟩)
    · exact .inr (.inl (by rwa [List.getLast?_cons_of_ne_nil hne] at hlast))
  · simp [hq] at hnil

/-- **A step keeps the invariant.** -/
theorem Step.inv {s t : Item} (h : Step s t) (hs : Inv s) : Inv t := by
  cases h with
  | appear hc =>
    exact ⟨fun _ => trivial, nofun, fun _ => .inl trivial, fun _ => .inl trivial, fun _ => .inl rfl⟩
  | vanish d hc => exact ⟨nofun, fun _ => id, fun _ => .inr rfl, fun _ => .inr (.inl rfl), nofun⟩
  | heard u hc =>
    cases u with
    | add =>
      have hp := hs.coming_add hc
      exact ⟨nofun, nofun, fun _ => .inl hp, fun _ => .inl hp, fun _ => .inr (.inl (by simp))⟩
    | remove =>
      have hp := hs.coming_remove hc
      exact ⟨nofun, nofun, fun h => by simp at h, fun _ => .inr (.inr (by simp)), fun h => absurd h hp⟩
  | unheard u hc hd hq hm hh hcopy =>
    refine ⟨nofun, nofun, fun h => by simp [hq] at h, fun h => ?_, fun _ => .inr (.inr ⟨hq, .inr (.inr (.inr hd))⟩)⟩
    simp [hm, hh, hcopy] at h
  | followAdd q b hq hb =>
    refine ⟨hs.coming_add, hs.coming_remove, hs.last_tail hq, fun _ => ?_, fun hp => ?_⟩
    · by_cases hr : .remove ∈ q
      · exact .inr (.inr hr)
      · have hlast : s.queue.getLast? = some .add := by rw [hq, getLast?_of_no_remove hr]
        exact (hs.last hlast).imp_right .inl
    · rcases hs.fresh_tail hq hp with h | h | ⟨hnil, -⟩
      · exact .inl h
      · exact .inr (.inl h)
      · exact .inr (.inr ⟨hnil, .inr (.inl (hb hp))⟩)
  | followRemove q hq hh hcopy =>
    refine ⟨hs.coming_add, hs.coming_remove, hs.last_tail hq, fun h => ?_, fun hp => ?_⟩
    · simp [hh, hcopy] at h
    · rcases hs.fresh_tail hq hp with h | h | ⟨-, hu⟩
      · exact .inl h
      · exact .inr (.inl h)
      · cases hu
  | followed hh =>
    refine ⟨hs.coming_add, hs.coming_remove, hs.last, fun _ => hs.stale (.inr (.inl hh)), fun hp => ?_⟩
    exact (hs.fresh hp).imp_right fun h => h.imp_right fun ⟨hq, _⟩ => ⟨hq, .inl trivial⟩
  | read d hp =>
    refine ⟨hs.coming_add, hs.coming_remove, hs.last, fun _ => .inl hp, fun _ => ?_⟩
    exact (hs.fresh hp).imp_right fun h => h.imp_right fun ⟨hq, _⟩ => ⟨hq, .inr (.inr (.inl trivial))⟩
  | copied hcopy =>
    refine ⟨hs.coming_add, hs.coming_remove, hs.last, fun _ => hs.stale (.inr (.inr hcopy)), fun hp => ?_⟩
    exact (hs.fresh hp).imp_right fun h => h.imp_right fun ⟨hq, _⟩ => ⟨hq, .inl trivial⟩
  | narrow d hd =>
    refine ⟨hs.coming_add, hs.coming_remove, hs.last, hs.stale, fun hp => ?_⟩
    exact (hs.fresh hp).imp_right fun h => h.imp_right fun ⟨hq, h⟩ =>
      ⟨hq, h.imp_right fun h => h.imp_right fun h => h.imp_right (hd hp)⟩

/-- A step, or none. -/
theorem inv_reflGen {s t : Item} (h : Relation.ReflGen Step s t) (hs : Inv s) : Inv t := by
  cases h with
  | refl => exact hs
  | single h => exact h.inv hs

end Mirrors
