/-
# Leases

Who holds which resource: a holder has at most one, which is in use or
parked, and no two holders have the same one. The exclusion is a field of
the structure, so the operations that build a lease from another prove it
once: a fresh resource is acquired, a held one changes between in use and
parked, a holder gives up what it has.

Key definitions: `Lease`, `Lease.acquire`, `Lease.setUse`, `Lease.drop`.
Key theorems: `Lease.existsUnique_holder`, `Lease.held_acquire`,
`Lease.held_setUse`, `Lease.held_drop`.
-/
import Mathlib.Logic.Function.Basic
import Mathlib.Tactic.Common

namespace Leases

/-- Holders `K` of resources `R`; the flag says that the resource is in use. -/
@[ext]
structure Lease (K R : Type*) where
  held : K → Option (R × Bool)
  excl : ∀ {k k' : K} {r : R} {u u' : Bool}, held k = some (r, u) → held k' = some (r, u') → k = k'

namespace Lease

variable {K R : Type*}

/-- Nobody holds anything. -/
def empty : Lease K R := ⟨fun _ => none, fun h => by cases h⟩

/-- A resource somebody holds. -/
def Taken (L : Lease K R) (r : R) : Prop := ∃ k u, L.held k = some (r, u)

/-- A taken resource has one holder. -/
theorem existsUnique_holder {L : Lease K R} {r : R} (h : L.Taken r) :
    ∃! k, ∃ u, L.held k = some (r, u) := by
  obtain ⟨k, u, hk⟩ := h
  refine ⟨k, ⟨u, hk⟩, ?_⟩
  rintro k' ⟨u', hk'⟩
  exact L.excl hk' hk

variable [DecidableEq K]

/-- `k` takes a resource nobody holds into use. -/
def acquire (L : Lease K R) (k : K) (r : R) (hr : ¬ L.Taken r) : Lease K R where
  held := Function.update L.held k (some (r, true))
  excl := by
    intro a b r' u u' ha hb
    rw [Function.update_apply] at ha hb
    split_ifs at ha hb with h1 h2 h2
    · exact h1.trans h2.symm
    · cases ha; exact absurd ⟨b, u', hb⟩ hr
    · cases hb; exact absurd ⟨a, u, ha⟩ hr
    · exact L.excl ha hb

/-- What `k` holds is in use, or parked. -/
def setUse (L : Lease K R) (k : K) (b : Bool) : Lease K R where
  held := Function.update L.held k ((L.held k).map fun x => (x.1, b))
  excl := by
    intro a c r u u' ha hc
    have key : ∀ {a u}, Function.update L.held k ((L.held k).map fun x => (x.1, b)) a = some (r, u) →
        ∃ u, L.held a = some (r, u) := by
      intro a u h
      rw [Function.update_apply] at h
      split_ifs at h with hk
      · obtain ⟨x, hx, he⟩ := Option.map_eq_some_iff.mp h
        exact ⟨x.2, by rw [hk, hx]; simp only [Prod.mk.injEq] at he; rw [← he.1]⟩
      · exact ⟨u, h⟩
    obtain ⟨v, hv⟩ := key ha
    obtain ⟨w, hw⟩ := key hc
    exact L.excl hv hw

/-- `k` gives up what it holds. -/
def drop (L : Lease K R) (k : K) : Lease K R where
  held := Function.update L.held k none
  excl := by
    intro a b r u u' ha hb
    rw [Function.update_apply] at ha hb
    split_ifs at ha hb
    exact L.excl ha hb

theorem held_acquire (L : Lease K R) (k a : K) (r : R) (hr : ¬ L.Taken r) :
    (L.acquire k r hr).held a = if a = k then some (r, true) else L.held a :=
  Function.update_apply ..

theorem held_setUse (L : Lease K R) (k a : K) (b : Bool) :
    (L.setUse k b).held a = if a = k then (L.held k).map fun x => (x.1, b) else L.held a :=
  Function.update_apply ..

theorem held_drop (L : Lease K R) (k a : K) :
    (L.drop k).held a = if a = k then none else L.held a :=
  Function.update_apply ..

theorem taken_acquire (L : Lease K R) {k : K} (hk : L.held k = none) (r s : R) (hr : ¬ L.Taken r) :
    (L.acquire k r hr).Taken s ↔ s = r ∨ L.Taken s := by
  constructor
  · rintro ⟨a, u, h⟩
    rw [held_acquire] at h
    split_ifs at h with ha
    · cases h; exact Or.inl rfl
    · exact Or.inr ⟨a, u, h⟩
  · rintro (rfl | ⟨a, u, h⟩)
    · exact ⟨k, true, by rw [held_acquire, if_pos rfl]⟩
    · have ha : a ≠ k := fun ha => by rw [ha, hk] at h; cases h
      exact ⟨a, u, by rw [held_acquire, if_neg ha]; exact h⟩

theorem taken_setUse (L : Lease K R) (k : K) (b : Bool) (s : R) :
    (L.setUse k b).Taken s ↔ L.Taken s := by
  constructor
  · rintro ⟨a, u, h⟩
    rw [held_setUse] at h
    split_ifs at h with ha
    · obtain ⟨x, hx, he⟩ := Option.map_eq_some_iff.mp h
      cases he
      exact ⟨k, x.2, hx⟩
    · exact ⟨a, u, h⟩
  · rintro ⟨a, u, h⟩
    by_cases ha : a = k
    · exact ⟨k, b, by rw [held_setUse, if_pos rfl, ← ha, h]; rfl⟩
    · exact ⟨a, u, by rw [held_setUse, if_neg ha]; exact h⟩

theorem taken_drop (L : Lease K R) {k : K} {r : R} {u : Bool} (hk : L.held k = some (r, u)) (s : R) :
    (L.drop k).Taken s ↔ s ≠ r ∧ L.Taken s := by
  constructor
  · rintro ⟨a, v, h⟩
    rw [held_drop] at h
    split_ifs at h with ha
    refine ⟨fun hs => ha (L.excl h (hs ▸ hk)), a, v, h⟩
  · rintro ⟨hs, a, v, h⟩
    have ha : a ≠ k := fun ha => by rw [ha, hk] at h; cases h; exact hs rfl
    exact ⟨a, v, by rw [held_drop, if_neg ha]; exact h⟩

end Lease
end Leases
