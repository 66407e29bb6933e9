/-
# Sweeping an array in place

The loop `for (i = 0; i < n; i++)` over an array whose body may delete the
element at `i` and step `i` back, or rewrite it: `sweep`, with the index and
the array as the loop has them, and as fuel the number of elements still to
be visited. It visits every element once, in order, and what it leaves is
the elements kept, in order (`sweep_eq`): `mapKeep`, a recursion on the list.

Key definitions: `sweep`, `mapKeep`.
Key theorems: `sweep_eq`, `mapKeep_invariant`, `mapKeep_state`, `mem_mapKeep`, `mapKeep_map`, `mapKeep_sublist`.
-/
import Mathlib.Data.List.Basic

namespace Sweep

variable {σ α : Type*}

/-- The loop from index `i` on: `f` returns the new state and the element to
keep, if it is kept. -/
def sweep (f : σ → α → σ × Option α) : ℕ → ℕ → σ → List α → σ × List α
  | 0, _, s, xs => (s, xs)
  | n + 1, i, s, xs =>
    match xs[i]? with
    | none => (s, xs)
    | some x =>
      match f s x with
      | (s', none) => sweep f n i s' (xs.eraseIdx i)
      | (s', some y) => sweep f n (i + 1) s' (xs.set i y)

/-- The elements in order, each visited once. -/
def mapKeep (f : σ → α → σ × Option α) : σ → List α → σ × List α
  | s, [] => (s, [])
  | s, x :: xs => ((mapKeep f (f s x).1 xs).1, (f s x).2.toList ++ (mapKeep f (f s x).1 xs).2)

theorem sweep_append (f : σ → α → σ × Option α) : ∀ (xs pre : List α) (s : σ),
    sweep f xs.length pre.length s (pre ++ xs) =
      ((mapKeep f s xs).1, pre ++ (mapKeep f s xs).2)
  | [], pre, s => by simp [sweep, mapKeep]
  | x :: xs, pre, s => by
    have hx : (pre ++ x :: xs)[pre.length]? = some x := by simp
    simp only [List.length_cons, sweep, hx, mapKeep]
    rcases h : f s x with ⟨s', _ | y⟩
    · have he : (pre ++ x :: xs).eraseIdx pre.length = pre ++ xs := by
        simp [List.eraseIdx_append_of_length_le]
      simp only [he, sweep_append f xs pre s', Option.toList_none, List.nil_append]
    · have he : (pre ++ x :: xs).set pre.length y = (pre ++ [y]) ++ xs := by simp
      have hi := sweep_append f xs (pre ++ [y]) s'
      rw [List.length_append, List.length_singleton] at hi
      simp only [he, hi, Option.toList_some]
      simp

/-- The loop over the whole array. -/
theorem sweep_eq (f : σ → α → σ × Option α) (s : σ) (xs : List α) :
    sweep f xs.length 0 s xs = mapKeep f s xs := by
  have := sweep_append f xs [] s
  simpa using this

/-- What one visit keeps of the state, the elements kept so far and the
elements still to come, the whole loop keeps. -/
theorem mapKeep_invariant {f : σ → α → σ × Option α} {P : σ → List α → List α → Prop}
    (h : ∀ s kept x xs, P s kept (x :: xs) → P (f s x).1 (kept ++ (f s x).2.toList) xs) :
    ∀ (xs : List α) (s : σ) (kept : List α), P s kept xs →
      P (mapKeep f s xs).1 (kept ++ (mapKeep f s xs).2) []
  | [], s, kept, hP => by simpa [mapKeep] using hP
  | x :: xs, s, kept, hP => by
    have := mapKeep_invariant h xs _ _ (h s kept x xs hP)
    simpa [mapKeep, List.append_assoc] using this

/-- What every visit of an element of the list keeps of the state, the whole loop keeps. -/
theorem mapKeep_state {f : σ → α → σ × Option α} {P : σ → Prop} {xs : List α} (h : ∀ s, ∀ x ∈ xs, P s → P (f s x).1)
    (s : σ) (hs : P s) : P (mapKeep f s xs).1 := by
  refine (mapKeep_invariant (P := fun s _ rest => P s ∧ ∀ x ∈ rest, x ∈ xs) (fun s kept x rest hP => ?_) xs s []
    ⟨hs, fun _ hx => hx⟩).1
  obtain ⟨hx, hrest⟩ := List.forall_mem_cons.mp hP.2
  exact ⟨h s x hx hP.1, hrest⟩

/-- An element that is left was left by the visit of an element of the list. -/
theorem mem_mapKeep {f : σ → α → σ × Option α} {y : α} :
    ∀ {xs : List α} {s : σ}, y ∈ (mapKeep f s xs).2 → ∃ x ∈ xs, ∃ s', (f s' x).2 = some y
  | x :: xs, s, h => by
    rcases List.mem_append.mp h with h | h
    · exact ⟨x, List.mem_cons_self, s, Option.mem_toList.mp h⟩
    · obtain ⟨x', hx', hy⟩ := mem_mapKeep h
      exact ⟨x', List.mem_cons_of_mem _ hx', hy⟩

/-- A loop that carries more about its elements and its state does to the elements what the plain one does. -/
theorem mapKeep_map {τ β : Type*} {f : σ → α → σ × Option α} {g : τ → β → τ × Option β} {st : τ → σ} {el : β → α}
    (h : ∀ t b, f (st t) (el b) = (st (g t b).1, (g t b).2.map el)) : ∀ (bs : List β) (t : τ),
      mapKeep f (st t) (bs.map el) = (st (mapKeep g t bs).1, (mapKeep g t bs).2.map el)
  | [], _ => rfl
  | b :: bs, t => by
    have ih := mapKeep_map h bs (g t b).1
    simp only [List.map_cons, mapKeep, h, ih, List.map_append]
    cases (g t b).2 <;> rfl

/-- A loop that only deletes leaves a sublist. -/
theorem mapKeep_sublist {f : σ → α → σ × Option α} (h : ∀ s x, (f s x).2 = none ∨ (f s x).2 = some x) :
    ∀ (xs : List α) (s : σ), (mapKeep f s xs).2.Sublist xs
  | [], _ => .slnil
  | x :: xs, s => by
    have ih := mapKeep_sublist h xs (f s x).1
    rcases h s x with hx | hx
    · simpa [mapKeep, hx] using ih.cons x
    · simpa [mapKeep, hx] using ih.cons_cons x

end Sweep
