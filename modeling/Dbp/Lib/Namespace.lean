/-
# A name space shared by owners

Owners put names into one flat name space and take theirs back wholesale:
`own k` are the names of owner `k`, and removing `k` removes every name of
`rm k`, which may be more than `own k`. What is left after a removal is what
the other owners have exactly when no owner's removal reaches into another's
names: `Isolated`.

Key definitions: `owned`, `Isolated`.
Key theorems: `owned_remove`, `owned_concat`, `isolated_concat`, `Isolated.disjoint`.
-/
import Mathlib.Data.List.Nodup
import Mathlib.Data.Set.Basic

namespace Namespaces

variable {K N : Type*} {own rm : K → Set N} {ks : List K}

/-- The names of the owners in a list. -/
def owned (own : K → Set N) (ks : List K) : Set N := {n | ∃ k ∈ ks, n ∈ own k}

/-- No owner's removal takes a name of another owner. -/
def Isolated (own rm : K → Set N) (ks : List K) : Prop :=
  ∀ p ∈ ks, ∀ q ∈ ks, p ≠ q → ∀ n ∈ own q, n ∉ rm p

theorem mem_owned {n : N} : n ∈ owned own ks ↔ ∃ k ∈ ks, n ∈ own k := Iff.rfl

theorem Isolated.subset {ks' : List K} (h : Isolated own rm ks) (hs : ∀ k ∈ ks', k ∈ ks) : Isolated own rm ks' :=
  fun p hp q hq => h p (hs p hp) q (hs q hq)

theorem Isolated.mono {own' : K → Set N} (h : Isolated own rm ks) (hs : ∀ k, own' k ⊆ own k) :
    Isolated own' rm ks :=
  fun p hp q hq hne n hn => h p hp q hq hne n (hs q hn)

/-- Isolated owners that remove what they have share no name. -/
theorem Isolated.disjoint (h : Isolated own rm ks) (hsub : ∀ k, own k ⊆ rm k) {p q : K} (hp : p ∈ ks) (hq : q ∈ ks)
    (hne : p ≠ q) {n : N} (hn : n ∈ own p) : n ∉ own q :=
  fun hn' => h p hp q hq hne n hn' (hsub p hn)

/-- What a removal leaves. -/
theorem owned_remove {l r : List K} {p : K} (h : Isolated own rm (l ++ p :: r)) (hsub : ∀ k, own k ⊆ rm k)
    (hnd : (l ++ p :: r).Nodup) : owned own (l ++ p :: r) \ rm p = owned own (l ++ r) := by
  have hmem : ∀ k, k ∈ l ++ p :: r ↔ k = p ∨ k ∈ l ++ r := by simp [or_left_comm]
  have hp : p ∉ l ++ r := (List.nodup_cons.mp (List.nodup_middle.mp hnd)).1
  ext n
  rw [Set.mem_sdiff, mem_owned, mem_owned]
  refine ⟨fun ⟨⟨k, hk, hn⟩, hrm⟩ => ?_, fun ⟨k, hk, hn⟩ => ⟨⟨k, (hmem k).mpr (.inr hk), hn⟩, ?_⟩⟩
  · rcases (hmem k).mp hk with rfl | hk
    · exact absurd (hsub k hn) hrm
    · exact ⟨k, hk, hn⟩
  · have hne : p ≠ k := (ne_of_mem_of_not_mem hk hp).symm
    exact h p ((hmem p).mpr (.inl rfl)) k ((hmem k).mpr (.inr hk)) hne n hn

section Concat

variable [DecidableEq K] {k : K} {s : Set N}

theorem update_of_mem (hk : k ∉ ks) {q : K} (hq : q ∈ ks) : Function.update own k s q = own q :=
  Function.update_of_ne (ne_of_mem_of_not_mem hq hk) _ _

/-- The names after a new owner has come. -/
theorem owned_concat (hk : k ∉ ks) : owned (Function.update own k s) (ks ++ [k]) = owned own ks ∪ s := by
  ext n
  rw [Set.mem_union, mem_owned, mem_owned]
  refine ⟨fun ⟨q, hq, hn⟩ => ?_, fun h => ?_⟩
  · rcases List.mem_append.mp hq with hq | hq
    · rw [update_of_mem hk hq] at hn
      exact .inl ⟨q, hq, hn⟩
    · rw [List.mem_singleton.mp hq, Function.update_self] at hn
      exact .inr hn
  · rcases h with ⟨q, hq, hn⟩ | hn
    · exact ⟨q, List.mem_append_left _ hq, by rwa [update_of_mem hk hq]⟩
    · exact ⟨k, by simp, by rwa [Function.update_self]⟩

/-- A new owner keeps the isolation if neither its removal reaches the old ones' names nor
theirs its own. -/
theorem isolated_concat (hk : k ∉ ks) : Isolated (Function.update own k s) rm (ks ++ [k]) ↔
    Isolated own rm ks ∧ ∀ q ∈ ks, (∀ n ∈ s, n ∉ rm q) ∧ ∀ n ∈ own q, n ∉ rm k := by
  have hne : ∀ q ∈ ks, q ≠ k := fun q hq => ne_of_mem_of_not_mem hq hk
  refine ⟨fun h => ⟨fun p hp q hq hpq n hn => ?_, fun q hq => ⟨fun n hn => ?_, fun n hn => ?_⟩⟩,
    fun ⟨h, hnew⟩ p hp q hq hpq n hn => ?_⟩
  · exact h p (List.mem_append_left _ hp) q (List.mem_append_left _ hq) hpq n (by rwa [update_of_mem hk hq])
  · exact h q (List.mem_append_left _ hq) k (by simp) (hne q hq) n (by rwa [Function.update_self])
  · exact h k (by simp) q (List.mem_append_left _ hq) (hne q hq).symm n (by rwa [update_of_mem hk hq])
  · rcases List.mem_append.mp hp with hp | hp <;> rcases List.mem_append.mp hq with hq | hq
    · rw [update_of_mem hk hq] at hn
      exact h p hp q hq hpq n hn
    · rw [List.mem_singleton.mp hq, Function.update_self] at hn
      exact (hnew p hp).1 n hn
    · rw [update_of_mem hk hq] at hn
      rw [List.mem_singleton.mp hp]
      exact (hnew q hq).2 n hn
    · exact absurd ((List.mem_singleton.mp hp).trans (List.mem_singleton.mp hq).symm) hpq

end Concat

end Namespaces
