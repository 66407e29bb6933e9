/-
# Searching a table

The loop `for (i = 0; table[i].name; i++)` that looks for a name: it ends at
the first entry of the name, or at an entry without one, and where the table
has neither it goes on behind the table. `search` has no result then, a
result without an entry at an entry without a name, and else the entry.

Key definitions: `search`.
Key theorems: `search_eq_none`, `mem_of_search`, `search_hit_iff`.
-/
import Mathlib.Data.List.Basic

namespace TableSearch

variable {α κ : Type*} [DecidableEq κ]

/-- The search for a name in a table whose entries have a name, or mark the end. -/
def search (name : α → Option κ) (k : κ) : List α → Option (Option α)
  | [] => none
  | e :: t =>
    match name e with
    | none => some none
    | some n => if n = k then some (some e) else search name k t

variable {name : α → Option κ} {k : κ}

/-- The search leaves a table that has neither the name nor an end. -/
theorem search_eq_none : ∀ {t : List α}, search name k t = none ↔ ∀ e ∈ t, name e ≠ none ∧ name e ≠ some k
  | [] => by simp [search]
  | e :: t => by
    rw [List.forall_mem_cons, search]
    cases hn : name e with
    | none => simp
    | some n =>
      by_cases hk : n = k
      · simp [hk]
      · simp [hk, search_eq_none]

/-- What is found is an entry of the table, with the name. -/
theorem mem_of_search : ∀ {t : List α} {e : α}, search name k t = some (some e) → e ∈ t ∧ name e = some k
  | e' :: t, e, h => by
    rw [search] at h
    cases hn : name e' with
    | none => simp [hn] at h
    | some n =>
      by_cases hk : n = k
      · obtain rfl : e' = e := by simpa [hn, hk] using h
        exact ⟨List.mem_cons_self, hk ▸ hn⟩
      · obtain ⟨hmem, hname⟩ := mem_of_search (t := t) (by simpa [hn, hk] using h)
        exact ⟨List.mem_cons_of_mem _ hmem, hname⟩

/-- In a table without an end, no search comes to one. -/
theorem search_ne_end : ∀ {t : List α}, (∀ e ∈ t, name e ≠ none) → search name k t ≠ some none
  | [], _ => by simp [search]
  | e :: t, h => by
    obtain ⟨he, ht⟩ := List.forall_mem_cons.mp h
    obtain ⟨n, hn⟩ := Option.ne_none_iff_exists'.mp he
    by_cases hk : n = k
    · simp [search, hn, hk]
    · simpa [search, hn, hk] using search_ne_end ht

/-- In a table without an end, the names in it are found. -/
theorem search_hit_iff {t : List α} (h : ∀ e ∈ t, name e ≠ none) :
    (∃ e, search name k t = some (some e)) ↔ ∃ e ∈ t, name e = some k := by
  constructor
  · rintro ⟨e, he⟩
    exact ⟨e, mem_of_search he⟩
  · rintro ⟨e, he, hk⟩
    have hsome : search name k t ≠ none := fun hn => (search_eq_none.mp hn e he).2 hk
    cases hs : search name k t with
    | none => exact absurd hs hsome
    | some r =>
      cases r with
      | some e' => exact ⟨e', rfl⟩
      | none => exact absurd hs (search_ne_end h)

end TableSearch
