/-
# Loops over a search

The loop `for (x = next(NULL); x; x = next(x))`, where `next` returns the
first match, or the next one after a match, and may fail. A pointer into a
list is the list from there on, and NULL the empty list. `Yields` says that
the loop comes to an end, and with which entries. Where `next` steps to the
next entry with a property, the loop sees all that have it (`yields_filter`).

Key definitions: `Yields`.
Key theorems: `yields_of_next`, `yields_filter`.
-/
import Mathlib.Data.List.Basic

namespace Iterate

variable {σ α : Type*}

/-- The loop ends, and has seen these entries. -/
inductive Yields (next : σ → List α → Option (σ × List α)) : σ → List α → List α → Prop
  | done {s s' : σ} {prev : List α} (h : next s prev = some (s', [])) : Yields next s prev []
  | next {s s' : σ} {prev rest es : List α} {e : α} (h : next s prev = some (s', e :: rest))
    (hs : Yields next s' (e :: rest) es) : Yields next s prev (e :: es)

/-- What the loop sees once a call has returned `l`. -/
def YieldsFrom (next : σ → List α → Option (σ × List α)) (s : σ) : List α → List α → Prop
  | [], es => es = []
  | e :: rest, es => ∃ es', es = e :: es' ∧ Yields next s (e :: rest) es'

variable {next : σ → List α → Option (σ × List α)} {s s' : σ} {prev l es : List α}

theorem yields_of_next (h : next s prev = some (s', l)) : Yields next s prev es ↔ YieldsFrom next s' l es := by
  constructor
  · intro hy
    cases hy with
    | done h' =>
      obtain ⟨-, rfl⟩ := Prod.mk.inj (Option.some.inj (h.symm.trans h'))
      rfl
    | next h' hs =>
      obtain ⟨rfl, rfl⟩ := Prod.mk.inj (Option.some.inj (h.symm.trans h'))
      exact ⟨_, rfl, hs⟩
  · cases l with
    | nil =>
      rintro rfl
      exact .done h
    | cons e l =>
      rintro ⟨es', rfl, hs⟩
      exact .next h hs

/-- A call that fails ends no loop. -/
theorem not_yields (h : next s prev = none) : ¬ Yields next s prev es := by
  intro hy
  cases hy with
  | done h' => simp [h] at h'
  | next h' hs => simp [h] at h'

section Filter

variable {p : α → Bool} (hnext : ∀ e l, next s (e :: l) = some (s, l.dropWhile (!p ·)))
include hnext

theorem yieldsFrom_iff : ∀ l es : List α, YieldsFrom next s (l.dropWhile (!p ·)) es ↔ es = l.filter p
  | [], es => .rfl
  | e :: l, es => by
    by_cases he : p e
    · rw [List.dropWhile_cons_of_neg (by simp [he]), List.filter_cons_of_pos he]
      constructor
      · rintro ⟨es', rfl, hy⟩
        rw [(yieldsFrom_iff l es').mp ((yields_of_next (hnext e l)).mp hy)]
      · rintro rfl
        exact ⟨_, rfl, (yields_of_next (hnext e l)).mpr ((yieldsFrom_iff l _).mpr rfl)⟩
    · rw [List.dropWhile_cons_of_pos (by simp [he]), List.filter_cons_of_neg he]
      exact yieldsFrom_iff l es

/-- A loop that starts before `l`, and steps from match to match. -/
theorem yields_filter (h : next s' prev = some (s, l.dropWhile (!p ·))) : Yields next s' prev es ↔ es = l.filter p := by
  rw [yields_of_next h, yieldsFrom_iff hnext]

end Filter

end Iterate
