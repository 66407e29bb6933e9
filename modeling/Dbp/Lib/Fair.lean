/-
# Fair schedules

Several agents share the state of a deterministic machine `step`; a schedule
says which operation comes when, and `agent` whose operation it is, if it is
an agent's. A schedule is fair if every agent acts again and again.

A rank that no operation raises, and that one agent, the helper, lowers
whenever it acts, reaches the goal in every fair schedule
(`Descends.reaches`): until the helper acts the rank and the helper stay as
they are, and then the rank is smaller.

Key definitions: `after`, `IsFair`, `Descends`.
Key theorems: `after_eq_foldl`, `Descends.reaches`.
-/
import Mathlib.Data.List.Range
import Mathlib.Order.Basic

namespace Fair

variable {σ α ι : Type*}

/-- The state after the first `n` operations of a schedule. -/
def after (step : σ → α → σ) (s : σ) (f : ℕ → α) : ℕ → σ
  | 0 => s
  | n + 1 => step (after step s f n) (f n)

/-- Every agent acts again and again. -/
def IsFair (agent : α → Option ι) (f : ℕ → α) : Prop := ∀ i n, ∃ m, n ≤ m ∧ agent (f m) = some i

variable {step : σ → α → σ} {agent : α → Option ι} {f : ℕ → α}

/-- A schedule as the runs it starts with. -/
theorem after_eq_foldl (s : σ) (f : ℕ → α) : ∀ n, after step s f n = ((List.range n).map f).foldl step s
  | 0 => rfl
  | n + 1 => by
    rw [List.range_succ, List.map_append, List.foldl_append, ← after_eq_foldl s f n]
    rfl

theorem after_succ (s : σ) (f : ℕ → α) : ∀ n, after step s f (n + 1) = after step (step s (f 0)) (fun k => f (k + 1)) n
  | 0 => rfl
  | n + 1 => congrArg (step · (f (n + 1))) (after_succ s f n)

theorem after_add (s : σ) (f : ℕ → α) (n : ℕ) :
    ∀ m, after step s f (n + m) = after step (after step s f n) (fun k => f (n + k)) m
  | 0 => rfl
  | m + 1 => congrArg (step · (f (n + m))) (after_add s f n m)

/-- What stays of a fair schedule is fair. -/
theorem IsFair.drop (h : IsFair agent f) (n : ℕ) : IsFair agent fun k => f (n + k) := by
  intro i m
  obtain ⟨k, hk, hi⟩ := h i (n + m)
  refine ⟨k - n, by omega, ?_⟩
  show agent (f (n + (k - n))) = some i
  rwa [show n + (k - n) = k by omega]

/-- From a state with the invariant that is not at the goal, an operation that meets `ok` leads to the goal or lowers the
rank, or it is another agent's than the helper's and leaves the rank and the helper as they are. -/
structure Descends (step : σ → α → σ) (agent : α → Option ι) (ok : α → Prop) (I goal : σ → Prop) (rank : σ → ℕ)
    (helper : σ → ι) : Prop where
  keeps : ∀ s a, ok a → I s → I (step s a)
  lowers : ∀ s a, ok a → I s → ¬ goal s →
    goal (step s a) ∨ rank (step s a) < rank s ∨
      rank (step s a) = rank s ∧ helper (step s a) = helper s ∧ agent a ≠ some (helper s)

namespace Descends

variable {ok : α → Prop} {I goal : σ → Prop} {rank : σ → ℕ} {helper : σ → ι}

/-- Up to the operation at which the helper acts, the goal is reached or the rank gets smaller. -/
theorem until_helper (h : Descends step agent ok I goal rank helper) : ∀ (m : ℕ) (f : ℕ → α) (s : σ), (∀ n, ok (f n)) →
    I s → ¬ goal s → agent (f m) = some (helper s) →
      ∃ n, goal (after step s f n) ∨ rank (after step s f n) < rank s
  | 0, f, s, hok, hI, hg, hm => by
    rcases h.lowers s (f 0) (hok 0) hI hg with hg' | hr | ⟨-, -, hne⟩
    · exact ⟨1, .inl hg'⟩
    · exact ⟨1, .inr hr⟩
    · exact absurd hm hne
  | m + 1, f, s, hok, hI, hg, hm => by
    rcases h.lowers s (f 0) (hok 0) hI hg with hg' | hr | ⟨hr, hh, -⟩
    · exact ⟨1, .inl hg'⟩
    · exact ⟨1, .inr hr⟩
    · by_cases hg' : goal (step s (f 0))
      · exact ⟨1, .inl hg'⟩
      · obtain ⟨n, hn⟩ := h.until_helper m (fun k => f (k + 1)) (step s (f 0)) (fun n => hok (n + 1))
          (h.keeps s _ (hok 0) hI) hg' (hm.trans (congrArg some hh.symm))
        rw [← after_succ, hr] at hn
        exact ⟨n + 1, hn⟩

theorem after_keeps (h : Descends step agent ok I goal rank helper) {s : σ} (hI : I s) (hok : ∀ n, ok (f n)) :
    ∀ n, I (after step s f n)
  | 0 => hI
  | n + 1 => h.keeps _ _ (hok n) (h.after_keeps hI hok n)

/-- **A fair schedule reaches the goal.** -/
theorem reaches (h : Descends step agent ok I goal rank helper) : ∀ (r : ℕ) (f : ℕ → α) (s : σ), rank s ≤ r →
    IsFair agent f → (∀ n, ok (f n)) → I s → ∃ n, goal (after step s f n) := by
  intro r
  induction r with
  | zero =>
    intro f s hr hf hok hI
    by_cases hg : goal s
    · exact ⟨0, hg⟩
    obtain ⟨m, -, hm⟩ := hf (helper s) 0
    obtain ⟨n, hn | hn⟩ := h.until_helper m f s hok hI hg hm
    · exact ⟨n, hn⟩
    · omega
  | succ r ih =>
    intro f s hr hf hok hI
    by_cases hg : goal s
    · exact ⟨0, hg⟩
    obtain ⟨m, -, hm⟩ := hf (helper s) 0
    obtain ⟨n, hn | hn⟩ := h.until_helper m f s hok hI hg hm
    · exact ⟨n, hn⟩
    · obtain ⟨k, hk⟩ := ih (fun k => f (n + k)) _ (by omega) (hf.drop n) (fun k => hok (n + k))
        (h.after_keeps hI hok n)
      rw [← after_add] at hk
      exact ⟨n + k, hk⟩

end Descends

end Fair
