/-
# Runs of a state machine

A deterministic machine `step` with operations `α`: a run is a list of
operations folded over a state. `Admissible ok` says that every operation of
the run meets `ok` in the state it is applied to, which is how a guarantee
of the environment or a condition on the inputs enters a claim about runs.
An invariant that holds at the start and that an admissible step keeps holds
after every admissible run; it may speak about the operations so far
(`run_history`).

Where a step from a state with the invariant keeps it exactly when it meets
`ok`, the admissible runs are those that stay in the invariant (`run_iff`).
Two machines that a relation keeps together step by step stay together
(`run_simulates`).

Key definitions: `Admissible`.
Key theorems: `admissible_append`, `admissible_initial`, `admissible_congr`, `run_history`,
`run_simulates`, `run_iff_of`, `run_iff`.
-/
import Mathlib.Data.List.Induction
import Mathlib.Tactic.Tauto

namespace Runs

variable {σ α : Type*} {step : σ → α → σ} {ok : σ → α → Prop}

/-- Every operation of the run meets `ok` in the state it is applied to. -/
def Admissible (step : σ → α → σ) (ok : σ → α → Prop) : σ → List α → Prop
  | _, [] => True
  | s, a :: as => ok s a ∧ Admissible step ok (step s a) as

instance Admissible.decidable [∀ s a, Decidable (ok s a)] : ∀ (s : σ) (as : List α),
    Decidable (Admissible step ok s as)
  | _, [] => isTrue trivial
  | s, a :: as =>
    have := Admissible.decidable (step s a) as
    inferInstanceAs (Decidable (ok s a ∧ Admissible step ok (step s a) as))

theorem admissible_append : ∀ (s : σ) (as bs : List α), Admissible step ok s (as ++ bs) ↔
    Admissible step ok s as ∧ Admissible step ok (as.foldl step s) bs
  | _, [], _ => by simp [Admissible]
  | s, a :: as, bs => by simp [Admissible, admissible_append (step s a) as bs, and_assoc]

/-- An admissible run is admissible as far as it has come. -/
theorem admissible_initial {s : σ} {pre as : List α} (h : pre <+: as) (ha : Admissible step ok s as) :
    Admissible step ok s pre := by
  obtain ⟨post, rfl⟩ := h
  exact ((admissible_append s pre post).mp ha).1

/-- An invariant on the operations so far and the state. -/
theorem run_history {I : List α → σ → Prop} {s : σ} (h0 : I [] s)
    (hs : ∀ as a t, I as t → ok t a → I (as ++ [a]) (step t a)) :
    ∀ as, Admissible step ok s as → I as (as.foldl step s) := by
  intro as
  induction as using List.reverseRecOn with
  | nil => exact fun _ => h0
  | append_singleton as a ih =>
    intro h
    obtain ⟨h1, h2, -⟩ := (admissible_append s as [a]).mp h
    rw [List.foldl_append]
    exact hs as a _ (ih h1) h2

theorem admissible_and {ok' : σ → α → Prop} : ∀ (s : σ) (as : List α),
    Admissible step (fun t a => ok t a ∧ ok' t a) s as ↔ Admissible step ok s as ∧ Admissible step ok' s as
  | _, [] => by simp [Admissible]
  | s, a :: as => by
    simp only [Admissible, admissible_and (step s a) as]
    tauto

/-- A condition on the operations alone. -/
theorem admissible_forall {p : α → Prop} : ∀ (s : σ) (as : List α), Admissible step (fun _ a => p a) s as ↔ ∀ a ∈ as, p a
  | _, [] => by simp [Admissible]
  | s, a :: as => by simp [Admissible, admissible_forall (step s a) as]

/-- Conditions that agree in the states of an invariant agree on the runs that keep it. -/
theorem admissible_congr {I : σ → Prop} {P Q : σ → α → Prop} (hs : ∀ t a, I t → ok t a → I (step t a))
    (hiff : ∀ t a, I t → ok t a → (P t a ↔ Q t a)) : ∀ (as : List α) {s : σ}, I s → Admissible step ok s as →
      (Admissible step P s as ↔ Admissible step Q s as)
  | [], _, _, _ => Iff.rfl
  | a :: as, s, h0, ⟨hok, hrest⟩ => by
    simp only [Admissible, hiff s a h0 hok, admissible_congr hs hiff as (hs s a h0 hok) hrest]

/-- A simulation by one step is one by runs. -/
theorem run_simulates {τ : Type*} {step' : τ → α → τ} {R : σ → τ → Prop}
    (hs : ∀ s t a, R s t → R (step s a) (step' t a)) : ∀ (as : List α) {s : σ} {t : τ}, R s t →
      R (as.foldl step s) (as.foldl step' t)
  | [], _, _, h => h
  | a :: as, s, t, h => run_simulates hs as (hs s t a h)

/-- A property that a step from a state with the invariant leads to exactly when it meets `ok`, where a step that meets it
keeps the invariant: the runs that have the property all along are the admissible ones. -/
theorem run_iff_of {I P : σ → Prop} : ∀ (as : List α) (s : σ) (_ : ∀ t, ∀ a ∈ as, I t → (P (step t a) ↔ ok t a))
    (_ : ∀ t, ∀ a ∈ as, I t → ok t a → I (step t a)),
    I s → P s → ((∀ pre, pre <+: as → P (pre.foldl step s)) ↔ Admissible step ok s as)
  | [], s, _, _, _, h0 => by
    refine ⟨fun _ => trivial, fun _ pre hp => ?_⟩
    rw [List.prefix_nil.mp hp]
    exact h0
  | a :: as, s, hs, hI, hi, h0 => by
    have hsa := hs s a (by simp) hi
    have hs' : ∀ t, ∀ b ∈ as, I t → (P (step t b) ↔ ok t b) := fun t b hb => hs t b (by simp [hb])
    have hI' : ∀ t, ∀ b ∈ as, I t → ok t b → I (step t b) := fun t b hb => hI t b (by simp [hb])
    refine ⟨fun h => ?_, fun ⟨h1, h2⟩ pre hp => ?_⟩
    · have ha : P (step s a) := h [a] (by simp)
      have hia := hI s a (by simp) hi (hsa.mp ha)
      refine ⟨hsa.mp ha, (run_iff_of as _ hs' hI' hia ha).mp fun pre hp => ?_⟩
      exact h (a :: pre) (List.cons_prefix_cons.mpr ⟨rfl, hp⟩)
    · rcases pre with _ | ⟨b, pre⟩
      · exact h0
      · obtain ⟨rfl, hp'⟩ := List.cons_prefix_cons.mp hp
        exact (run_iff_of as _ hs' hI' (hI s b (by simp) hi h1) (hsa.mpr h1)).mpr h2 pre hp'

/-- Runs that stay in the invariant. -/
theorem run_iff {I : σ → Prop} (as : List α) (s : σ) (hs : ∀ t, ∀ a ∈ as, I t → (I (step t a) ↔ ok t a)) (h0 : I s) :
    (∀ pre, pre <+: as → I (pre.foldl step s)) ↔ Admissible step ok s as :=
  run_iff_of as s hs (fun t a ha ht hok => (hs t a ha ht).mpr hok) h0 h0

end Runs
