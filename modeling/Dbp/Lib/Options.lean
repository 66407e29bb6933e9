/-
# Options before operands

A program goes through its arguments once. Up to the first that is no option
each of them changes the settings or ends the program; from there on all are
operands, also those that look like options. The loop comes through exactly
if the arguments are options that let it, and operands of which the first is
no option (`loop_done_iff`).

Key definitions: `Parsed`, `loop`.
Key theorems: `loop_operands`, `loop_done_iff`.
-/
import Mathlib.Data.List.Basic

namespace Options

variable {α C R : Type*}

/-- What the loop comes to: the settings and the operands, or an end before it is through. -/
inductive Parsed (α C R : Type*)
  | stopped (r : R)
  | done (c : C) (operands : List α)
deriving Repr, DecidableEq

variable (isOption : α → Bool) (act : C → α → Except R C)

/-- The loop, with whether options are still taken, the settings and the operands so far. -/
def loop : Bool → C → List α → List α → Parsed α C R
  | _, c, operands, [] => .done c operands
  | parse, c, operands, x :: xs =>
    if parse && isOption x then
      match act c x with
      | .error r => .stopped r
      | .ok c => loop true c operands xs
    else loop false c (operands ++ [x]) xs

/-- After the first operand all are. -/
theorem loop_operands (c : C) : ∀ operands xs : List α,
    loop isOption act false c operands xs = .done c (operands ++ xs)
  | operands, [] => by rw [loop, List.append_nil]
  | operands, x :: xs => by
    rw [loop, Bool.false_and, if_neg Bool.false_ne_true, loop_operands c (operands ++ [x]) xs, List.append_assoc]
    rfl

/-- The loop takes options as long as there are. -/
theorem loop_option {x : α} (hx : isOption x = true) (c : C) (xs : List α) : loop isOption act true c [] (x :: xs) =
    match act c x with
    | .error r => .stopped r
    | .ok c => loop isOption act true c [] xs := by
  rw [loop, Bool.true_and, if_pos hx]

theorem loop_operand {x : α} (hx : isOption x = false) (c : C) (xs : List α) :
    loop isOption act true c [] (x :: xs) = .done c (x :: xs) := by
  rw [loop, Bool.true_and, hx, if_neg Bool.false_ne_true, loop_operands]
  rfl

/-- **The loop comes through** options that let it, up to an operand or the end. -/
theorem loop_done_iff {c' : C} {operands : List α} : ∀ (c : C) (xs : List α),
    loop isOption act true c [] xs = .done c' operands ↔
      ∃ opts, xs = opts ++ operands ∧ (∀ x ∈ opts, isOption x = true) ∧ opts.foldlM act c = .ok c' ∧
        ∀ x ∈ operands.head?, isOption x = false
  | c, [] => by
    rw [loop, Parsed.done.injEq]
    constructor
    · rintro ⟨rfl, rfl⟩
      exact ⟨[], rfl, fun _ hx => (nomatch hx), rfl, fun _ hx => nomatch hx⟩
    · rintro ⟨opts, hxs, -, hfold, -⟩
      obtain ⟨rfl, rfl⟩ := List.append_eq_nil_iff.mp hxs.symm
      exact ⟨Except.ok.inj hfold, rfl⟩
  | c, x :: xs => by
    cases hx : isOption x with
    | false =>
      rw [loop_operand isOption act hx, Parsed.done.injEq]
      constructor
      · rintro ⟨rfl, rfl⟩
        refine ⟨[], rfl, fun _ hy => (nomatch hy), rfl, fun y hy => ?_⟩
        rwa [← Option.some.inj hy]
      · rintro ⟨opts, hxs, hopts, hfold, -⟩
        cases opts with
        | nil => exact ⟨Except.ok.inj hfold, hxs⟩
        | cons y opts =>
          obtain ⟨rfl, -⟩ := List.cons.inj hxs
          have hy := hopts x List.mem_cons_self
          rw [hx] at hy
          exact absurd hy Bool.false_ne_true
    | true =>
      rw [loop_option isOption act hx]
      have hfirst : ∀ opts, x :: xs = opts ++ operands → (∀ y ∈ operands.head?, isOption y = false) →
          ∃ opts', opts = x :: opts' ∧ xs = opts' ++ operands := by
        intro opts hxs hhead
        cases opts with
        | nil =>
          have hy := hhead x (by rw [← show x :: xs = operands from hxs]; rfl)
          rw [hx] at hy
          exact absurd hy Bool.true_eq_false.mp
        | cons y opts =>
          obtain ⟨rfl, h⟩ := List.cons.inj hxs
          exact ⟨opts, rfl, h⟩
      cases hact : act c x with
      | error r =>
        refine iff_of_false (fun h => nomatch h) ?_
        rintro ⟨opts, hxs, -, hfold, hhead⟩
        obtain ⟨opts', rfl, -⟩ := hfirst opts hxs hhead
        rw [List.foldlM_cons, hact] at hfold
        exact nomatch hfold
      | ok c₁ =>
        refine (loop_done_iff c₁ xs).trans ⟨?_, ?_⟩
        · rintro ⟨opts, rfl, hopts, hfold, hhead⟩
          refine ⟨x :: opts, rfl, List.forall_mem_cons.mpr ⟨hx, hopts⟩, ?_, hhead⟩
          rw [List.foldlM_cons, hact]
          exact hfold
        · rintro ⟨opts, hxs, hopts, hfold, hhead⟩
          obtain ⟨opts', rfl, rfl⟩ := hfirst opts hxs hhead
          rw [List.foldlM_cons, hact] at hfold
          exact ⟨opts', rfl, fun y hy => hopts y (List.mem_cons_of_mem x hy), hfold, hhead⟩

end Options
