/-
# Runs of characters under the policy

Debian's policy orders the characters of a version: '~' before the end of
the part, the end before letters, and letters before all other characters.
`compare_substring` knows of '~', the end and the letters, but puts the
other characters before the letters. So it compares the runs of characters
that two strings begin with as the policy does, exactly when the first
characters that differ are not a letter and another character than '~'
(`compareSubstring_policy_iff`).

Key definitions: `policyRank`, `policyKey`, `LetterAndOther`, `LetterMeetsOther`.
Key theorems: `order_policyRank`, `compareSubstring_policy_iff`.
-/
import Dbp.Mgr.VersionOrder

namespace Dbp

open CLib Compare

/-- Where the policy has a character: '~', then the end of the run at 0, then letters, then the others. -/
def policyRank (c : Char) : ℤ :=
  if c = '~' then -1 else if isalpha c then charVal c + 2 ^ 22 else charVal c + 2 ^ 23

/-- The longest prefix without digits, and its end. -/
def policyKey (s : CStr) : List ℤ := (s.takeWhile (!isdigit ·)).map policyRank ++ [0]

/-- A letter and a character that is neither a letter nor '~'. -/
def LetterAndOther (c d : Char) : Prop := isalpha c ∧ !isalpha d ∧ d ≠ '~'

instance (c d : Char) : Decidable (LetterAndOther c d) := inferInstanceAs (Decidable (_ ∧ _))

/-- The first characters in which the prefixes without digits differ are a letter and another character than '~'. -/
def LetterMeetsOther (s t : CStr) : Prop :=
  FirstDiff (fun c d => LetterAndOther c d ∨ LetterAndOther d c) (s.takeWhile (!isdigit ·)) (t.takeWhile (!isdigit ·))

theorem policyRank_pos {c : Char} (h : c ≠ '~') : 0 < policyRank c := by
  have := charVal_bound c
  rw [policyRank, if_neg h]
  split_ifs <;> omega

theorem policyRank_injective : Function.Injective policyRank := by
  intro c d h
  have hc := charVal_bound c
  have hd := charVal_bound d
  unfold policyRank at h
  split_ifs at h with hct hdt
  · rw [hct, hdt]
  all_goals first | omega | exact charVal_inj (by omega)

theorem rank_ne_zero (c : Char) : 0 ≠ rank c := by
  by_cases h : c = '~'
  · rw [h, rank_tilde]
    omega
  · have := rank_pos h
    omega

/-- Before the end of a run there is only '~', for both. -/
theorem order_zero_rank (c : Char) : order 0 (rank c) = order 0 (policyRank c) := by
  by_cases h : c = '~'
  · subst h
    rfl
  · rw [order_of_lt (rank_pos h), order_of_lt (policyRank_pos h)]

/-- The two orders differ in letters against others. -/
theorem order_policyRank (c d : Char) :
    order (rank c) (rank d) ≠ order (policyRank c) (policyRank d) ↔ LetterAndOther c d ∨ LetterAndOther d c := by
  have hc := charVal_bound c
  have hd := charVal_bound d
  by_cases hct : c = '~'
  · subst hct
    by_cases hdt : d = '~'
    · simp [hdt, LetterAndOther]
    · have hr := rank_pos hdt
      have hp := policyRank_pos hdt
      rw [order_of_lt (by rw [rank_tilde]; omega), order_of_lt (show policyRank '~' < _ by exact lt_trans (by decide) hp)]
      simp [LetterAndOther, show isalpha '~' = false from rfl]
  · by_cases hdt : d = '~'
    · subst hdt
      have hr := rank_pos hct
      have hp := policyRank_pos hct
      rw [order_of_gt (by rw [rank_tilde]; omega), order_of_gt (show policyRank '~' < _ by exact lt_trans (by decide) hp)]
      simp [LetterAndOther, show isalpha '~' = false from rfl]
    · unfold rank policyRank LetterAndOther
      rw [if_neg hct, if_neg hdt, if_neg hct, if_neg hdt]
      cases hca : isalpha c <;> cases hda : isalpha d <;>
        simp only [order, Bool.false_eq_true, Bool.not_true, Bool.not_false, if_true, if_false] <;>
        split_ifs <;> simp <;> omega

/-- **Text chunks follow the policy** exactly where no letter meets another character first. -/
theorem compareSubstring_policy_iff (s t : CStr) :
    (compareSubstring s t).sign = (order (policyKey s) (policyKey t)).sign ↔ ¬ LetterMeetsOther s t := by
  have hkeys := order_keys_iff rank_injective policyRank_injective order_zero_rank rank_ne_zero
    (s.takeWhile (!isdigit ·)) (t.takeWhile (!isdigit ·))
  rw [FirstDiff.congr fun c d _ => order_policyRank c d] at hkeys
  rw [compareSubstring_eq, order_sign, order_sign]
  exact hkeys

/-- A letter and another character: the policy has "a" before "+". -/
theorem compareSubstring_policy_plus :
    (compareSubstring (lit "a") (lit "+")).sign ≠ (order (policyKey (lit "a")) (policyKey (lit "+"))).sign := by decide

end Dbp
