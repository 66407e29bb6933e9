/-
# Versions as lists of tokens

`compare_version_string` takes its strings apart as it goes: in each turn it
reads a number at the start of both with `%i`, skips their digits, and
compares the runs up to the next digits. So it compares two non-empty strings
as lists of tokens, each a number and a run, and the list that ends first
comes first (`compareVersionString_tokens`). In the runs no two different
strings tie, as the order of their characters is total.

Key definitions: `compareTokens`, `DigitFree`.
Key theorems: `compareSubstring_eq_zero`, `compareTokens_eq`, `compareVersionString_tokens`.
-/
import Dbp.Mgr.VersionOrder

namespace Dbp

open CLib Compare

/-- The comparison of lists of tokens: number by number and run by run. -/
def compareTokens : List VersionToken → List VersionToken → ℤ
  | [], [] => 0
  | [], _ :: _ => -1
  | _ :: _, [] => 1
  | (m, r) :: l, (n, t) :: l' =>
    if m < n then -1
    else if n < m then 1
    else if compareSubstring r t ≠ 0 then compareSubstring r t
    else compareTokens l l'

/-- A run without digits. -/
def DigitFree (r : CStr) : Prop := ∀ c ∈ r, isdigit c = false

/-! ### Runs -/

theorem runKey_digitFree {r : CStr} (h : DigitFree r) : runKey r = r.map rank ++ [0] := by
  rw [runKey, List.takeWhile_eq_self_iff.mpr fun c hc => by rw [h c hc]; rfl]

/-- Different runs never tie. -/
theorem compareSubstring_eq_zero {r t : CStr} (hr : DigitFree r) (ht : DigitFree t) : compareSubstring r t = 0 ↔ r = t := by
  rw [compareSubstring_eq, order_eq_zero, runKey_digitFree hr, runKey_digitFree ht, List.append_left_inj]
  exact (List.map_injective_iff.mpr rank_injective).eq_iff

/-! ### Tokens -/

/-- The comparison of lists of tokens is that of their keys. -/
theorem compareTokens_eq : ∀ l m : List VersionToken, compareTokens l m = order (l.map (·.key)) (m.map (·.key))
  | [], [] => (order_self _).symm
  | [], b :: m => (order_nil_cons _ _).symm
  | a :: l, [] => (order_cons_nil _ _).symm
  | (i, r) :: l, (j, t) :: m => by
    rw [compareTokens, List.map_cons, List.map_cons, order_cons, VersionToken.key, VersionToken.key, order_toLex,
      compareTokens_eq l m, compareSubstring_eq]
    rcases lt_trichotomy i j with hlt | rfl | hgt
    · rw [if_pos hlt, order_of_lt hlt]
      rfl
    · rw [if_neg (lt_irrefl i), if_neg (lt_irrefl i), order_self, thenBy_zero]
      unfold thenBy
      split_ifs <;> first | rfl | contradiction
    · rw [if_neg hgt.not_gt, if_pos hgt, order_of_gt hgt]
      rfl

/-- **Tokens of versions.** Non-empty strings are compared by their tokens, runs that tie are equal, and the comparison is
a total preorder on the non-empty strings. -/
theorem compareVersionString_tokens :
    (∀ s t, s ≠ [] → t ≠ [] → compareVersionString s t = compareTokens (versionTokens s) (versionTokens t)) ∧
      (∀ r t, DigitFree r → DigitFree t → compareSubstring r t = 0 → r = t) ∧
      PreorderOn compareVersionString {s | s ≠ []} := by
  have horder : ∀ {s t : CStr}, s ≠ [] → t ≠ [] → compareVersionString s t = order (versionKeys s) (versionKeys t) := by
    intro s t hs ht
    rw [compareVersionString_eq]
    exact strayOrder_others (show ¬ Missing s from hs) (show ¬ Missing t from ht)
  refine ⟨fun s t hs ht => ?_, fun r t hr ht h => (compareSubstring_eq_zero hr ht).mp h, ?_⟩
  · rw [horder hs ht, compareTokens_eq]
    rfl
  · constructor
    · intro s hs
      rw [horder hs hs, order_self]
    · intro s _ t _
      rw [compareVersionString_swap s t, Int.sign_neg, Int.neg_neg]
    · intro s hs t ht u hu hst htu
      rw [horder hs ht, order_le_zero] at hst
      rw [horder ht hu, order_le_zero] at htu
      rw [horder hs hu, order_le_zero]
      exact hst.trans htu

end Dbp
