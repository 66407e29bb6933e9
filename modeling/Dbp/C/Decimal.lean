/-
# Decimal numbers

What `printf` writes for an integer, `atoi`, `atoll` and `sscanf("%u")` read
back, if it is in the range of their type: the digits are digits in base 10,
they end with the string, and no white space or sign but a minus stands
before them.

Key theorems: `scan_formatInt`, `atoi_formatInt`, `atoll_formatInt`,
`scanUnsigned_toDigits`, `length_formatInt_le`.
-/
import Dbp.C.Scanf

namespace CLib

theorem isdigit_toDigits {n : ℕ} {c : Char} (h : c ∈ Nat.toDigits 10 n) : isdigit c = true := by
  have hd := Nat.isDigit_of_mem_toDigits (by decide) (by decide) h
  simpa [Char.isDigit, isdigit, UInt32.le_iff_toNat_le] using hd

theorem digitVal_of_isdigit {c : Char} (h : isdigit c = true) : digitVal c = c.toNat - 48 := if_pos h

theorem digitsVal_toDigits (n : ℕ) : digitsVal 10 (Nat.toDigits 10 n) = n := by
  have hval : ∀ (s : CStr) (k : ℕ), (∀ c ∈ s, isdigit c = true) →
      s.foldl (fun n c => 10 * n + digitVal c) k = Nat.ofDigitChars 10 s k := by
    intro s
    induction s with
    | nil => exact fun _ _ => (Nat.ofDigitChars_nil).symm
    | cons c s ih =>
      intro k h
      rw [List.foldl_cons, Nat.ofDigitChars_cons, ih _ fun x hx => h x (List.mem_cons_of_mem _ hx),
        digitVal_of_isdigit (h c List.mem_cons_self)]
      rfl
  rw [digitsVal, hval _ _ fun c => isdigit_toDigits, Nat.ofDigitChars_ten_toDigits]

theorem digits_toDigits (n : ℕ) : digits 10 (Nat.toDigits 10 n) = Nat.toDigits 10 n := by
  apply List.takeWhile_eq_self_iff.mpr
  intro c hc
  have hd := isdigit_toDigits hc
  rw [digitVal_of_isdigit hd, decide_eq_true_eq]
  simp only [isdigit, Bool.and_eq_true, decide_eq_true_eq] at hd
  omega

theorem toDigits_cons (n : ℕ) : ∃ c s, Nat.toDigits 10 n = c :: s ∧ isdigit c = true := by
  obtain ⟨c, s, h⟩ := List.exists_cons_of_ne_nil (@Nat.toDigits_ne_nil n 10)
  exact ⟨c, s, h, isdigit_toDigits (by rw [h]; exact List.mem_cons_self)⟩

theorem scanSign_digit {c : Char} (h : isdigit c = true) (s : CStr) :
    scanSign ((c :: s).dropWhile isspace) = (false, c :: s) := by
  have hs : isspace c = false := by
    by_contra hs
    have hc : isspace c = true := by simpa using hs
    simp only [isspace, Bool.or_eq_true, beq_iff_eq] at hc
    rcases hc with ((((rfl | rfl) | rfl) | rfl) | rfl) | rfl <;> revert h <;> decide
  rw [List.dropWhile_cons_of_neg (by simp [hs])]
  have hm : c ≠ '-' := by
    rintro rfl
    revert h
    decide
  have hp : c ≠ '+' := by
    rintro rfl
    revert h
    decide
  unfold scanSign
  split <;> simp_all

/-- The sign and the digits of a number. -/
theorem scan_formatInt (n : ℤ) : scanSign ((formatInt n).dropWhile isspace) =
    (decide (n < 0), Nat.toDigits 10 n.natAbs) := by
  unfold formatInt
  split_ifs with h
  · rw [List.dropWhile_cons_of_neg (by decide), scanSign]
    simp [h]
  · obtain ⟨c, s, hs, hc⟩ := toDigits_cons n.natAbs
    rw [hs, scanSign_digit hc]
    simp [h]

theorem value_formatInt (n : ℤ) : (if decide (n < 0) = true then -((digitsVal 10 (digits 10 (Nat.toDigits 10 n.natAbs)) : ℕ) : ℤ)
    else ((digitsVal 10 (digits 10 (Nat.toDigits 10 n.natAbs)) : ℕ) : ℤ)) = n := by
  rw [digits_toDigits, digitsVal_toDigits]
  split_ifs with h
  · rw [decide_eq_true_eq] at h
    omega
  · rw [decide_eq_true_eq] at h
    omega

theorem atoll_formatInt {n : ℤ} (h : -2 ^ 63 ≤ n) (h' : n < 2 ^ 63) : atoll (formatInt n) = n := by
  simp only [atoll, scan_formatInt, value_formatInt]
  omega

theorem atoi_formatInt {n : ℤ} (h : -2 ^ 31 ≤ n) (h' : n < 2 ^ 31) : atoi (formatInt n) = n := by
  simp only [atoi, scan_formatInt, value_formatInt]
  rw [clampInt, show max (-2 ^ 63) (min (2 ^ 63 - 1) n) = n by omega, toInt32_eq h h']

theorem scanUnsigned_toDigits {n : ℕ} (h : n < 2 ^ 32) : scanUnsigned (Nat.toDigits 10 n) = some n := by
  obtain ⟨c, s, hs, hc⟩ := toDigits_cons n
  have hsign := scanSign_digit hc s
  rw [← hs] at hsign
  simp only [scanUnsigned, hsign, digits_toDigits, digitsVal_toDigits, Nat.toDigits_ne_nil, if_false, Bool.false_eq_true]
  rw [if_neg (by omega), Nat.mod_eq_of_lt h]

theorem toDigits_inj {m n : ℕ} (h : Nat.toDigits 10 m = Nat.toDigits 10 n) : m = n := by
  rw [← digitsVal_toDigits m, h, digitsVal_toDigits]

theorem length_toDigits_le {n k : ℕ} (hk : 0 < k) (h : n < 10 ^ k) : (Nat.toDigits 10 n).length ≤ k :=
  (Nat.length_toDigits_le_iff (by decide) hk).mpr h

theorem formatInt_natCast (n : ℕ) : formatInt n = Nat.toDigits 10 n := by
  rw [formatInt, if_neg (by omega), Int.natAbs_natCast]

end CLib
