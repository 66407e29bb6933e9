/-
# Numbers in versions

`compare_version_string` reads the numbers of two versions with `%i`: a
number with a leading zero is read as an octal one, up to a digit 8 or 9, a
zero before an 'x' as a hexadecimal one, which takes in letters and digits
that follow, and what does not fit into 64 bits is cut off before the low 32
bits are taken. So two versions with the numbers `m` and `n` at the same
place compare by what is read there (`compareVersionString_number`), and as
the decimal numbers do exactly where that is in order
(`compare_number_iff`).

Key definitions: `readNumber`, `hexLead`, `readLead`, `compareRead`, `compareAfter`, `ReadInOrder`.
Key theorems: `scanNumber_digits`, `compareVersionString_number`, `compare_number_iff`, `readNumber_plain`.
-/
import Dbp.C.Decimal
import Dbp.Mgr.VersionOrder

namespace Dbp

open CLib Compare

/-! ### What is read at a number -/

/-- A digit of a hexadecimal number. -/
def isxdigit (c : Char) : Bool := decide (digitVal c < 16)

/-- The `x` of a hexadecimal number. -/
def isX (c : Char) : Bool := c == 'x' || c == 'X'

/-- What `%i` reads at the number `m` in front of `s`. -/
def readNumber (m s : CStr) : ℤ :=
  clampInt <|
    if m = lit "0" ∧ s.head?.any isX then digitsVal 16 (digits 16 s.tail)
    else if m.head? = some '0' then digitsVal 8 (digits 8 m)
    else digitsVal 10 m

/-- The hexadecimal digits after the `0x` that a string ends with, if the zero is a number of its own; the flag says
whether a digit comes before the string. -/
def hexLeadFrom : Bool → CStr → Option CStr
  | _, [] => none
  | digit, c :: s =>
    if !digit && c == '0' && s.head?.any isX && s.tail.all isxdigit then some s.tail else hexLeadFrom (isdigit c) s

/-- The hexadecimal digits after the `0x` that a string ends with. -/
def hexLead (p : CStr) : Option CStr := hexLeadFrom false p

/-- What `%i` reads at a `0x` that `p` ends with, where the number `m` and then `s` follow; 0 if there is none. -/
def readLead (p m s : CStr) : ℤ :=
  match hexLead p with
  | none => 0
  | some h => clampInt (digitsVal 16 (h ++ m ++ digits 16 s))

/-- The comparison of the numbers read at `m` and `n` after `p`. -/
def compareRead (p m s n t : CStr) : ℤ :=
  thenBy (order (readLead p m s) (readLead p n t)) (order (readNumber m s) (readNumber n t))

/-- The comparison of what follows the numbers. -/
def compareAfter (s t : CStr) : ℤ :=
  thenBy (compareSubstring s t) (compareVersionString (findNextNumeric s) (findNextNumeric t))

theorem digitVal_of_not_isdigit {c : Char} (h : isdigit c = false) : 10 ≤ digitVal c := by
  unfold digitVal
  rw [if_neg (by simp [h])]
  split_ifs with h1 h2
  · simp only [Bool.and_eq_true, decide_eq_true_eq] at h1
    omega
  · simp only [Bool.and_eq_true, decide_eq_true_eq] at h2
    omega
  · omega

theorem digitVal_lt {c : Char} (h : isdigit c = true) : digitVal c < 10 := by
  rw [digitVal_of_isdigit h]
  simp only [isdigit, Bool.and_eq_true, decide_eq_true_eq] at h
  omega

/-- The digits of a number, up to base 10, end with it. -/
theorem digits_number {b : ℕ} (hb : b ≤ 10) (m : CStr) {s : CStr} (hs : s.head?.all (!isdigit ·)) :
    digits b (m ++ s) = digits b m := by
  induction m with
  | nil =>
    cases s with
    | nil => rfl
    | cons c s =>
      have hc := digitVal_of_not_isdigit (c := c) (by simpa using hs)
      exact List.takeWhile_cons_of_neg (by simp; omega)
  | cons c m ih =>
    unfold digits at ih ⊢
    rw [List.cons_append, List.takeWhile_cons, List.takeWhile_cons, ih]

theorem digits_ten {m : CStr} (hm : ∀ c ∈ m, isdigit c) : digits 10 m = m :=
  List.takeWhile_eq_self_iff.mpr fun c hc => decide_eq_true (digitVal_lt (hm c hc))

/-- What is read, by its base and digits; 0 where there are none. -/
theorem scanNumber_of_sign {s u : CStr} (h : scanSign (s.dropWhile isspace) = (false, u)) :
    scanNumber s = clampInt (digitsVal (scanBase u).1 (scanBase u).2) := by
  have hzero : clampInt 0 = 0 := by decide
  unfold scanNumber scanInt
  rw [h]
  by_cases hnone : (scanBase u).2 = []
  · simp [hnone, digitsVal, hzero]
  · simp [hnone]

theorem scanBase_hex {c : Char} (h : isX c = true) (s : CStr) : scanBase ('0' :: c :: s) = (16, digits 16 s) := by
  have hc : c = 'x' ∨ c = 'X' := by simpa [isX] using h
  rcases hc with rfl | rfl <;> rfl

theorem scanBase_octal {s : CStr} (h : s.head?.any isX = false) : scanBase ('0' :: s) = (8, digits 8 ('0' :: s)) := by
  cases s with
  | nil => rfl
  | cons c s =>
    have hc : c ≠ 'x' ∧ c ≠ 'X' := by simpa [isX] using h
    rw [scanBase] <;> simp [hc]

theorem scanBase_decimal {c : Char} (h : c ≠ '0') (s : CStr) : scanBase (c :: s) = (10, digits 10 (c :: s)) := by
  rw [scanBase] <;> simp [h]

theorem isX_not_digit {c : Char} (h : isX c = true) : isdigit c = false := by
  have hc : c = 'x' ∨ c = 'X' := by simpa [isX] using h
  rcases hc with rfl | rfl <;> rfl

/-- What is read at a number. -/
theorem scanNumber_digits {m s : CStr} (hne : m ≠ []) (hm : ∀ c ∈ m, isdigit c) (hs : s.head?.all (!isdigit ·)) :
    scanNumber (m ++ s) = readNumber m s := by
  obtain ⟨c, m, rfl⟩ := List.exists_cons_of_ne_nil hne
  obtain ⟨hc, hm'⟩ := List.forall_mem_cons.mp hm
  rw [List.cons_append, scanNumber_of_sign (scanSign_digit hc _), readNumber]
  by_cases h0 : c = '0'
  · subst h0
    by_cases hx : m = [] ∧ s.head?.any isX
    · obtain ⟨rfl, hx⟩ := hx
      rw [if_pos ⟨rfl, hx⟩]
      cases s with
      | nil => cases hx
      | cons d s => rw [List.nil_append, scanBase_hex (by simpa using hx)]; rfl
    · have hoct : (m ++ s).head?.any isX = false := by
        cases m with
        | nil => simpa using hx
        | cons d m =>
          rw [List.cons_append, List.head?_cons, Option.any_some, Bool.eq_false_iff]
          intro hd
          have := isX_not_digit hd
          simp [hm' d List.mem_cons_self] at this
      rw [if_neg fun h => hx ⟨(List.cons.inj h.1).2, h.2⟩, if_pos List.head?_cons, scanBase_octal hoct, ← List.cons_append,
        digits_number (by omega) _ hs]
  · rw [if_neg fun h => h0 (List.cons.inj h.1).1, if_neg (by simpa using h0), scanBase_decimal h0, ← List.cons_append,
      digits_number le_rfl _ hs, digits_ten hm]

/-! ### The text before the numbers -/

theorem hexLeadFrom_digits {d : CStr} (hd : ∀ c ∈ d, isdigit c) (s : CStr) : hexLeadFrom true (d ++ s) = hexLeadFrom true s := by
  induction d with
  | nil => rfl
  | cons c d ih =>
    obtain ⟨hc, hd⟩ := List.forall_mem_cons.mp hd
    rw [List.cons_append, hexLeadFrom, if_neg (by simp), hc, ih hd]

/-- A run of other characters has no number. -/
theorem hexLeadFrom_run {r : CStr} (hne : r ≠ []) (hr : ∀ c ∈ r, !isdigit c) (b : Bool) (s : CStr) :
    hexLeadFrom b (r ++ s) = hexLead s := by
  induction r generalizing b with
  | nil => exact absurd rfl hne
  | cons c r ih =>
    obtain ⟨hc, hr⟩ := List.forall_mem_cons.mp hr
    have hcf : isdigit c = false := by simpa using hc
    have h0 : (c == '0') = false := by
      rw [beq_eq_false_iff_ne]
      rintro rfl
      cases hcf
    rw [List.cons_append, hexLeadFrom, if_neg (by simp [h0]), hcf]
    cases r with
    | nil => rfl
    | cons c' r => exact ih (List.cons_ne_nil c' r) hr false

/-- Hexadecimal digits have no `x`. -/
theorem hexLeadFrom_xdigits : ∀ (b : Bool) {s : CStr}, (∀ c ∈ s, isxdigit c) → hexLeadFrom b s = none
  | _, [], _ => rfl
  | b, c :: s, h => by
    have hx : s.head?.any isX = false := by
      cases s with
      | nil => rfl
      | cons d s =>
        rw [List.head?_cons, Option.any_some, Bool.eq_false_iff]
        intro hd
        have hd' : d = 'x' ∨ d = 'X' := by simpa [isX] using hd
        have := h d (by simp)
        rcases hd' with rfl | rfl <;> cases this
    rw [hexLeadFrom, if_neg (by simp [hx])]
    exact hexLeadFrom_xdigits _ fun d hd => h d (List.mem_cons_of_mem _ hd)

/-- A number `d` in front of `r` and `p` is read as a hexadecimal one, and up to the end of `p`. -/
def HexHere (d r p : CStr) : Prop := d = lit "0" ∧ r.head?.any isX ∧ ∀ c ∈ r.tail ++ p, isxdigit c

instance (d r p : CStr) : Decidable (HexHere d r p) := inferInstanceAs (Decidable (_ ∧ _ ∧ _))

section Chunk

variable {d r p : CStr} (hr : r ≠ [])

include hr

/-- A number that is not read to the end of what is known is read alike, whatever follows. -/
theorem readNumber_congr (h : ¬ HexHere d r p) (x y : CStr) : readNumber d (r ++ (p ++ x)) = readNumber d (r ++ (p ++ y)) := by
  obtain ⟨c, r, rfl⟩ := List.exists_cons_of_ne_nil hr
  have hhead : ∀ z, (c :: r ++ (p ++ z)).head?.any isX = (some c).any isX := fun z => rfl
  unfold readNumber
  rw [hhead, hhead, List.cons_append, List.cons_append, List.tail_cons, List.tail_cons]
  by_cases hx : d = lit "0" ∧ (some c).any isX
  · have hstop : ∀ z, digits 16 (r ++ (p ++ z)) = digits 16 (r ++ p) := by
      intro z
      have hnot : ¬ ∀ c ∈ r ++ p, decide (digitVal c < 16) = true := fun hall => h ⟨hx.1, hx.2, hall⟩
      rw [← List.append_assoc]
      unfold digits
      rw [List.takeWhile_append, if_neg fun he => hnot (List.takeWhile_eq_self_iff.mp (List.takeWhile_prefix _ |>.eq_of_length he))]
    rw [if_pos hx, if_pos hx, hstop, hstop]
  · rw [if_neg hx, if_neg hx]

/-- A number that is read to the end of what is known goes on with the digits that follow. -/
theorem readNumber_hex (h : HexHere d r p) {m : CStr} (hm : ∀ c ∈ m, isdigit c) (s : CStr) :
    readNumber d (r ++ (p ++ (m ++ s))) = clampInt (digitsVal 16 (r.tail ++ p ++ m ++ digits 16 s)) := by
  obtain ⟨c, r, rfl⟩ := List.exists_cons_of_ne_nil hr
  obtain ⟨hd, hx, hall⟩ := h
  have hm16 : ∀ c ∈ m, decide (digitVal c < 16) = true := fun c hc => by
    have := digitVal_lt (hm c hc)
    exact decide_eq_true (by omega)
  have hread : digits 16 (r ++ (p ++ (m ++ s))) = r ++ p ++ m ++ digits 16 s := by
    rw [← List.append_assoc, ← List.append_assoc]
    exact List.takeWhile_append_of_pos fun c hc => (List.mem_append.mp hc).elim (hall c) (hm16 c)
  rw [readNumber, if_pos ⟨hd, hx⟩, List.cons_append, List.tail_cons, List.tail_cons, hread]

/-- Where it is, that is the lead. -/
theorem hexLead_hex (h : HexHere d r p) : hexLead (d ++ (r ++ p)) = some (r.tail ++ p) ∧ hexLead p = none := by
  obtain ⟨c, r, rfl⟩ := List.exists_cons_of_ne_nil hr
  obtain ⟨rfl, hx, hall⟩ := h
  have hall' : (r ++ p).all isxdigit = true := List.all_eq_true.mpr hall
  constructor
  · show hexLeadFrom false ('0' :: (c :: r ++ p)) = _
    rw [hexLeadFrom, if_pos]
    · rfl
    · simpa [hall'] using hx
  · exact hexLeadFrom_xdigits false fun c hc => hall c (List.mem_append_right _ hc)

variable (hrn : ∀ c ∈ r, !isdigit c)

include hrn

/-- Elsewhere the lead is in what comes later. -/
theorem hexLead_later (hne : d ≠ []) (hd : ∀ c ∈ d, isdigit c) (h : ¬ HexHere d r p) : hexLead (d ++ (r ++ p)) = hexLead p := by
  obtain ⟨c, d, rfl⟩ := List.exists_cons_of_ne_nil hne
  obtain ⟨hc, hd'⟩ := List.forall_mem_cons.mp hd
  rw [List.cons_append, hexLead, hexLeadFrom, if_neg, hc, hexLeadFrom_digits hd', hexLeadFrom_run hr hrn]
  intro hcond
  simp only [Bool.and_eq_true, beq_iff_eq] at hcond
  obtain ⟨⟨⟨-, rfl⟩, hx⟩, hall⟩ := hcond
  obtain ⟨x, r, rfl⟩ := List.exists_cons_of_ne_nil hr
  cases d with
  | nil => exact h ⟨rfl, hx, List.all_eq_true.mp hall⟩
  | cons y d =>
    have hy := isX_not_digit (by simpa using hx : isX y = true)
    simp [hd' y List.mem_cons_self] at hy

end Chunk

/-- A number has neither white space nor a sign before it. -/
theorem scanSign_number {x : CStr} (hx : x.head?.any isdigit) : scanSign (x.dropWhile isspace) = (false, x) := by
  cases x with
  | nil => cases hx
  | cons c x => exact scanSign_digit (by simpa using hx) x

/-- Nothing is read where another character follows the sign. -/
theorem scanNumber_none {s : CStr} {c : Char} {u : CStr} (hc : isdigit c = false)
    (hs : scanSign (s.dropWhile isspace) = (false, c :: u)) : scanNumber s = 0 := by
  have h0 : c ≠ '0' := by
    rintro rfl
    cases hc
  have hten := digitVal_of_not_isdigit hc
  have hnil : digits 10 (c :: u) = [] := List.takeWhile_cons_of_neg (by simp; omega)
  rw [scanNumber_of_sign hs, scanBase_decimal h0, hnil]
  decide

/-- What is read at a run of other characters: what is read at the number after it, or nothing. -/
theorem scanNumber_run {r : CStr} (hr : ∀ c ∈ r, !isdigit c) (hminus : '-' ∉ r) :
    (∀ x : CStr, x.head?.any isdigit → scanNumber (r ++ x) = scanNumber x) ∨
      ∀ x : CStr, x.head?.any isdigit → scanNumber (r ++ x) = 0 := by
  -- the number is read after white space and a sign
  obtain ⟨w, u, rfl, hw, hu⟩ := exists_run isspace r
  have hdrop : ∀ x : CStr, (w ++ u ++ x).dropWhile isspace = (u ++ x).dropWhile isspace := fun x => by
    rw [List.append_assoc, dropWhile_isspace_blank hw]
  cases u with
  | nil =>
    refine .inl fun x hx => ?_
    have hsign := scanSign_number hx
    rw [scanNumber_of_sign ((congrArg scanSign (hdrop x)).trans hsign), scanNumber_of_sign hsign]
  | cons c u =>
    have hc : isspace c = false := by simpa using hu
    have hdrop' : ∀ x : CStr, (w ++ c :: u ++ x).dropWhile isspace = c :: (u ++ x) := fun x => by
      rw [hdrop, List.cons_append, List.dropWhile_cons_of_neg (by simp [hc])]
    have hcd : isdigit c = false := by simpa using hr c (by simp)
    have hcm : c ≠ '-' := by
      rintro rfl
      exact hminus (by simp)
    by_cases hp : c = '+'
    · subst hp
      cases u with
      | nil =>
        refine .inl fun x hx => ?_
        have hplus : scanSign ((w ++ ['+'] ++ x).dropWhile isspace) = (false, x) := by
          rw [hdrop']
          rfl
        rw [scanNumber_of_sign hplus, scanNumber_of_sign (scanSign_number hx)]
      | cons d u =>
        have hd : isdigit d = false := by simpa using hr d (by simp)
        refine .inr fun x _ => scanNumber_none hd (u := u ++ x) ?_
        rw [hdrop']
        rfl
    · refine .inr fun x _ => scanNumber_none hcd (u := u ++ x) ?_
      rw [hdrop', scanSign] <;> simp [hcm, hp]

/-! ### The comparison -/

/-- A text that does not end with a digit begins with a number, perhaps an empty one, and a run of other characters. -/
theorem exists_chunk {p : CStr} (hne : p ≠ []) (hlast : p.getLast?.all (!isdigit ·)) :
    ∃ d r q, p = d ++ (r ++ q) ∧ (∀ c ∈ d, isdigit c) ∧ r ≠ [] ∧ (∀ c ∈ r, !isdigit c) ∧ q.head?.all isdigit ∧
      q.getLast?.all (!isdigit ·) := by
  obtain ⟨d, u, rfl, hd, hu⟩ := exists_run isdigit p
  obtain ⟨r, q, rfl, hr, hq⟩ := exists_run (!isdigit ·) u
  refine ⟨d, r, q, rfl, hd, ?_, hr, by simpa using hq, ?_⟩
  · rintro rfl
    cases q with
    | nil =>
      rw [List.append_nil, List.append_nil] at hlast hne
      rw [List.getLast?_eq_some_getLast hne] at hlast
      have := hd _ (List.getLast_mem hne)
      simp [this] at hlast
    | cons c q =>
      simp at hu hq
      rw [hu] at hq
      cases hq
  · cases q with
    | nil => rfl
    | cons c q => rwa [← List.append_assoc, List.getLast?_append_cons] at hlast

/-- A turn of the loop over the same text. -/
theorem compareVersionString_chunk {d r x y : CStr} (hd : ∀ c ∈ d, isdigit c) (hne : r ≠ []) (hr : ∀ c ∈ r, !isdigit c)
    (hx : x.head?.any isdigit) (hy : y.head?.any isdigit) :
    compareVersionString (d ++ (r ++ x)) (d ++ (r ++ y)) =
      thenBy (order (scanNumber (d ++ (r ++ x))) (scanNumber (d ++ (r ++ y)))) (compareVersionString x y) := by
  have hnonumeric : ∀ z : CStr, findNextNonumeric (d ++ (r ++ z)) = r ++ z := fun z => by
    obtain ⟨c, r, rfl⟩ := List.exists_cons_of_ne_nil hne
    exact dropWhile_append_stop hd (by simpa using hr c List.mem_cons_self)
  have hstop : ∀ z : CStr, z.head?.any isdigit → z.head?.all fun c => !!isdigit c := by
    intro z hz
    cases z with
    | nil => rfl
    | cons c z => simpa using hz
  have hchunk : ∀ z : CStr, z.head?.any isdigit → nextChunk (d ++ (r ++ z)) = z := fun z hz => by
    rw [nextChunk, hnonumeric]
    exact dropWhile_append_stop hr (hstop z hz)
  have hrun : ∀ z : CStr, z.head?.any isdigit → runKey (r ++ z) = r.map rank ++ [0] := fun z hz => by
    rw [runKey, takeWhile_append_stop hr (hstop z hz)]
  rw [compareVersionString_cons (by simp [hne]) (by simp [hne]), hnonumeric, hnonumeric, hchunk x hx, hchunk y hy,
    compareSubstring_eq, hrun x hx, hrun y hy, order_self, thenBy_zero]

/-- The comparison depends on the text before the numbers by its lead only. -/
theorem compareRead_congr {p q : CStr} (h : hexLead p = hexLead q) (m s n t : CStr) :
    compareRead p m s n t = compareRead q m s n t := by
  unfold compareRead readLead
  rw [h]

/-- A number, or a text that begins with a digit, begins with one before whatever follows. -/
theorem head?_number {m q : CStr} (hm : m ≠ []) (hmd : ∀ c ∈ m, isdigit c) (hq : q.head?.all isdigit) (s : CStr) :
    (q ++ (m ++ s)).head?.any isdigit := by
  obtain ⟨c, m, rfl⟩ := List.exists_cons_of_ne_nil hm
  cases q with
  | nil => simpa using hmd c List.mem_cons_self
  | cons d q => simpa using hq

section Number

variable {m n s t : CStr} (hm : m ≠ []) (hmd : ∀ c ∈ m, isdigit c) (hn : n ≠ []) (hnd : ∀ c ∈ n, isdigit c)
  (hs : s.head?.all (!isdigit ·)) (ht : t.head?.all (!isdigit ·))

include hm hmd hn hnd hs ht

/-- Two versions that begin with a number. -/
theorem compareVersionString_digits :
    compareVersionString (m ++ s) (n ++ t) = thenBy (order (readNumber m s) (readNumber n t)) (compareAfter s t) := by
  rw [compareVersionString_cons (by simp [hm]) (by simp [hn]), scanNumber_digits hm hmd hs, scanNumber_digits hn hnd ht,
    nextChunk, nextChunk, show findNextNonumeric (m ++ s) = s from dropWhile_append_stop hmd hs,
    show findNextNonumeric (n ++ t) = t from dropWhile_append_stop hnd ht]
  rfl

/-- Two versions with a number at the same place compare by what is read at a `0x` before it, what is read at the
number, and what follows. -/
theorem compareVersionString_number : ∀ (k : ℕ) (p : CStr), p.length ≤ k → p.getLast?.all (!isdigit ·) → '-' ∉ p →
    compareVersionString (p ++ (m ++ s)) (p ++ (n ++ t)) = thenBy (compareRead p m s n t) (compareAfter s t) := by
  have hnumber := compareVersionString_digits hm hmd hn hnd hs ht
  intro k
  induction k with
  | zero =>
    intro p hk _ _
    obtain rfl := List.eq_nil_of_length_eq_zero (Nat.le_zero.mp hk)
    exact hnumber
  | succ k ih =>
    intro p hk hlast hminus
    by_cases hp : p = []
    · subst hp
      exact hnumber
    · obtain ⟨d, r, q, rfl, hd, hrne, hr, hq, hqlast⟩ := exists_chunk hp hlast
      have hpos := List.length_pos_of_ne_nil hrne
      have hX := head?_number hm hmd hq s
      have hY := head?_number hn hnd hq t
      have ih := ih q (by simp at hk; omega) hqlast fun hc => hminus (by simp [hc])
      simp only [List.append_assoc]
      rw [compareVersionString_chunk hd hrne hr hX hY]
      by_cases hdne : d = []
      · subst hdne
        have hlead : hexLead (r ++ q) = hexLead q := hexLeadFrom_run hrne hr false q
        rw [List.nil_append, List.nil_append, List.nil_append]
        rcases scanNumber_run hr fun hc => hminus (by simp [hc]) with hread | hread
        · have hXY := compareVersionString_cons (s := q ++ (m ++ s)) (t := q ++ (n ++ t)) (by simp [hm]) (by simp [hn])
          rw [hread _ hX, hread _ hY, hXY, thenBy_self, ← hXY, ih, compareRead_congr hlead]
        · rw [hread _ hX, hread _ hY, order_self, thenBy_zero, ih, compareRead_congr hlead]
      · have hrun : ∀ z : CStr, (r ++ z).head?.all (!isdigit ·) := fun z => by
          obtain ⟨c, r, rfl⟩ := List.exists_cons_of_ne_nil hrne
          simpa using hr c List.mem_cons_self
        rw [scanNumber_digits hdne hd (hrun _), scanNumber_digits hdne hd (hrun _)]
        by_cases hhex : HexHere d r q
        · -- the lead is here, and there is none later
          obtain ⟨hlead, hnone⟩ := hexLead_hex hrne hhex
          rw [readNumber_hex hrne hhex hmd, readNumber_hex hrne hhex hnd, ih]
          simp only [compareRead, readLead, hlead, hnone, order_self, thenBy_zero, thenBy_assoc]
        · have hlead := hexLead_later hrne hr hdne hd hhex
          rw [readNumber_congr hrne hhex (m ++ s) (n ++ t), order_self, thenBy_zero, ih, compareRead_congr hlead]

end Number

/-! ### Versions -/

/-- A version without ':' and '-' is its upstream version. -/
theorem versionDecode_plain {v : CStr} (hne : v ≠ []) (hc : ':' ∉ v) (hm : '-' ∉ v) :
    versionDecode v = ⟨lit "0", v, lit "0"⟩ := by
  rw [versionDecode, if_neg hc, revisionDecode, if_neg hm, if_neg hne]

theorem dbpmgrDependCompareVersion_plain {v w : CStr} (hv : v ≠ [] ∧ ':' ∉ v ∧ '-' ∉ v) (hw : w ≠ [] ∧ ':' ∉ w ∧ '-' ∉ w) :
    dbpmgrDependCompareVersion v w = compareVersionString v w := by
  have hrev : compareVersionString (lit "0") (lit "0") = 0 := by decide
  unfold dbpmgrDependCompareVersion
  rw [versionDecode_plain hv.1 hv.2.1 hv.2.2, versionDecode_plain hw.1 hw.2.1 hw.2.2]
  dsimp only
  rw [if_neg (by simp), hrev]
  split_ifs with h
  · exact h.symm
  · rfl

/-- A number in decimal, at a place in a version where it begins and ends. -/
structure NumberAt (p m s : CStr) : Prop where
  ne : m ≠ []
  digits : ∀ c ∈ m, isdigit c
  before : p.getLast?.all (!isdigit ·)
  after : s.head?.all (!isdigit ·)
  plain : ∀ c ∈ p ++ s, c ≠ ':' ∧ c ≠ '-'

/-- The numbers are compared as decimal numbers. -/
def NumbersInOrder (p m s n t : CStr) : Prop :=
  (digitsVal 10 m < digitsVal 10 n → dbpmgrDependCompareVersion (p ++ (m ++ s)) (p ++ (n ++ t)) < 0) ∧
    (digitsVal 10 n < digitsVal 10 m → 0 < dbpmgrDependCompareVersion (p ++ (m ++ s)) (p ++ (n ++ t))) ∧
      (digitsVal 10 m = digitsVal 10 n → s = t → dbpmgrDependCompareVersion (p ++ (m ++ s)) (p ++ (n ++ t)) = 0)

/-- What is read is in the order of the decimal numbers, or the same where what follows is in that order; for the same
numbers with the same text after them, it is the same. -/
def ReadInOrder (p m s n t : CStr) : Prop :=
  (digitsVal 10 m < digitsVal 10 n → compareRead p m s n t < 0 ∨ compareRead p m s n t = 0 ∧ compareAfter s t < 0) ∧
    (digitsVal 10 n < digitsVal 10 m → 0 < compareRead p m s n t ∨ compareRead p m s n t = 0 ∧ 0 < compareAfter s t) ∧
      (digitsVal 10 m = digitsVal 10 n → s = t → compareRead p m s n t = 0)

instance (p m s n t : CStr) : Decidable (ReadInOrder p m s n t) := inferInstanceAs (Decidable (_ ∧ _ ∧ _))

theorem compareAfter_self (s : CStr) : compareAfter s s = 0 := by
  rw [compareAfter, compareSubstring_eq, order_self, thenBy_zero, compareVersionString_eq_zero]

/-- **Numbers are compared as decimal numbers** exactly where what is read is in their order. -/
theorem compare_number_iff (p m s n t : CStr) (hm : NumberAt p m s) (hn : NumberAt p n t) :
    NumbersInOrder p m s n t ↔ ReadInOrder p m s n t := by
  have hplain : ∀ {m s : CStr}, NumberAt p m s → p ++ (m ++ s) ≠ [] ∧ ':' ∉ p ++ (m ++ s) ∧ '-' ∉ p ++ (m ++ s) := by
    intro m s h
    have hdig : ∀ c ∈ m, c ≠ ':' ∧ c ≠ '-' := by
      intro c hc
      have := h.digits c hc
      constructor
      all_goals
        rintro rfl
        cases this
    have hall : ∀ c ∈ p ++ (m ++ s), c ≠ ':' ∧ c ≠ '-' := by
      intro c hc
      rcases List.mem_append.mp hc with hc | hc
      · exact h.plain c (List.mem_append_left _ hc)
      · exact (List.mem_append.mp hc).elim (hdig c) fun hc => h.plain c (List.mem_append_right _ hc)
    exact ⟨by simp [h.ne], fun hc => (hall _ hc).1 rfl, fun hc => (hall _ hc).2 rfl⟩
  have hminus : '-' ∉ p := fun hc => (hm.plain _ (List.mem_append_left _ hc)).2 rfl
  have hcmp := compareVersionString_number hm.ne hm.digits hn.ne hn.digits hm.after hn.after p.length p le_rfl hm.before hminus
  unfold NumbersInOrder ReadInOrder
  rw [dbpmgrDependCompareVersion_plain (hplain hm) (hplain hn), hcmp]
  have hpos : ∀ i j : ℤ, 0 < thenBy i j ↔ 0 < i ∨ i = 0 ∧ 0 < j := by
    intro i j
    unfold thenBy
    split_ifs <;> omega
  refine and_congr (imp_congr_right fun _ => thenBy_lt_zero) (and_congr (imp_congr_right fun _ => hpos _ _) ?_)
  apply imp_congr_right
  intro _
  apply imp_congr_right
  rintro rfl
  rw [compareAfter_self]
  unfold thenBy
  split_ifs <;> omega

/-- Numbers without a leading zero that fit into an `int` are read as they are. -/
theorem readNumber_plain {m : CStr} (hm : m.head? ≠ some '0') (hlt : digitsVal 10 m < 2 ^ 31) (s : CStr) :
    readNumber m s = digitsVal 10 m := by
  have h0 : m ≠ lit "0" := by
    rintro rfl
    exact hm rfl
  rw [readNumber, if_neg fun h => h0 h.1, if_neg hm, clampInt, min_eq_right (by omega), max_eq_right (by omega)]
  exact toInt32_eq (by omega) (by omega)

/-- An octal digit is missed: 1.010 is before 1.9. -/
theorem compare_number_octal : ¬ NumbersInOrder (lit "1.") (lit "010") [] (lit "9") [] := fun h =>
  absurd (h.2.1 (by decide)) (by decide)

theorem compare_number_iff_demo : NumbersInOrder (lit "1.") (lit "9") [] (lit "10") (lit "~rc") :=
  (compare_number_iff _ _ _ _ _ ⟨by decide, by decide, by decide, by decide, by decide⟩
    ⟨by decide, by decide, by decide, by decide, by decide⟩).mpr (by decide)

end Dbp
