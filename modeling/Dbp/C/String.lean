/-
# C strings

A C string is the list of its characters before the terminating NUL. A C
`char` is a `Char`: the bytes are the characters of code below 256, and no
result below depends on that bound. The functions of `string.h` and
`ctype.h` (in the C locale) that a program calls on such strings, and the
lemmas on runs of characters that reasoning about a scanner needs.

Key definitions: `isspace`, `Blank`, `strstr`, `strtok`, `strAfterLast`.
Key theorems: `takeWhile_append_stop`, `dropWhile_append_stop`, `exists_run`, `strstr_isSome_iff`,
`strstr_stop`.
-/
import Mathlib.Data.List.Basic
import Mathlib.Algebra.Ring.Int.Defs
import Mathlib.Algebra.Ring.Nat
import Mathlib.Data.Int.Basic
import Mathlib.Data.List.TakeWhile

namespace CLib

/-- A C string: its characters before the terminating NUL. -/
abbrev CStr := List Char

/-- The C string of a literal. -/
abbrev lit (s : String) : CStr := s.toList

instance instLawfulBEqCStr : LawfulBEq CStr := inferInstance

/-- A property of all characters of a string is decided on the string. -/
instance decidableForallMemCStr (p : Char → Prop) [DecidablePred p] (s : CStr) : Decidable (∀ c ∈ s, p c) :=
  List.decidableBAll p s

instance decidableForallMemChar (p : Char → Prop) [DecidablePred p] (c? : Option Char) :
    Decidable (∀ c ∈ c?, p c) := Option.decidableForallMem c?

/-! ### ctype.h -/

/-- `isspace` in the C locale. -/
def isspace (c : Char) : Bool :=
  c == ' ' || c == '\t' || c == '\n' || c == '\x0b' || c == '\x0c' || c == '\r'

/-- `isdigit`. -/
def isdigit (c : Char) : Bool := 48 ≤ c.toNat && c.toNat ≤ 57

/-- `isalpha` in the C locale. -/
def isalpha (c : Char) : Bool :=
  (97 ≤ c.toNat && c.toNat ≤ 122) || (65 ≤ c.toNat && c.toNat ≤ 90)

/-- `isupper` in the C locale. -/
def isupper (c : Char) : Bool := 65 ≤ c.toNat && c.toNat ≤ 90

/-- The value of a `char` as the comparison operators see it, with `char`
signed: codes from 128 on are negative. -/
def charVal (c : Char) : ℤ := if c.toNat < 128 then c.toNat else (c.toNat : ℤ) - 0x110000

theorem toNat_lt (c : Char) : c.toNat < 0x110000 := by
  have h : c.val.toNat < 0xd800 ∨ 0xdfff < c.val.toNat ∧ c.val.toNat < 0x110000 := c.valid
  show c.val.toNat < _
  omega

theorem charVal_inj {a b : Char} (h : charVal a = charVal b) : a = b := by
  have ha := toNat_lt a
  have hb := toNat_lt b
  apply Char.toNat_inj.mp
  unfold charVal at h
  split_ifs at h <;> omega

/-- A property of the ASCII characters, by enumeration. -/
theorem forall_ascii {P : Char → Prop} (h : ∀ n < 128, P (Char.ofNat n)) (c : Char) (hc : c.toNat < 128) : P c := by
  have := h c.toNat hc
  rwa [Char.ofNat_toNat] at this

/-! ### string.h -/

/-- `strstr`: the suffix of `s` at the first occurrence of `pat`. -/
def strstr (pat : CStr) : CStr → Option CStr
  | [] => if pat = [] then some [] else none
  | c :: s => if pat.isPrefixOf (c :: s) then some (c :: s) else strstr pat s

/-- The strings `strtok_r` yields one after the other: the non-empty pieces
of `s` between delimiters. -/
def strtok (delim : Char) (s : CStr) : List CStr := (s.splitOn delim).filter (· ≠ [])

/-- The part of `s` after the last `c`, or `s` if there is none. -/
def strAfterLast (c : Char) (s : CStr) : CStr := (s.reverse.takeWhile (· ≠ c)).reverse

/-- `printf("%i")`. -/
def formatInt (n : ℤ) : CStr :=
  if n < 0 then '-' :: Nat.toDigits 10 n.natAbs else Nat.toDigits 10 n.natAbs

/-! ### Runs of characters -/

section Runs

variable {α : Type*} {p : α → Bool}

theorem takeWhile_append_stop {xs ys : List α} (h : ∀ x ∈ xs, p x) (hy : ys.head?.all (!p ·)) :
    (xs ++ ys).takeWhile p = xs := by
  rw [List.takeWhile_append_of_pos h]
  cases ys with
  | nil => simp
  | cons y ys => simp at hy; simp [hy]

theorem dropWhile_append_stop {xs ys : List α} (h : ∀ x ∈ xs, p x) (hy : ys.head?.all (!p ·)) :
    (xs ++ ys).dropWhile p = ys := by
  rw [List.dropWhile_append_of_pos h]
  cases ys with
  | nil => simp
  | cons y ys => simp at hy; simp [hy]

/-- A list is its run of `p` and a rest that does not go on with it. -/
theorem exists_run (p : α → Bool) (s : List α) :
    ∃ xs ys, s = xs ++ ys ∧ (∀ x ∈ xs, p x) ∧ ys.head?.all (!p ·) := by
  refine ⟨s.takeWhile p, s.dropWhile p, List.takeWhile_append_dropWhile.symm, fun x hx => ?_, ?_⟩
  · exact List.all_eq_true.mp List.all_takeWhile x hx
  · have := List.head?_dropWhile_not p s
    cases h : (s.dropWhile p).head? <;> simp_all

end Runs

/-! ### Pieces -/

section Pieces

variable {α : Type*}

theorem infix_of_mem_intercalate (sep : List α) {x : List α} : ∀ {ls : List (List α)}, x ∈ ls → x <:+: sep.intercalate ls
  | [l], h => by simp [List.mem_singleton.mp h]
  | l :: l' :: ls, h => by
    rw [List.intercalate_cons_cons]
    rcases List.mem_cons.mp h with rfl | h
    · rw [List.append_assoc]
      exact List.infix_append_left
    · exact List.infix_append_of_infix_right (infix_of_mem_intercalate sep h)

theorem mem_intercalate {c x : α} : ∀ {ls : List (List α)}, x ∈ [c].intercalate ls → x = c ∨ ∃ l ∈ ls, x ∈ l
  | [], h => by simp at h
  | [l], h => .inr ⟨l, List.mem_singleton_self l, by simpa using h⟩
  | l :: l' :: ls, h => by
    rw [List.intercalate_cons_cons, List.append_assoc, List.singleton_append, List.mem_append, List.mem_cons] at h
    rcases h with h | h | h
    · exact .inr ⟨l, List.mem_cons_self, h⟩
    · exact .inl h
    · obtain h | ⟨l'', hl, hx⟩ := mem_intercalate h
      · exact .inl h
      · exact .inr ⟨l'', List.mem_cons_of_mem _ hl, hx⟩

variable [BEq α] [LawfulBEq α] {c : α}

/-- What a list is not split at stands in a piece. -/
theorem exists_mem_splitOn {s : List α} {x : α} (h : x ∈ s) (hx : x ≠ c) : ∃ p ∈ s.splitOn c, x ∈ p := by
  have h' : x ∈ [c].intercalate (s.splitOn c) := by rwa [List.intercalate_splitOn]
  exact (mem_intercalate h').resolve_left hx

/-- The pieces of a list stand in it. -/
theorem infix_of_mem_splitOn {s x : List α} (h : x ∈ s.splitOn c) : x <:+: s := by
  have := infix_of_mem_intercalate [c] h
  rwa [List.intercalate_splitOn] at this

/-- The pieces of a list are without what it is split at. -/
theorem not_mem_of_mem_splitOn : ∀ {s x : List α}, x ∈ s.splitOn c → c ∉ x
  | [], x, h => by
    obtain rfl : x = [] := by simpa using h
    simp
  | d :: s, x, h => by
    rw [List.splitOn_cons_eq_if_modifyHead] at h
    split_ifs at h with hd
    · rcases List.mem_cons.mp h with rfl | h
      · simp
      · exact not_mem_of_mem_splitOn h
    · obtain ⟨y, ys, hy⟩ := List.exists_cons_of_ne_nil (List.splitOn_ne_nil c s)
      rw [hy, List.modifyHead_cons] at h
      rcases List.mem_cons.mp h with rfl | h
      · have hne : c ≠ d := fun hcd => hd (by simp [hcd])
        have hmem : y ∈ s.splitOn c := hy ▸ List.mem_cons_self
        simpa [hne] using not_mem_of_mem_splitOn hmem
      · exact not_mem_of_mem_splitOn (hy ▸ List.mem_cons_of_mem _ h)

end Pieces

/-- What `strstr` finds. -/
theorem strstr_isSome_iff {pat : CStr} : ∀ {s : CStr}, (strstr pat s).isSome ↔ pat <:+: s
  | [] => by
    unfold strstr
    split_ifs with h <;> simp [h]
  | c :: s => by
    rw [List.infix_cons_iff, ← strstr_isSome_iff, ← List.isPrefixOf_iff_prefix, strstr]
    by_cases h : pat.isPrefixOf (c :: s) <;> simp [h]

theorem append_stop_prefix_iff {w d s : CStr} {c : Char} (hw : c ∉ w) (hd : c ∉ d) : w ++ [c] <+: d ++ c :: s ↔ w = d := by
  constructor
  · rintro ⟨t, ht⟩
    rw [List.append_assoc, List.singleton_append] at ht
    have hrun : ∀ {xs : CStr}, c ∉ xs → ∀ x ∈ xs, (x != c) = true :=
      fun hxs x hx => by simpa using ne_of_mem_of_not_mem hx hxs
    have htake := congrArg (List.takeWhile (· != c)) ht
    rwa [takeWhile_append_stop (hrun hw) (by simp), takeWhile_append_stop (hrun hd) (by simp)] at htake
  · rintro rfl
    exact ⟨s, by simp⟩

/-- A word with its stop is found at the end of the piece before the first stop, or else after that. -/
theorem strstr_stop {w d : CStr} {c : Char} (hw : c ∉ w) (hd : c ∉ d) (s : CStr) :
    strstr (w ++ [c]) (d ++ c :: s) = if w <:+ d then some (w ++ c :: s) else strstr (w ++ [c]) s := by
  induction d with
  | nil =>
    have hiff := append_stop_prefix_iff (s := s) hw hd
    rw [List.nil_append] at hiff ⊢
    simp only [strstr, List.isPrefixOf_iff_prefix, hiff, List.suffix_nil]
    split_ifs with h
    · rw [h, List.nil_append]
    · rfl
  | cons x d ih =>
    have hiff := append_stop_prefix_iff (s := s) hw hd
    rw [List.cons_append] at hiff ⊢
    simp only [strstr, List.isPrefixOf_iff_prefix, hiff, List.suffix_cons_iff, ih (by simp_all)]
    by_cases h : w = x :: d
    · simp [h]
    · simp [h]

/-! ### White space -/

/-- White space only. -/
abbrev Blank (s : CStr) : Prop := ∀ c ∈ s, isspace c = true

theorem dropWhile_isspace_eq_nil {s : CStr} : s.dropWhile isspace = [] ↔ Blank s :=
  List.dropWhile_eq_nil_iff

/-- A string that is not blank, at its first character that is no white space. -/
theorem exists_of_not_blank {s : CStr} (h : ¬ Blank s) :
    ∃ w c t, s = w ++ c :: t ∧ Blank w ∧ isspace c = false := by
  obtain ⟨w, t, rfl, hw, ht⟩ := exists_run isspace s
  cases t with
  | nil => exact absurd (by simpa using hw) h
  | cons c t => exact ⟨w, c, t, rfl, hw, by simpa using ht⟩

theorem dropWhile_isspace_blank {w s : CStr} (hw : Blank w) : (w ++ s).dropWhile isspace = s.dropWhile isspace :=
  List.dropWhile_append_of_pos hw

theorem dropWhile_isspace_stop {w t : CStr} {c : Char} (hw : Blank w) (hc : isspace c = false) :
    (w ++ c :: t).dropWhile isspace = c :: t :=
  dropWhile_append_stop hw (by simpa using hc)

end CLib
