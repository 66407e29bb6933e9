/-
# sscanf

The part of `sscanf` that text formats built from scan sets need: white
space, literal characters and `%[...]`, and the integer conversions `%i`,
`%u`, `atoi` and `atoll`. A format is a list of directives, and `sscanf`
returns the strings it stores, in the order of the conversions: a directive
that fails ends the scan, and what it and the later ones would have stored
keeps its old contents. A white-space directive matches any run of white
space, line ends included. `%s` reads the next word, as far as its width
goes (`scanWord`), and leaves the rest of it to the next conversion.

Key definitions: `Directive`, `sscanf`, `scanInt`, `atoi`, `scanUnsigned`, `words`, `scanWord`, `takeWord`.
Key theorems: `sscanf_scanset_stop`, `words_append_space`, `words_cases`, `scanWord_words`.
-/
import Dbp.C.String

namespace CLib

/-- A directive of a scan format. -/
inductive Directive
  /-- White space: skips any run of white space, also an empty one. -/
  | space
  /-- A literal character. -/
  | lit (c : Char)
  /-- `%[...]`: stores the longest run of characters in the set, which must
  not be empty. -/
  | scanset (p : Char → Bool)

/-- The strings `sscanf` stores when it reads `s` under a format. -/
def sscanf : List Directive → CStr → List CStr
  | [], _ => []
  | .space :: ds, s => sscanf ds (s.dropWhile isspace)
  | .lit c :: ds, s => if s.head? = some c then sscanf ds s.tail else []
  | .scanset p :: ds, s =>
    if s.takeWhile p = [] then [] else s.takeWhile p :: sscanf ds (s.dropWhile p)

theorem sscanf_space (ds : List Directive) (s : CStr) :
    sscanf (.space :: ds) s = sscanf ds (s.dropWhile isspace) := rfl

theorem sscanf_lit (c : Char) (ds : List Directive) (s : CStr) :
    sscanf (.lit c :: ds) (c :: s) = sscanf ds s := by
  simp [sscanf]

theorem sscanf_lit_ne {c : Char} {s : CStr} (ds : List Directive) (h : s.head? ≠ some c) :
    sscanf (.lit c :: ds) s = [] := by
  simp [sscanf, h]

/-- A scan set stores a run that ends where the set does. -/
theorem sscanf_scanset_stop {p : Char → Bool} {xs ys : CStr} (ds : List Directive) (hne : xs ≠ [])
    (h : ∀ x ∈ xs, p x) (hy : ys.head?.all (!p ·)) :
    sscanf (.scanset p :: ds) (xs ++ ys) = xs :: sscanf ds ys := by
  simp only [sscanf, takeWhile_append_stop h hy, dropWhile_append_stop h hy, hne, ↓reduceIte]

/-! ### Integer conversions -/

/-- The value of a digit in bases up to 16. -/
def digitVal (c : Char) : ℕ :=
  if isdigit c then c.toNat - 48
  else if 97 ≤ c.toNat && c.toNat ≤ 102 then c.toNat - 87
  else if 65 ≤ c.toNat && c.toNat ≤ 70 then c.toNat - 55
  else 16

/-- The longest run of digits of base `b` at the start of `s`. -/
def digits (b : ℕ) (s : CStr) : CStr := s.takeWhile fun c => decide (digitVal c < b)

/-- The number a run of digits denotes. -/
def digitsVal (b : ℕ) (s : CStr) : ℕ := s.foldl (fun n c => b * n + digitVal c) 0

/-- Conversion of a `long` to `int`, keeping the low 32 bits. -/
def toInt32 (n : ℤ) : ℤ := Int.bmod n (2 ^ 32)

theorem toInt32_eq {n : ℤ} (h : -2 ^ 31 ≤ n) (h' : n < 2 ^ 31) : toInt32 n = n := by
  unfold toInt32
  exact Int.bmod_eq_of_le (by omega) (by omega)

/-- `strtol` clamps to `long` (64 bits), and the result is stored in an `int`. -/
def clampInt (n : ℤ) : ℤ := toInt32 (max (-2 ^ 63) (min (2 ^ 63 - 1) n))

/-- An optional sign and the rest of the string. -/
def scanSign : CStr → Bool × CStr
  | '-' :: s => (true, s)
  | '+' :: s => (false, s)
  | s => (false, s)

/-- The base `%i` detects and the digits it reads. -/
def scanBase : CStr → ℕ × CStr
  | '0' :: 'x' :: s => (16, digits 16 s)
  | '0' :: 'X' :: s => (16, digits 16 s)
  | '0' :: s => (8, digits 8 ('0' :: s))
  | s => (10, digits 10 s)

/-- The `int` that `sscanf(s, "%i", &n)` stores, if it stores one. -/
def scanInt (s : CStr) : Option ℤ :=
  let sign := scanSign (s.dropWhile isspace)
  let num := scanBase sign.2
  let n : ℤ := digitsVal num.1 num.2
  if num.2 = [] then none else some (clampInt (if sign.1 then -n else n))

/-- `atoi`: an optional sign and decimal digits after white space, 0 if there are none. -/
def atoi (s : CStr) : ℤ :=
  let sign := scanSign (s.dropWhile isspace)
  let n : ℤ := digitsVal 10 (digits 10 sign.2)
  clampInt (if sign.1 then -n else n)

/-- `atoll`. -/
def atoll (s : CStr) : ℤ :=
  let sign := scanSign (s.dropWhile isspace)
  let n : ℤ := digitsVal 10 (digits 10 sign.2)
  max (-2 ^ 63) (min (2 ^ 63 - 1) (if sign.1 then -n else n))

/-- The `unsigned int` that `sscanf(s, "%u", &n)` stores, if it stores one: `strtoul` clamps to 64 bits
and negates modulo 2^64, and the low 32 bits are stored. -/
def scanUnsigned (s : CStr) : Option ℕ :=
  let sign := scanSign (s.dropWhile isspace)
  let num := digits 10 sign.2
  let n := digitsVal 10 num
  if num = [] then none
  else if 2 ^ 64 ≤ n then some (2 ^ 32 - 1)
  else some ((if sign.1 then 2 ^ 64 - n else n) % 2 ^ 32)

example : scanInt (lit "010") = some 8 := by decide
example : scanInt (lit "~1") = none := by decide
example : atoi (lit " -12x") = -12 := by decide
example : scanUnsigned (lit "-1") = some 4294967295 := by decide

/-! ### Words -/

/-- The words of a text: its runs of characters that are no white space. -/
def words (s : CStr) : List CStr := (s.splitOnP isspace).filter (· ≠ [])

/-- `%s` with a width: the word it stores, empty at the end of the input, and what is left. -/
def scanWord (width : ℕ) (s : CStr) : CStr × CStr :=
  let t := s.dropWhile isspace
  let word := (t.takeWhile fun c => !isspace c).take width
  (word, t.drop word.length)

/-- The same on words. -/
def takeWord (width : ℕ) : List CStr → CStr × List CStr
  | [] => ([], [])
  | w :: ws => (w.take width, if w.length ≤ width then ws else w.drop width :: ws)

@[simp] theorem words_nil : words [] = [] := rfl

theorem ne_nil_of_mem_words {w s : CStr} (h : w ∈ words s) : w ≠ [] := by
  simpa using (List.mem_filter.mp h).2

/-- Words are apart at white space. -/
theorem words_append_space {c : Char} (hc : isspace c) (x y : CStr) : words (x ++ c :: y) = words x ++ words y := by
  rw [words, List.splitOnP_append_cons x y hc, List.filter_append]
  rfl

theorem words_cons_space {c : Char} (hc : isspace c) (s : CStr) : words (c :: s) = words s :=
  words_append_space hc [] s

/-- A word. -/
theorem words_singleton {w : CStr} (hne : w ≠ []) (h : ∀ c ∈ w, isspace c = false) : words w = [w] := by
  rw [words, List.splitOnP_eq_singleton h]
  simp [hne]

/-- A word and what comes after it. -/
theorem words_append {w u : CStr} (hne : w ≠ []) (h : ∀ c ∈ w, isspace c = false) (hu : u.head?.all isspace) :
    words (w ++ u) = w :: words u := by
  cases u with
  | nil => rw [List.append_nil, words_singleton hne h, words_nil]
  | cons c u =>
    have hc : isspace c := by simpa using hu
    rw [words_append_space hc, words_singleton hne h, words_cons_space hc, List.singleton_append]

theorem words_dropWhile (s : CStr) : words (s.dropWhile isspace) = words s := by
  induction s with
  | nil => rfl
  | cons c s ih =>
    cases hc : isspace c with
    | true => rw [List.dropWhile_cons_of_pos hc, ih, words_cons_space hc]
    | false => rw [List.dropWhile_cons_of_neg (by simp [hc])]

/-- The words of pieces that were joined by white space. -/
theorem words_intercalate {c : Char} (hc : isspace c) : ∀ ls : List CStr,
    words ([c].intercalate ls) = (ls.map words).flatten
  | [] => rfl
  | [l] => by simp
  | l :: l' :: ls => by
    rw [List.intercalate_cons_cons, List.append_assoc, List.singleton_append, words_append_space hc,
      words_intercalate hc (l' :: ls)]
    rfl

/-- A text has no words, or a first one behind white space. -/
theorem words_cases (s : CStr) : words s = [] ∧ s.dropWhile isspace = [] ∨
    ∃ w u, w ≠ [] ∧ (∀ c ∈ w, isspace c = false) ∧ u.head?.all isspace ∧ s.dropWhile isspace = w ++ u ∧
      words s = w :: words u := by
  obtain ⟨w, u, hs, hw, hu⟩ := exists_run (fun c => !isspace c) (s.dropWhile isspace)
  have hw' : ∀ c ∈ w, isspace c = false := fun c hc => by simpa using hw c hc
  have hu' : u.head?.all isspace := by simpa using hu
  rw [← words_dropWhile s, hs]
  by_cases hne : w = []
  · -- White space is skipped, so there is nothing.
    subst hne
    rw [List.nil_append] at hs ⊢
    have hhead := List.head?_dropWhile_not isspace s
    rw [hs] at hhead
    cases u with
    | nil => exact .inl ⟨rfl, rfl⟩
    | cons c u =>
      simp only [List.head?_cons, Option.all_some] at hhead hu'
      simp [hu'] at hhead
  · exact .inr ⟨w, u, hne, hw', hu', rfl, words_append hne hw' hu'⟩

/-- `%s` takes from the words. -/
theorem scanWord_words (width : ℕ) (s : CStr) :
    ((scanWord width s).1, words (scanWord width s).2) = takeWord width (words s) := by
  rcases words_cases s with ⟨hnil, hdrop⟩ | ⟨w, u, hne, hw, hu, hdrop, hwords⟩
  · rw [hnil]
    simp [scanWord, hdrop, takeWord]
  · have hstop : u.head?.all fun c => !(!isspace c) := by simpa using hu
    have hrun : (w ++ u).takeWhile (fun c => !isspace c) = w := takeWhile_append_stop (fun c hc => by simp [hw c hc]) hstop
    rw [hwords]
    simp only [scanWord, hdrop, hrun, takeWord, List.length_take]
    split_ifs with hfits
    · rw [min_eq_right hfits, List.drop_left]
    · rw [min_eq_left (by omega), List.drop_append_of_le_length (by omega)]
      have hrest : words (w.drop width ++ u) = w.drop width :: words u :=
        words_append (by simpa using hfits) (fun c hc => hw c (List.mem_of_mem_drop hc)) hu
      rw [hrest]

/-- It reads what it stores, and no more than its width. -/
theorem scanWord_length (width : ℕ) (s : CStr) : (scanWord width s).1.length ≤ width ∧
    (scanWord width s).1.length + (scanWord width s).2.length ≤ s.length := by
  have hdrop := (List.dropWhile_suffix isspace (l := s)).length_le
  have hrun := (List.takeWhile_prefix (fun c => !isspace c) (l := s.dropWhile isspace)).length_le
  simp only [scanWord, List.length_take, List.length_drop]
  omega

end CLib
