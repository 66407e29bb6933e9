/-
# Version strings

A version is an epoch, an upstream version and a revision. Two versions are
compared epoch by epoch, then by the upstream version and then by the
revision: strings in which numbers and runs of other characters alternate.

Key definitions: `versionDecode`, `compareSubstring`, `compareVersionString`,
`dbpmgrDependCompareVersion`.
Key theorems: `compareLoop_fuel`, `compareVersionString_step`.
-/
import Dbp.C.Scanf

namespace Dbp

open CLib

/-- What a version is checked for against another one. -/
inductive VersionCheck
  | lteq
  | gteq
  | lt
  | eq
  | gt
  deriving DecidableEq, Repr

/-- `dbpmgr_depend_version_result_compare`. -/
def dbpmgrDependVersionResultCompare (result : ℤ) : VersionCheck → Bool
  | .lteq => result ≤ 0
  | .gteq => result ≥ 0
  | .lt => result < 0
  | .eq => result = 0
  | .gt => result > 0

/-- `struct DPackageVersion`. -/
structure DPackageVersion where
  epoch : CStr
  main : CStr
  rev : CStr
  deriving DecidableEq, Repr

/-- What `version_decode` does after the epoch. -/
def revisionDecode (epoch version : CStr) : DPackageVersion :=
  if '-' ∈ version then
    let rev := strAfterLast '-' version
    ⟨epoch, version.take (version.length - rev.length - 1), rev⟩
  else ⟨epoch, if version = [] then lit "0" else version, lit "0"⟩

/-- `version_decode`. -/
def versionDecode (version : CStr) : DPackageVersion :=
  if ':' ∈ version then revisionDecode (version.takeWhile (· ≠ ':')) (version.dropWhile (· ≠ ':')).tail
  else revisionDecode (lit "0") version

/-- `IS_END`, of the character a string begins with. -/
def isEnd : CStr → Bool
  | [] => true
  | c :: _ => isdigit c

/-- The end of `compare_substring`, where one of the runs ends. -/
def compareEnd (s1 s2 : CStr) : ℤ :=
  if isEnd s1 && isEnd s2 then 0
  else if isEnd s1 then (if s2.head? ≠ some '~' then -1 else 1)
  else if isEnd s2 then (if s1.head? ≠ some '~' then 1 else -1)
  else 0

/-- `compare_substring`. -/
def compareSubstring : CStr → CStr → ℤ
  | c :: s1, d :: s2 =>
    if isEnd (c :: s1) || isEnd (d :: s2) then compareEnd (c :: s1) (d :: s2)
    else if c = d then compareSubstring s1 s2
    else if c = '~' then -1
    else if d = '~' then 1
    else if !isalpha c then
      if !isalpha d then (if charVal c < charVal d then -1 else 1) else -1
    else if isalpha d then (if charVal c < charVal d then -1 else 1) else 1
  | s1, s2 => compareEnd s1 s2

/-- `find_next_nonumeric`. -/
def findNextNonumeric (s : CStr) : CStr := s.dropWhile isdigit

/-- `find_next_numeric`. -/
def findNextNumeric (s : CStr) : CStr := s.dropWhile (!isdigit ·)

/-- The number `sscanf(s, "%i", &n)` leaves in an `n` that was 0. -/
def scanNumber (s : CStr) : ℤ := (scanInt s).getD 0

/-- What `compare_version_string` returns after its loop. -/
def compareRest (s1 s2 : CStr) : ℤ :=
  if s1 = [] ∧ s2 ≠ [] then (if s2.head? = some '~' then 1 else -1)
  else if s1 ≠ [] ∧ s2 = [] then (if s1.head? = some '~' then -1 else 1)
  else 0

/-- The loop of `compare_version_string`, with the characters left as fuel. -/
def compareLoop : ℕ → CStr → CStr → ℤ
  | 0, s1, s2 => compareRest s1 s2
  | f + 1, s1, s2 =>
    if s1 = [] ∨ s2 = [] then compareRest s1 s2
    else if scanNumber s1 < scanNumber s2 then -1
    else if scanNumber s1 > scanNumber s2 then 1
    else if compareSubstring (findNextNonumeric s1) (findNextNonumeric s2) ≠ 0 then
      compareSubstring (findNextNonumeric s1) (findNextNonumeric s2)
    else compareLoop f (findNextNumeric (findNextNonumeric s1)) (findNextNumeric (findNextNonumeric s2))

/-- `compare_version_string`. -/
def compareVersionString (s1 s2 : CStr) : ℤ := compareLoop s1.length s1 s2

/-- `dbpmgr_depend_compare_version`. -/
def dbpmgrDependCompareVersion (ver1 ver2 : CStr) : ℤ :=
  let v1 := versionDecode ver1
  let v2 := versionDecode ver2
  if atoi v1.epoch ≠ atoi v2.epoch then
    if atoi v1.epoch < atoi v2.epoch then -1 else 1
  else
    let i := compareVersionString v1.main v2.main
    if i = 0 then compareVersionString v1.rev v2.rev else i

example : dbpmgrDependCompareVersion (lit "1.2~rc1-3") (lit "1.2-1") = -1 := by decide
example : dbpmgrDependCompareVersion (lit "1:0.9") (lit "1.10") = 1 := by decide
example : dbpmgrDependCompareVersion (lit "1.9") (lit "1.10-0") = -1 := by decide

/-! ### The loop ends -/

/-- What the loop goes on with. -/
def nextChunk (s : CStr) : CStr := findNextNumeric (findNextNonumeric s)

theorem nextChunk_length {s : CStr} (h : s ≠ []) : (nextChunk s).length < s.length := by
  obtain ⟨c, t, rfl⟩ := List.exists_cons_of_ne_nil h
  have hle : ∀ (p : Char → Bool) (u : CStr), (u.dropWhile p).length ≤ u.length := fun p u =>
    (List.dropWhile_sublist p).length_le
  unfold nextChunk findNextNumeric findNextNonumeric
  by_cases hc : isdigit c = true
  · rw [List.dropWhile_cons_of_pos hc]
    calc ((t.dropWhile isdigit).dropWhile (!isdigit ·)).length ≤ (t.dropWhile isdigit).length := hle _ _
      _ ≤ t.length := hle _ _
      _ < (c :: t).length := Nat.lt_succ_self _
  · rw [List.dropWhile_cons_of_neg hc, List.dropWhile_cons_of_pos (by simpa using hc)]
    calc (t.dropWhile (!isdigit ·)).length ≤ t.length := hle _ _
      _ < (c :: t).length := Nat.lt_succ_self _

/-- A turn of the loop ends at a digit or at the end of the string. -/
theorem isEnd_nextChunk (s : CStr) : isEnd (nextChunk s) = true := by
  have h := List.head?_dropWhile_not (!isdigit ·) (findNextNonumeric s)
  unfold nextChunk findNextNumeric
  cases hd : (findNextNonumeric s).dropWhile (!isdigit ·) with
  | nil => rfl
  | cons c t =>
    rw [hd] at h
    simpa [isEnd] using h

/-- The fuel is never used up before the loop ends. -/
theorem compareLoop_fuel : ∀ (f g : ℕ) (s1 s2 : CStr), s1.length ≤ f → s1.length ≤ g →
    compareLoop f s1 s2 = compareLoop g s1 s2
  | 0, 0, _, _, _, _ => rfl
  | 0, g + 1, s1, s2, hf, _ => by
    have hs : s1 = [] := List.eq_nil_of_length_eq_zero (by omega)
    rw [compareLoop, compareLoop, if_pos (.inl hs)]
  | f + 1, 0, s1, s2, _, hg => by
    have hs : s1 = [] := List.eq_nil_of_length_eq_zero (by omega)
    rw [compareLoop, compareLoop, if_pos (.inl hs)]
  | f + 1, g + 1, s1, s2, hf, hg => by
    rw [compareLoop, compareLoop]
    by_cases hs : s1 = [] ∨ s2 = []
    · rw [if_pos hs, if_pos hs]
    · have hlt := nextChunk_length fun h => hs (.inl h)
      unfold nextChunk at hlt
      rw [compareLoop_fuel f g _ _ (by omega) (by omega)]

theorem compareVersionString_rest {s1 s2 : CStr} (h : s1 = [] ∨ s2 = []) :
    compareVersionString s1 s2 = compareRest s1 s2 := by
  unfold compareVersionString
  cases s1 with
  | nil => rfl
  | cons c s1 => rw [List.length_cons, compareLoop, if_pos h]

/-- A turn of the loop. -/
theorem compareVersionString_step {s1 s2 : CStr} (h1 : s1 ≠ []) (h2 : s2 ≠ []) : compareVersionString s1 s2 =
    if scanNumber s1 < scanNumber s2 then -1
    else if scanNumber s1 > scanNumber s2 then 1
    else if compareSubstring (findNextNonumeric s1) (findNextNonumeric s2) ≠ 0 then
      compareSubstring (findNextNonumeric s1) (findNextNonumeric s2)
    else compareVersionString (nextChunk s1) (nextChunk s2) := by
  have hlt := nextChunk_length h1
  conv_lhs => unfold compareVersionString
  obtain ⟨f, hf⟩ : ∃ f, s1.length = f + 1 := ⟨s1.length - 1, by omega⟩
  rw [hf, compareLoop, if_neg (by simp [h1, h2]), compareVersionString,
    ← compareLoop_fuel f _ (nextChunk s1) (nextChunk s2) (by omega) le_rfl]
  rfl

end Dbp
