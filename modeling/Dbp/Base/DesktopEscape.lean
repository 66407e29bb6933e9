/-
# Escapes in values

`desktop_write_format` writes a backslash, a line end, a carriage return and
a tab of a value as two characters, and `desktop_entry_unescape` decodes such
pairs in place: `memmove` pulls the rest of the string over the second
character, and the loop then steps over what has come to stand there. So a
pair that follows another at once is passed over, and a value is read back
exactly when no two characters that need an escape are neighbours in it
(`unescape_write_iff`).

Key definitions: `unescapeLoop`, `unescapeInPlace`, `NeedsEscape`, `EscapesApart`.
Key theorems: `unescapeInPlace_eq`, `unescape_length`, `unescape_write_iff`.
-/
import Dbp.Base.DesktopParse

namespace Dbp

open CLib

/-! ### The loop -/

/-- The loop of `desktop_entry_unescape` from position `i` on. A decoded escape is stored over the backslash, and
`memmove` takes the second character out, which shortens `len` as well. -/
def unescapeLoop : ℕ → CStr → ℕ → CStr
  | 0, str, _ => str
  | fuel + 1, str, i =>
    if str.length < i then str
    else if str[i]? ≠ some '\\' then unescapeLoop fuel str (i + 1)
    else
      match str[i + 1]?.bind unescapeChar with
      | none => unescapeLoop fuel str (i + 2)
      | some e => unescapeLoop fuel ((str.set i e).eraseIdx (i + 1)) (i + 2)

/-- `desktop_entry_unescape`. No turn of the loop looks at a position twice. -/
def unescapeInPlace (str : CStr) : CStr := unescapeLoop (str.length + 1) str 0

theorem unescape_plain {c : Char} (h : c ≠ '\\') (s : CStr) : desktopEntryUnescape (c :: s) = c :: desktopEntryUnescape s := by
  rw [desktopEntryUnescape] <;> simp [h]

theorem unescape_pair {d e : Char} (h : unescapeChar d = some e) (x : Char) (s : CStr) :
    desktopEntryUnescape ('\\' :: d :: x :: s) = e :: x :: desktopEntryUnescape s := by
  rw [desktopEntryUnescape, h]

theorem unescape_pair_end {d e : Char} (h : unescapeChar d = some e) : desktopEntryUnescape ['\\', d] = [e] := by
  rw [desktopEntryUnescape, h]

theorem unescapeChar_none {d : Char} (h : unescapeChar d = none) : d ≠ '\\' := by
  rintro rfl
  cases h

theorem unescape_other {d : Char} (h : unescapeChar d = none) (s : CStr) :
    desktopEntryUnescape ('\\' :: d :: s) = '\\' :: d :: desktopEntryUnescape s := by
  cases s with
  | nil => rw [desktopEntryUnescape, h]; rfl
  | cons x s => rw [desktopEntryUnescape, h]

/-- Behind the end of the string the loop is over. -/
theorem unescapeLoop_end {str : CStr} {i : ℕ} (h : str.length < i) (fuel : ℕ) : unescapeLoop fuel str i = str := by
  cases fuel with
  | zero => rfl
  | succ f => rw [unescapeLoop, if_pos h]

/-- The loop decodes what is left of the string. -/
theorem unescapeLoop_eq : ∀ (fuel : ℕ) (done rest : CStr), rest.length < fuel →
    unescapeLoop fuel (done ++ rest) done.length = done ++ desktopEntryUnescape rest
  | fuel + 1, done, [], _ => by
    rw [unescapeLoop, if_neg (by simp), if_pos (by simp), List.append_nil, unescapeLoop_end (Nat.lt_succ_self _)]
    exact (List.append_nil done).symm
  | fuel + 1, done, c :: rest, h => by
    rw [List.length_cons] at h
    have hget : (done ++ c :: rest)[done.length]? = some c := by simp
    have hget' : (done ++ c :: rest)[done.length + 1]? = rest.head? := by
      rw [List.getElem?_append_right (by omega), Nat.add_sub_cancel_left, List.getElem?_cons_succ, List.head?_eq_getElem?]
    rw [unescapeLoop, if_neg (by simp), hget, hget']
    by_cases hc : c = '\\'
    · subst hc
      rw [if_neg (by simp)]
      cases rest with
      | nil =>
        exact unescapeLoop_end (by simp) fuel
      | cons d rest =>
        rw [List.length_cons] at h
        rw [List.head?_cons, Option.bind_some]
        cases hd : unescapeChar d with
        | none =>
          have ih := unescapeLoop_eq fuel (done ++ ['\\', d]) rest (by omega)
          simpa [unescape_other hd] using ih
        | some e =>
          have hset : ((done ++ '\\' :: d :: rest).set done.length e).eraseIdx (done.length + 1) = done ++ e :: rest := by
            simp [List.eraseIdx_append_of_length_le]
          dsimp only
          rw [hset]
          cases rest with
          | nil =>
            rw [unescape_pair_end hd]
            exact unescapeLoop_end (by simp) fuel
          | cons x rest =>
            rw [List.length_cons] at h
            have ih := unescapeLoop_eq fuel (done ++ [e, x]) rest (by omega)
            simpa [unescape_pair hd] using ih
    · rw [if_pos (by simpa using hc), unescape_plain hc]
      have ih := unescapeLoop_eq fuel (done ++ [c]) rest (by omega)
      simpa using ih

/-- Decoding in place is decoding. -/
theorem unescapeInPlace_eq (str : CStr) : unescapeInPlace str = desktopEntryUnescape str :=
  unescapeLoop_eq _ [] str (Nat.lt_succ_self _)

/-! ### How long the result is -/

/-- Two more characters in front make the result longer, if one more makes it no shorter, and longer by at most one. -/
theorem unescape_two {s : CStr} (d : Char) {x : Char}
    (hx : (desktopEntryUnescape s).length ≤ (desktopEntryUnescape (x :: s)).length)
    (hs : ∀ y t, s = y :: t → (desktopEntryUnescape s).length ≤ (desktopEntryUnescape t).length + 1) :
    (desktopEntryUnescape s).length + 1 ≤ (desktopEntryUnescape (d :: x :: s)).length := by
  by_cases hd : d = '\\'
  · subst hd
    cases he : unescapeChar x with
    | none =>
      rw [unescape_other he]
      simp
    | some e =>
      cases s with
      | nil =>
        rw [unescape_pair_end he]
        exact Nat.le_refl 1
      | cons y t =>
        have := hs y t rfl
        rw [unescape_pair he, List.length_cons, List.length_cons]
        omega
  · rw [unescape_plain hd, List.length_cons]
    omega

/-- One more character in front makes the result longer by one, or leaves it as long. -/
theorem unescape_length : ∀ (n : ℕ) (c : Char) (s : CStr), s.length ≤ n →
    (desktopEntryUnescape s).length ≤ (desktopEntryUnescape (c :: s)).length ∧
      (desktopEntryUnescape (c :: s)).length ≤ (desktopEntryUnescape s).length + 1
  | n, c, [], _ => by
    have hc : desktopEntryUnescape [c] = [c] := by rw [desktopEntryUnescape] <;> simp [desktopEntryUnescape]
    rw [hc]
    exact ⟨Nat.zero_le _, Nat.le_refl 1⟩
  | n + 1, c, d :: s, h => by
    rw [List.length_cons] at h
    by_cases hc : c = '\\'
    · subst hc
      have hds := unescape_length n d s (by omega)
      cases hd : unescapeChar d with
      | none =>
        rw [unescape_other hd, unescape_plain (unescapeChar_none hd)]
        simp
      | some e =>
        cases s with
        | nil =>
          rw [unescape_pair_end hd]
          exact ⟨hds.2, Nat.le_add_left _ _⟩
        | cons x s =>
          rw [List.length_cons] at h
          have hx := unescape_length n x s (by omega)
          have htwo := unescape_two d hx.1 fun y t hs => by
            subst hs
            exact (unescape_length n y t (by simp at h; omega)).2
          rw [unescape_pair hd, List.length_cons, List.length_cons]
          omega
    · rw [unescape_plain hc]
      simp

/-! ### What is read back -/

/-- A character that is written as two. -/
def NeedsEscape (c : Char) : Prop := c = '\\' ∨ c = '\r' ∨ c = '\n' ∨ c = '\t'

instance (c : Char) : Decidable (NeedsEscape c) := inferInstanceAs (Decidable (_ ∨ _))

/-- No two neighbours in a value both need an escape. -/
def EscapesApart (v : CStr) : Prop := v.IsChain fun c d => ¬ (NeedsEscape c ∧ NeedsEscape d)

instance (v : CStr) : Decidable (EscapesApart v) := inferInstanceAs (Decidable (v.IsChain _))

/-- The written form of a character that needs an escape. -/
theorem write_escaped {c : Char} (h : NeedsEscape c) :
    ∃ k, unescapeChar k = some c ∧ ∀ v, desktopWriteFormat (c :: v) = '\\' :: k :: desktopWriteFormat v := by
  rcases h with rfl | rfl | rfl | rfl
  · exact ⟨'\\', rfl, fun v => rfl⟩
  · exact ⟨'r', rfl, fun v => rfl⟩
  · exact ⟨'n', rfl, fun v => rfl⟩
  · exact ⟨'t', rfl, fun v => rfl⟩

theorem write_plain {c : Char} (h : ¬ NeedsEscape c) (v : CStr) : desktopWriteFormat (c :: v) = c :: desktopWriteFormat v := by
  obtain ⟨h1, h2, h3, h4⟩ : c ≠ '\\' ∧ c ≠ '\r' ∧ c ≠ '\n' ∧ c ≠ '\t' := by simpa [NeedsEscape] using h
  simp [desktopWriteFormat, h1, h2, h3, h4]

/-- Decoding never makes a written value shorter than the value. -/
theorem unescape_write_length (v : CStr) : v.length ≤ (desktopEntryUnescape (desktopWriteFormat v)).length := by
  induction v with
  | nil => exact Nat.zero_le _
  | cons c v ih =>
    by_cases hc : NeedsEscape c
    · obtain ⟨k, hk, hw⟩ := write_escaped hc
      rw [hw]
      cases hv : desktopWriteFormat v with
      | nil =>
        rw [hv] at ih
        rw [unescape_pair_end hk]
        simpa [desktopEntryUnescape] using ih
      | cons x s =>
        have hx := (unescape_length s.length x s le_rfl).2
        rw [hv] at ih
        rw [unescape_pair hk, List.length_cons, List.length_cons, List.length_cons]
        omega
    · have hne : c ≠ '\\' := fun he => hc (.inl he)
      rw [write_plain hc, unescape_plain hne, List.length_cons, List.length_cons]
      omega

theorem needsEscape_of_unescape {d e : Char} (h : unescapeChar d = some e) : NeedsEscape e := by
  unfold unescapeChar at h
  split_ifs at h <;> obtain rfl := Option.some.inj h <;> decide

theorem unescapeChar_backslash {d : Char} (h : unescapeChar d = some '\\') : d = '\\' := by
  unfold unescapeChar at h
  split_ifs at h with h1 h2 h3 h4
  · exact h1
  all_goals simp at h

/-- What decoding makes of a pair begins with the character it stands for. -/
theorem head_unescape_pair {d e : Char} (h : unescapeChar d = some e) (s : CStr) :
    (desktopEntryUnescape ('\\' :: d :: s)).head? = some e := by
  cases s with
  | nil => rw [unescape_pair_end h, List.head?_cons]
  | cons x s => rw [unescape_pair h, List.head?_cons]

/-- A written value after a stray backslash is not read back. -/
theorem unescape_stray (v : CStr) : desktopEntryUnescape ('\\' :: desktopWriteFormat v) ≠ v := by
  intro h
  cases v with
  | nil => simp [desktopWriteFormat, desktopEntryUnescape] at h
  | cons y t =>
    by_cases hy : NeedsEscape y
    · -- the backslash is taken with the one of the pair, and there is a character too many
      obtain ⟨k, -, hw⟩ := write_escaped hy
      rw [hw, unescape_pair (show unescapeChar '\\' = some '\\' from rfl)] at h
      have ht := congrArg List.length (List.cons.inj h).2
      have hle := unescape_write_length t
      rw [List.length_cons] at ht
      omega
    · -- it is taken with a character that needs no escape, or stays
      rw [write_plain hy] at h
      have hhead := congrArg List.head? h
      cases hd : unescapeChar y with
      | none =>
        rw [unescape_other hd, List.head?_cons, List.head?_cons, Option.some.injEq] at hhead
        exact hy (.inl hhead.symm)
      | some e =>
        rw [head_unescape_pair hd, List.head?_cons, Option.some.injEq] at hhead
        exact hy (hhead ▸ needsEscape_of_unescape hd)

theorem escapesApart_cons {c x : Char} {v : CStr} :
    EscapesApart (c :: x :: v) ↔ ¬ (NeedsEscape c ∧ NeedsEscape x) ∧ EscapesApart (x :: v) := List.isChain_cons_cons

/-- A character that needs no escape keeps nothing apart. -/
theorem escapesApart_plain {c : Char} (h : ¬ NeedsEscape c) (v : CStr) : EscapesApart (c :: v) ↔ EscapesApart v := by
  cases v with
  | nil => simp [EscapesApart]
  | cons x v => simp [escapesApart_cons, h]

/-- What decoding gives back. -/
theorem unescape_write : ∀ v : CStr, desktopEntryUnescape (desktopWriteFormat v) = v ↔ EscapesApart v
  | [] => ⟨fun _ => .nil, fun _ => rfl⟩
  | [c] => by
    refine ⟨fun _ => .singleton c, fun _ => ?_⟩
    by_cases hc : NeedsEscape c
    · obtain ⟨k, hk, hw⟩ := write_escaped hc
      rw [hw]
      exact unescape_pair_end hk
    · have hne : c ≠ '\\' := fun he => hc (.inl he)
      rw [write_plain hc, unescape_plain hne]
      rfl
  | c :: x :: v => by
    by_cases hc : NeedsEscape c
    · obtain ⟨k, hk, hw⟩ := write_escaped hc
      rw [hw, escapesApart_cons]
      by_cases hx : NeedsEscape x
      · -- the backslash of the second pair is passed over
        obtain ⟨k', hk', hw'⟩ := write_escaped hx
        rw [hw', unescape_pair hk]
        refine ⟨fun h => ?_, fun h => absurd ⟨hc, hx⟩ h.1⟩
        obtain ⟨rfl, hrest⟩ : '\\' = x ∧ _ := List.cons_eq_cons.mp (List.cons.inj h).2
        rw [unescapeChar_backslash hk'] at hrest
        exact absurd hrest (unescape_stray v)
      · rw [write_plain hx, unescape_pair hk, escapesApart_plain hx, ← unescape_write v]
        simp [hx]
    · have hne : c ≠ '\\' := fun he => hc (.inl he)
      rw [write_plain hc, unescape_plain hne, escapesApart_plain hc, ← unescape_write (x :: v)]
      simp

/-- **A value is read back** from its written form exactly when no two neighbours in it need an escape. -/
theorem unescape_write_iff (v : CStr) : unescapeInPlace (desktopWriteFormat v) = v ↔ EscapesApart v := by
  rw [unescapeInPlace_eq, unescape_write]

/-- Two line ends: the second one is read back as two characters. -/
theorem unescape_write_blank_line : unescapeInPlace (desktopWriteFormat (lit "a\n\nb")) ≠ lit "a\n\nb" := by decide

end Dbp
