/-
# Escapes in the mount table

The kernel writes a space, tab, newline or backslash of a path in
`/proc/mounts` as a backslash and three octal digits (`kernelEscape`).
`char_escape_path` of `dbpd/mountwatch.c` decodes that in place, with a read
and a write pointer into one buffer, but puts a decoded character where it
has read it and not where it writes. Until the first escape the pointers are
together; after it the characters read since the write pointer's place lie
between them (`drift`), and the next escape leaves one of those in the
result. So a path comes back exactly if it has at most one character to be
escaped (`charEscapePath_kernelEscape_iff`).

Key definitions: `octalEscape`, `charEscapePath`, `kernelEscape`, `drift`.
Key theorems: `charEscapeLoop_kernelEscape`, `drift_eq_iff`, `charEscapePath_kernelEscape_iff`.
-/
import Dbp.Daemon.Meta

namespace Dbp

open CLib

/-- The character an escape at the start of a text stands for: a backslash and three octal digits. -/
def octalEscape : CStr → Option Char
  | '\\' :: a :: b :: c :: _ =>
    if isdigit a && isdigit b && isdigit c then
      if '7' < a || '7' < b || '7' < c then none
      else some (Char.ofNat ((((a.toNat - 48) <<< 6) + ((b.toNat - 48) <<< 3) + (c.toNat - 48)) % 256))
    else none
  | _ => none

/-- The loop of `char_escape_path`, the pointers `out` and `inp` being indices
of the buffer: at most `n` turns, to the buffer and the last `out`. -/
def charEscapeLoop : ℕ → CStr → ℕ → ℕ → CStr × ℕ
  | 0, buf, out, _ => (buf, out)
  | n + 1, buf, out, inp =>
    match buf[inp]? with
    | none => (buf, out)
    | some c =>
      match octalEscape (buf.drop inp) with
      | some sum => charEscapeLoop n (buf.set inp sum) (out + 1) (inp + 4)
      | none => charEscapeLoop n (buf.set out c) (out + 1) (inp + 1)

/-- `char_escape_path`: the string left in the buffer. -/
def charEscapePath (s : CStr) : CStr :=
  let r := charEscapeLoop s.length s 0 0
  cString (r.1.take r.2)

/-! ### What the kernel writes -/

/-- A character the kernel escapes. -/
def mangled (c : Char) : Bool := c == ' ' || c == '\t' || c == '\n' || c == '\\'

/-- The three octal digits of a character. -/
def octalDigits (c : Char) : CStr :=
  [Char.ofNat (48 + c.toNat / 64 % 8), Char.ofNat (48 + c.toNat / 8 % 8), Char.ofNat (48 + c.toNat % 8)]

/-- A path as the kernel writes it in `/proc/mounts`. -/
def kernelEscape (s : CStr) : CStr := s.flatMap fun c => if mangled c then '\\' :: octalDigits c else [c]

theorem kernelEscape_cons_plain {c : Char} (h : mangled c = false) (s : CStr) :
    kernelEscape (c :: s) = c :: kernelEscape s := by
  simp [kernelEscape, h]

theorem kernelEscape_cons_mangled {c : Char} (h : mangled c = true) (s : CStr) :
    kernelEscape (c :: s) = '\\' :: (octalDigits c ++ kernelEscape s) := by
  simp [kernelEscape, h]

theorem mangled_cases {c : Char} (h : mangled c = true) : c = ' ' ∨ c = '\t' ∨ c = '\n' ∨ c = '\\' := by
  simpa [mangled, or_assoc] using h

theorem octalEscape_plain {c : Char} (h : mangled c = false) (s : CStr) : octalEscape (c :: s) = none := by
  unfold octalEscape
  split
  · next he =>
    rw [(List.cons.inj he).1] at h
    exact absurd h (by decide)
  · rfl

theorem octalEscape_mangled {c : Char} (h : mangled c = true) (s : CStr) :
    octalEscape ('\\' :: (octalDigits c ++ s)) = some c := by
  rcases mangled_cases h with rfl | rfl | rfl | rfl <;> rfl

theorem octalDigits_plain {c : Char} (h : mangled c = true) : ∀ d ∈ octalDigits c, mangled d = false := by
  rcases mangled_cases h with rfl | rfl | rfl | rfl <;> decide

/-! ### The two pointers -/

/-- What the loop makes of the rest `s` of a path, the characters `gap` being between the write and the read pointer:
a decoded character comes into the result only if there are none. -/
def drift : CStr → CStr → CStr
  | _, [] => []
  | [], c :: s => c :: drift (if mangled c then octalDigits c else []) s
  | g :: gap, c :: s => if mangled c then g :: drift (gap ++ c :: octalDigits c) s else c :: drift (gap ++ [c]) s

/-- Its end: the read pointer is behind the text. -/
theorem charEscapeLoop_end {n : ℕ} {buf : CStr} {out inp : ℕ} (h : buf.length ≤ inp) :
    charEscapeLoop n buf out inp = (buf, out) := by
  cases n with
  | zero => rfl
  | succ n => simp only [charEscapeLoop, List.getElem?_eq_none_iff.mpr h]

/-- A turn of the loop reads the text after `pre`. -/
theorem charEscapeLoop_turn (n : ℕ) (pre : CStr) (c : Char) (s : CStr) (out : ℕ) :
    charEscapeLoop (n + 1) (pre ++ c :: s) out pre.length =
      match octalEscape (c :: s) with
      | some sum => charEscapeLoop n (pre ++ sum :: s) (out + 1) (pre.length + 4)
      | none => charEscapeLoop n ((pre ++ c :: s).set out c) (out + 1) (pre.length + 1) := by
  have hget : (pre ++ c :: s)[pre.length]? = some c := by simp
  have hdrop : (pre ++ c :: s).drop pre.length = c :: s := by simp
  have hset : ∀ sum, (pre ++ c :: s).set pre.length sum = pre ++ sum :: s := by simp
  simp only [charEscapeLoop, hget, hdrop, hset]

theorem head?_set_pos (buf : CStr) (c : Char) {i : ℕ} (hi : 0 < i) : (buf.set i c).head? = buf.head? := by
  cases buf with
  | nil => rfl
  | cons b buf =>
    obtain ⟨i, rfl⟩ := Nat.exists_eq_add_of_lt hi
    simp

/-- Once it is past the first character, the loop leaves that alone. -/
theorem charEscapeLoop_head : ∀ (n : ℕ) (buf : CStr) (out inp : ℕ), 0 < out → 0 < inp →
    (charEscapeLoop n buf out inp).1.head? = buf.head? ∧ 0 < (charEscapeLoop n buf out inp).2
  | 0, _, _, _, hout, _ => ⟨rfl, hout⟩
  | n + 1, buf, out, inp, hout, hinp => by
    unfold charEscapeLoop
    split
    · exact ⟨rfl, hout⟩
    · split
      · rw [← head?_set_pos buf _ hinp]
        exact charEscapeLoop_head n _ _ _ (by omega) (by omega)
      · rw [← head?_set_pos buf _ hout]
        exact charEscapeLoop_head n _ _ _ (by omega) (by omega)

/-- A text that does not begin with an escape keeps its first character. -/
theorem charEscapePath_head {c : Char} (hc : c ≠ '\\') (h0 : c ≠ '\x00') (s : CStr) :
    (charEscapePath (c :: s)).head? = some c := by
  have hplain : octalEscape (c :: s) = none := by
    unfold octalEscape
    split
    · next he => exact absurd (List.cons.inj he).1 hc
    · rfl
  have hturn : charEscapeLoop (s.length + 1) (c :: s) 0 0 = charEscapeLoop s.length (c :: s) 1 1 := by
    simp [charEscapeLoop, hplain]
  have hloop := charEscapeLoop_head s.length (c :: s) 1 1 Nat.one_pos Nat.one_pos
  unfold charEscapePath
  rw [List.length_cons, hturn]
  generalize charEscapeLoop s.length (c :: s) 1 1 = r at hloop ⊢
  obtain ⟨buf, out⟩ := r
  obtain ⟨buf', rfl⟩ : ∃ buf', buf = c :: buf' := List.head?_eq_some_iff.mp hloop.1
  obtain ⟨out, rfl⟩ := Nat.exists_eq_add_of_lt hloop.2
  simp [cString, h0]

/-- The loop, with `done` written, `gap` between the pointers and the escaped `s` to be read. -/
theorem charEscapeLoop_kernelEscape : ∀ (s : CStr) (n : ℕ) (done gap : CStr), (kernelEscape s).length ≤ n →
    ∀ inp, inp = (done ++ gap).length →
      let r := charEscapeLoop n (done ++ gap ++ kernelEscape s) done.length inp
      r.1.take r.2 = done ++ drift gap s
  | [], n, done, gap, _, inp, hinp => by
    have hend : (done ++ gap ++ kernelEscape []).length ≤ inp := by rw [hinp]; simp [kernelEscape]
    simp only [charEscapeLoop_end hend, drift]
    simp
  | c :: s, 0, done, gap, hn, _, _ => by
    cases hc : mangled c
    · simp [kernelEscape_cons_plain hc] at hn
    · simp [kernelEscape_cons_mangled hc] at hn
  | c :: s, n + 1, done, gap, hn, _, rfl => by
    cases hc : mangled c with
    | false =>
      rw [kernelEscape_cons_plain hc] at hn ⊢
      have hle : (kernelEscape s).length ≤ n := by simpa using hn
      rw [charEscapeLoop_turn, octalEscape_plain hc]
      dsimp only
      cases gap with
      | nil =>
        have hbuf : (done ++ [] ++ c :: kernelEscape s).set done.length c = done ++ [c] ++ [] ++ kernelEscape s := by simp
        have ih := charEscapeLoop_kernelEscape s n (done ++ [c]) [] hle ((done ++ []).length + 1) (by simp)
        rw [List.length_append, List.length_singleton] at ih
        rw [hbuf]
        simpa [drift, hc] using ih
      | cons g gap =>
        have hbuf : (done ++ g :: gap ++ c :: kernelEscape s).set done.length c =
            done ++ [c] ++ (gap ++ [c]) ++ kernelEscape s := by simp
        have ih := charEscapeLoop_kernelEscape s n (done ++ [c]) (gap ++ [c]) hle ((done ++ g :: gap).length + 1)
          (by simp; omega)
        rw [List.length_append, List.length_singleton] at ih
        rw [hbuf]
        simpa [drift, hc] using ih
    | true =>
      rw [kernelEscape_cons_mangled hc] at hn ⊢
      have hle : (kernelEscape s).length ≤ n := by
        simp [octalDigits] at hn
        omega
      rw [charEscapeLoop_turn, octalEscape_mangled hc]
      cases gap with
      | nil =>
        have ih := charEscapeLoop_kernelEscape s n (done ++ [c]) (octalDigits c) hle ((done ++ []).length + 4)
          (by simp [octalDigits])
        rw [List.length_append, List.length_singleton] at ih
        simpa [drift, hc] using ih
      | cons g gap =>
        have ih := charEscapeLoop_kernelEscape s n (done ++ [g]) (gap ++ c :: octalDigits c) hle
          ((done ++ g :: gap).length + 4) (by simp [octalDigits]; omega)
        rw [List.length_append, List.length_singleton] at ih
        simpa [drift, hc] using ih

theorem charEscapePath_kernelEscape (s : CStr) : charEscapePath (kernelEscape s) = cString (drift [] s) := by
  have h := charEscapeLoop_kernelEscape s (kernelEscape s).length [] [] le_rfl 0 rfl
  exact congrArg cString h

/-! ### Which paths come back -/

theorem drift_length : ∀ gap s : CStr, (drift gap s).length = s.length
  | _, [] => by simp [drift]
  | [], c :: s => by simp [drift, drift_length _ s]
  | g :: gap, c :: s => by
    unfold drift
    split_ifs <;> simp [drift_length _ s]

/-- Behind the first escape, the rest comes back if it has no other one. -/
theorem drift_gap_eq_iff : ∀ (s gap : CStr), gap ≠ [] → (∀ g ∈ gap, mangled g = false) →
    (drift gap s = s ↔ ∀ c ∈ s, mangled c = false)
  | [], _, _, _ => by simp [drift]
  | c :: s, [], h, _ => absurd rfl h
  | c :: s, g :: gap, _, hg => by
    obtain ⟨hg, hgap⟩ := List.forall_mem_cons.mp hg
    cases hc : mangled c with
    | false =>
      have ih := drift_gap_eq_iff s (gap ++ [c]) (by simp)
        (List.forall_mem_append.mpr ⟨hgap, List.forall_mem_singleton.mpr hc⟩)
      simp [drift, hc, ih]
    | true =>
      have hne : g ≠ c := fun he => absurd (he ▸ hg) (by simp [hc])
      simp [drift, hc, hne]

/-- A text comes back if at most one of its characters is to be escaped. -/
theorem drift_eq_iff : ∀ s : CStr, drift [] s = s ↔ s.countP mangled ≤ 1
  | [] => by simp [drift]
  | c :: s => by
    cases hc : mangled c with
    | false => simpa [drift, hc] using drift_eq_iff s
    | true =>
      have hgap := drift_gap_eq_iff s (octalDigits c) (by simp [octalDigits]) (octalDigits_plain hc)
      simpa [drift, hc, List.countP_eq_zero] using hgap

/-- **Mount path decoding.** A path comes back from its escaped form exactly if at most one of its characters is
escaped. -/
theorem charEscapePath_kernelEscape_iff {s : CStr} (h : '\x00' ∉ s) :
    charEscapePath (kernelEscape s) = s ↔ s.countP mangled ≤ 1 := by
  rw [charEscapePath_kernelEscape, ← drift_eq_iff]
  constructor
  · intro hs
    have hpre : cString (drift [] s) <+: drift [] s := List.takeWhile_prefix _
    rw [hs] at hpre
    exact (hpre.eq_of_length (drift_length [] s).symm).symm
  · intro hs
    rw [hs]
    exact List.takeWhile_eq_self_iff.mpr fun c hc => decide_eq_true fun h0 => h (h0 ▸ hc)

/-- A path with one space. -/
theorem charEscapePath_one_space :
    charEscapePath (kernelEscape (lit "/media/my disk")) = lit "/media/my disk" ↔
      (lit "/media/my disk").countP mangled ≤ 1 :=
  charEscapePath_kernelEscape_iff (by decide)

/-- With two spaces, the second one comes out as an octal digit of the first. -/
theorem charEscapePath_two_spaces :
    charEscapePath (kernelEscape (lit "/m y d")) = lit "/m y4d" ∧
      charEscapePath (kernelEscape (lit "/m y d")) ≠ lit "/m y d" := by
  decide

end Dbp
