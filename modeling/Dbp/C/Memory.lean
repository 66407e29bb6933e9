/-
# Bytes in memory

A buffer as its bytes: the 32-bit words and the C strings that a program
reads in it at an offset, the least byte of a word first. A read that would
go past the last byte has no result, so a function that returns one has read
inside the buffer. What was stored behind a prefix is read back at the
prefix's length (`load32_append`, `loadString_append`).

Key definitions: `bytes32`, `load32`, `charBytes`, `loadString`.
Key theorems: `load32_append`, `loadString_append`.
-/
import Dbp.C.String

namespace CLib

/-! ### Words -/

/-- The bytes of a word. -/
def bytes32 (w : BitVec 32) : List UInt8 :=
  [w.toNat, w.toNat / 2 ^ 8, w.toNat / 2 ^ 16, w.toNat / 2 ^ 24].map UInt8.ofNat

/-- The word that bytes make. -/
def word32 (bs : List UInt8) : BitVec 32 := BitVec.ofNat 32 (bs.foldr (fun b n => b.toNat + 2 ^ 8 * n) 0)

/-- The word at an offset. -/
def load32 (buff : List UInt8) (off : ℕ) : Option (BitVec 32) :=
  if off + 4 ≤ buff.length then some (word32 ((buff.drop off).take 4)) else none

@[simp] theorem length_bytes32 (w : BitVec 32) : (bytes32 w).length = 4 := rfl

theorem word32_bytes32 (w : BitVec 32) : word32 (bytes32 w) = w := by
  have hlt := w.isLt
  apply BitVec.eq_of_toNat_eq
  simp only [word32, bytes32, List.map_cons, List.map_nil, List.foldr_cons, List.foldr_nil, UInt8.toNat_ofNat',
    BitVec.toNat_ofNat]
  omega

/-- A word is read back where it was stored. -/
theorem load32_append (pre : List UInt8) (w : BitVec 32) (post : List UInt8) {off : ℕ} (h : off = pre.length) :
    load32 (pre ++ (bytes32 w ++ post)) off = some w := by
  subst h
  have hlen : pre.length + 4 ≤ (pre ++ (bytes32 w ++ post)).length := by
    rw [List.length_append, List.length_append, length_bytes32]
    omega
  have htake : (bytes32 w ++ post).take 4 = bytes32 w := List.take_left' (length_bytes32 w)
  rw [load32, if_pos hlen, List.drop_left, htake, word32_bytes32]

/-! ### Strings -/

/-- The characters of bytes. -/
def charBytes (bs : List UInt8) : CStr := bs.map fun b => Char.ofNat b.toNat

/-- The C string at an offset: the bytes before the next NUL. -/
def loadString (buff : List UInt8) (off : ℕ) : Option CStr :=
  if 0 ∈ buff.drop off then some (charBytes ((buff.drop off).takeWhile (· ≠ 0))) else none

/-- A string is read back where it was stored with a NUL behind it. -/
theorem loadString_append (pre : List UInt8) {s : List UInt8} (hs : 0 ∉ s) {n : ℕ} (hn : 0 < n) (post : List UInt8)
    {off : ℕ} (h : off = pre.length) :
    loadString (pre ++ (s ++ (List.replicate n 0 ++ post))) off = some (charBytes s) := by
  subst h
  obtain ⟨n, rfl⟩ := Nat.exists_eq_succ_of_ne_zero hn.ne'
  have hall : ∀ b ∈ s, decide (b ≠ 0) = true := fun b hb => decide_eq_true fun h0 => hs (h0 ▸ hb)
  have hrun : (s ++ (List.replicate (n + 1) 0 ++ post)).takeWhile (· ≠ 0) = s :=
    takeWhile_append_stop hall (by simp [List.replicate_succ])
  rw [loadString, List.drop_left, if_pos (by simp), hrun]

end CLib
