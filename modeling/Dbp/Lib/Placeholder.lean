/-
# Placeholders in a text

A placeholder is a name between two delimiters. `fill` scans a text from
left to right and puts the value of each placeholder in its place; what is
not part of one stays. As no name has a delimiter in it, a text can as well
be read as its pieces between delimiters: a piece is a placeholder if it has
a name and a delimiter before and behind it which no other placeholder has
taken (`fill_splitOn`).

Key definitions: `fill`, `fillPieces`.
Key theorems: `fill_intercalate`, `fill_splitOn`, `mem_fillPieces`.
-/
import Dbp.C.String
import Mathlib.Data.List.Find

namespace Placeholder

open CLib

variable {α : Type*} [DecidableEq α] (c : α) (vals : List (List α × List α))

/-- A name between delimiters. -/
def quoted (name : List α) : List α := c :: (name ++ [c])

/-- The text with the placeholders `vals`, names and values, filled in; the first `n` elements belong to a
placeholder that is filled in already. -/
def fill : ℕ → List α → List α
  | _, [] => []
  | n + 1, _ :: s => fill n s
  | 0, d :: s =>
    match vals.find? fun v => quoted c v.1 <+: d :: s with
    | some v => v.2 ++ fill (v.1.length + 1) s
    | none => d :: fill 0 s

/-- The same on the pieces of the text; the flag says that the delimiter before the first piece is still to be
written. -/
def fillPieces : Bool → List (List α) → List α
  | _, [] => []
  | false, p :: ps => p ++ fillPieces true ps
  | true, [p] => c :: p
  | true, p :: q :: ps =>
    match vals.find? fun v => v.1 = p with
    | some v => v.2 ++ fillPieces false (q :: ps)
    | none => c :: (p ++ fillPieces true (q :: ps))

variable {c vals}

theorem fill_skip : ∀ (s t : List α), fill c vals s.length (s ++ t) = fill c vals 0 t
  | [], _ => rfl
  | _ :: s, t => fill_skip s t

/-- No placeholder begins outside of a delimiter. -/
theorem fill_plain : ∀ {p : List α} (s : List α), c ∉ p → fill c vals 0 (p ++ s) = p ++ fill c vals 0 s
  | [], _, _ => rfl
  | d :: p, s, h => by
    obtain ⟨hd, hp⟩ := List.ne_and_not_mem_of_not_mem_cons h
    have hnone : (vals.find? fun v => quoted c v.1 <+: d :: (p ++ s)) = none := by
      rw [List.find?_eq_none]
      intro v _ hv
      exact hd (List.cons_prefix_cons.mp (of_decide_eq_true hv)).1
    simp only [List.cons_append, fill, hnone, fill_plain s hp]

omit [DecidableEq α] in
/-- A name is read up to the next delimiter. -/
theorem quoted_prefix_iff {name p : List α} (s : List α) (hn : c ∉ name) (hp : c ∉ p) :
    quoted c name <+: c :: (p ++ c :: s) ↔ name = p := by
  rw [quoted, List.cons_prefix_cons, and_iff_right rfl]
  constructor
  · intro h
    induction name generalizing p with
    | nil =>
      cases p with
      | nil => rfl
      | cons d p => exact absurd (List.cons_prefix_cons.mp h).1 (List.ne_of_not_mem_cons hp)
    | cons e name ih =>
      cases p with
      | nil => exact absurd (List.cons_prefix_cons.mp h).1.symm (List.ne_of_not_mem_cons hn)
      | cons d p =>
        obtain ⟨rfl, h'⟩ := List.cons_prefix_cons.mp h
        rw [ih (List.not_mem_of_not_mem_cons hn) (List.not_mem_of_not_mem_cons hp) h']
  · rintro rfl
    exact ⟨s, by simp⟩

theorem fill_open {p : List α} (hp : c ∉ p) : fill c vals 0 (c :: p) = c :: p := by
  have hnone : (vals.find? fun v => quoted c v.1 <+: c :: p) = none := by
    rw [List.find?_eq_none]
    intro v _ hv
    have hc : c ∈ v.1 ++ [c] := by simp
    exact hp ((List.cons_prefix_cons.mp (of_decide_eq_true hv)).2.subset hc)
  have h : fill c vals 0 (p ++ []) = p ++ fill c vals 0 [] := fill_plain [] hp
  rw [List.append_nil] at h
  simp only [fill, hnone, h, List.append_nil]

theorem fill_closed {p : List α} (s : List α) (hv : ∀ v ∈ vals, c ∉ v.1) (hp : c ∉ p) :
    fill c vals 0 (c :: (p ++ c :: s)) =
      match vals.find? fun v => v.1 = p with
      | some v => v.2 ++ fill c vals 0 s
      | none => c :: (p ++ fill c vals 0 (c :: s)) := by
  have hfind : (vals.find? fun v => quoted c v.1 <+: c :: (p ++ c :: s)) = vals.find? fun v => v.1 = p := by
    apply List.find?_congr
    intro v hm
    exact decide_eq_decide.mpr (quoted_prefix_iff s (hv v hm) hp)
  rw [fill, hfind]
  cases hf : vals.find? fun v => v.1 = p with
  | none => rw [fill_plain _ hp]
  | some v =>
    have hname : v.1 = p := by simpa using List.find?_some hf
    have hskip : fill c vals (p ++ [c]).length (p ++ [c] ++ s) = fill c vals 0 s := fill_skip (p ++ [c]) s
    rw [List.length_append, List.length_singleton, List.append_assoc, List.singleton_append] at hskip
    simp only [hname, hskip]

/-- **Filling piece by piece**, before a delimiter still to be written and before none. -/
theorem fill_intercalate (hv : ∀ v ∈ vals, c ∉ v.1) : ∀ ps : List (List α), (∀ p ∈ ps, c ∉ p) →
    fill c vals 0 ([c].intercalate ps) = fillPieces c vals false ps ∧
      (ps ≠ [] → fill c vals 0 (c :: [c].intercalate ps) = fillPieces c vals true ps)
  | [], _ => ⟨rfl, fun h => absurd rfl h⟩
  | [p], h => by
    have hp := List.forall_mem_singleton.mp h
    rw [List.intercalate_singleton]
    have hplain : fill c vals 0 (p ++ []) = p ++ fill c vals 0 [] := fill_plain [] hp
    exact ⟨by simpa [fillPieces, fill] using hplain, fun _ => fill_open hp⟩
  | p :: q :: ps, h => by
    obtain ⟨hp, hq⟩ := List.forall_mem_cons.mp h
    obtain ⟨ih, ih'⟩ := fill_intercalate hv (q :: ps) hq
    rw [List.intercalate_cons_cons, List.append_assoc, List.singleton_append]
    refine ⟨?_, fun _ => ?_⟩
    · rw [fill_plain _ hp, ih' (by simp), fillPieces]
    · rw [fill_closed _ hv hp, ih, ih' (by simp)]
      rfl

/-- A text is filled piece by piece. -/
theorem fill_splitOn (hv : ∀ v ∈ vals, c ∉ v.1) (s : List α) :
    fill c vals 0 s = fillPieces c vals false (s.splitOn c) := by
  have h := (fill_intercalate hv (s.splitOn c) fun p hp => not_mem_of_mem_splitOn hp).1
  rwa [List.intercalate_splitOn] at h

/-- What stands in no name stays in the text. -/
theorem mem_fillPieces {x : α} (hv : ∀ v ∈ vals, x ∉ v.1) : ∀ {ps : List (List α)} {b : Bool},
    (∃ p ∈ ps, x ∈ p) → x ∈ fillPieces c vals b ps
  | [], _, h => by simp at h
  | p :: ps, false, ⟨p', hp', hx⟩ => by
    rw [fillPieces, List.mem_append]
    rcases List.mem_cons.mp hp' with rfl | hp'
    · exact .inl hx
    · exact .inr (mem_fillPieces hv ⟨p', hp', hx⟩)
  | [p], true, ⟨p', hp', hx⟩ => by
    obtain rfl := List.mem_singleton.mp hp'
    exact List.mem_cons_of_mem _ hx
  | p :: q :: ps, true, ⟨p', hp', hx⟩ => by
    rw [fillPieces]
    rcases List.mem_cons.mp hp' with rfl | hp'
    · cases hf : vals.find? fun v => v.1 = p' with
      | none => exact List.mem_cons_of_mem _ (List.mem_append_left _ hx)
      | some v =>
        have hname : v.1 = p' := by simpa using List.find?_some hf
        exact absurd (hname ▸ hx) (hv v (List.mem_of_find?_eq_some hf))
    · cases vals.find? fun v => v.1 = p with
      | none => exact List.mem_cons_of_mem _ (List.mem_append_right _ (mem_fillPieces hv ⟨p', hp', hx⟩))
      | some v => exact List.mem_append_right _ (mem_fillPieces hv ⟨p', hp', hx⟩)

end Placeholder
