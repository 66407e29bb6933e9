/-
# Where a search in a list stops

`findIdx?` and `find?` as splits of the list around the first hit, which is
how a proof uses an index loop that breaks at the first match; lookups in a
list of pairs, whose keys may be distinct; and the rest of a list split
around one element, as an array is after its removal.

Key theorems: `findIdx?_split`, `findIdx?_none`, `exists_mem_concat`,
`exists_mem_middle`, `mem_of_lookup`, `lookup_of_mem`, `mem_of_rest`,
`nodup_rest`, `split_unique`, `eraseP_perm_iff`, `eraseP_concat_iff`,
`argmax_eq_some_iff_split`.
-/
import Mathlib.Data.List.Nodup
import Mathlib.Data.Multiset.ZeroCons
import Mathlib.Data.List.MinMax

namespace Find

variable {α : Type*} {p : α → Bool}

/-- The list around the first element that satisfies `p`. -/
theorem findIdx?_split : ∀ {xs : List α} {i : ℕ}, xs.findIdx? p = some i →
    ∃ pre x post, xs = pre ++ x :: post ∧ pre.length = i ∧ p x = true ∧ ∀ y ∈ pre, p y = false
  | [], _, h => by simp at h
  | x :: xs, i, h => by
    rw [List.findIdx?_cons] at h
    split_ifs at h with hx
    · cases h
      exact ⟨[], x, xs, rfl, rfl, hx, by simp⟩
    · obtain ⟨j, hj, rfl⟩ := Option.map_eq_some_iff.mp h
      obtain ⟨pre, y, post, rfl, rfl, hy, hpre⟩ := findIdx?_split hj
      refine ⟨x :: pre, y, post, rfl, rfl, hy, fun z hz => ?_⟩
      rcases List.mem_cons.mp hz with rfl | hz
      · simpa using hx
      · exact hpre z hz

theorem findIdx?_none {xs : List α} (h : xs.findIdx? p = none) : ∀ x ∈ xs, p x = false := by
  simpa using List.findIdx?_eq_none_iff.mp h

theorem find?_eq_findIdx? (p : α → Bool) (d : α) (xs : List α) :
    (xs.findIdx? p).map (xs.getD · d) = xs.find? p := by
  induction xs with
  | nil => rfl
  | cons x xs ih =>
    rw [List.findIdx?_cons, List.find?_cons]
    cases p x with
    | true => rfl
    | false =>
      rw [← ih]
      cases xs.findIdx? p <;> rfl

/-- A search in an array with one more element. -/
theorem exists_mem_concat {P : α → Prop} {xs : List α} {y : α} :
    (∃ x ∈ xs ++ [y], P x) ↔ (∃ x ∈ xs, P x) ∨ P y := by
  simp [List.mem_append, or_and_right, exists_or]

/-- A search in an array with an element in the middle. -/
theorem exists_mem_middle {P : α → Prop} {pre post : List α} {y : α} :
    (∃ x ∈ pre ++ y :: post, P x) ↔ P y ∨ ∃ x ∈ pre ++ post, P x := by
  simp [List.mem_append, or_and_right, exists_or, or_left_comm]

theorem not_exists_key {β : Type*} {f : α → β} {k : β} {P : α → Prop} {xs : List α} (h : ∀ x ∈ xs, f x ≠ k) :
    ¬ ∃ x ∈ xs, f x = k ∧ P x :=
  fun ⟨x, hx, hk, _⟩ => h x hx hk

section Lookup

variable {β : Type*} [BEq α] [LawfulBEq α] {l : List (α × β)} {a : α} {b : β}

theorem mem_of_lookup (h : l.lookup a = some b) : (a, b) ∈ l := by
  obtain ⟨l₁, l₂, rfl, -⟩ := List.lookup_eq_some_iff.mp h
  simp

theorem lookup_of_mem (hnd : (l.map (·.1)).Nodup) (h : (a, b) ∈ l) : l.lookup a = some b := by
  obtain ⟨l₁, l₂, rfl⟩ := List.append_of_mem h
  rw [List.map_append, List.nodup_append] at hnd
  refine List.lookup_eq_some_iff.mpr ⟨l₁, l₂, rfl, fun p hp => ?_⟩
  rw [bne_iff_ne]
  exact (hnd.2.2 _ (List.mem_map_of_mem hp) _ (by simp)).symm

theorem lookup_eq_none (h : ∀ b, (a, b) ∉ l) : l.lookup a = none := by
  rw [List.lookup_eq_none_iff]
  rintro ⟨a', b⟩ hb
  rw [bne_iff_ne]
  rintro rfl
  exact h b hb

theorem eq_of_mem_nodup (hnd : (l.map (·.1)).Nodup) {b' : β} (h : (a, b) ∈ l) (h' : (a, b') ∈ l) : b = b' :=
  Option.some.inj ((lookup_of_mem hnd h).symm.trans (lookup_of_mem hnd h'))

end Lookup

section Rest

variable {xs pre post : List α} {x y : α}

theorem nodup_concat (h : xs.Nodup) (hx : x ∉ xs) : (xs ++ [x]).Nodup := by
  rw [← List.concat_eq_append]
  exact h.concat hx

theorem eraseIdx_middle : (pre ++ x :: post).eraseIdx pre.length = pre ++ post := by
  simp [List.eraseIdx_append_of_length_le]

theorem mem_of_rest (h : xs = pre ++ x :: post) (hy : y ∈ pre ++ post) : y ∈ xs := by
  rw [h]
  exact ((List.sublist_cons_self x post).append_left pre).subset hy

/-- An element of an array without repeated keys has its own, and so have the others. -/
theorem nodup_rest {β : Type*} {f : α → β} (h : xs = pre ++ x :: post) (hnd : (xs.map f).Nodup) :
    (∀ y ∈ pre ++ post, f y ≠ f x) ∧ ((pre ++ post).map f).Nodup := by
  rw [h, List.map_append, List.map_cons, List.nodup_middle, List.nodup_cons, ← List.map_append] at hnd
  exact ⟨fun y hy he => hnd.1 (he ▸ List.mem_map_of_mem hy), hnd.2⟩

/-- The place of a key in an array without repeated keys. -/
theorem split_unique {β : Type*} {f : α → β} : ∀ {pre pre' post post' : List α} {x y : α},
    pre ++ x :: post = pre' ++ y :: post' → ((pre ++ x :: post).map f).Nodup → f x = f y → pre = pre' ∧ post = post'
  | [], [], _, _, _, _, h, _, _ => ⟨rfl, (List.cons.inj h).2⟩
  | [], z :: pre', post, post', x, y, h, hnd, hf => by
    obtain ⟨-, rfl⟩ := List.cons.inj h
    rw [List.nil_append, List.map_cons, List.nodup_cons, hf] at hnd
    exact absurd (List.mem_map_of_mem (by simp)) hnd.1
  | z :: pre, [], post, post', x, y, h, hnd, hf => by
    obtain ⟨rfl, rfl⟩ := List.cons.inj h
    rw [List.cons_append, List.map_cons, List.nodup_cons, ← hf] at hnd
    exact absurd (List.mem_map_of_mem (by simp)) hnd.1
  | z :: pre, z' :: pre', post, post', x, y, h, hnd, hf => by
    obtain ⟨rfl, ht⟩ := List.cons.inj h
    rw [List.cons_append, List.map_cons, List.nodup_cons] at hnd
    obtain ⟨rfl, rfl⟩ := split_unique ht hnd.2 hf
    exact ⟨rfl, rfl⟩

end Rest

section Erase

variable {l base : List α} {x : α}

theorem perm_eraseP (h : l.find? p = some x) : (x :: l.eraseP p).Perm l := by
  obtain ⟨hx, pre, post, rfl, hpre⟩ := List.find?_eq_some_iff_append.mp h
  have hno : ∀ a ∈ pre, ¬ p a = true := fun a ha => by simpa using hpre a ha
  rw [List.eraseP_append_right _ hno, List.eraseP_cons_of_pos hx]
  exact List.perm_middle.symm

/-- Of a list that is another one with `x` added, the removal of a hit leaves the other one exactly if the hit is `x`. -/
theorem eraseP_perm_iff (hl : l.Perm (base ++ [x])) (hx : p x = true) :
    (l.eraseP p).Perm base ↔ l.find? p = some x := by
  have hsome : (l.find? p).isSome := by
    rw [List.find?_isSome]
    exact ⟨x, hl.mem_iff.mpr (by simp), hx⟩
  obtain ⟨y, hy⟩ := Option.isSome_iff_exists.mp hsome
  have hperm : (y :: l.eraseP p).Perm (x :: base) :=
    ((perm_eraseP hy).trans hl).trans (List.perm_append_singleton x base)
  rw [hy, Option.some.injEq]
  constructor
  · intro h
    have hcons : (y ::ₘ (base : Multiset α)) = x ::ₘ base :=
      Multiset.coe_eq_coe.mpr ((h.symm.cons y).trans hperm)
    exact (Multiset.cons_inj_left _).mp hcons
  · rintro rfl
    exact hperm.cons_inv

/-- The removal of a hit takes a last element away again exactly if it is the only hit. -/
theorem eraseP_concat_iff (hx : p x = true) (hnew : x ∉ base) :
    (base ++ [x]).eraseP p = base ↔ ∀ y ∈ base, ¬ p y = true := by
  constructor
  · intro h y hy hp
    rw [List.eraseP_append_left hp _ hy] at h
    have hmem : x ∈ base.eraseP p ++ [x] := by simp
    exact hnew (h ▸ hmem)
  · intro h
    rw [List.eraseP_append_right _ h, List.eraseP_cons_of_pos hx, List.append_nil]

end Erase

/-- The first greatest element of a list, as a split around it. -/
theorem argmax_eq_some_iff_split {β : Type*} [LinearOrder β] (f : α → β) (m : α) (xs : List α) : xs.argmax f = some m ↔
    ∃ pre post, xs = pre ++ m :: post ∧ (∀ x ∈ pre, f x < f m) ∧ ∀ x ∈ post, f x ≤ f m := by
  constructor
  · intro h
    induction xs using List.reverseRecOn with
    | nil => simp at h
    | append_singleton xs x ih =>
      rw [List.argmax_concat] at h
      cases hxs : xs.argmax f with
      | none =>
        rw [hxs] at h
        obtain rfl := Option.some.inj h
        exact ⟨[], [], by simp [List.argmax_eq_none.mp hxs], by simp, by simp⟩
      | some c =>
        simp only [hxs] at h
        split_ifs at h with hlt
        · obtain rfl := Option.some.inj h
          exact ⟨xs, [], rfl, fun y hy => (List.le_of_mem_argmax hy hxs).trans_lt hlt, by simp⟩
        · obtain rfl := Option.some.inj h
          obtain ⟨pre, post, rfl, hpre, hpost⟩ := ih hxs
          refine ⟨pre, post ++ [x], by simp, hpre, fun y hy => ?_⟩
          rcases List.mem_append.mp hy with hy | hy
          · exact hpost y hy
          · exact List.mem_singleton.mp hy ▸ not_lt.mp hlt
  · rintro ⟨pre, post, rfl, hpre, hpost⟩
    induction post using List.reverseRecOn with
    | nil =>
      rw [List.argmax_concat]
      cases hmax : pre.argmax f with
      | none => rfl
      | some c => exact if_pos (hpre c (List.argmax_mem hmax))
    | append_singleton post x ih =>
      have hx : ¬ f m < f x := not_lt.mpr (hpost x (by simp))
      rw [← List.cons_append, ← List.append_assoc, List.argmax_concat, ih fun y hy => hpost y (by simp [hy])]
      exact if_neg hx

end Find
