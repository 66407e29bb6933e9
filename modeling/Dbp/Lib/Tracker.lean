/-
# Tracking a set by marks

A list of items is kept in step with the items met in a snapshot: every item
met is marked, unknown items are appended with a mark, and at the end the
items without a mark are dropped. But the search for an item also marks the
items near it that it passes on the way. What is left is then the items met
and those near ones (`mem_track`). So it is the items met exactly when none
that is not met has a near one met that it comes before (`track_iff`).

Key definitions: `mark`, `note`, `noted`, `kept`, `dropped`, `track`, `strays`.
Key theorems: `noted_spec`, `mem_track`, `track_iff`, `Noted.dropped_eq`, `strays_iff`, `quiet_iff`.
-/
import Mathlib.Data.List.Basic
import Mathlib.Data.List.Nodup
import Mathlib.Data.List.Induction

namespace Tracker

variable {α : Type*} [DecidableEq α] (near : α → α → Prop) [DecidableRel near]

/-- The search for `x`: up to `x` itself, all items near it are marked. -/
def mark (x : α) : List (α × Bool) → List (α × Bool)
  | [] => []
  | (a, b) :: l => if a = x then (a, true) :: l else (a, b || decide (near a x)) :: mark x l

/-- An item is met. -/
def note (l : List (α × Bool)) (x : α) : List (α × Bool) :=
  if x ∈ l.map Prod.fst then mark near x l else mark near x l ++ [(x, true)]

/-- The items with a mark. -/
def kept (l : List (α × Bool)) : List α := (l.filter (·.2)).map Prod.fst

/-- The items without a mark. -/
def dropped (l : List (α × Bool)) : List α := (l.filter (!·.2)).map Prod.fst

/-- The items with marks, after those of `xs` were met. -/
def noted (items xs : List α) : List (α × Bool) := xs.foldl (note near) (items.map (·, false))

/-- The items tracked from then on. -/
def track (items xs : List α) : List α := kept (noted near items xs)

/-- The search for `x` passes an item near it. -/
def strays (x : α) : List α → Bool
  | [] => false
  | a :: l => if a = x then false else decide (near a x) || strays x l

section Mark

variable {near} {x a : α} {l : List (α × Bool)}

omit [DecidableEq α] in
theorem mem_kept : a ∈ kept l ↔ (a, true) ∈ l := by
  simp [kept]

theorem mark_fst (x : α) (l : List (α × Bool)) : (mark near x l).map Prod.fst = l.map Prod.fst := by
  induction l with
  | nil => rfl
  | cons p l ih =>
    rw [mark]
    split_ifs
    · rfl
    · rw [List.map_cons, ih, List.map_cons]

/-- What the search for `x` marks. -/
theorem mem_mark : (a, true) ∈ mark near x l ↔ (a, true) ∈ l ∨ a ∈ l.map Prod.fst ∧
    (a = x ∨ near a x ∧ (l.map Prod.fst).idxOf a < (l.map Prod.fst).idxOf x) := by
  induction l with
  | nil => simp [mark]
  | cons p l ih =>
    obtain ⟨a₀, b₀⟩ := p
    rw [mark]
    by_cases hx : a₀ = x
    · subst hx
      rw [if_pos rfl]
      by_cases ha : a = a₀
      · simp [ha]
      · simp [ha]
    · rw [if_neg hx, List.mem_cons, ih, List.map_cons, List.idxOf_cons_ne _ hx]
      by_cases ha : a = a₀
      · subst ha
        by_cases hn : near a x <;> simp [hx, hn]
      · rw [List.idxOf_cons_ne _ (Ne.symm ha)]
        simp [ha]

/-- What is marked once `x` was met. -/
theorem mem_note : (a, true) ∈ note near l x ↔ (a, true) ∈ l ∨ a = x ∨ a ∈ l.map Prod.fst ∧ near a x ∧
    (l.map Prod.fst).idxOf a < (l.map Prod.fst).idxOf x := by
  unfold note
  by_cases hx : x ∈ l.map Prod.fst
  · rw [if_pos hx, mem_mark]
    refine or_congr_right ⟨fun ⟨ha, h⟩ => h.imp_right fun h => ⟨ha, h⟩, fun h => ?_⟩
    rcases h with rfl | ⟨ha, h⟩
    · exact ⟨hx, .inl rfl⟩
    · exact ⟨ha, .inr h⟩
  · rw [if_neg hx, List.mem_append, mem_mark]
    have hne : ∀ a ∈ l.map Prod.fst, a ≠ x := fun a ha => ne_of_mem_of_not_mem ha hx
    constructor
    · rintro ((h | ⟨ha, h | h⟩) | h)
      · exact .inl h
      · exact absurd h (hne a ha)
      · exact .inr (.inr ⟨ha, h⟩)
      · exact .inr (.inl (by simpa using h))
    · rintro (h | h | ⟨ha, h⟩)
      · exact .inl (.inl h)
      · exact .inr (by simp [h])
      · exact .inl (.inr ⟨ha, .inr h⟩)

theorem note_fst (l : List (α × Bool)) (x : α) : (note near l x).map Prod.fst =
    if x ∈ l.map Prod.fst then l.map Prod.fst else l.map Prod.fst ++ [x] := by
  unfold note
  split_ifs
  · exact mark_fst x l
  · rw [List.map_append, mark_fst]
    rfl

end Mark

/-! ### Snapshots -/

section Track

variable {near} {items xs : List α} {a : α}

/-- The items of a list and those of a snapshot that are new, in the order they are met. -/
structure Noted (near : α → α → Prop) (items xs : List α) (l : List (α × Bool)) : Prop where
  grows : items <+: l.map Prod.fst
  mem : ∀ a, a ∈ l.map Prod.fst ↔ a ∈ items ∨ a ∈ xs
  nodup : (l.map Prod.fst).Nodup
  marked : ∀ a, (a, true) ∈ l ↔ a ∈ xs ∨ a ∈ items ∧ ∃ x ∈ xs, near a x ∧ items.idxOf a < items.idxOf x

theorem idxOf_lt_iff {l : List α} (h : items <+: l) (ha : a ∈ items) (x : α) :
    l.idxOf a < l.idxOf x ↔ items.idxOf a < items.idxOf x := by
  obtain ⟨r, rfl⟩ := h
  rw [List.idxOf_append_of_mem ha]
  by_cases hx : x ∈ items
  · rw [List.idxOf_append_of_mem hx]
  · rw [List.idxOf_append_of_notMem hx, List.idxOf_of_notMem hx]
    have := List.idxOf_lt_length_iff.mpr ha
    omega

/-- One more item is met. -/
theorem Noted.note {l : List (α × Bool)} (h : Noted near items xs l) (x : α) :
    Noted near items (xs ++ [x]) (Tracker.note near l x) where
  grows := by
    rw [note_fst]
    split_ifs
    · exact h.grows
    · exact h.grows.trans (List.prefix_append _ _)
  mem a := by
    rw [note_fst]
    split_ifs with hx
    · have hx' := (h.mem x).mp hx
      rw [h.mem, List.mem_append, List.mem_singleton]
      refine ⟨fun ha => ha.imp_right .inl, fun ha => ?_⟩
      rcases ha with ha | ha | rfl
      · exact .inl ha
      · exact .inr ha
      · exact hx'
    · rw [List.mem_append, h.mem, List.mem_append, or_assoc]
  nodup := by
    rw [note_fst]
    split_ifs with hx
    · exact h.nodup
    · exact h.nodup.append (List.nodup_singleton x) (by simpa using hx)
  marked a := by
    rw [mem_note, h.marked]
    constructor
    · rintro ((ha | ⟨ha, y, hy, hay⟩) | rfl | ⟨ha, hn, hlt⟩)
      · exact .inl (List.mem_append_left _ ha)
      · exact .inr ⟨ha, y, List.mem_append_left _ hy, hay⟩
      · exact .inl (by simp)
      · rcases (h.mem a).mp ha with ha' | ha'
        · exact .inr ⟨ha', x, by simp, hn, (idxOf_lt_iff h.grows ha' x).mp hlt⟩
        · exact .inl (List.mem_append_left _ ha')
    · rintro (ha | ⟨ha, y, hy, hn, hlt⟩)
      · rcases List.mem_append.mp ha with ha | ha
        · exact .inl (.inl ha)
        · exact .inr (.inl (by simpa using ha))
      · rcases List.mem_append.mp hy with hy | hy
        · exact .inl (.inr ⟨ha, y, hy, hn, hlt⟩)
        · obtain rfl : y = x := by simpa using hy
          exact .inr (.inr ⟨(h.mem a).mpr (.inl ha), hn, (idxOf_lt_iff h.grows ha y).mpr hlt⟩)

theorem noted_spec (hnd : items.Nodup) (xs : List α) : Noted near items xs (noted near items xs) := by
  unfold noted
  induction xs using List.reverseRecOn with
  | nil =>
    have hfst : (items.map (·, false)).map Prod.fst = items := by
      rw [List.map_map]
      exact List.map_id _
    refine ⟨⟨[], ?_⟩, by simp, by rwa [List.foldl_nil, hfst], by simp⟩
    rw [List.append_nil]
    exact hfst.symm
  | append_singleton xs x ih =>
    rw [List.foldl_append]
    exact ih.note x

/-- What is tracked: the items met, and the ones before a near one that was met. -/
theorem mem_track (hnd : items.Nodup) : a ∈ track near items xs ↔
    a ∈ xs ∨ a ∈ items ∧ ∃ x ∈ xs, near a x ∧ items.idxOf a < items.idxOf x := by
  rw [track, mem_kept, (noted_spec hnd xs).marked]

theorem track_nodup (hnd : items.Nodup) (xs : List α) : (track near items xs).Nodup :=
  (noted_spec hnd xs).nodup.sublist (List.filter_sublist.map _)

/-- The items met are tracked and no others, exactly when no item that is not met comes before a near
one that is. -/
theorem track_iff (hnd : items.Nodup) : (∀ a, a ∈ track near items xs ↔ a ∈ xs) ↔
    ∀ a ∈ items, a ∉ xs → ∀ x ∈ xs, near a x → items.idxOf x ≤ items.idxOf a := by
  constructor
  · intro h a ha hxs x hx hn
    by_contra hlt
    exact hxs ((h a).mp ((mem_track hnd).mpr (.inr ⟨ha, x, hx, hn, by omega⟩)))
  · intro h a
    rw [mem_track hnd]
    refine ⟨fun hm => hm.elim id fun ⟨ha, x, hx, hn, hlt⟩ => ?_, .inl⟩
    by_contra hxs
    have := h a ha hxs x hx hn
    omega

omit [DecidableRel near] in
/-- What is dropped is the items that are not kept, in order. -/
theorem Noted.dropped_eq {l : List (α × Bool)} (h : Noted near items xs l) :
    dropped l = items.filter (· ∉ kept l) := by
  obtain ⟨new, hnew⟩ := h.grows
  have hflag : dropped l = (l.map Prod.fst).filter (· ∉ kept l) := by
    rw [dropped, List.filter_map]
    congr 1
    apply List.filter_congr
    intro p hp
    obtain ⟨a, b⟩ := p
    cases b with
    | true => simp [mem_kept, hp]
    | false =>
      have hne : (a, true) ∉ l := fun ht => by
        have := List.inj_on_of_nodup_map h.nodup hp ht rfl
        cases this
      simp [mem_kept, hne]
  have hnone : new.filter (· ∉ kept l) = [] := by
    rw [List.filter_eq_nil_iff]
    intro a ha
    have hmem : a ∈ l.map Prod.fst := by
      rw [← hnew]
      exact List.mem_append_right _ ha
    have hout : a ∉ items := fun hi => by
      have hnd := h.nodup
      rw [← hnew, List.nodup_append] at hnd
      exact hnd.2.2 _ hi _ ha rfl
    simpa [mem_kept] using (h.marked a).mpr (.inl (((h.mem a).mp hmem).resolve_left hout))
  rw [hflag, ← hnew, List.filter_append, hnone, List.append_nil]

/-- The search for `x` passes an item near it. -/
theorem strays_iff {x : α} {l : List α} : strays near x l = true ↔ ∃ a ∈ l, near a x ∧ l.idxOf a < l.idxOf x := by
  induction l with
  | nil => simp [strays]
  | cons a₀ l ih =>
    rw [strays]
    by_cases hx : a₀ = x
    · subst hx
      simp
    · rw [if_neg hx, Bool.or_eq_true, decide_eq_true_eq, ih, List.idxOf_cons_ne _ hx]
      constructor
      · rintro (hn | ⟨a, ha, hn, hlt⟩)
        · exact ⟨a₀, by simp, hn, by simp⟩
        · by_cases he : a₀ = a
          · exact ⟨a₀, by simp, he ▸ hn, by simp⟩
          · exact ⟨a, by simp [ha], hn, by rw [List.idxOf_cons_ne _ he]; omega⟩
      · rintro ⟨a, ha, hn, hlt⟩
        by_cases he : a₀ = a
        · exact .inl (he ▸ hn)
        · rw [List.idxOf_cons_ne _ he] at hlt
          exact .inr ⟨a, (List.mem_cons.mp ha).resolve_left (Ne.symm he), hn, by omega⟩

/-- The searches for the items themselves pass no near item exactly when no two items are near. -/
theorem quiet_iff (hnd : items.Nodup) :
    (∀ x ∈ items, strays near x items = false) ↔ items.Pairwise fun a b => ¬ near a b := by
  rw [List.pairwise_iff_getElem]
  constructor
  · intro h i j hi hj hij hn
    have hs := h items[j] (List.getElem_mem hj)
    rw [← Bool.not_eq_true, strays_iff] at hs
    exact hs ⟨items[i], List.getElem_mem hi, hn, by rwa [hnd.idxOf_getElem, hnd.idxOf_getElem]⟩
  · intro h x hx
    rw [← Bool.not_eq_true, strays_iff]
    rintro ⟨a, ha, hn, hlt⟩
    have hnear := h (items.idxOf a) (items.idxOf x) (List.idxOf_lt_length_iff.mpr ha)
      (List.idxOf_lt_length_iff.mpr hx) hlt
    rw [List.getElem_idxOf, List.getElem_idxOf] at hnear
    exact hnear hn

end Track

end Tracker
