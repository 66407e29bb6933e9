/-
# Grouping by a key

Items with keys come in any order, and each is put on the entry of its key:
the first entry with it, or a new one at the end. Every item changes the
entry, but not its key. So there is one entry for each key, in the order in
which the keys first come, and it is what the items of the key make of a new
entry, one after the other (`group_eq`).

Key definitions: `firsts`, `upsert`, `group`.
Key theorems: `mem_keys_firsts`, `firsts_eq_self`, `upsert_map`, `group_eq`.
-/
import Mathlib.Data.List.Basic
import Mathlib.Data.List.Nodup
import Mathlib.Data.List.Induction

namespace Group

variable {α β κ : Type*} [DecidableEq κ]

/-! ### The first of each key -/

/-- The items whose key none before them has. -/
def firsts (key : α → κ) (xs : List α) : List α :=
  xs.foldl (fun ys x => if key x ∈ ys.map key then ys else ys ++ [x]) []

section Firsts

variable (key : α → κ)

theorem firsts_concat (xs : List α) (x : α) : firsts key (xs ++ [x]) =
    if key x ∈ (firsts key xs).map key then firsts key xs else firsts key xs ++ [x] := by
  rw [firsts, List.foldl_append]
  rfl

theorem mem_keys_firsts (xs : List α) (k : κ) : k ∈ (firsts key xs).map key ↔ k ∈ xs.map key := by
  induction xs using List.reverseRecOn with
  | nil => rfl
  | append_singleton xs x ih =>
    rw [firsts_concat, List.map_append, List.mem_append, ← ih]
    split_ifs with h
    · refine ⟨.inl, fun hk => hk.elim id fun hk => ?_⟩
      rwa [List.mem_singleton.mp hk]
    · rw [List.map_append, List.mem_append]

theorem nodup_firsts (xs : List α) : ((firsts key xs).map key).Nodup := by
  induction xs using List.reverseRecOn with
  | nil => exact List.nodup_nil
  | append_singleton xs x ih =>
    rw [firsts_concat]
    split_ifs with h
    · exact ih
    · rw [List.map_append]
      exact ih.append (List.nodup_singleton _) (by simpa using h)

theorem firsts_sublist (xs : List α) : (firsts key xs).Sublist xs := by
  induction xs using List.reverseRecOn with
  | nil => exact .slnil
  | append_singleton xs x ih =>
    rw [firsts_concat]
    split_ifs
    · exact ih.trans (List.sublist_append_left xs [x])
    · exact ih.append (.refl [x])

/-- Items with different keys are all firsts. -/
theorem firsts_eq_self {xs : List α} (h : (xs.map key).Nodup) : firsts key xs = xs := by
  induction xs using List.reverseRecOn with
  | nil => rfl
  | append_singleton xs x ih =>
    rw [List.map_append] at h
    have hx : key x ∉ xs.map key := fun hm => (List.nodup_append.mp h).2.2 _ hm _ (by simp) rfl
    rw [firsts_concat, ih (List.nodup_append.mp h).1, if_neg hx]

end Firsts

/-! ### Entries -/

/-- The entry of a key, the first one with it or a new one, is changed. -/
def upsert (key : β → κ) (new : κ → β) (f : β → β) (k : κ) (bs : List β) : List β :=
  match bs.findIdx? (key · == k) with
  | some i => bs.modify i f
  | none => bs ++ [f (new k)]

/-- All items, in order. -/
def group (key : β → κ) (new : κ → β) (keyOf : α → κ) (f : α → β → β) (as : List α) : List β :=
  as.foldl (fun bs a => upsert key new (f a) (keyOf a) bs) []

section Entries

variable {key : β → κ} {new : κ → β} {keyOf : α → κ}

/-- A key that no entry has. -/
theorem upsert_new {bs : List β} {k : κ} (h : ∀ b ∈ bs, key b ≠ k) (f : β → β) :
    upsert key new f k bs = bs ++ [f (new k)] := by
  have hnone : bs.findIdx? (key · == k) = none :=
    List.findIdx?_eq_none_iff.mpr fun b hb => by simpa using h b hb
  simp only [upsert, hnone]

/-- A key that only the last entry has. -/
theorem upsert_last {bs : List β} {b : β} {k : κ} (h : ∀ b ∈ bs, key b ≠ k) (hb : key b = k) (f : β → β) :
    upsert key new f k (bs ++ [b]) = bs ++ [f b] := by
  have hnone : bs.findIdx? (key · == k) = none :=
    List.findIdx?_eq_none_iff.mpr fun b hb => by simpa using h b hb
  have hlast : (bs ++ [b]).findIdx? (key · == k) = some bs.length := by
    simp [List.findIdx?_append, hnone, hb]
  simp only [upsert, hlast]
  rw [List.modify_eq_take_cons_drop (by simp)]
  simp

/-- A change of the one entry of a key. -/
theorem modify_eq_map {g : κ → β} (hg : ∀ k, key (g k) = k) (f : β → β) {k : κ} : ∀ {ks : List κ}, ks.Nodup → k ∈ ks →
    ∃ i, (ks.map g).findIdx? (key · == k) = some i ∧
      (ks.map g).modify i f = ks.map fun k' => if k' = k then f (g k') else g k'
  | [], _, h => absurd h List.not_mem_nil
  | k₀ :: ks, hnd, h => by
    obtain ⟨hout, hnd⟩ := List.nodup_cons.mp hnd
    rw [List.map_cons, List.findIdx?_cons, hg]
    by_cases hk : k₀ = k
    · subst hk
      refine ⟨0, by simp, ?_⟩
      rw [List.modify_zero_cons, List.map_cons, if_pos rfl]
      refine congrArg _ (List.map_congr_left fun k' hk' => ?_)
      rw [if_neg (ne_of_mem_of_not_mem hk' hout)]
    · obtain ⟨i, hi, hm⟩ := modify_eq_map hg f hnd ((List.mem_cons.mp h).resolve_left (Ne.symm hk))
      refine ⟨i + 1, by simp [hk, hi], ?_⟩
      rw [List.modify_succ_cons, hm, List.map_cons, if_neg hk]

theorem upsert_map {g : κ → β} (hg : ∀ k, key (g k) = k) (f : β → β) {ks : List κ} (hnd : ks.Nodup) (k : κ) :
    upsert key new f k (ks.map g) =
      if k ∈ ks then ks.map fun k' => if k' = k then f (g k') else g k' else ks.map g ++ [f (new k)] := by
  split_ifs with hk
  · obtain ⟨i, hi, hm⟩ := modify_eq_map hg f hnd hk
    simp only [upsert, hi, hm]
  · refine upsert_new (fun b hb => ?_) f
    obtain ⟨k', hk', rfl⟩ := List.mem_map.mp hb
    rw [hg]
    exact ne_of_mem_of_not_mem hk' hk

/-- What the items of a key make of a new entry. -/
def ofKey (new : κ → β) (keyOf : α → κ) (f : α → β → β) (as : List α) (k : κ) : β :=
  (as.filter (keyOf · = k)).foldl (fun b a => f a b) (new k)

theorem ofKey_concat (f : α → β → β) (as : List α) (a : α) (k : κ) : ofKey new keyOf f (as ++ [a]) k =
    if k = keyOf a then f a (ofKey new keyOf f as k) else ofKey new keyOf f as k := by
  unfold ofKey
  rw [List.filter_append, List.foldl_append]
  split_ifs with h
  · simp [h]
  · simp [Ne.symm h]

/-- **Grouping.** -/
theorem group_eq {f : α → β → β} (hnew : ∀ k, key (new k) = k) (hf : ∀ a b, key (f a b) = key b) (as : List α) :
    group key new keyOf f as = ((firsts keyOf as).map keyOf).map (ofKey new keyOf f as) := by
  have hkey : ∀ as k, key (ofKey new keyOf f as k) = k := by
    intro as k
    refine List.foldlRecOn (motive := fun b => key b = k) _ _ (hnew k) fun b hb a _ => ?_
    rw [hf, hb]
  induction as using List.reverseRecOn with
  | nil => rfl
  | append_singleton as a ih =>
    rw [group, List.foldl_append]
    change upsert key new (f a) (keyOf a) (group key new keyOf f as) = _
    rw [ih, upsert_map (hkey as) _ (nodup_firsts keyOf as), firsts_concat]
    split_ifs with h
    · apply List.map_congr_left
      intro k _
      rw [ofKey_concat]
    · have hnone : as.filter (keyOf · = keyOf a) = [] := by
        rw [mem_keys_firsts] at h
        rw [List.filter_eq_nil_iff]
        intro x hx
        have hne : keyOf x ≠ keyOf a := fun he => h (he ▸ List.mem_map_of_mem hx)
        simpa using hne
      rw [List.map_append, List.map_append]
      congr 1
      · apply List.map_congr_left
        intro k hk
        rw [ofKey_concat, if_neg (ne_of_mem_of_not_mem hk h)]
      · rw [List.map_singleton, List.map_singleton, ofKey_concat, if_pos rfl, ofKey, hnone, List.foldl_nil]

end Entries

end Group
