/-
# A table that follows places by notes

Places hold keys, no two of them the same one at a time. A table follows
them: it takes an item in for the key it finds at a place, unless some item
has the key already, and drops the first item of a place. It is told which
of the two to do by notes, which come late but in order: a place that is
changed leaves a `gone` and a `here`, one that is filled a `here`, one that
is emptied a `gone`; a `scan` stands for a `here` of each place in a set.
A place may be unreadable for a while before its change is noted.

Since notes come late, a place is read again and again as it is now, an item
may be out of date, a place may have two items, and a key may be refused
because an item has it that is yet to be dropped. Two facts carry through
all of it (`Inv`). The items of a place that are out of date are the first
ones, and no more than there are `gone`s for it (`stale`). And if the key of a
place is not in the table to stay, a `here` for the place is yet to come, with
every item that has the key dropped before it (`fresh`). So a table with no
notes left has what the places hold (`Inv.at_rest`).

Key definitions: `Note`, `State`, `Step`, `Inv`.
Key theorems: `Step.inv`, `Inv.start`, `Inv.noted`, `Inv.at_rest`.
-/
import Mathlib.Data.List.Nodup
import Mathlib.Data.Set.Insert
import Mathlib.Logic.Function.Basic

namespace Followers

/-- What the table is told about a place. -/
inductive Note (P : Type*)
  | gone (p : P)
  | here (p : P)
  | scan (places : Set P)

variable {P K : Type*}

/-- The note makes the table read the place. -/
def Note.Offers (p : P) : Note P → Prop
  | .gone _ => False
  | .here q => q = p
  | .scan places => p ∈ places

/-- The places, the notes that are not handled yet, and the table. -/
structure State (P K : Type*) where
  /-- What a place holds, as of its last note. -/
  src : P → Option K
  /-- The places that cannot be read until their next note. -/
  busy : Set P
  queue : List (Note P)
  held : List (P × K)

open Classical in
/-- What is read at a place. -/
noncomputable def State.reads (s : State P K) (p : P) : Option K := if p ∈ s.busy then none else s.src p

theorem State.reads_eq_some {s : State P K} {p : P} {k : K} (h : s.reads p = some k) : s.src p = some k := by
  unfold State.reads at h
  split_ifs at h
  exact h

theorem State.reads_eq {s : State P K} {p : P} {k : K} (hb : p ∉ s.busy) (hk : s.src p = some k) : s.reads p = some k :=
  (if_neg hb).trans hk

/-- The table takes in what it has read at a place, unless an item has the key. -/
def take [DecidableEq K] (held : List (P × K)) (p : P) : Option K → List (P × K)
  | none => held
  | some k => if k ∈ held.map (·.2) then held else held ++ [(p, k)]

theorem take_some [DecidableEq K] (held : List (P × K)) (p : P) (k : K) :
    take held p (some k) = if k ∈ held.map (·.2) then held else held ++ [(p, k)] := rfl

theorem nodup_take [DecidableEq K] {held : List (P × K)} (h : (held.map (·.2)).Nodup) (p : P) (o : Option K) :
    ((take held p o).map (·.2)).Nodup := by
  cases o with
  | none => exact h
  | some k =>
    rw [take_some]
    split_ifs with hk
    · exact h
    · rw [List.map_append]
      refine List.nodup_append.mpr ⟨h, List.nodup_singleton _, fun a ha b hb hab => hk ?_⟩
      have hbk : b = k := List.mem_singleton.mp hb
      rwa [hab, hbk] at ha

variable [DecidableEq P]

/-- The keys the table has for a place. -/
def keysAt (held : List (P × K)) (p : P) : List K := (held.filter (·.1 = p)).map (·.2)

/-- The table drops the first item of a place. -/
def drop (held : List (P × K)) (p : P) : List (P × K) := held.eraseP (·.1 = p)

def Note.isGone (p : P) : Note P → Bool
  | .gone q => q = p
  | _ => false

/-- How often a place is to be dropped. -/
def gones (p : P) (queue : List (Note P)) : ℕ := queue.countP (Note.isGone p)

section Gones

variable (p q : P) (ns ms : List (Note P))

@[simp] theorem gones_nil : gones p [] = 0 := rfl

@[simp] theorem gones_append : gones p (ns ++ ms) = gones p ns + gones p ms := List.countP_append

@[simp] theorem gones_here : gones p (.here q :: ns) = gones p ns := List.countP_cons_of_neg (by simp [Note.isGone])

@[simp] theorem gones_scan (places : Set P) : gones p (.scan places :: ns) = gones p ns :=
  List.countP_cons_of_neg (by simp [Note.isGone])

@[simp] theorem gones_gone : gones p (.gone q :: ns) = gones p ns + if q = p then 1 else 0 := by
  simp [gones, List.countP_cons, Note.isGone]

variable {p ns}

theorem gones_eq_zero (h : ∀ n ∈ ns, ∀ q, n ≠ .gone q) : gones p ns = 0 := by
  refine List.countP_eq_zero.mpr fun n hn => ?_
  cases n with
  | gone q => exact absurd rfl (h _ hn q)
  | here q => simp [Note.isGone]
  | scan places => simp [Note.isGone]

end Gones

/-! ### The table -/

section Table

variable {held : List (P × K)} {p q : P} {k : K}

theorem mem_keysAt : k ∈ keysAt held p ↔ (p, k) ∈ held := by
  simp [keysAt]

theorem keysAt_append (held' : List (P × K)) : keysAt (held ++ held') p = keysAt held p ++ keysAt held' p := by
  simp [keysAt]

theorem nodup_keysAt (h : (held.map (·.2)).Nodup) (p : P) : (keysAt held p).Nodup :=
  h.sublist (List.filter_sublist.map _)

/-- To drop a place takes its first item. -/
theorem keysAt_drop (q p : P) : ∀ held : List (P × K),
    keysAt (drop held q) p = if q = p then (keysAt held p).tail else keysAt held p
  | [] => by simp [keysAt, drop]
  | x :: held => by
    have ih := keysAt_drop q p held
    unfold drop keysAt at ih ⊢
    by_cases hx : x.1 = q
    · rw [List.eraseP_cons_of_pos (by simpa using hx)]
      by_cases hqp : q = p
      · rw [List.filter_cons_of_pos (by simpa using hx.trans hqp), if_pos hqp]
        rfl
      · rw [List.filter_cons_of_neg (by simpa using fun h => hqp (hx.symm.trans h)), if_neg hqp]
    · rw [List.eraseP_cons_of_neg (by simpa using hx)]
      by_cases hxp : x.1 = p
      · have hqp : q ≠ p := fun h => hx (hxp.trans h.symm)
        rw [if_neg hqp] at ih ⊢
        rw [List.filter_cons_of_pos (by simpa using hxp), List.filter_cons_of_pos (by simpa using hxp), List.map_cons,
          List.map_cons, ih]
      · rw [List.filter_cons_of_neg (by simpa using hxp), List.filter_cons_of_neg (by simpa using hxp)]
        exact ih

/-- What is left of a place's items once its notes are handled, as one of them is. -/
theorem drop_gones (q p : P) (ns : List (Note P)) :
    (keysAt (drop held q) p).drop (gones p ns) = (keysAt held p).drop (gones p (.gone q :: ns)) := by
  rw [keysAt_drop, gones_gone]
  split_ifs
  · rw [← List.drop_one, List.drop_drop, Nat.add_comm]
  · rfl

theorem nodup_drop (h : (held.map (·.2)).Nodup) : ((drop held p).map (·.2)).Nodup :=
  h.sublist (List.eraseP_sublist.map _)

variable [DecidableEq K]

/-- What is taken in comes behind what was there. -/
theorem keysAt_take (held : List (P × K)) (q p : P) (o : Option K) :
    keysAt (take held q o) p = keysAt held p ∨
      q = p ∧ ∃ k, o = some k ∧ keysAt (take held q o) p = keysAt held p ++ [k] := by
  cases o with
  | none => exact .inl rfl
  | some k =>
    rw [take_some]
    split_ifs
    · exact .inl rfl
    · rw [keysAt_append]
      by_cases hqp : q = p
      · exact .inr ⟨hqp, k, rfl, by simp [keysAt, hqp]⟩
      · exact .inl (by simp [keysAt, hqp])

theorem mem_drop_take {o : Option K} {n : ℕ} (h : k ∈ ((keysAt (take held q o) p).drop n)) :
    k ∈ (keysAt held p).drop n ∨ q = p ∧ o = some k := by
  rcases keysAt_take held q p o with he | ⟨hqp, k', ho, he⟩
  · exact .inl (he ▸ h)
  · rw [he, List.drop_append] at h
    rcases List.mem_append.mp h with h | h
    · exact .inl h
    · rw [List.mem_singleton.mp (List.mem_of_mem_drop h)]
      exact .inr ⟨hqp, ho⟩

theorem mem_drop_take_of_mem {o : Option K} {n : ℕ} (h : k ∈ (keysAt held p).drop n) :
    k ∈ (keysAt (take held q o) p).drop n := by
  rcases keysAt_take held q p o with he | ⟨-, k', -, he⟩
  · rwa [he]
  · rw [he, List.drop_append]
    exact List.mem_append_left _ h

/-- A key that no other place has is in the table once it is read. -/
theorem mem_take (h : ∀ q, q ≠ p → k ∉ keysAt held q) : k ∈ keysAt (take held p (some k)) p := by
  rw [take_some]
  split_ifs with hk
  · obtain ⟨⟨q, k'⟩, hx, rfl⟩ := List.mem_map.mp hk
    by_contra hno
    exact h q (fun hq => hno (hq ▸ mem_keysAt.mpr hx)) (mem_keysAt.mpr hx)
  · exact mem_keysAt.mpr (List.mem_append_right _ (List.mem_singleton.mpr rfl))

end Table

/-! ### The invariant -/

/-- No two places hold one key. -/
def Distinct (s : State P K) : Prop := ∀ p q k, s.src p = some k → s.src q = some k → p = q

/-- A note is to come that makes the table read the place, when no other place's item has the key. -/
def Coming (s : State P K) (p : P) (k : K) : Prop :=
  ∃ A n B, s.queue = A ++ n :: B ∧ n.Offers p ∧ gones p B = 0 ∧ ∀ q, q ≠ p → k ∉ (keysAt s.held q).drop (gones q A)

structure Inv (followed : Set P) (s : State P K) : Prop where
  nodup : (s.held.map (·.2)).Nodup
  distinct : Distinct s
  stale : ∀ p, ∀ k ∈ (keysAt s.held p).drop (gones p s.queue), s.src p = some k
  fresh : ∀ p ∈ followed, p ∉ s.busy → ∀ k, s.src p = some k →
    k ∈ (keysAt s.held p).drop (gones p s.queue) ∨ Coming s p k

namespace Inv

variable {followed : Set P} {s : State P K}

/-- Behind the items that are to be dropped a place has one item at most. -/
theorem drop_succ (h : Inv followed s) (p : P) : (keysAt s.held p).drop (gones p s.queue + 1) = [] := by
  have hnd : ((keysAt s.held p).drop (gones p s.queue)).Nodup := (nodup_keysAt h.nodup p).sublist (List.drop_sublist _ _)
  have hall := h.stale p
  rw [← List.drop_drop]
  generalize (keysAt s.held p).drop (gones p s.queue) = l at hnd hall ⊢
  match l with
  | [] => rfl
  | [_] => rfl
  | a :: b :: l =>
    have ha := hall a (by simp)
    have hb := hall b (by simp)
    rw [ha, Option.some_inj] at hb
    exact absurd hb (by simp at hnd; tauto)

/-- The items of other places that have the key of a place are to be dropped. -/
theorem others (h : Inv followed s) {t : State P K} (hd : Distinct t) {p : P}
    (hsrc : ∀ q, q ≠ p → t.src q = s.src q) {k : K} (hp : t.src p = some k) :
    ∀ q, q ≠ p → k ∉ (keysAt s.held q).drop (gones q s.queue) := by
  intro q hq hk
  have hsame := h.stale q k hk
  rw [← hsrc q hq] at hsame
  exact hq (hd q p k hsame hp)

end Inv

/-- Notes that come later do not matter, if they do not drop the place. -/
theorem Coming.append {s t : State P K} {p : P} {k : K} {ns : List (Note P)} (h : Coming s p k)
    (hq : t.queue = s.queue ++ ns) (hh : t.held = s.held) (hns : gones p ns = 0) : Coming t p k := by
  obtain ⟨A, n, B, hs, hn, hB, hA⟩ := h
  refine ⟨A, n, B ++ ns, by rw [hq, hs]; simp, hn, by rw [gones_append, hB, hns], fun q hne => ?_⟩
  rw [hh]
  exact hA q hne

/-- A place has changed and its notes `ns` are queued, the last of which makes the table read it if it holds a key. -/
theorem Inv.noted {followed : Set P} {s : State P K} (h : Inv followed s) {p : P} {o : Option K} {ns : List (Note P)}
    (hd : Distinct ⟨Function.update s.src p o, s.busy \ {p}, s.queue ++ ns, s.held⟩) (hns : ∀ q, q ≠ p → gones q ns = 0)
    (hstale : ∀ k ∈ (keysAt s.held p).drop (gones p s.queue + gones p ns), o = some k)
    (hlast : o = none ∨ ∃ A, ns = A ++ [.here p]) :
    Inv followed ⟨Function.update s.src p o, s.busy \ {p}, s.queue ++ ns, s.held⟩ where
  nodup := h.nodup
  distinct := hd
  stale q k hk := by
    by_cases hq : q = p
    · subst hq
      simp only [gones_append] at hk
      exact (Function.update_self ..).trans (hstale k hk)
    · simp only [gones_append, hns q hq, Nat.add_zero] at hk
      exact (Function.update_of_ne hq ..).trans (h.stale q k hk)
  fresh q hq hb k hk := by
    by_cases hqp : q = p
    · subst hqp
      have hko : o = some k := by simpa using hk
      obtain ⟨A, rfl⟩ := hlast.resolve_left (by simp [hko])
      refine .inr ⟨s.queue ++ A, .here q, [], by simp, rfl, rfl, fun r hr => ?_⟩
      have hA : gones r A = 0 := by simpa using hns r hr
      rw [gones_append, hA, Nat.add_zero]
      exact h.others hd (fun r hr => Function.update_of_ne hr _ _) hk r hr
    · have hk' : s.src q = some k := by simpa [Function.update_of_ne hqp] using hk
      have hb' : q ∉ s.busy := fun hb' => hb ⟨hb', hqp⟩
      refine (h.fresh q hq hb' k hk').imp (fun hheld => ?_) fun hcome => hcome.append rfl rfl (hns q hqp)
      simpa only [gones_append, hns q hqp, Nat.add_zero] using hheld

/-- A place is dropped. -/
theorem Inv.dropped {followed : Set P} {s : State P K} (h : Inv followed s) {p : P} {queue : List (Note P)}
    (hq : s.queue = .gone p :: queue) : Inv followed { s with queue := queue, held := drop s.held p } where
  nodup := nodup_drop h.nodup
  distinct := h.distinct
  stale q k hk := by
    rw [drop_gones, ← hq] at hk
    exact h.stale q k hk
  fresh q hf hb k hk := by
    rw [drop_gones, ← hq]
    refine (h.fresh q hf hb k hk).imp_right fun ⟨A, n, B, hs, hn, hB, hA⟩ => ?_
    cases A with
    | nil =>
      obtain ⟨rfl, -⟩ := List.cons_eq_cons.mp (hq.symm.trans hs)
      exact absurd hn id
    | cons m A =>
      obtain ⟨rfl, hrest⟩ := List.cons_eq_cons.mp (hq.symm.trans hs)
      refine ⟨A, n, B, hrest, hn, hB, fun r hr => ?_⟩
      rw [drop_gones]
      exact hA r hr

/-- What a scan stands for takes its place. -/
theorem Inv.scanned {followed : Set P} {s : State P K} (h : Inv followed s) {places : Set P} {ns queue : List (Note P)}
    (hq : s.queue = .scan places :: queue) (hns : ∀ n ∈ ns, ∀ p, n ≠ .gone p)
    (hall : ∀ p ∈ places, s.reads p ≠ none → ∃ n ∈ ns, n.Offers p) : Inv followed { s with queue := ns ++ queue } where
  nodup := h.nodup
  distinct := h.distinct
  stale q k hk := by
    refine h.stale q k ?_
    simpa [hq, gones_eq_zero hns] using hk
  fresh q hf hb k hk := by
    refine (h.fresh q hf hb k hk).imp (fun hheld => ?_) fun ⟨A, n, B, hs, hn, hB, hA⟩ => ?_
    · simpa [hq, gones_eq_zero hns] using hheld
    · cases A with
      | nil =>
        obtain ⟨rfl, rfl⟩ := List.cons_eq_cons.mp (hq.symm.trans hs)
        have hread : s.reads q = some k := State.reads_eq hb hk
        obtain ⟨m, hm, hoff⟩ := hall q hn (by simp [hread])
        obtain ⟨X, Y, rfl⟩ := List.append_of_mem hm
        have hX : ∀ r, gones r X = 0 := fun r => gones_eq_zero fun n hn => hns n (by simp [hn])
        have hY : gones q Y = 0 := gones_eq_zero fun n hn => hns n (by simp [hn])
        refine ⟨X, m, Y ++ queue, by simp, hoff, by rw [gones_append, hY, hB], fun r hr => ?_⟩
        rw [hX]
        exact hA r hr
      | cons m A =>
        obtain ⟨rfl, rfl⟩ := List.cons_eq_cons.mp (hq.symm.trans hs)
        refine ⟨ns ++ A, n, B, by simp, hn, hB, fun r hr => ?_⟩
        simpa [gones_eq_zero hns] using hA r hr

/-! ### From the start to the end -/

/-- Before the first change: the items are right, and what is missing will be scanned. -/
theorem Inv.start {followed : Set P} {s : State P K} (hnd : (s.held.map (·.2)).Nodup) (hd : Distinct s)
    (hheld : ∀ p k, (p, k) ∈ s.held → s.src p = some k) (hqueue : ∀ n ∈ s.queue, ∀ p, n ≠ .gone p)
    (hall : ∀ p ∈ followed, ∀ k, s.src p = some k → (p, k) ∈ s.held ∨ ∃ n ∈ s.queue, n.Offers p) : Inv followed s where
  nodup := hnd
  distinct := hd
  stale p k hk := hheld p k (mem_keysAt.mp (List.mem_of_mem_drop hk))
  fresh p hp _ k hk := by
    rw [gones_eq_zero hqueue, List.drop_zero]
    refine (hall p hp k hk).imp mem_keysAt.mpr fun ⟨n, hn, hoff⟩ => ?_
    obtain ⟨A, B, hs⟩ := List.append_of_mem hn
    have hB : gones p B = 0 := gones_eq_zero fun n hn => hqueue n (by simp [hs, hn])
    refine ⟨A, n, B, hs, hoff, hB, fun q hq hin => hq ?_⟩
    exact hd q p k (hheld q k (mem_keysAt.mp (List.mem_of_mem_drop hin))) hk

/-- **An item is right**, or its place is to be dropped. -/
theorem Inv.right {followed : Set P} {s : State P K} (h : Inv followed s) {p : P} {k : K} (hk : (p, k) ∈ s.held) :
    s.src p = some k ∨ .gone p ∈ s.queue := by
  by_cases hg : gones p s.queue = 0
  · exact .inl (h.stale p k (by rw [hg]; exact mem_keysAt.mpr hk))
  · obtain ⟨n, hn, hgone⟩ := List.countP_pos_iff.mp (Nat.pos_of_ne_zero hg)
    cases n with
    | gone q =>
      obtain rfl : q = p := by simpa [Note.isGone] using hgone
      exact .inr hn
    | here q => simp [Note.isGone] at hgone
    | scan places => simp [Note.isGone] at hgone

/-- **At rest** the table has what the places that are followed hold, one item for a place, and nothing that a place does
not hold. -/
theorem Inv.at_rest {followed : Set P} {s : State P K} (h : Inv followed s) (hq : s.queue = []) (hb : s.busy = ∅) :
    (∀ p k, (p, k) ∈ s.held → s.src p = some k) ∧ (∀ p ∈ followed, ∀ k, s.src p = some k → (p, k) ∈ s.held) ∧
      (s.held.map (·.1)).Nodup := by
  have hright : ∀ p k, (p, k) ∈ s.held → s.src p = some k := fun p k hk => (h.right hk).resolve_right (by simp [hq])
  refine ⟨hright, fun p hp k hk => ?_, ?_⟩
  · rcases h.fresh p hp (by simp [hb]) k hk with hin | ⟨A, n, B, hs, -⟩
    · exact mem_keysAt.mp (List.mem_of_mem_drop hin)
    · simp [hq] at hs
  · refine List.Nodup.map_on (fun x hx y hy hxy => ?_) (List.Nodup.of_map _ h.nodup)
    have hx' := hright x.1 x.2 hx
    rw [hxy, hright y.1 y.2 hy] at hx'
    exact Prod.ext hxy (Option.some.inj hx').symm

/-! ### Steps -/

variable [DecidableEq K]

/-- What may happen. Only places that are followed change. -/
inductive Step (followed : Set P) (s : State P K) : State P K → Prop
  | rewrite (p : P) (hp : p ∈ followed) : Step followed s { s with busy := insert p s.busy }
  | change (p : P) (o : Option K) (hp : p ∈ followed) :
    Step followed s ⟨Function.update s.src p o, s.busy \ {p}, s.queue ++ [.gone p, .here p], s.held⟩
  | fill (p : P) (o : Option K) (hp : p ∈ followed) (ho : s.src p = none ∨ s.src p = o) :
    Step followed s ⟨Function.update s.src p o, s.busy \ {p}, s.queue ++ [.here p], s.held⟩
  | empty (p : P) (hp : p ∈ followed) :
    Step followed s ⟨Function.update s.src p none, s.busy \ {p}, s.queue ++ [.gone p], s.held⟩
  | gone (p : P) (q : List (Note P)) (hq : s.queue = .gone p :: q) :
    Step followed s { s with queue := q, held := drop s.held p }
  | here (p : P) (q : List (Note P)) (hq : s.queue = .here p :: q) :
    Step followed s { s with queue := q, held := take s.held p (s.reads p) }
  | scan (places : Set P) (ns q : List (Note P)) (hq : s.queue = .scan places :: q) (hns : ∀ n ∈ ns, ∀ p, n ≠ .gone p)
    (hall : ∀ p ∈ places, s.reads p ≠ none → ∃ n ∈ ns, n.Offers p) : Step followed s { s with queue := ns ++ q }
  | asked (p : P) : Step followed s { s with held := take s.held p (s.reads p) }

/-- A place is read, and its key may be taken in. -/
theorem Inv.taken {followed : Set P} {s : State P K} (h : Inv followed s) (p : P) {queue : List (Note P)}
    (hq : s.queue = queue ∨ s.queue = .here p :: queue) :
    Inv followed { s with queue := queue, held := take s.held p (s.reads p) } := by
  have hgones : ∀ q, gones q s.queue = gones q queue := fun q => by
    rcases hq with hq | hq
    · rw [hq]
    · rw [hq, gones_here]
  -- What is read at `p` is no other place's key.
  have hother : ∀ {q r k n}, s.src q = some k → r ≠ q → k ∉ (keysAt s.held r).drop n →
      k ∉ (keysAt (take s.held p (s.reads p)) r).drop n := by
    intro q r k n hk hr hno hin
    rcases mem_drop_take hin with hin | ⟨rfl, hread⟩
    · exact hno hin
    · exact hr (h.distinct p q k (State.reads_eq_some hread) hk)
  refine ⟨nodup_take h.nodup _ _, h.distinct, fun q k hk => ?_, fun q hf hb k hk => ?_⟩
  · rw [← hgones] at hk
    rcases mem_drop_take hk with hk | ⟨rfl, hread⟩
    · exact h.stale q k hk
    · exact State.reads_eq_some hread
  · show k ∈ (keysAt (take s.held p (s.reads p)) q).drop (gones q queue) ∨ _
    rw [← hgones]
    rcases h.fresh q hf hb k hk with hheld | ⟨A, n, B, hs, hn, hB, hA⟩
    · exact .inl (mem_drop_take_of_mem hheld)
    · have hcome : s.queue = queue ∨ A ≠ [] →
          Coming { s with queue := queue, held := take s.held p (s.reads p) } q k := by
        intro hcase
        rcases hq with hq | hq
        · exact ⟨A, n, B, hq ▸ hs, hn, hB, fun r hr => hother hk hr (hA r hr)⟩
        · obtain ⟨m, A, rfl⟩ := List.exists_cons_of_ne_nil (hcase.resolve_left (by simp [hq]))
          obtain ⟨rfl, hrest⟩ := List.cons_eq_cons.mp (hq.symm.trans hs)
          exact ⟨A, n, B, hrest, hn, hB, fun r hr => hother hk hr (by simpa using hA r hr)⟩
      rcases hq with hq | hq
      · exact .inr (hcome (.inl hq))
      · by_cases hnil : A = []
        · subst hnil
          obtain ⟨rfl, rfl⟩ := List.cons_eq_cons.mp (hq.symm.trans hs)
          obtain rfl : p = q := hn
          have hread : s.reads p = some k := State.reads_eq hb hk
          rw [hgones, hB, hread]
          exact .inl (mem_take fun r hr => by simpa using hA r hr)
        · exact .inr (hcome (.inr hnil))

/-- **A step keeps the invariant.** -/
theorem Step.inv {followed : Set P} {s t : State P K} (hst : Step followed s t) (hd : Distinct t) (h : Inv followed s) :
    Inv followed t := by
  cases hst with
  | rewrite p hp =>
    exact ⟨h.nodup, hd, h.stale, fun q hq hb k hk => h.fresh q hq (fun hb' => hb (Set.mem_insert_of_mem _ hb')) k hk⟩
  | change p o hp =>
    refine h.noted hd (fun q hq => by simp [hq.symm]) (fun k hk => ?_) (.inr ⟨[.gone p], rfl⟩)
    simp [h.drop_succ p] at hk
  | fill p o hp ho =>
    refine h.noted hd (fun q hq => by simp) (fun k hk => ?_) (.inr ⟨[], rfl⟩)
    have hsrc := h.stale p k (by simpa using hk)
    rcases ho with ho | ho
    · rw [ho] at hsrc
      cases hsrc
    · exact ho.symm.trans hsrc
  | empty p hp =>
    refine h.noted hd (fun q hq => by simp [hq.symm]) (fun k hk => ?_) (.inl rfl)
    simp [h.drop_succ p] at hk
  | gone p q hq => exact h.dropped hq
  | here p q hq => exact h.taken p (.inr hq)
  | scan places ns q hq hns hall => exact h.scanned hq hns hall
  | asked p => exact h.taken p (.inl rfl)

end Followers
