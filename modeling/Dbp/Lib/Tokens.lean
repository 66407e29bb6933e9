/-
# Tokens

Parties take numbered items from a desk and hold the numbers as tokens; an
item is given back by its number, by whoever names it. As long as items take
numbers that no live item has, and each party spends only tokens it holds,
each once, no party gives back what another one holds: the tokens name
distinct live items, in every state (`Desk.Inv.step`). Items may be lost, if
their taker does not learn the number, and so may tokens; neither ends
anybody else's item.

Key definitions: `Desk`, `Desk.Inv`, `Desk.Step`.
Key theorems: `Desk.Inv.empty`, `Desk.Inv.step`.
-/
import Dbp.Lib.Find

namespace Tokens

open Find

/-- The live items, with their numbers and labels, and the tokens of the parties. -/
structure Desk (S N L : Type*) where
  live : List (N × L)
  held : List (S × N × L)

variable {S N L : Type*}

namespace Desk

/-- Live items have distinct numbers, tokens too, and every token is that of a live item. -/
structure Inv (D : Desk S N L) : Prop where
  live : (D.live.map Prod.fst).Nodup
  held : (D.held.map (·.2.1)).Nodup
  backed : ∀ t ∈ D.held, t.2 ∈ D.live

/-- What happens at the desk: a party takes an item and gets its token, or does not learn it; a token is lost, or spent
on the item of its number. -/
inductive Step (D : Desk S N L) : Desk S N L → Prop
  | issue (s : S) (n : N) (l : L) (hn : n ∉ D.live.map Prod.fst) : Step D ⟨D.live ++ [(n, l)], D.held ++ [(s, n, l)]⟩
  | leak (n : N) (l : L) (hn : n ∉ D.live.map Prod.fst) : Step D ⟨D.live ++ [(n, l)], D.held⟩
  | drop (pre post : List (S × N × L)) (t : S × N × L) (hh : D.held = pre ++ t :: post) : Step D ⟨D.live, pre ++ post⟩
  | redeem (pre post : List (S × N × L)) (t : S × N × L) (l₁ l₂ : List (N × L)) (x : N × L)
    (hh : D.held = pre ++ t :: post) (hl : D.live = l₁ ++ x :: l₂) (hx : x.1 = t.2.1) : Step D ⟨l₁ ++ l₂, pre ++ post⟩
  | stay : Step D D

theorem Inv.empty : Inv (⟨[], []⟩ : Desk S N L) := ⟨List.nodup_nil, List.nodup_nil, by simp⟩

variable {D D' : Desk S N L}

/-- **Tokens stay good**, whatever happens at the desk. -/
theorem Inv.step (h : D.Inv) (hs : D.Step D') : D'.Inv := by
  cases hs with
  | issue s n l hn =>
    have hnew : n ∉ D.held.map (·.2.1) := by
      intro hm
      obtain ⟨t, ht, rfl⟩ := List.mem_map.mp hm
      exact hn (List.mem_map_of_mem (h.backed t ht))
    refine ⟨?_, ?_, fun t ht => ?_⟩
    · rw [List.map_append]
      exact nodup_concat h.live hn
    · rw [List.map_append]
      exact nodup_concat h.held hnew
    rcases List.mem_append.mp ht with ht | ht
    · exact List.mem_append_left _ (h.backed t ht)
    · rw [List.mem_singleton.mp ht]
      simp
  | leak n l hn =>
    refine ⟨?_, h.held, fun t ht => List.mem_append_left _ (h.backed t ht)⟩
    rw [List.map_append]
    exact nodup_concat h.live hn
  | drop pre post t hh =>
    refine ⟨h.live, (nodup_rest hh h.held).2, fun t' ht' => h.backed t' ?_⟩
    rw [hh]
    exact ((List.sublist_cons_self t post).append_left pre).subset ht'
  | redeem pre post t l₁ l₂ x hh hl hx =>
    refine ⟨(nodup_rest hl h.live).2, (nodup_rest hh h.held).2, fun t' ht' => ?_⟩
    -- another token has another number, so its item is another one
    have hother : t'.2.1 ≠ t.2.1 := (nodup_rest hh h.held).1 t' ht'
    have hback : t'.2 ∈ D.live := by
      refine h.backed t' ?_
      rw [hh]
      exact ((List.sublist_cons_self t post).append_left pre).subset ht'
    rw [hl, List.mem_append, List.mem_cons] at hback
    rcases hback with hb | rfl | hb
    · exact List.mem_append_left _ hb
    · exact absurd hx hother
    · exact List.mem_append_right _ hb
  | stay => exact h

end Desk

end Tokens
