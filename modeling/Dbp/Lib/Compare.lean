/-
# Comparison functions

Functions that compare two values and return a negative number, zero or a
positive number. `order` is the one of a linear order; lists and pairs are
compared part by part (`order_cons`, `order_toLex`), and a part that decides
is returned by `thenBy`. A comparison function is a preorder on a set when
no three elements go round in a circle (`preorderOn_iff`).

`strayOrder` compares by a key, but for stray elements, which come after the
low elements and before the others whatever their keys. Where the keys say
otherwise, three elements go round in a circle, and only there
(`strayOrder_circle`).

Key definitions: `order`, `thenBy`, `FirstDiff`, `PreorderOn`, `strayOrder`, `StrayClash`.
Key theorems: `order_cons`, `order_toLex`, `order_keys_iff`, `preorderOn_iff`, `strayOrder_circle`.
-/
import Mathlib.Data.List.Lex
import Mathlib.Data.Prod.Lex
import Mathlib.Data.Set.Basic
import Mathlib.Data.Int.Basic

namespace Compare

variable {α β : Type*}

/-- The first comparison, or the second one if the first is a tie. -/
def thenBy (i j : ℤ) : ℤ := if i = 0 then j else i

theorem thenBy_zero (j : ℤ) : thenBy 0 j = j := rfl

theorem thenBy_of_ne {i : ℤ} (h : i ≠ 0) (j : ℤ) : thenBy i j = i := if_neg h

theorem thenBy_neg (i j : ℤ) : thenBy (-i) (-j) = -thenBy i j := by
  unfold thenBy
  split_ifs <;> omega

theorem thenBy_assoc (i j k : ℤ) : thenBy (thenBy i j) k = thenBy i (thenBy j k) := by
  unfold thenBy
  split_ifs <;> omega

theorem thenBy_self (i j : ℤ) : thenBy i (thenBy i j) = thenBy i j := by
  unfold thenBy
  split_ifs <;> rfl

theorem thenBy_le_zero {i j : ℤ} : thenBy i j ≤ 0 ↔ i < 0 ∨ i = 0 ∧ j ≤ 0 := by
  unfold thenBy
  split_ifs <;> omega

theorem thenBy_lt_zero {i j : ℤ} : thenBy i j < 0 ↔ i < 0 ∨ i = 0 ∧ j < 0 := by
  unfold thenBy
  split_ifs <;> omega

/-! ### The comparison of a linear order -/

section Order

variable [LinearOrder α] [LinearOrder β]

/-- The comparison of a linear order. -/
def order (a b : α) : ℤ := if a < b then -1 else if b < a then 1 else 0

theorem order_of_lt {a b : α} (h : a < b) : order a b = -1 := if_pos h

theorem order_of_gt {a b : α} (h : b < a) : order a b = 1 := by
  rw [order, if_neg h.not_gt, if_pos h]

@[simp] theorem order_self (a : α) : order a a = 0 := by
  rw [order, if_neg (lt_irrefl a), if_neg (lt_irrefl a)]

theorem order_eq_zero {a b : α} : order a b = 0 ↔ a = b := by
  rcases lt_trichotomy a b with h | rfl | h
  · rw [order_of_lt h]
    exact ⟨fun hc => by omega, fun he => absurd he h.ne⟩
  · simp
  · rw [order_of_gt h]
    exact ⟨fun hc => by omega, fun he => absurd he h.ne'⟩

theorem order_le_zero {a b : α} : order a b ≤ 0 ↔ a ≤ b := by
  rcases lt_trichotomy a b with h | rfl | h
  · rw [order_of_lt h]
    exact ⟨fun _ => h.le, fun _ => by omega⟩
  · simp
  · rw [order_of_gt h]
    exact ⟨fun hc => by omega, fun he => absurd h he.not_gt⟩

theorem order_lt_zero {a b : α} : order a b < 0 ↔ a < b := by
  rw [lt_iff_le_and_ne, lt_iff_le_and_ne, order_le_zero, ne_eq, order_eq_zero]

theorem order_swap (a b : α) : order b a = -order a b := by
  rcases lt_trichotomy a b with h | rfl | h
  · rw [order_of_lt h, order_of_gt h]
    rfl
  · simp
  · rw [order_of_lt h, order_of_gt h]

theorem order_sign (a b : α) : (order a b).sign = order a b := by
  unfold order
  split_ifs <;> rfl

theorem order_nil_cons (b : α) (m : List α) : order [] (b :: m) = -1 := order_of_lt (List.nil_lt_cons b m)

theorem order_cons_nil (a : α) (l : List α) : order (a :: l) [] = 1 := order_of_gt (List.nil_lt_cons a l)

/-- Lists are compared element by element. -/
theorem order_cons (a b : α) (l m : List α) : order (a :: l) (b :: m) = thenBy (order a b) (order l m) := by
  rcases lt_trichotomy a b with h | rfl | h
  · rw [order_of_lt h, order_of_lt (List.cons_lt_cons_iff.mpr (.inl h))]
    rfl
  · rw [order_self, thenBy_zero]
    rcases lt_trichotomy l m with hl | rfl | hl
    · rw [order_of_lt hl, order_of_lt (List.cons_lt_cons_iff.mpr (.inr ⟨rfl, hl⟩))]
    · simp
    · rw [order_of_gt hl, order_of_gt (List.cons_lt_cons_iff.mpr (.inr ⟨rfl, hl⟩))]
  · rw [order_of_gt h, order_of_gt (List.cons_lt_cons_iff.mpr (.inl h))]
    rfl

/-- Pairs are compared part by part. -/
theorem order_toLex (a b : α) (x y : β) :
    order (toLex (a, x)) (toLex (b, y)) = thenBy (order a b) (order x y) := by
  rcases lt_trichotomy a b with h | rfl | h
  · rw [order_of_lt h, order_of_lt (Prod.Lex.toLex_lt_toLex.mpr (.inl h))]
    rfl
  · rw [order_self, thenBy_zero]
    rcases lt_trichotomy x y with hx | rfl | hx
    · rw [order_of_lt hx, order_of_lt (show toLex (a, x) < toLex (a, y) by simpa [Prod.Lex.toLex_lt_toLex])]
    · simp
    · rw [order_of_gt hx, order_of_gt (show toLex (a, y) < toLex (a, x) by simpa [Prod.Lex.toLex_lt_toLex])]
  · rw [order_of_gt h, order_of_gt (Prod.Lex.toLex_lt_toLex.mpr (.inl h))]
    rfl

end Order

/-! ### Lists under two keys -/

section Keys

variable [DecidableEq α] [LinearOrder β]

/-- The lists differ, neither ends first, and the first elements that differ are in the relation. -/
def FirstDiff (P : α → α → Prop) : List α → List α → Prop
  | a :: l, b :: m => if a = b then FirstDiff P l m else P a b
  | _, _ => False

variable {f g : α → β} {e : β}

theorem FirstDiff.congr {P Q : α → α → Prop} (h : ∀ a b, a ≠ b → (P a b ↔ Q a b)) :
    ∀ {l m : List α}, FirstDiff P l m ↔ FirstDiff Q l m
  | [], _ => Iff.rfl
  | _ :: _, [] => Iff.rfl
  | a :: l, b :: m => by
    rw [FirstDiff, FirstDiff]
    split_ifs with hab
    · exact FirstDiff.congr h
    · exact h a b hab

/-- Lists that end with a mark compare alike under two keys, unless the first elements that differ do not. -/
theorem order_keys_iff (hf : f.Injective) (hg : g.Injective) (hend : ∀ a, order e (f a) = order e (g a))
    (hne : ∀ a, e ≠ f a) : ∀ l m : List α,
    order (l.map f ++ [e]) (m.map f ++ [e]) = order (l.map g ++ [e]) (m.map g ++ [e]) ↔
      ¬ FirstDiff (fun a b => order (f a) (f b) ≠ order (g a) (g b)) l m
  | [], [] => by simp [FirstDiff]
  | [], b :: m => by
    have hg0 : order e (g b) ≠ 0 := hend b ▸ fun h => hne b (order_eq_zero.mp h)
    simp [FirstDiff, order_cons, thenBy_of_ne hg0, hend]
  | a :: l, [] => by
    have hswap : order (f a) e = order (g a) e := by rw [order_swap, hend, ← order_swap]
    have hg0 : order (g a) e ≠ 0 := hswap ▸ fun h => hne a (order_eq_zero.mp h).symm
    simp [FirstDiff, order_cons, thenBy_of_ne hg0, hswap]
  | a :: l, b :: m => by
    rw [List.map_cons, List.map_cons, List.map_cons, List.map_cons, List.cons_append, List.cons_append, List.cons_append,
      List.cons_append, order_cons, order_cons, FirstDiff]
    by_cases hab : a = b
    · subst hab
      rw [order_self, order_self, thenBy_zero, thenBy_zero, if_pos rfl, order_keys_iff hf hg hend hne l m]
    · have hf0 : order (f a) (f b) ≠ 0 := fun h => hab (hf (order_eq_zero.mp h))
      have hg0 : order (g a) (g b) ≠ 0 := fun h => hab (hg (order_eq_zero.mp h))
      rw [thenBy_of_ne hf0, thenBy_of_ne hg0, if_neg hab, ne_eq, not_not]

end Keys

/-! ### Preorders -/

/-- A comparison function that is a total preorder on `S`. -/
structure PreorderOn (f : α → α → ℤ) (S : Set α) : Prop where
  refl : ∀ a ∈ S, f a a = 0
  sign : ∀ a ∈ S, ∀ b ∈ S, (f a b).sign = -(f b a).sign
  trans : ∀ a ∈ S, ∀ b ∈ S, ∀ c ∈ S, f a b ≤ 0 → f b c ≤ 0 → f a c ≤ 0

/-- Where swapping the arguments swaps the result, three elements in a circle are all that can go
wrong. -/
theorem preorderOn_iff {f : α → α → ℤ} (hf : ∀ a b, f b a = -f a b) {S : Set α} :
    PreorderOn f S ↔ ∀ a ∈ S, ∀ b ∈ S, ∀ c ∈ S, ¬ (f a b ≤ 0 ∧ f b c ≤ 0 ∧ f c a < 0) := by
  refine ⟨fun h a ha b hb c hc ⟨h1, h2, h3⟩ => ?_, fun h => ⟨fun a _ => ?_, fun a _ b _ => ?_, ?_⟩⟩
  · have := h.trans a ha b hb c hc h1 h2
    have := hf a c
    omega
  · have := hf a a
    omega
  · rw [hf a b, Int.sign_neg, Int.neg_neg]
  · intro a ha b hb c hc h1 h2
    by_contra h3
    have := hf a c
    exact h a ha b hb c hc ⟨h1, h2, by omega⟩

/-- In a preorder, elements that tie compare alike with a third. -/
theorem PreorderOn.congr {f : α → α → ℤ} {S : Set α} (h : PreorderOn f S) {a b c : α} (ha : a ∈ S) (hb : b ∈ S)
    (hc : c ∈ S) (hab : f a b = 0) : (f a c ≤ 0 ↔ f b c ≤ 0) ∧ (0 ≤ f a c ↔ 0 ≤ f b c) := by
  have hswap : ∀ x ∈ S, ∀ y ∈ S, 0 ≤ f x y ↔ f y x ≤ 0 := by
    intro x hx y hy
    have hs := h.sign x hx y hy
    rw [← Int.sign_nonneg_iff, hs, ← Int.sign_nonpos_iff]
    omega
  have hba : f b a = 0 := by
    have h1 := hswap a ha b hb
    have h2 := hswap b hb a ha
    omega
  have h1 := h.trans a ha b hb c hc
  have h2 := h.trans b hb a ha c hc
  have h3 := h.trans c hc a ha b hb
  have h4 := h.trans c hc b hb a ha
  have h5 := hswap a ha c hc
  have h6 := hswap b hb c hc
  omega

/-! ### A linear order with stray elements -/

section Stray

variable [LinearOrder β] (stray low : α → Prop) [DecidablePred stray] [DecidablePred low] (key : α → β)

/-- The order of the keys, but a stray element comes after the low ones and before the others. -/
def strayOrder (a b : α) : ℤ :=
  if stray a then if stray b then 0 else if low b then 1 else -1
  else if stray b then if low a then -1 else 1
  else order (key a) (key b)

/-- A stray element below an element that is not low, which by its key is not after a low one. -/
def StrayClash (e p q : α) : Prop := stray e ∧ ¬ stray p ∧ ¬ low p ∧ ¬ stray q ∧ low q ∧ key p ≤ key q

theorem strayOrder_swap (a b : α) : strayOrder stray low key b a = -strayOrder stray low key a b := by
  unfold strayOrder
  split_ifs <;> first | rfl | exact order_swap _ _

variable {stray low key} {a b c : α}

theorem strayOrder_strays (ha : stray a) (hb : stray b) : strayOrder stray low key a b = 0 := by
  rw [strayOrder, if_pos ha, if_pos hb]

theorem strayOrder_others (ha : ¬ stray a) (hb : ¬ stray b) :
    strayOrder stray low key a b = order (key a) (key b) := by
  rw [strayOrder, if_neg ha, if_neg hb]

theorem strayOrder_left (ha : stray a) (hb : ¬ stray b) : strayOrder stray low key a b ≤ 0 ↔ ¬ low b := by
  rw [strayOrder, if_pos ha, if_neg hb]
  split_ifs <;> simp_all

theorem strayOrder_right (ha : ¬ stray a) (hb : stray b) : strayOrder stray low key a b ≤ 0 ↔ low a := by
  rw [strayOrder, if_neg ha, if_pos hb]
  split_ifs <;> simp_all

/-- A stray element never ties with another. -/
theorem strayOrder_ne_zero (ha : stray a) (hb : ¬ stray b) : strayOrder stray low key a b ≠ 0 := by
  rw [strayOrder, if_pos ha, if_neg hb]
  split_ifs <;> omega

theorem strayClash_of_circle (ha : stray a) (hb : ¬ stray b) (hc : ¬ stray c)
    (hab : strayOrder stray low key a b ≤ 0) (hbc : strayOrder stray low key b c ≤ 0)
    (hca : strayOrder stray low key c a ≤ 0) : StrayClash stray low key a b c := by
  refine ⟨ha, hb, (strayOrder_left ha hb).mp hab, hc, (strayOrder_right hc ha).mp hca, ?_⟩
  rwa [strayOrder_others hb hc, order_le_zero] at hbc

theorem strays_no_circle (ha : stray a) (hb : stray b) (hc : ¬ stray c) (hbc : strayOrder stray low key b c ≤ 0)
    (hca : strayOrder stray low key c a ≤ 0) : False :=
  (strayOrder_left hb hc).mp hbc ((strayOrder_right hc ha).mp hca)

/-- Three elements in a circle tie, or there is a clash with a stray one among them. -/
theorem strayOrder_circle (hab : strayOrder stray low key a b ≤ 0) (hbc : strayOrder stray low key b c ≤ 0)
    (hca : strayOrder stray low key c a ≤ 0) :
    strayOrder stray low key a b = 0 ∧ strayOrder stray low key b c = 0 ∧ strayOrder stray low key c a = 0 ∨
      StrayClash stray low key a b c ∨ StrayClash stray low key b c a ∨ StrayClash stray low key c a b := by
  by_cases ha : stray a <;> by_cases hb : stray b <;> by_cases hc : stray c
  · exact .inl ⟨strayOrder_strays ha hb, strayOrder_strays hb hc, strayOrder_strays hc ha⟩
  · exact (strays_no_circle ha hb hc hbc hca).elim
  · exact (strays_no_circle hc ha hb hab hbc).elim
  · exact .inr (.inl (strayClash_of_circle ha hb hc hab hbc hca))
  · exact (strays_no_circle hb hc ha hca hab).elim
  · exact .inr (.inr (.inl (strayClash_of_circle hb hc ha hbc hca hab)))
  · exact .inr (.inr (.inr (strayClash_of_circle hc ha hb hca hab hbc)))
  · rw [strayOrder_others ha hb, order_le_zero] at hab
    rw [strayOrder_others hb hc, order_le_zero] at hbc
    rw [strayOrder_others hc ha, order_le_zero] at hca
    have hba : key a = key b := le_antisymm hab (hbc.trans hca)
    have hcb : key b = key c := le_antisymm hbc (hca.trans hab)
    refine .inl ⟨?_, ?_, ?_⟩
    · rw [strayOrder_others ha hb, hba, order_self]
    · rw [strayOrder_others hb hc, hcb, order_self]
    · rw [strayOrder_others hc ha, hba, hcb, order_self]

/-- A clash: the stray element is strictly between the other two. -/
theorem StrayClash.between (h : StrayClash stray low key a b c) :
    strayOrder stray low key a b < 0 ∧ strayOrder stray low key c a < 0 := by
  obtain ⟨ha, hb, hlb, hc, hlc, -⟩ := h
  constructor
  · rw [strayOrder, if_pos ha, if_neg hb, if_neg hlb]
    decide
  · rw [strayOrder, if_neg hc, if_pos ha, if_pos hlc]
    decide

end Stray

end Compare
