/-
# Linked lists in memory

The cells of a linked list stand anywhere in memory, and each holds a
pointer to the next one. `Chain` says which cells a pointer leads to, up to
the null pointer. They are determined by the pointer (`Chain.unique`), no
cell is met twice (`Chain.nodup`), and what happens to other cells does not
change them (`Chain.frame`). An `Allocator` hands out addresses that are not
in use.

Key definitions: `Allocator`, `readCell`, `freeCell`, `Chain`.
Key theorems: `readCell_freeCell`, `Chain.unique`, `Chain.nodup`, `Chain.frame`.
-/
import Mathlib.Data.List.Nodup

namespace Linked

variable {α ν : Type*}

/-! ### Memory -/

/-- Where the next cell goes, given the addresses in use. -/
structure Allocator (α : Type*) where
  addr : List α → α
  fresh : ∀ used, addr used ∉ used

/-- Addresses counted up. -/
def Allocator.above : Allocator ℕ where
  addr used := used.max?.getD 0 + 1
  fresh _ h := absurd (List.le_max?_getD_of_mem h) (Nat.not_succ_le_self _)

section Cells

variable [BEq α] [LawfulBEq α]

/-- The cell at an address. -/
def readCell (cells : List (α × ν)) (a : α) : Option ν := cells.lookup a

/-- The cells without the one at this address. -/
def freeCell (a : α) (cells : List (α × ν)) : List (α × ν) := cells.filter (·.1 != a)

/-- What can be read has an address in use. -/
theorem mem_of_readCell {a : α} {n : ν} {cells : List (α × ν)} (h : readCell cells a = some n) :
    a ∈ cells.map Prod.fst := by
  obtain ⟨l₁, l₂, rfl, -⟩ := List.lookup_eq_some_iff.mp h
  simp

theorem readCell_cons_of_ne {a b : α} (h : b ≠ a) (n : ν) (cells : List (α × ν)) :
    readCell ((a, n) :: cells) b = readCell cells b := by
  rw [readCell, List.lookup_cons, beq_eq_false_iff_ne.mpr h]
  rfl

theorem readCell_freeCell {a b : α} (h : b ≠ a) (cells : List (α × ν)) :
    readCell (freeCell a cells) b = readCell cells b := by
  induction cells with
  | nil => rfl
  | cons c cells ih =>
    by_cases hc : c.1 = a
    · rw [freeCell, List.filter_cons_of_neg (by simpa using hc), readCell_cons_of_ne (hc ▸ h)]
      exact ih
    · rw [freeCell, List.filter_cons_of_pos (by simpa using hc), readCell, readCell, List.lookup_cons, List.lookup_cons]
      cases b == c.1
      · exact ih
      · rfl

end Cells

/-! ### Chains -/

/-- The cells a pointer leads to, each with its address. -/
inductive Chain (next : ν → Option α) (mem : α → Option ν) : Option α → List (α × ν) → Prop
  | null : Chain next mem none []
  | cell {a : α} {n : ν} {cells : List (α × ν)} (read : mem a = some n) (rest : Chain next mem (next n) cells) :
    Chain next mem (some a) ((a, n) :: cells)

namespace Chain

variable {next : ν → Option α} {mem mem' : α → Option ν} {p : Option α} {cells cells' : List (α × ν)}

theorem unique (h : Chain next mem p cells) (h' : Chain next mem p cells') : cells = cells' := by
  induction h generalizing cells' with
  | null =>
    cases h'
    rfl
  | cell hread _ ih =>
    cases h' with
    | cell hread' hrest' =>
      obtain rfl := Option.some.inj (hread.symm.trans hread')
      rw [ih hrest']

theorem read_of_mem (h : Chain next mem p cells) : ∀ c ∈ cells, mem c.1 = some c.2 := by
  induction h with
  | null => simp
  | cell hread _ ih => exact List.forall_mem_cons.mpr ⟨hread, ih⟩

/-- Other cells may come, change and go. -/
theorem frame (h : Chain next mem p cells) (hmem : ∀ c ∈ cells, mem' c.1 = mem c.1) : Chain next mem' p cells := by
  induction h with
  | null => exact null
  | cell hread _ ih =>
    obtain ⟨hfirst, hrest⟩ := List.forall_mem_cons.mp hmem
    exact cell (hfirst.trans hread) (ih hrest)

/-- A cell on the way leads to the cells from it on. -/
theorem from_cell {xs ys : List (α × ν)} {c : α × ν} (h : Chain next mem p (xs ++ c :: ys)) :
    Chain next mem (some c.1) (c :: ys) := by
  induction xs generalizing p with
  | nil =>
    cases h with
    | cell hread hrest => exact cell hread hrest
  | cons x xs ih =>
    cases h with
    | cell _ hrest => exact ih hrest

theorem nodup (h : Chain next mem p cells) : (cells.map Prod.fst).Nodup := by
  induction h with
  | null => exact List.nodup_nil
  | @cell a n cells hread hrest ih =>
    refine List.nodup_cons.mpr ⟨fun hmem => ?_, ih⟩
    -- a cell that comes back leads to a part of what it leads to
    obtain ⟨c, hc, rfl⟩ := List.mem_map.mp hmem
    obtain ⟨xs, ys, rfl⟩ := List.append_of_mem hc
    have hloop := congrArg List.length ((cell hread hrest).unique hrest.from_cell)
    simp only [List.length_cons, List.length_append] at hloop
    omega

end Chain

end Linked
