/-
# Files that paths lead to

A file system as its calls show it: a path leads to a node or to none, and
several paths may lead to the same one. A new directory is a node that no
path has led to, and a new mode is one of the node that the path leads to.
So to make directories and give them a mode leaves whatever there was as it
was, and adds directories of that mode only (`grown_make`, `Grown.trans`).

Key definitions: `FileSystem`, `IsDir`, `Grown`, `make`.
Key theorems: `Grown.trans`, `IsDir.grown`, `grown_make`, `isDir_make`.
-/
import Mathlib.Data.Option.Basic

namespace Nodes

/-- A file system with states `S`, paths `P`, nodes `I` and modes `M`. -/
structure FileSystem (S P I M : Type) where
  resolve : S → P → Option I
  isDir : S → I → Bool
  mode : S → I → M
  mkdir : S → P → M → Option S
  chmod : S → P → M → S
  /-- A new directory is a new node, and the only one. -/
  mkdir_new : ∀ {s s' p m}, mkdir s p m = some s' → ∃ i, resolve s' p = some i ∧ isDir s' i = true ∧
    (∀ q, resolve s q ≠ some i) ∧ ∀ q j, resolve s' q = some j → j = i ∨ ∃ q', resolve s q' = some j
  mkdir_old : ∀ {s s' p m}, mkdir s p m = some s' → ∀ q i, resolve s q = some i →
    resolve s' q = some i ∧ isDir s' i = isDir s i ∧ mode s' i = mode s i
  /-- A change of mode leaves what paths lead to. -/
  chmod_resolve : ∀ s p m q, resolve (chmod s p m) q = resolve s q
  chmod_isDir : ∀ s p m i, isDir (chmod s p m) i = isDir s i
  chmod_mode : ∀ {s p i}, resolve s p = some i → ∀ m, mode (chmod s p m) i = m
  chmod_other : ∀ {s p i}, resolve s p ≠ some i → ∀ m, mode (chmod s p m) i = mode s i

variable {S P I M : Type} (fs : FileSystem S P I M)

/-- The path leads to a directory. -/
def IsDir (s : S) (p : P) : Prop := ∃ i, fs.resolve s p = some i ∧ fs.isDir s i = true

/-- Whatever there was is as it was, and all that is new are directories of that mode. -/
structure Grown (m : M) (s s' : S) : Prop where
  kept : ∀ q i, fs.resolve s q = some i →
    fs.resolve s' q = some i ∧ fs.isDir s' i = fs.isDir s i ∧ fs.mode s' i = fs.mode s i
  new : ∀ q i, fs.resolve s' q = some i →
    (∃ q', fs.resolve s q' = some i) ∨ fs.isDir s' i = true ∧ fs.mode s' i = m

theorem Grown.refl (m : M) (s : S) : Grown fs m s s := ⟨fun _ _ h => ⟨h, rfl, rfl⟩, fun q _ h => .inl ⟨q, h⟩⟩

/-- A directory is made, and given its mode. -/
def make (s : S) (p : P) (m : M) : Option S := (fs.mkdir s p m).map fun s' => fs.chmod s' p m

variable {fs} {m : M} {s s' s'' : S} {p : P}

theorem Grown.trans (h : Grown fs m s s') (h' : Grown fs m s' s'') : Grown fs m s s'' where
  kept q i hq := by
    obtain ⟨hq', hdir, hmode⟩ := h.kept q i hq
    obtain ⟨hq'', hdir', hmode'⟩ := h'.kept q i hq'
    exact ⟨hq'', hdir'.trans hdir, hmode'.trans hmode⟩
  new q i hq := by
    rcases h'.new q i hq with ⟨q', hq'⟩ | hnew
    · obtain ⟨-, hdir, hmode⟩ := h'.kept q' i hq'
      rw [hdir, hmode]
      exact h.new q' i hq'
    · exact .inr hnew

/-- A directory stays one. -/
theorem IsDir.grown (hp : IsDir fs s p) (h : Grown fs m s s') : IsDir fs s' p := by
  obtain ⟨i, hi, hdir⟩ := hp
  obtain ⟨hi', hdir', -⟩ := h.kept p i hi
  exact ⟨i, hi', hdir'.trans hdir⟩

theorem isDir_make (h : make fs s p m = some s') : IsDir fs s' p := by
  obtain ⟨s₁, hs₁, rfl⟩ := Option.map_eq_some_iff.mp h
  obtain ⟨i, hi, hdir, -⟩ := fs.mkdir_new hs₁
  exact ⟨i, (fs.chmod_resolve s₁ p m p).trans hi, (fs.chmod_isDir s₁ p m i).trans hdir⟩

/-- The mode is that of the new node, and of no other. -/
theorem grown_make (h : make fs s p m = some s') : Grown fs m s s' := by
  obtain ⟨s₁, hs₁, rfl⟩ := Option.map_eq_some_iff.mp h
  obtain ⟨i, hi, hdir, hfresh, honly⟩ := fs.mkdir_new hs₁
  refine ⟨fun q j hq => ?_, fun q j hq => ?_⟩
  · obtain ⟨hq₁, hdir₁, hmode₁⟩ := fs.mkdir_old hs₁ q j hq
    have hne : fs.resolve s₁ p ≠ some j := by
      intro hp
      obtain rfl : i = j := Option.some.inj (hi.symm.trans hp)
      exact hfresh q hq
    exact ⟨(fs.chmod_resolve s₁ p m q).trans hq₁, (fs.chmod_isDir s₁ p m j).trans hdir₁,
      (fs.chmod_other hne m).trans hmode₁⟩
  · rw [fs.chmod_resolve] at hq
    rcases honly q j hq with rfl | hold
    · exact .inr ⟨(fs.chmod_isDir s₁ p m j).trans hdir, fs.chmod_mode hi m⟩
    · exact .inl hold

end Nodes
