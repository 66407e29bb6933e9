/-
# File names

A file name leads to a directory by its parts, the pieces between its
slashes, and by where it starts: repeated slashes, and slashes at its end,
change neither (`SameDirectory`). `buildFilename` is `g_build_filename` of
GLib, which joins elements with one slash where they meet: its parts are the
parts of the elements (`parts_buildFilename`). `directories` are the names
before its slashes, one by one.

Key definitions: `parts`, `SameDirectory`, `directories`, `buildFilename`.
Key theorems: `parts_slash`, `parts_extend`, `parts_buildFilename`, `head?_buildFilename`.
-/
import Dbp.C.String
import Mathlib.Data.List.DropRight

namespace CLib

/-! ### Parts -/

/-- The parts of a file name. -/
def parts (s : CStr) : List CStr := strtok '/' s

/-- Two file names of one directory: both start at the root or neither does, and the parts are the same. -/
def SameDirectory (a b : CStr) : Prop := (a.head? = some '/' ↔ b.head? = some '/') ∧ parts a = parts b

instance (a b : CStr) : Decidable (SameDirectory a b) := inferInstanceAs (Decidable (_ ∧ _))

@[simp] theorem parts_nil : parts [] = [] := rfl

theorem parts_slash (a b : CStr) : parts (a ++ '/' :: b) = parts a ++ parts b := by
  rw [parts, strtok, List.splitOn_append_cons_self, List.filter_append]
  rfl

theorem parts_cons_slash (b : CStr) : parts ('/' :: b) = parts b := parts_slash [] b

/-- The name of a directory is its own part. -/
theorem parts_plain {s : CStr} (h : '/' ∉ s) (hs : s ≠ []) : parts s = [s] := by
  rw [parts, strtok, List.splitOn_eq_singleton h, List.filter_singleton, decide_eq_true hs]
  rfl

/-- Slashes at the end of a file name add no part. -/
theorem parts_append_slashes {s : CStr} (h : ∀ c ∈ s, c = '/') : ∀ t : CStr, parts (t ++ s) = parts t := by
  induction s with
  | nil => simp
  | cons c s ih =>
    intro t
    obtain ⟨rfl, hs⟩ := List.forall_mem_cons.mp h
    have hnil : parts s = [] := ih hs []
    rw [parts_slash, hnil, List.append_nil]

/-- Nor do slashes in front of it. -/
theorem parts_slashes_append {s : CStr} (h : ∀ c ∈ s, c = '/') (t : CStr) : parts (s ++ t) = parts t := by
  induction s with
  | nil => rfl
  | cons c s ih =>
    obtain ⟨rfl, hs⟩ := List.forall_mem_cons.mp h
    rw [List.cons_append, parts_cons_slash, ih hs]

/-- A slash may be repeated. -/
theorem sameDirectory_slash (a b : CStr) : SameDirectory (a ++ '/' :: '/' :: b) (a ++ '/' :: b) := by
  refine ⟨?_, ?_⟩
  · cases a <;> simp
  · rw [parts_slash, parts_slash, parts_cons_slash]

/-- A string is its first part, with the slashes before it left out, and a rest that is empty or starts with a slash. -/
theorem parts_run {p t : CStr} (hp : '/' ∉ p) (hne : p ≠ []) (ht : t.head?.all (· == '/')) :
    parts (p ++ t) = p :: parts t := by
  cases t with
  | nil => rw [List.append_nil, parts_plain hp hne, parts_nil]
  | cons c t =>
    obtain rfl : c = '/' := by simpa using ht
    rw [parts_slash, parts_plain hp hne, parts_cons_slash]
    rfl

/-- A string is what precedes its last part, and its last part. -/
theorem exists_last_part (a : CStr) : ∃ pre l, '/' ∉ l ∧ (a = l ∧ pre = [] ∨ a = pre ++ '/' :: l) := by
  induction a with
  | nil => exact ⟨[], [], by simp, .inl ⟨rfl, rfl⟩⟩
  | cons c a ih =>
    obtain ⟨pre, l, hl, ⟨rfl, -⟩ | rfl⟩ := ih
    · by_cases hc : c = '/'
      · exact ⟨[], a, hl, .inr (by rw [hc]; rfl)⟩
      · exact ⟨[], c :: a, by simp [hl, Ne.symm hc], .inl ⟨rfl, rfl⟩⟩
    · exact ⟨c :: pre, l, hl, .inr rfl⟩

/-- What follows a file name that ends inside a part: it goes on with that part up to the first slash, and from
there on it has its own parts. -/
theorem parts_extend (a : CStr) {c : Char} (hc : c ≠ '/') : ∃ (pre : List CStr) (l : CStr), ∀ p t : CStr, '/' ∉ p →
    t.head?.all (· == '/') → parts (a ++ c :: (p ++ t)) = pre ++ (l ++ c :: p) :: parts t := by
  obtain ⟨pre, l, hl, h⟩ := exists_last_part a
  have hrun : ∀ p t : CStr, '/' ∉ p → t.head?.all (· == '/') → parts (l ++ c :: (p ++ t)) = (l ++ c :: p) :: parts t := by
    intro p t hp ht
    rw [← List.cons_append, ← List.append_assoc]
    exact parts_run (by simp [hl, hp, Ne.symm hc]) (by simp) ht
  rcases h with ⟨rfl, -⟩ | rfl
  · exact ⟨[], a, fun p t hp ht => hrun p t hp ht⟩
  · refine ⟨parts pre, l, fun p t hp ht => ?_⟩
    rw [List.append_assoc, List.cons_append, parts_slash, hrun p t hp ht]

/-! ### Directories -/

/-- What stands before each slash of a file name: the directories on the way to the file, and an empty name for each
slash that is not needed. -/
def directories (s : CStr) : List CStr := (s.splitOn '/').dropLast

theorem directories_plain {s : CStr} (h : '/' ∉ s) : directories s = [] := by
  rw [directories, List.splitOn_eq_singleton h, List.dropLast_singleton]

theorem directories_slash {d : CStr} (h : '/' ∉ d) (s : CStr) : directories (d ++ '/' :: s) = d :: directories s := by
  rw [directories, List.splitOn_append_cons_self, List.splitOn_eq_singleton h, List.singleton_append,
    List.dropLast_cons_of_ne_nil (List.splitOn_ne_nil _ _)]
  rfl

/-- Induction on the directories of a file name. -/
theorem induction_directories {motive : CStr → Prop} (plain : ∀ s, '/' ∉ s → motive s)
    (slash : ∀ d s, '/' ∉ d → motive s → motive (d ++ '/' :: s)) (s : CStr) : motive s := by
  induction hn : s.length using Nat.strong_induction_on generalizing s with
  | _ n ih =>
    by_cases h : '/' ∈ s
    · obtain ⟨d, t, rfl, hd⟩ := List.eq_append_cons_of_mem h
      exact slash d t hd (ih t.length (by simp [← hn]; omega) t rfl)
    · exact plain s h

theorem directories_eq_nil_iff {s : CStr} : directories s = [] ↔ '/' ∉ s := by
  refine ⟨fun h hmem => ?_, directories_plain⟩
  obtain ⟨d, t, rfl, hd⟩ := List.eq_append_cons_of_mem hmem
  rw [directories_slash hd] at h
  exact List.cons_ne_nil _ _ h

/-! ### Joining -/

/-- An element of `g_build_filename` without the slashes at its ends. -/
def stripSlashes (e : CStr) : CStr := (e.dropWhile (· == '/')).rdropWhile (· == '/')

/-- `g_build_filename`: empty elements are left out, and so are elements of slashes; the others are joined by one
slash where they meet. The slashes the first element starts with stay, and those the last one ends with; a single
element stays as it is. -/
def buildFilename (elements : List CStr) : CStr :=
  match elements.filter (· ≠ []) with
  | [] => []
  | [e] => e
  | e :: es =>
    e.takeWhile (· == '/') ++ [ '/'].intercalate (((e :: es).map stripSlashes).filter (· ≠ [])) ++
      (es.getLastD e).rtakeWhile (· == '/')

example : buildFilename [lit "/media/card/", lit "/appdata", [], lit "game"] = lit "/media/card/appdata/game" := by decide

theorem parts_stripSlashes (e : CStr) : parts (stripSlashes e) = parts e := by
  have htake : ∀ c ∈ e.takeWhile (· == '/'), c = '/' := fun c hc => by simpa using List.mem_takeWhile_imp hc
  have hrtake : ∀ c ∈ (e.dropWhile (· == '/')).rtakeWhile (· == '/'), c = '/' :=
    fun c hc => by simpa using List.mem_rtakeWhile_imp hc
  calc parts (stripSlashes e)
      = parts (stripSlashes e ++ (e.dropWhile (· == '/')).rtakeWhile (· == '/')) := (parts_append_slashes hrtake _).symm
    _ = parts (e.dropWhile (· == '/')) := by rw [stripSlashes, List.rdropWhile_append_rtakeWhile]
    _ = parts (e.takeWhile (· == '/') ++ e.dropWhile (· == '/')) := (parts_slashes_append htake _).symm
    _ = parts e := by rw [List.takeWhile_append_dropWhile]

theorem parts_intercalate : ∀ es : List CStr, parts ([ '/'].intercalate es) = es.flatMap parts
  | [] => rfl
  | [e] => by simp
  | e :: e' :: es => by
    rw [List.intercalate_cons_cons, List.append_assoc, List.singleton_append, parts_slash, parts_intercalate (e' :: es)]
    rfl

/-- Elements without parts add none. -/
theorem flatMap_parts_filter (es : List CStr) : (es.filter (· ≠ [])).flatMap parts = es.flatMap parts := by
  induction es with
  | nil => rfl
  | cons e es ih =>
    rw [List.flatMap_cons, ← ih]
    by_cases he : e = []
    · rw [List.filter_cons_of_neg (by simpa using he), he, parts_nil, List.nil_append]
    · rw [List.filter_cons_of_pos (by simpa using he), List.flatMap_cons]

/-- The parts of the joined name are the parts of the elements. -/
theorem parts_buildFilename (es : List CStr) : parts (buildFilename es) = es.flatMap parts := by
  rw [← flatMap_parts_filter]
  unfold buildFilename
  split
  · next h => rw [h]; rfl
  · next h => rw [h]; simp
  · next e es' _ h =>
    rw [h, parts_append_slashes (fun c hc => by simpa using List.mem_rtakeWhile_imp hc),
      parts_slashes_append (fun c hc => by simpa using List.mem_takeWhile_imp hc), parts_intercalate, flatMap_parts_filter,
      List.flatMap_map]
    exact List.flatMap_congr fun e _ => parts_stripSlashes e

/-- The joined name starts at the root if the first element does. -/
theorem head?_buildFilename {e : CStr} (h : e.head? = some '/') (es : List CStr) :
    (buildFilename (e :: es)).head? = some '/' := by
  obtain ⟨t, rfl⟩ := List.head?_eq_some_iff.mp h
  unfold buildFilename
  rw [List.filter_cons_of_pos (by simp)]
  cases es.filter (· ≠ []) with
  | nil => rfl
  | cons e' es' => simp

end CLib
