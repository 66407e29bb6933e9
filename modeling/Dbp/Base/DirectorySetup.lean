/-
# Making directories

`dbp_loop_directory_setup` goes along a path from the root, whatever the path
begins with, and makes the directories that are missing, with the mode it is
given. It comes to 1 exactly if there is a directory at every stage of the
path afterwards; whatever there was is as it was, what is new are directories
of that mode, and a second call changes nothing (`directorySetup_iff`). What
the calls do is given by their laws (`FileSystem`), which a tree without links
meets (`plainFiles`).

Key definitions: `squeezeTurn`, `squeeze`, `setupLoop`, `dbpLoopDirectorySetup`, `pathStages`, `plainFiles`.
Key theorems: `squeeze_done`, `strtok_squeeze`, `setupLoop_spec`, `directorySetup_iff`.
-/
import Dbp.C.String
import Dbp.Lib.Nodes

namespace Dbp

open CLib Nodes

/-! ### Double slashes -/

/-- One turn of the loop over double slashes, which takes a slash out of the first. -/
def squeezeTurn : CStr → Option CStr
  | [] => none
  | c :: s => if (lit "//").isPrefixOf (c :: s) then some s else (squeezeTurn s).map (c :: ·)

/-- The loop, with a bound on its turns. -/
def squeeze : ℕ → CStr → CStr
  | 0, s => s
  | n + 1, s =>
    match squeezeTurn s with
    | none => s
    | some s' => squeeze n s'

/-- A turn joins what stands on both sides of two slashes by one. -/
theorem squeezeTurn_some : ∀ {s s' : CStr}, squeezeTurn s = some s' →
    ∃ pre post, s = pre ++ '/' :: '/' :: post ∧ s' = pre ++ '/' :: post
  | [], _, h => nomatch h
  | c :: s, s', h => by
    unfold squeezeTurn at h
    split_ifs at h with hp
    · obtain ⟨post, hs⟩ := List.isPrefixOf_iff_prefix.mp hp
      obtain ⟨rfl, rfl⟩ := List.cons.inj hs
      obtain rfl := Option.some.inj h
      exact ⟨[], post, rfl, rfl⟩
    · obtain ⟨t, ht, rfl⟩ := Option.map_eq_some_iff.mp h
      obtain ⟨pre, post, rfl, rfl⟩ := squeezeTurn_some ht
      exact ⟨c :: pre, post, rfl, rfl⟩

/-- The loop ends. -/
theorem squeeze_done : ∀ (n : ℕ) (s : CStr), s.length ≤ n → squeezeTurn (squeeze n s) = none
  | 0, s, h => by
    rw [List.length_eq_zero_iff.mp (Nat.le_zero.mp h)]
    rfl
  | n + 1, s, h => by
    rw [squeeze]
    cases hs : squeezeTurn s with
    | none => exact hs
    | some s' =>
      obtain ⟨pre, post, rfl, rfl⟩ := squeezeTurn_some hs
      refine squeeze_done n _ ?_
      simp only [List.length_append, List.length_cons] at h ⊢
      omega

/-- The pieces around a delimiter. -/
theorem strtok_around (delim : Char) (pre post : CStr) :
    strtok delim (pre ++ delim :: post) = strtok delim pre ++ strtok delim post := by
  rw [strtok, List.splitOn_append_cons_self, List.filter_append]
  rfl

/-- It does not matter to the pieces of the path. -/
theorem strtok_squeeze : ∀ (n : ℕ) (s : CStr), strtok '/' (squeeze n s) = strtok '/' s
  | 0, _ => rfl
  | n + 1, s => by
    rw [squeeze]
    cases hs : squeezeTurn s with
    | none => rfl
    | some s' =>
      obtain ⟨pre, post, rfl, rfl⟩ := squeezeTurn_some hs
      have hempty : strtok '/' ('/' :: post) = strtok '/' post := strtok_around '/' [] post
      dsimp only
      rw [strtok_squeeze n, strtok_around, strtok_around, hempty]

/-! ### The directories -/

section Setup

variable {S I : Type} (fs : FileSystem S CStr I ℕ)

/-- What a call comes to: its result, the state it leaves, and what it logs. -/
structure DirectorySetup (S : Type) where
  ret : ℤ
  state : S
  log : CStr
deriving Repr, DecidableEq

/-- The loop over the pieces of the path, with the path so far. -/
def setupLoop (umask : ℕ) : S → CStr → List CStr → DirectorySetup S
  | s, _, [] => ⟨1, s, []⟩
  | s, oldPath, tok :: toks =>
    let nextPath := oldPath ++ lit "/" ++ tok
    match fs.resolve s nextPath with
    | some i =>
      if fs.isDir s i then setupLoop umask s nextPath toks
      else ⟨0, s, nextPath ++ lit " exists but isn't a directory\n"⟩
    | none =>
      match make fs s nextPath umask with
      | none => ⟨0, s, lit "Unable to create directory " ++ nextPath ++ lit "\n"⟩
      | some s' => setupLoop umask s' nextPath toks

/-- `dbp_loop_directory_setup`. -/
def dbpLoopDirectorySetup (s : S) (path : CStr) (umask : ℕ) : DirectorySetup S :=
  setupLoop fs umask s [] (strtok '/' (squeeze path.length path))

/-- The paths that the loop comes to. -/
def pathStages : CStr → List CStr → List CStr
  | _, [] => []
  | oldPath, tok :: toks => (oldPath ++ lit "/" ++ tok) :: pathStages (oldPath ++ lit "/" ++ tok) toks

/-- What the loop does, by its turns. -/
theorem setupLoop_spec (umask : ℕ) : ∀ (toks : List CStr) (s : S) (oldPath : CStr),
    let r := setupLoop fs umask s oldPath toks
    Grown fs umask s r.state ∧ (r.ret = 1 ↔ ∀ p ∈ pathStages oldPath toks, IsDir fs r.state p)
  | [], s, _ => ⟨.refl fs umask s, iff_of_true rfl fun _ h => nomatch h⟩
  | tok :: toks, s, oldPath => by
    -- at a stage that is a directory in the end, the rest of the path decides
    have hnext : ∀ s', Grown fs umask s s' → IsDir fs s' (oldPath ++ lit "/" ++ tok) →
        let r := setupLoop fs umask s' (oldPath ++ lit "/" ++ tok) toks
        Grown fs umask s r.state ∧ (r.ret = 1 ↔ ∀ p ∈ pathStages oldPath (tok :: toks), IsDir fs r.state p) := by
      intro s' hs' hdir r
      obtain ⟨hgrown, hret⟩ := setupLoop_spec umask toks s' (oldPath ++ lit "/" ++ tok)
      refine ⟨hs'.trans hgrown, ?_⟩
      rw [pathStages, List.forall_mem_cons, and_iff_right (hdir.grown hgrown)]
      exact hret
    have hstop : ∀ log, ¬ IsDir fs s (oldPath ++ lit "/" ++ tok) →
        let r : DirectorySetup S := ⟨0, s, log⟩
        Grown fs umask s r.state ∧ (r.ret = 1 ↔ ∀ p ∈ pathStages oldPath (tok :: toks), IsDir fs r.state p) := by
      intro log hno
      exact ⟨.refl fs umask s, iff_of_false (by dsimp only; decide) fun h => hno (h _ List.mem_cons_self)⟩
    unfold setupLoop
    dsimp only
    cases hres : fs.resolve s (oldPath ++ lit "/" ++ tok) with
    | some i =>
      dsimp only
      split_ifs with hdir
      · exact hnext s (.refl fs umask s) ⟨i, hres, hdir⟩
      · refine hstop _ ?_
        rintro ⟨j, hj, hjdir⟩
        obtain rfl : i = j := Option.some.inj (hres.symm.trans hj)
        exact hdir hjdir
    | none =>
      dsimp only
      cases hmake : make fs s (oldPath ++ lit "/" ++ tok) umask with
      | some s' => exact hnext s' (grown_make hmake) (isDir_make hmake)
      | none =>
        refine hstop _ ?_
        rintro ⟨j, hj, -⟩
        exact nomatch hres.symm.trans hj

/-- A path of directories is left as it is. -/
theorem setupLoop_dirs (umask : ℕ) (s : S) : ∀ (toks : List CStr) (oldPath : CStr),
    (∀ p ∈ pathStages oldPath toks, IsDir fs s p) → setupLoop fs umask s oldPath toks = ⟨1, s, []⟩
  | [], _, _ => rfl
  | tok :: toks, oldPath, h => by
    obtain ⟨⟨i, hi, hdir⟩, hrest⟩ := List.forall_mem_cons.mp h
    rw [setupLoop]
    simp only [hi, hdir, if_true]
    exact setupLoop_dirs umask s toks _ hrest

/-- **Making directories.** `dbp_loop_directory_setup` comes to 1 exactly if every stage of the path is a directory
afterwards; it leaves whatever there was as it was, and adds directories of the mode it is given only; and after a
success another call changes nothing. -/
theorem directorySetup_iff (s : S) (path : CStr) (umask : ℕ) :
    let r := dbpLoopDirectorySetup fs s path umask
    (r.ret = 1 ↔ ∀ p ∈ pathStages [] (strtok '/' path), IsDir fs r.state p) ∧ Grown fs umask s r.state ∧
      (r.ret = 1 → ∀ umask', dbpLoopDirectorySetup fs r.state path umask' = ⟨1, r.state, []⟩) := by
  intro r
  have hr : r = setupLoop fs umask s [] (strtok '/' path) := by
    rw [← strtok_squeeze path.length path]
    rfl
  obtain ⟨hgrown, hret⟩ := setupLoop_spec fs umask (strtok '/' path) s []
  rw [← hr] at hgrown hret
  refine ⟨hret, hgrown, fun h1 umask' => ?_⟩
  rw [dbpLoopDirectorySetup, strtok_squeeze]
  exact setupLoop_dirs fs umask' r.state _ _ (hret.mp h1)

end Setup

/-! ### On a tree without links -/

/-- What the paths lead to: whether it is a directory, and its mode. -/
abbrev PlainTree := CStr → Option (Bool × ℕ)

/-- The path of the directory that a path is in. -/
def dirOf (path : CStr) : CStr := ((path.reverse.dropWhile (· ≠ '/')).drop 1).reverse

/-- The calls, where each path leads to a node of its own. -/
def plainFiles : FileSystem PlainTree CStr CStr ℕ where
  resolve s p := (s p).map fun _ => p
  isDir s p := ((s p).map Prod.fst).getD false
  mode s p := ((s p).map Prod.snd).getD 0
  mkdir s p m :=
    if s p = none ∧ (dirOf p = [] ∨ ((s (dirOf p)).map Prod.fst).getD false = true) then
      some (Function.update s p (some (true, m)))
    else none
  chmod s p m := Function.update s p ((s p).map fun e => (e.1, m))
  mkdir_new := by
    intro s s' p m h
    obtain ⟨⟨hnone, -⟩, hs⟩ := Option.ite_none_right_eq_some.mp h
    obtain rfl := Option.some.inj hs
    refine ⟨p, by simp, by simp, fun q hq => ?_, fun q j hq => ?_⟩
    · obtain ⟨e, he, rfl⟩ := Option.map_eq_some_iff.mp hq
      exact nomatch hnone.symm.trans he
    · obtain ⟨e, he, rfl⟩ := Option.map_eq_some_iff.mp hq
      refine (eq_or_ne q p).imp id fun hne => ⟨q, ?_⟩
      rw [Function.update_of_ne hne] at he
      rw [he]
      rfl
  mkdir_old := by
    intro s s' p m h q i hq
    obtain ⟨⟨hnone, -⟩, hs⟩ := Option.ite_none_right_eq_some.mp h
    obtain rfl := Option.some.inj hs
    obtain ⟨e, he, rfl⟩ := Option.map_eq_some_iff.mp hq
    have hne : q ≠ p := by
      rintro rfl
      exact nomatch hnone.symm.trans he
    simp only [Function.update_of_ne hne, he, Option.map_some, and_self]
  chmod_resolve s p m q := by
    rcases eq_or_ne q p with rfl | hne
    · simp only [Function.update_self, Option.map_map, Function.comp_def]
    · simp only [Function.update_of_ne hne]
  chmod_isDir s p m i := by
    rcases eq_or_ne i p with rfl | hne
    · simp only [Function.update_self, Option.map_map, Function.comp_def]
    · simp only [Function.update_of_ne hne]
  chmod_mode := by
    intro s p i h m
    obtain ⟨e, he, rfl⟩ := Option.map_eq_some_iff.mp h
    simp only [Function.update_self, he, Option.map_some, Option.getD_some]
  chmod_other := by
    intro s p i h m
    rcases eq_or_ne i p with rfl | hne
    · cases he : s i with
      | none => simp only [Function.update_self, Option.map_none]
      | some e => exact absurd (by rw [he]; rfl) h
    · simp only [Function.update_of_ne hne]

/-- A tree that has `/mnt` only. -/
def demoMnt : PlainTree := fun p => if p = lit "/mnt" then some (true, 0o755) else none

theorem directorySetup_iff_demo :
    let r := dbpLoopDirectorySetup plainFiles demoMnt (lit "mnt//dbp/a") 0o700
    (r.ret = 1 ∧ ∀ p ∈ pathStages [] (strtok '/' (lit "mnt//dbp/a")), IsDir plainFiles r.state p) ∧
      plainFiles.mode r.state (lit "/mnt") = 0o755 ∧ plainFiles.mode r.state (lit "/mnt/dbp/a") = 0o700 := by
  have h1 : (dbpLoopDirectorySetup plainFiles demoMnt (lit "mnt//dbp/a") 0o700).ret = 1 := by decide
  exact ⟨⟨h1, (directorySetup_iff plainFiles demoMnt (lit "mnt//dbp/a") 0o700).1.mp h1⟩, by decide, by decide⟩

end Dbp
