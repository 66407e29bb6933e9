/-
# Whether a package goes on the desktop

The daemon puts the launchers of the packages of a directory `desktop` on
the desktop, and `dbpLoopDesktopDirectory` tells such a package by its path.
It looks at the first directory whose name ends in `desktop`
(`dbpLoopDesktopDirectory_iff`), and not at the directory that holds the
file, so it answers right only for some paths (`DesktopPlain`).

Key definitions: `InDesktopDirectory`, `DesktopPlain`.
Key theorems: `dbpLoopDesktopDirectory_iff`, `inDesktopDirectory_iff`, `dbpLoopDesktopDirectory_eq_iff`.
-/
import Dbp.Base.Loop
import Dbp.C.Path

namespace Dbp

open CLib

/-- The directory that holds the file of this path is named `desktop`. -/
def InDesktopDirectory (path : CStr) : Prop :=
  ((directories path).filter (· ≠ [])).getLast? = some (lit "desktop")

instance (path : CStr) : Decidable (InDesktopDirectory path) := inferInstanceAs (Decidable (_ = _))

/-- The name of this directory ends in `desktop`. -/
abbrev EndsDesktop (d : CStr) : Prop := lit "desktop" <:+ d

/-! ### What the search finds -/

theorem dbpLoopDesktopDirectory_plain {path : CStr} (h : '/' ∉ path) : dbpLoopDesktopDirectory path = false := by
  have hnone : strstr (lit "desktop/") path = none := by
    rw [← Option.not_isSome_iff_eq_none, strstr_isSome_iff]
    exact fun hin => h (hin.subset (by decide))
  rw [dbpLoopDesktopDirectory, hnone]

theorem dbpLoopDesktopDirectory_slash {d : CStr} (hd : '/' ∉ d) (s : CStr) :
    dbpLoopDesktopDirectory (d ++ '/' :: s) = if EndsDesktop d then decide ('/' ∉ s) else dbpLoopDesktopDirectory s := by
  have hfind := strstr_stop (by decide : '/' ∉ lit "desktop") hd s
  rw [show lit "desktop" ++ [ '/'] = lit "desktop/" from rfl] at hfind
  unfold dbpLoopDesktopDirectory
  rw [hfind]
  split_ifs with h
  · rfl
  · rfl

/-- The search stops at the first directory whose name ends in `desktop`, and the file has to be in it. -/
theorem dbpLoopDesktopDirectory_iff (path : CStr) : dbpLoopDesktopDirectory path = true ↔
    ∃ up d, directories path = up ++ [d] ∧ EndsDesktop d ∧ ∀ x ∈ up, ¬ EndsDesktop x := by
  induction path using induction_directories with
  | plain s h => simp [dbpLoopDesktopDirectory_plain h, directories_plain h]
  | slash d s hd ih =>
    rw [dbpLoopDesktopDirectory_slash hd, directories_slash hd]
    by_cases hend : EndsDesktop d
    · rw [if_pos hend, decide_eq_true_iff, ← directories_eq_nil_iff]
      constructor
      · intro hnil
        exact ⟨[], d, by rw [hnil]; rfl, hend, by simp⟩
      · rintro ⟨up, e, heq, -, hup⟩
        -- nothing stands above `d`, where the search stops
        cases up with
        | nil => exact (List.cons.inj heq).2
        | cons x up => exact absurd ((List.cons.inj heq).1 ▸ hend) (hup x List.mem_cons_self)
    · rw [if_neg hend, ih]
      constructor
      · rintro ⟨up, e, heq, he, hup⟩
        exact ⟨d :: up, e, by rw [heq]; rfl, he, List.forall_mem_cons.mpr ⟨hend, hup⟩⟩
      · rintro ⟨up, e, heq, he, hup⟩
        cases up with
        | nil => exact absurd ((List.cons.inj heq).1 ▸ he) hend
        | cons x up => exact ⟨up, e, (List.cons.inj heq).2, he, (List.forall_mem_cons.mp hup).2⟩

/-! ### The directory of the file -/

/-- The last directory with a name, in front of the slashes that are not needed. -/
theorem getLast?_named_iff {dirs : List CStr} {d : CStr} : (dirs.filter (· ≠ [])).getLast? = some d ↔
    d ≠ [] ∧ ∃ up empties, dirs = up ++ d :: empties ∧ ∀ e ∈ empties, e = [] := by
  rw [← List.head?_reverse, ← List.filter_reverse, List.head?_filter, List.find?_eq_some_iff_append]
  constructor
  · rintro ⟨hd, as, bs, heq, has⟩
    refine ⟨by simpa using hd, bs.reverse, as.reverse, ?_, fun e he => by simpa using has e (List.mem_reverse.mp he)⟩
    rw [← List.reverse_reverse dirs, heq]
    simp
  · rintro ⟨hd, up, empties, rfl, hempty⟩
    exact ⟨by simpa using hd, empties.reverse, up.reverse, by simp,
      fun e he => by simpa using hempty e (List.mem_reverse.mp he)⟩

/-- The file is in `desktop` if only slashes stand between that name and the file's. -/
theorem inDesktopDirectory_iff (path : CStr) : InDesktopDirectory path ↔
    ∃ up empties, directories path = up ++ lit "desktop" :: empties ∧ ∀ e ∈ empties, e = [] :=
  getLast?_named_iff.trans (and_iff_right (by decide))

/-! ### The paths it answers right for -/

/-- Where the name of the directory that holds the file ends in `desktop`, it is just that word if a single slash
stands before the name of the file and no directory above has a name that ends in it, and only then. -/
def DesktopPlain (path : CStr) : Prop :=
  ∀ up d empties, directories path = up ++ d :: empties → (∀ e ∈ empties, e = []) → EndsDesktop d →
    (d = lit "desktop" ↔ empties = [] ∧ ∀ x ∈ up, ¬ EndsDesktop x)

theorem EndsDesktop.ne_nil {d : CStr} (h : EndsDesktop d) : d ≠ [] := by
  rintro rfl
  exact absurd (List.suffix_nil.mp h) (by decide)

/-- One directory holds the file. -/
theorem holding_unique {up up' empties empties' : List CStr} {d d' : CStr}
    (h : up ++ d :: empties = up' ++ d' :: empties') (hd : d ≠ []) (hd' : d' ≠ []) (he : ∀ e ∈ empties, e = [])
    (he' : ∀ e ∈ empties', e = []) : up = up' ∧ d = d' ∧ empties = empties' := by
  have hrun : ∀ {es : List CStr}, (∀ e ∈ es, e = []) → ∀ e ∈ es.reverse, decide (e = []) = true :=
    fun hes e hmem => by simpa using hes e (List.mem_reverse.mp hmem)
  -- from its end on, the list is the empty names, and then the directory
  have hrev := congrArg List.reverse h
  simp only [List.reverse_append, List.reverse_cons, List.append_assoc, List.singleton_append] at hrev
  have htake := congrArg (List.takeWhile fun e : CStr => decide (e = [])) hrev
  have hdrop := congrArg (List.dropWhile fun e : CStr => decide (e = [])) hrev
  rw [takeWhile_append_stop (hrun he) (by simpa using hd), takeWhile_append_stop (hrun he') (by simpa using hd')] at htake
  rw [dropWhile_append_stop (hrun he) (by simpa using hd), dropWhile_append_stop (hrun he') (by simpa using hd')] at hdrop
  obtain ⟨hdd, hup⟩ := List.cons.inj hdrop
  exact ⟨List.reverse_inj.mp hup, hdd, List.reverse_inj.mp htake⟩

/-- The answer is right for the paths of that kind, and for no others. -/
theorem dbpLoopDesktopDirectory_eq_iff (path : CStr) :
    (dbpLoopDesktopDirectory path = true ↔ InDesktopDirectory path) ↔ DesktopPlain path := by
  rw [dbpLoopDesktopDirectory_iff, inDesktopDirectory_iff]
  constructor
  · intro h up d empties heq he hend
    constructor
    · rintro rfl
      obtain ⟨up', d', heq', hend', hup⟩ := h.mpr ⟨up, empties, heq, he⟩
      obtain ⟨rfl, -, rfl⟩ := holding_unique (heq.symm.trans heq') hend.ne_nil hend'.ne_nil he (by simp)
      exact ⟨rfl, hup⟩
    · rintro ⟨rfl, hup⟩
      obtain ⟨up', empties', heq', he'⟩ := h.mp ⟨up, d, heq, hend, hup⟩
      exact (holding_unique (heq.symm.trans heq') hend.ne_nil (by decide) he he').2.1
  · intro hplain
    constructor
    · rintro ⟨up, d, heq, hend, hup⟩
      have hd : d = lit "desktop" := (hplain up d [] heq (by simp) hend).mpr ⟨rfl, hup⟩
      exact ⟨up, [], hd ▸ heq, by simp⟩
    · rintro ⟨up, empties, heq, he⟩
      obtain ⟨rfl, hup⟩ := (hplain up (lit "desktop") empties heq he List.suffix_rfl).mp rfl
      exact ⟨up, lit "desktop", heq, List.suffix_rfl, hup⟩

/-- A mount whose name ends in the word hides the packages of its own directory `desktop`, and shows those that are
not in it. -/
theorem dbpLoopDesktopDirectory_mount :
    ¬ (dbpLoopDesktopDirectory (lit "/media/mydesktop/dragonbox/packages/desktop/game.dbp") = true ↔
        InDesktopDirectory (lit "/media/mydesktop/dragonbox/packages/desktop/game.dbp")) ∧
      ¬ (dbpLoopDesktopDirectory (lit "/media/mydesktop/game.dbp") = true ↔
        InDesktopDirectory (lit "/media/mydesktop/game.dbp")) := by
  decide

end Dbp
