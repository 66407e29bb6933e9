/-
# Desktop categories

`dbp-validate-extracted` has a table of the categories of launchers, and two
loops over it, which look for a name and end at an entry that has none. The
table has no such entry: for a name that is not in it, both go on behind it.
For the names in it, one of them finds the entry, and the other gives the
verdict of the parent test on that entry (`categoryOk_iff`).

Key definitions: `CategoryEntry`, `freedesktopCat`, `findCategory`, `validParentCategory`, `validCategory`.
Key theorems: `validCategory_eq`, `findCategory_outside`, `categoryOk_iff`.
-/
import Dbp.C.String
import Dbp.Lib.TableSearch

namespace Dbp

open CLib TableSearch

/-- `struct CategoryEntry`; the parents are those before the first NULL of four, and an entry without a name marks the
end of a table. -/
structure CategoryEntry where
  name : Option CStr
  parents : List CStr
  fits : parents.length < 4
  requiresParent : Bool
deriving DecidableEq

/-- An entry of the table. -/
def category (name : String) (parents : List String) (requiresParent : Bool)
    (fits : (parents.map lit).length < 4 := by decide) : CategoryEntry :=
  ⟨some (lit name), parents.map lit, fits, requiresParent⟩

/-- `freedesktop_cat`. -/
def freedesktopCat : List CategoryEntry := [
  category "AudioVideo" [] false,
  category "Audio" ["AudioVideo"] true,
  category "Video" ["AudioVideo"] true,
  category "Development" [] false,
  category "Education" [] false,
  category "Game" [] false,
  category "Graphics" [] false,
  category "Network" [] false,
  category "Office" [] false,
  category "Science" [] false,
  category "Settings" [] false,
  category "System" [] false,
  category "Utility" [] false,
  category "Building" ["Development"] true,
  category "Debugger" ["Development"] true,
  category "IDE" ["Development"] true,
  category "GUIDesigner" ["Development"] true,
  category "Profiling" ["Development"] true,
  category "RevisionControl" ["Development"] true,
  category "Translation" ["Development"] true,
  category "Calendar" ["Office"] true,
  category "ContactManagement" ["Office"] true,
  category "Database" ["Office", "Development", "AudioVideo"] true,
  category "Dictionary" ["Office", "TextTools"] true,
  category "Chart" ["Office"] true,
  category "Email" ["Office", "Network"] true,
  category "Finance" ["Office"] true,
  category "FlowChart" ["Office"] true,
  category "PDA" ["Office"] true,
  category "ProjectManagement" ["Office", "Development"] true,
  category "Presentation" ["Office"] true,
  category "Spreadsheet" ["Office"] true,
  category "WordProcessor" ["Office"] true,
  category "2DGraphics" ["Graphics"] true,
  category "VectorGraphics" ["2DGraphics"] true,
  category "RasterGraphics" ["2DGraphics"] true,
  category "3DGraphics" ["Graphics"] true,
  category "Scanning" ["Graphics"] true,
  category "OCR" ["Scanning"] true,
  category "Photography" ["Graphics", "Office"] true,
  category "Publishing" ["Graphics", "Office"] true,
  category "Viewer" ["Graphics", "Office"] true,
  category "TextTools" ["Utility"] true,
  category "DesktopSettings" ["Settings"] true,
  category "HardwareSettings" ["Settings"] true,
  category "Printing" ["HardwareSettings"] true,
  category "PackageManager" ["Settings"] true,
  category "Dialup" ["Network"] true,
  category "InstantMessaging" ["Network"] true,
  category "Chat" ["Network"] true,
  category "IRCClient" ["Network"] true,
  category "Feed" ["Network"] true,
  category "FileTransfer" ["Network"] true,
  category "HamRadio" ["Network", "Audio"] true,
  category "News" ["Network"] true,
  category "P2P" ["Network"] true,
  category "RemoteAccess" ["Network"] true,
  category "Telephony" ["Network"] true,
  category "TelephonyTools" ["Utility"] true,
  category "VideoConferance" ["Network"] true,
  category "WebBrowser" ["Network"] true,
  category "WebDevelopment" ["Network", "Development"] true,
  category "Midi" ["AudioVideo", "Audio"] true,
  category "Mixer" ["AudioVideo", "Audio"] true,
  category "Tuner" ["AudioVideo", "Audio"] true,
  category "TV" ["AudioVideo", "Video"] true,
  category "AudioVideoEditing" ["AudioVideo", "Audio", "Video"] true,
  category "Player" ["Audio", "Video", "AudioVideo"] true,
  category "Recorder" ["Audio", "Video", "AudioVideo"] true,
  category "DiscBurning" ["AudioVideo"] true,
  category "ActionGame" ["Game"] true,
  category "AdventureGame" ["Game"] true,
  category "ArcadeGame" ["Game"] true,
  category "BoardGame" ["Game"] true,
  category "BlocksGame" ["Game"] true,
  category "CardGame" ["Game"] true,
  category "KidsGame" ["Game"] true,
  category "LogicGame" ["Game"] true,
  category "RolePlaying" ["Game"] true,
  category "Shooter" ["Game"] true,
  category "Simulation" ["Game"] true,
  category "SportsGame" ["Game"] true,
  category "StrategyGame" ["Game"] true,
  category "Art" ["Education", "Science"] true,
  category "Construction" ["Education", "Science"] true,
  category "Music" ["AudioVideo", "Education"] true,
  category "Languages" ["Education", "Science"] true,
  category "ArtificialIntelligence" ["Education", "Science"] true,
  category "Astronomy" ["Education", "Science"] true,
  category "Biology" ["Education", "Science"] true,
  category "Chemistry" ["Education", "Science"] true,
  category "ComputerScience" ["Education", "Science"] true,
  category "DataVisualization" ["Education", "Science"] true,
  category "Economy" ["Education", "Science"] true,
  category "Electricity" ["Education", "Science"] true,
  category "Geography" ["Education", "Science"] true,
  category "Geology" ["Education", "Science"] true,
  category "Geoscience" ["Education", "Science"] true,
  category "History" ["Education", "Science"] true,
  category "Humanities" ["Education", "Science"] true,
  category "ImageProcessing" ["Education", "Science"] true,
  category "Literature" ["Education", "Science"] true,
  category "Maps" ["Education", "Science", "Utility"] true,
  category "Math" ["Education", "Science"] true,
  category "NumericalAnalysis" ["Math"] true,
  category "MedicalSoftware" ["Education", "Science"] true,
  category "Physics" ["Education", "Science"] true,
  category "Robotics" ["Education", "Science"] true,
  category "Spirituality" ["Education", "Utility"] true,
  category "Sports" ["Education", "Science"] true,
  category "ParallelComputing" ["ComputerScience"] true,
  category "Amusement" [] true,
  category "Archiving" ["Utility"] true,
  category "Compression" ["Archiving"] true,
  category "Electronics" [] false,
  category "Emulator" ["System", "Game"] true,
  category "Engineering" [] false,
  category "FileTools" ["Utility", "System"] true,
  category "FileManager" ["FileTools"] true,
  category "TerminalEmulator" ["System"] true,
  category "Filesystem" ["System"] true,
  category "Monitor" ["System", "Network"] true,
  category "Security" ["Settings", "System"] true,
  category "Accessibility" ["Settings", "Utility"] true,
  category "Calculator" ["Utility"] true,
  category "Clock" ["Utility"] true,
  category "TextEditor" ["Utility"] true,
  category "Documentation" [] false,
  category "Adult" [] true,
  category "Core" [] true]

/-- `_find_category`: no result if it reads behind the table, and NULL if it comes to an end of it. -/
def findCategory (cat : CStr) : Option (Option CategoryEntry) := search (·.name) cat freedesktopCat

/-- `_valid_parent_category`. -/
def validParentCategory (ce : CategoryEntry) (prev : Option CStr) : Bool :=
  if !ce.requiresParent then true
  else
    match prev with
    | none => false
    | some prev => ce.parents.any (· == prev)

/-- The loop of `_valid_category`: no result if it reads behind the table. -/
def validCategoryFrom (prev : Option CStr) (cat : CStr) : List CategoryEntry → Option Bool
  | [] => none
  | ce :: t =>
    match ce.name with
    | none => some false
    | some name =>
      if name ≠ cat then validCategoryFrom prev cat t
      else if !ce.requiresParent then some true
      else
        match prev with
        | none => some false
        | some prev => some (ce.parents.any (· == prev))

/-- `_valid_category`. -/
def validCategory (prev : Option CStr) (cat : CStr) : Option Bool := validCategoryFrom prev cat freedesktopCat

example : validCategory (some (lit "Office")) (lit "Calendar") = some true := by decide

/-! ### The two loops -/

/-- `_valid_category` is `_find_category` and the parent test of the entry it finds. -/
theorem validCategoryFrom_eq (prev : Option CStr) (cat : CStr) : ∀ t : List CategoryEntry, validCategoryFrom prev cat t =
    (search (·.name) cat t).map fun ce? => ce?.any fun ce => validParentCategory ce prev
  | [] => rfl
  | ce :: t => by
    rw [validCategoryFrom.eq_def, search]
    cases hn : ce.name with
    | none => simp only [hn, Option.map_some, Option.any_none]
    | some name =>
      by_cases hk : name = cat
      · simp only [hn, hk, ne_eq, not_true_eq_false, if_false, if_true, Option.map_some, Option.any_some,
          validParentCategory]
        cases prev <;> split_ifs <;> rfl
      · simp only [hn, hk, ne_eq, not_false_eq_true, if_true, if_false]
        exact validCategoryFrom_eq prev cat t

theorem validCategory_eq (prev : Option CStr) (cat : CStr) : validCategory prev cat =
    (findCategory cat).map fun ce? => ce?.any fun ce => validParentCategory ce prev :=
  validCategoryFrom_eq prev cat freedesktopCat

/-- Every entry of the table has a name. -/
theorem freedesktopCat_named : ∀ ce ∈ freedesktopCat, ce.name ≠ none := by decide +kernel

/-- The search leaves the table for the names that are not in it. -/
theorem findCategory_outside {cat : CStr} : findCategory cat = none ↔ some cat ∉ freedesktopCat.map (·.name) := by
  rw [findCategory, search_eq_none]
  constructor
  · intro h hmem
    obtain ⟨ce, hce, hname⟩ := List.mem_map.mp hmem
    exact (h ce hce).2 hname
  · exact fun h ce hce => ⟨freedesktopCat_named ce hce, fun hname => h (List.mem_map.mpr ⟨ce, hce, hname⟩)⟩

/-- What is asked of the lookups of a category after another: they stay inside the table, find the names in it, and
agree. -/
structure CategoryOk (prev : Option CStr) (cat : CStr) : Prop where
  inside : findCategory cat ≠ none ∧ validCategory prev cat ≠ none
  hit : (∃ ce, findCategory cat = some (some ce)) ↔ ∃ ce ∈ freedesktopCat, ce.name = some cat
  agree : validCategory prev cat = some true ↔
    ∃ ce, findCategory cat = some (some ce) ∧ validParentCategory ce prev = true

/-- **Category lookup.** It is right for the names in the table, and leaves the table for every other string. -/
theorem categoryOk_iff (prev : Option CStr) (cat : CStr) :
    CategoryOk prev cat ↔ some cat ∈ freedesktopCat.map (·.name) := by
  constructor
  · intro h
    by_contra hmem
    exact h.inside.1 (findCategory_outside.mpr hmem)
  · intro h
    have hfound : findCategory cat ≠ none := fun hn => findCategory_outside.mp hn h
    refine ⟨⟨hfound, ?_⟩, search_hit_iff freedesktopCat_named, ?_⟩
    · rwa [validCategory_eq, ne_eq, Option.map_eq_none_iff]
    · rw [validCategory_eq]
      rcases hs : findCategory cat with _ | _ | ce
      · exact absurd hs hfound
      · simp
      · simp

/-- A name that is no category. -/
theorem findCategory_unknown : ¬ CategoryOk none (lit "Videogame") := by
  intro h
  exact h.inside.1 (by decide +kernel)

end Dbp
