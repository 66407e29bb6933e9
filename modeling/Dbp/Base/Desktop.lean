/-
# The desktop file

`libdbpbase/desktop.c`: sections of entries, the two functions that add to
them, and the lookups. Section 0 is nameless and holds what stands before
the first header. `dbpDesktopEntryNew` searches the section it is given for
a collision and appends to the last section of the file, as the source does.

Key definitions: `DesktopFile`, `dbpDesktopSectionNew`, `dbpDesktopEntryNew`,
`dbpDesktopLookupSection`, `dbpDesktopLookupEntry`, `dbpDesktopLookup`.
-/
import Dbp.C.Scanf

namespace Dbp

open CLib

/-- `struct DBPDesktopFileEntry`. -/
structure DesktopEntry where
  key : CStr
  locale : CStr
  value : CStr
deriving Repr, DecidableEq

/-- `struct DBPDesktopFileSection`; the nameless section has name NULL. -/
structure DesktopSection where
  name : Option CStr
  entry : List DesktopEntry
deriving Repr, DecidableEq

/-- `struct DBPDesktopFile`. -/
structure DesktopFile where
  section_ : List DesktopSection
deriving Repr, DecidableEq

namespace DesktopFile

/-- The number of sections. -/
abbrev sections (df : DesktopFile) : ℕ := df.section_.length

/-- Section `s` of a file; the source only reads sections that exist. -/
def sec (df : DesktopFile) (s : ℕ) : DesktopSection := df.section_.getD s ⟨none, []⟩

end DesktopFile

/-- `dbp_desktop_section_new`: the section of that name, or a new one at the end. -/
def dbpDesktopSectionNew (df : DesktopFile) (name : Option CStr) : DesktopFile × ℕ :=
  match df.section_.findIdx? (fun s => s.name.isSome && s.name == name) with
  | some id => (df, id)
  | none => (⟨df.section_ ++ [⟨name, []⟩]⟩, df.sections)

/-- The test on one entry in the loop of `dbp_desktop_entry_new`. In the
nameless section the source compares the literal "key" with the empty string. -/
def DesktopSection.collides (s : DesktopSection) (key locale : CStr) (e : DesktopEntry) : Bool :=
  match s.name with
  | none => lit "key" == lit ""
  | some _ => e.key == key && e.locale == locale

/-- `dbp_desktop_entry_new`: an entry of the key and locale in `section` is
kept; else the new one is appended to the last section of the file. -/
def dbpDesktopEntryNew (df : DesktopFile) (key locale value : CStr) (section_ : ℕ) : DesktopFile × ℕ :=
  match (df.sec section_).entry.findIdx? ((df.sec section_).collides key locale) with
  | some i => (df, i)
  | none =>
    (⟨df.section_.modify (df.sections - 1) fun s => { s with entry := s.entry ++ [⟨key, locale, value⟩] }⟩,
      (df.sec (df.sections - 1)).entry.length)

theorem modify_last {α : Type*} (f : α → α) (x : α) : ∀ xs : List α, (xs ++ [x]).modify xs.length f = xs ++ [f x]
  | [] => rfl
  | y :: ys => congrArg (y :: ·) (modify_last f x ys)

/-- An entry that does not collide, in the last section. -/
theorem dbpDesktopEntryNew_concat {init : List DesktopSection} {s : DesktopSection} {key locale : CStr} {i : ℕ}
    (value : CStr) (h : (DesktopFile.sec ⟨init ++ [s]⟩ i).entry.findIdx?
      ((DesktopFile.sec ⟨init ++ [s]⟩ i).collides key locale) = none) :
    (dbpDesktopEntryNew ⟨init ++ [s]⟩ key locale value i).1 =
      ⟨init ++ [{ s with entry := s.entry ++ [⟨key, locale, value⟩] }]⟩ := by
  unfold dbpDesktopEntryNew
  rw [h]
  simp only [DesktopFile.sections, List.length_append, List.length_singleton, Nat.add_sub_cancel, modify_last]

/-- `dbp_desktop_lookup_section`: section 0 for NULL, else the first section
from 1 on with the name. -/
def dbpDesktopLookupSection (df : DesktopFile) (section_ : Option CStr) : Option ℕ :=
  match section_ with
  | none => if df.sections = 0 then none else some 0
  | some _ => (df.section_.tail.findIdx? fun s => s.name == section_).map (· + 1)

/-- `dbp_desktop_lookup_entry`. -/
def dbpDesktopLookupEntry (df : DesktopFile) (key locale : CStr) (section_ : ℕ) : Option ℕ :=
  (df.sec section_).entry.findIdx? fun e => e.key == key && e.locale == locale

/-- The value of entry `i` of section `s`. -/
def DesktopFile.value (df : DesktopFile) (s i : ℕ) : CStr :=
  ((df.sec s).entry.getD i ⟨[], [], []⟩).value

/-- `dbp_desktop_lookup`: the entry of the locale, else of the locale without
its `@` variant, else of the empty locale. -/
def dbpDesktopLookup (df : DesktopFile) (key locale : CStr) (section_ : Option CStr) : Option CStr :=
  match dbpDesktopLookupSection df section_ with
  | none => none
  | some s =>
    match dbpDesktopLookupEntry df key locale s with
    | some i => some (df.value s i)
    | none =>
      match dbpDesktopLookupEntry df key (locale.takeWhile (· ≠ '@')) s with
      | some i => some (df.value s i)
      | none => (dbpDesktopLookupEntry df key [] s).map (df.value s)

end Dbp
