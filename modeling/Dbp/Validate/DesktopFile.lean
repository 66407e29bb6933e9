/-
# The validator of launchers

`validate_desktop_file` of `dbp-validate-extracted` goes through the
`[Desktop Entry]` of a launcher, and reports what it finds in two lists of
messages. Most of its checks add an error and make the verdict false in one
statement (`ReportsFault`). Three do not: a file that cannot be opened, or has no
such section, makes it false with a warning; and a category list without a
`;` at its end is an error that leaves the verdict as it is. And a category
that is not in the table is looked for behind it, so that there is no verdict
at all. So there is one, and it is false exactly if there are errors, unless
the file is one of the first two, or its category list has a name that is not
in the table, or it is not terminated and all else is right
(`validateDesktopFile_iff`).

Key definitions: `Validation`, `validateDesktopFile`, `ReportsFault`, `RightVerdict`.
Key theorems: `reports_checkType`, `reports_checkCategoriesFrom`, `checkCategoriesFrom_unknown`, `validateDesktopFile_iff`.
-/
import Dbp.Base.Config
import Dbp.Base.DesktopParse
import Dbp.Validate.Categories

namespace Dbp

open CLib

/-- The verdict so far, and the lists of messages and of the icons in use. -/
structure Validation where
  valid : Bool
  error : List CStr
  warning : List CStr
  iconsUsed : List CStr
deriving Repr, DecidableEq

namespace Validation

/-- `LOG_FREE(msg, warning)`. -/
def logWarning (v : Validation) (msg : CStr) : Validation := { v with warning := v.warning ++ [msg] }

/-- `LOG_FREE(msg, error)`. -/
def logError (v : Validation) (msg : CStr) : Validation := { v with error := v.error ++ [msg] }

/-- `LOG_FREE(msg, error), valid = false`. -/
def fail (v : Validation) (msg : CStr) : Validation := { v.logError msg with valid := false }

end Validation

/-! ### The checks -/

/-- A message about the file at `path`. -/
def aboutFile (path : CStr) (what : CStr) : CStr := lit "Desktop file " ++ path ++ what

section Checks

variable (path : CStr) (df : DesktopFile)

/-- `dbp_desktop_lookup(df, key, NULL, "Desktop Entry")`. -/
def desktopKey (key : String) : Option CStr := dbpDesktopLookup df (lit key) [] (some (lit "Desktop Entry"))

/-- The check of what a launcher of its type needs. -/
def checkType (type : CStr) (v : Validation) : Validation :=
  if type = lit "Application" then
    if (desktopKey df "Exec").isNone ∧ (desktopKey df "TryExec").isNone then
      v.fail (aboutFile path (lit " does not provide a Exec or TryExec entry, which is mandatory for applications"))
    else v
  else if type = lit "Link" then
    if (desktopKey df "URL").getD [] = [] then
      v.fail (aboutFile path (lit " does not provide a URL entry, which is mandatory for links"))
    else v
  else if type = lit "Directory" then v
  else v.fail (aboutFile path (lit " have an invalid type '" ++ type ++ lit "' in its desktop entry"))

def checkName (v : Validation) : Validation :=
  if (desktopKey df "Name").getD [] = [] then
    v.fail (aboutFile path (lit " does not have a name set in its desktop entry"))
  else v

def checkComment (v : Validation) : Validation :=
  if (desktopKey df "Comment").getD [] = [] then
    v.logWarning (aboutFile path (lit " is missing a comment in its desktop entry"))
  else v

def checkIcon (iconsAvail : List CStr) (v : Validation) : Validation :=
  let icon := (desktopKey df "Icon").getD []
  if icon = [] then v.logWarning (aboutFile path (lit " is missing an icon in its desktop entry"))
  else
    let v := { v with iconsUsed := icon :: v.iconsUsed }
    if icon ∉ iconsAvail then v.fail (aboutFile path (lit " uses the icon " ++ icon ++ lit ", which is missing")) else v

/-- The message about a category that none of its parents precedes. -/
def parentMessage (cat : CStr) (ce : CategoryEntry) : CStr :=
  aboutFile path (lit " uses the subcategory '" ++ cat ++
    match ce.parents with
    | [] => lit "', but a main category must preceed it"
    | [p] => lit "', but the category '" ++ p ++ lit "' must preceed it"
    | [p, q] => lit "', but the category '" ++ p ++ lit "' or '" ++ q ++ lit "' must preceed it"
    | p :: q :: r :: _ =>
      lit "', but the category '" ++ p ++ lit "', '" ++ q ++ lit "' or '" ++ r ++ lit "' must preceed it")

/-- What is said of a category after another, given what `_find_category` returns for it. -/
def checkCategory (last : Option CStr) (cat : CStr) (ce? : Option CategoryEntry) (v : Validation) : Validation :=
  match ce? with
  | none => v.fail (aboutFile path (lit " uses invalid category '" ++ cat ++ lit "'"))
  | some ce => if !validParentCategory ce last then v.fail (parentMessage path cat ce) else v

/-- The loop over the categories, with the one before; no result if a search reads behind the table. -/
def checkCategoriesFrom : Option CStr → List CStr → Validation → Option Validation
  | _, [], v => some v
  | last, cat :: cats, v =>
    (findCategory cat).bind fun ce? => checkCategoriesFrom (some cat) cats (checkCategory path last cat ce? v)

/-- The category list ends in a semicolon. For an empty one the byte before it in memory is looked at. -/
def Terminated (before : Char) (category : CStr) : Prop := category.getLastD before = ';'

instance (before : Char) (category : CStr) : Decidable (Terminated before category) :=
  inferInstanceAs (Decidable (_ = _))

/-- The categories that are checked. -/
def categoryList (before : Char) (category : CStr) : List CStr :=
  dbpConfigExpandToken (if Terminated before category then category.dropLast else category)

/-- The check of the category list. -/
def checkCategories (before : Char) (category : CStr) (v : Validation) : Option Validation :=
  checkCategoriesFrom path none (categoryList before category) <|
    if Terminated before category then v
    else v.logError (aboutFile path (lit " has categories, but the list isn't terminated with a ';'"))

end Checks

/-- `validate_desktop_file`: its result, and what it leaves of the lists; nothing if it reads behind the table of
categories. `file` is the content of the file, if it can be opened, `b` what the stack holds in the parser's buffers, and
`before` the byte in front of the copy of the categories. -/
def validateDesktopFile (iconsAvail : List CStr) (before : Char) (b : ParseBufs) (path : CStr) (file : Option CStr)
    (v : Validation) : Option (Bool × Validation) :=
  let v := { v with valid := true }
  match file with
  | none => some (false, v.logWarning (aboutFile path (lit " could not be opened")))
  | some text =>
    let df := dbpDesktopParse (cString text) b
    if (dbpDesktopLookupSection df (some (lit "Desktop Entry"))).isNone then
      some (false, v.logWarning (aboutFile path (lit " does not have a desktop entry")))
    else
      match desktopKey df "Type" with
      | none => some (false, v.logError (aboutFile path (lit " does not specify a type in its desktop entry")))
      | some type =>
        let v := checkIcon path df iconsAvail (checkComment path df (checkName path df (checkType path df type v)))
        match desktopKey df "Categories" with
        | none =>
          some (false, v.logError (aboutFile path (lit " does not have any categories set in its desktop entry")))
        | some category => (checkCategories path before category v).map fun v => (v.valid, v)

/-! ### Checks that report -/

/-- A check for `ok`: it leaves the verdict and the errors as they are, or makes the verdict false and adds errors. -/
structure ReportsFault (ok : Prop) (v v' : Validation) : Prop where
  pass : ok → v'.valid = v.valid ∧ v'.error = v.error
  fail : ¬ ok → v'.valid = false ∧ ∃ m ≠ [], v'.error = v.error ++ m

namespace ReportsFault

variable {p q : Prop} {v v' v'' : Validation}

theorem of_pass (h : p) (hv : v'.valid = v.valid) (he : v'.error = v.error) : ReportsFault p v v' :=
  ⟨fun _ => ⟨hv, he⟩, fun hn => absurd h hn⟩

theorem of_fail (h : ¬ p) (msg : CStr) (hv : v'.valid = false) (he : v'.error = v.error ++ [msg]) : ReportsFault p v v' :=
  ⟨fun hp => absurd hp h, fun _ => ⟨hv, [msg], by simp, he⟩⟩

/-- One check after the other. -/
theorem trans (h : ReportsFault p v v') (h' : ReportsFault q v' v'') : ReportsFault (p ∧ q) v v'' where
  pass := fun ⟨hp, hq⟩ => by
    obtain ⟨hv, he⟩ := h.pass hp
    obtain ⟨hv', he'⟩ := h'.pass hq
    exact ⟨hv'.trans hv, he'.trans he⟩
  fail hn := by
    by_cases hp : p
    · obtain ⟨-, he⟩ := h.pass hp
      obtain ⟨hv', m, hm, he'⟩ := h'.fail fun hq => hn ⟨hp, hq⟩
      exact ⟨hv', m, hm, by rw [he', he]⟩
    · obtain ⟨hv, m, hm, he⟩ := h.fail hp
      by_cases hq : q
      · obtain ⟨hv', he'⟩ := h'.pass hq
        exact ⟨hv'.trans hv, m, hm, he'.trans he⟩
      · obtain ⟨hv', m', -, he'⟩ := h'.fail hq
        exact ⟨hv', m ++ m', by simp [hm], by rw [he', he, List.append_assoc]⟩

section Iff

variable (h : ReportsFault p v v')
include h

theorem false_iff (hv : v.valid = true) : v'.valid = false ↔ ¬ p := by
  by_cases hp : p
  · simp [(h.pass hp).1, hv, hp]
  · simp [(h.fail hp).1, hp]

theorem grows : ∃ m, v'.error = v.error ++ m := by
  by_cases hp : p
  · exact ⟨[], by rw [(h.pass hp).2, List.append_nil]⟩
  · obtain ⟨-, m, -, he⟩ := h.fail hp
    exact ⟨m, he⟩

/-- The errors tell the verdict. -/
theorem error_iff : (∃ m ≠ [], v'.error = v.error ++ m) ↔ ¬ p := by
  constructor
  · rintro ⟨m, hm, he⟩ hp
    rw [(h.pass hp).2] at he
    exact hm (List.self_eq_append_right.mp he)
  · exact fun hp => (h.fail hp).2

end Iff

end ReportsFault

/-- A launcher has what its type needs. -/
def TypeOk (df : DesktopFile) (type : CStr) : Prop :=
  type = lit "Application" ∧ ((desktopKey df "Exec").isSome ∨ (desktopKey df "TryExec").isSome) ∨
    type = lit "Link" ∧ (desktopKey df "URL").getD [] ≠ [] ∨ type = lit "Directory"

def NameOk (df : DesktopFile) : Prop := (desktopKey df "Name").getD [] ≠ []

/-- The icon is there, if one is given. -/
def IconOk (df : DesktopFile) (iconsAvail : List CStr) : Prop :=
  (desktopKey df "Icon").getD [] ≠ [] → (desktopKey df "Icon").getD [] ∈ iconsAvail

/-- A name that is in the table of categories. -/
def KnownCategory (cat : CStr) : Prop := some cat ∈ freedesktopCat.map (·.name)

instance (cat : CStr) : Decidable (KnownCategory cat) := inferInstanceAs (Decidable (_ ∈ _))

/-- Every category is known, and comes after one of its parents if it needs one. -/
def CategoriesOk : Option CStr → List CStr → Prop
  | _, [] => True
  | last, cat :: cats =>
    (∃ ce, findCategory cat = some (some ce) ∧ validParentCategory ce last = true) ∧ CategoriesOk (some cat) cats

section Checks

variable (path : CStr) (df : DesktopFile) (v : Validation)

theorem reports_checkType (type : CStr) : ReportsFault (TypeOk df type) v (checkType path df type v) := by
  have hlink : lit "Link" ≠ lit "Application" := by decide
  have hdir : lit "Directory" ≠ lit "Application" ∧ lit "Directory" ≠ lit "Link" := by decide
  unfold checkType
  by_cases happ : type = lit "Application"
  · rw [if_pos happ]
    split_ifs with hexec
    · refine .of_fail ?_ _ rfl rfl
      rintro (⟨-, h⟩ | ⟨h, -⟩ | h)
      · simp [Option.isNone_iff_eq_none.mp hexec.1, Option.isNone_iff_eq_none.mp hexec.2] at h
      · exact hlink (h.symm.trans happ)
      · exact hdir.1 (h.symm.trans happ)
    · refine .of_pass (.inl ⟨happ, ?_⟩) rfl rfl
      rcases not_and_or.mp hexec with h | h
      · exact .inl (Option.isSome_iff_ne_none.mpr fun hn => h (by rw [hn]; rfl))
      · exact .inr (Option.isSome_iff_ne_none.mpr fun hn => h (by rw [hn]; rfl))
  · rw [if_neg happ]
    by_cases hl : type = lit "Link"
    · rw [if_pos hl]
      split_ifs with hurl
      · refine .of_fail ?_ _ rfl rfl
        rintro (⟨h, -⟩ | ⟨-, h⟩ | h)
        · exact happ h
        · exact h hurl
        · exact hdir.2 (h.symm.trans hl)
      · exact .of_pass (.inr (.inl ⟨hl, hurl⟩)) rfl rfl
    · rw [if_neg hl]
      split_ifs with hd
      · exact .of_pass (.inr (.inr hd)) rfl rfl
      · refine .of_fail ?_ _ rfl rfl
        rintro (⟨h, -⟩ | ⟨h, -⟩ | h)
        · exact happ h
        · exact hl h
        · exact hd h

theorem reports_checkName : ReportsFault (NameOk df) v (checkName path df v) := by
  unfold checkName
  split_ifs with h
  · exact .of_fail (not_not.mpr h) _ rfl rfl
  · exact .of_pass h rfl rfl

/-- A comment that is missing is no error. -/
theorem reports_checkComment : ReportsFault True v (checkComment path df v) := by
  unfold checkComment
  split_ifs
  · exact .of_pass trivial rfl rfl
  · exact .of_pass trivial rfl rfl

theorem reports_checkIcon (iconsAvail : List CStr) :
    ReportsFault (IconOk df iconsAvail) v (checkIcon path df iconsAvail v) := by
  unfold checkIcon
  by_cases h : (desktopKey df "Icon").getD [] = []
  · simp only [h, if_true]
    exact .of_pass (fun hn => absurd h hn) rfl rfl
  · simp only [h, if_false]
    by_cases hi : (desktopKey df "Icon").getD [] ∈ iconsAvail
    · rw [if_neg (not_not.mpr hi)]
      exact .of_pass (fun _ => hi) rfl rfl
    · rw [if_pos hi]
      exact .of_fail (fun hok => hi (hok h)) _ rfl rfl

/-- The search finds the names of the table, and leaves it for others. -/
theorem findCategory_known {cat : CStr} (h : KnownCategory cat) : ∃ ce, findCategory cat = some (some ce) := by
  obtain ⟨ce, hce, hname⟩ := List.mem_map.mp h
  exact (TableSearch.search_hit_iff freedesktopCat_named).mpr ⟨ce, hce, hname⟩

/-- A loop over names of the table comes to its end, and reports what is wrong. -/
theorem reports_checkCategoriesFrom : ∀ (cats : List CStr) (last : Option CStr) (v : Validation),
    (∀ cat ∈ cats, KnownCategory cat) →
      ∃ v', checkCategoriesFrom path last cats v = some v' ∧ ReportsFault (CategoriesOk last cats) v v'
  | [], _, v, _ => ⟨v, rfl, .of_pass trivial rfl rfl⟩
  | cat :: cats, last, v, hknown => by
    obtain ⟨hcat, hcats⟩ := List.forall_mem_cons.mp hknown
    obtain ⟨ce, hce⟩ := findCategory_known hcat
    obtain ⟨v', hv', hrest⟩ := reports_checkCategoriesFrom cats (some cat) (checkCategory path last cat (some ce) v) hcats
    refine ⟨v', ?_, ReportsFault.trans ?_ hrest⟩
    · rw [checkCategoriesFrom, hce, Option.bind_some, hv']
    · rw [hce, checkCategory]
      cases hparent : validParentCategory ce last with
      | true =>
        rw [Bool.not_true, if_neg Bool.false_ne_true]
        exact .of_pass ⟨ce, rfl, hparent⟩ rfl rfl
      | false =>
        rw [Bool.not_false, if_pos rfl]
        exact .of_fail (by simp [hparent]) _ rfl rfl

/-- A name that is not in the table ends it. -/
theorem checkCategoriesFrom_unknown : ∀ (cats : List CStr) (last : Option CStr) (v : Validation),
    (¬ ∀ cat ∈ cats, KnownCategory cat) → checkCategoriesFrom path last cats v = none
  | [], _, _, h => absurd (fun _ hcat => by cases hcat) h
  | cat :: cats, last, v, h => by
    rw [checkCategoriesFrom]
    by_cases hcat : KnownCategory cat
    · obtain ⟨ce, hce⟩ := findCategory_known hcat
      rw [hce, Option.bind_some]
      exact checkCategoriesFrom_unknown cats _ _ fun hcats => h (List.forall_mem_cons.mpr ⟨hcat, hcats⟩)
    · rw [findCategory_outside.mpr hcat, Option.bind_none]

example (v : Validation) : checkCategoriesFrom path none [lit "Game", lit "Videogame"] v = none :=
  checkCategoriesFrom_unknown path _ _ v (by decide)

/-- Categories that are right are known. -/
theorem CategoriesOk.known : ∀ {cats : List CStr} {last : Option CStr}, CategoriesOk last cats →
    ∀ cat ∈ cats, KnownCategory cat
  | [], _, _ => fun _ hcat => by cases hcat
  | cat :: cats, _, ⟨⟨_, hce, _⟩, hok⟩ => by
    refine List.forall_mem_cons.mpr ⟨?_, CategoriesOk.known hok⟩
    by_contra hcat
    exact Option.some_ne_none _ (hce.symm.trans (findCategory_outside.mpr hcat))

end Checks

/-! ### The verdict -/

/-- All that is checked before the category list. -/
def LauncherOk (df : DesktopFile) (iconsAvail : List CStr) (type : CStr) : Prop :=
  TypeOk df type ∧ NameOk df ∧ IconOk df iconsAvail

/-- There is a verdict on a file, and it is false exactly if errors were added. -/
def Tells (v : Validation) (r : Option (Bool × Validation)) : Prop :=
  ∃ r', r = some r' ∧ (r'.1 = false ↔ ∃ m ≠ [], r'.2.error = v.error ++ m)

/-- The file can be opened and has a `[Desktop Entry]`, its categories are in the table if it gets to them, and if their
list is not terminated, something else is wrong with it. -/
def RightVerdict (iconsAvail : List CStr) (before : Char) (b : ParseBufs) (file : Option CStr) : Prop :=
  ∃ text, file = some text ∧
    let df := dbpDesktopParse (cString text) b
    (dbpDesktopLookupSection df (some (lit "Desktop Entry"))).isSome ∧
      ∀ type category, desktopKey df "Type" = some type → desktopKey df "Categories" = some category →
        (∀ cat ∈ categoryList before category, KnownCategory cat) ∧
          (¬ Terminated before category →
            ¬ (LauncherOk df iconsAvail type ∧ CategoriesOk none (categoryList before category)))

section Verdict

variable (path : CStr) (df : DesktopFile) (v : Validation)

theorem reports_launcher (iconsAvail : List CStr) (type : CStr) : ReportsFault (LauncherOk df iconsAvail type) v
    (checkIcon path df iconsAvail (checkComment path df (checkName path df (checkType path df type v)))) := by
  have h := (((reports_checkType path df v type).trans (reports_checkName path df _)).trans
    (reports_checkComment path df _)).trans (reports_checkIcon path df _ iconsAvail)
  have hiff : (((TypeOk df type ∧ NameOk df) ∧ True) ∧ IconOk df iconsAvail) ↔ LauncherOk df iconsAvail type := by
    rw [LauncherOk, and_true, and_assoc]
  rwa [propext hiff] at h

/-- The category list, where the checks before it are done. -/
theorem tells_checkCategories {p : Prop} {v v' : Validation} (h : ReportsFault p v v') (hv : v.valid = true)
    (before : Char) (category : CStr) :
    Tells v ((checkCategories path before category v').map fun v => (v.valid, v)) ↔
      (∀ cat ∈ categoryList before category, KnownCategory cat) ∧
        (¬ Terminated before category → ¬ (p ∧ CategoriesOk none (categoryList before category))) := by
  unfold checkCategories
  by_cases hknown : ∀ cat ∈ categoryList before category, KnownCategory cat
  · rw [and_iff_right hknown]
    by_cases ht : Terminated before category
    · rw [if_pos ht]
      obtain ⟨w, hw, hcats⟩ := reports_checkCategoriesFrom path (categoryList before category) none v' hknown
      have hall := h.trans hcats
      rw [hw]
      exact iff_of_true ⟨_, rfl, (hall.false_iff hv).trans hall.error_iff.symm⟩ fun hn => absurd ht hn
    · -- the error that leaves the verdict alone
      rw [if_neg ht]
      generalize hv'' : v'.logError _ = v''
      have hvalid : v''.valid = v'.valid := by rw [← hv'']; rfl
      obtain ⟨m, hm⟩ := h.grows
      have hmore : ∃ msg, v''.error = v.error ++ m ++ [msg] := ⟨_, by rw [← hv'', ← hm]; rfl⟩
      obtain ⟨msg, hmsg⟩ := hmore
      obtain ⟨w, hw, hcats⟩ := reports_checkCategoriesFrom path (categoryList before category) none v'' hknown
      obtain ⟨n, hn⟩ := hcats.grows
      have herror : ∃ m ≠ [], w.error = v.error ++ m := ⟨m ++ [msg] ++ n, by simp, by rw [hn, hmsg]; simp⟩
      have hfalse : w.valid = false ↔ ¬ (p ∧ CategoriesOk none (categoryList before category)) := by
        cases hv' : v'.valid with
        | true =>
          rw [hcats.false_iff (hvalid.trans hv')]
          have hp : p := by
            by_contra hp
            exact Bool.false_ne_true ((h.fail hp).1.symm.trans hv')
          simp [hp]
        | false =>
          have hp := (h.false_iff hv).mp hv'
          simp only [hp, false_and, not_false_eq_true, iff_true]
          by_cases hc : CategoriesOk none (categoryList before category)
          · rw [(hcats.pass hc).1, hvalid, hv']
          · exact (hcats.fail hc).1
      rw [hw]
      constructor
      · rintro ⟨_, ⟨⟩, htells⟩ -
        exact hfalse.mp (htells.mpr herror)
      · exact fun hcond => ⟨_, rfl, iff_of_true (hfalse.mpr (hcond ht)) herror⟩
  · rw [checkCategoriesFrom_unknown path _ none _ hknown]
    refine iff_of_false ?_ fun hc => hknown hc.1
    rintro ⟨_, ⟨⟩, -⟩

end Verdict

/-- **The validator's verdict.** There is one, and it is false exactly if there are errors, but for files that cannot be
opened or have no `[Desktop Entry]`, for those with a category that is not in the table, and for those with a category
list that is not terminated and nothing else wrong. -/
theorem validateDesktopFile_iff (iconsAvail : List CStr) (before : Char) (b : ParseBufs) (path : CStr)
    (file : Option CStr) (v : Validation) :
    Tells v (validateDesktopFile iconsAvail before b path file v) ↔ RightVerdict iconsAvail before b file := by
  have hwarned : ∀ msg, ¬ Tells v (some (false, Validation.logWarning { v with valid := true } msg)) := by
    rintro msg ⟨_, ⟨⟩, h⟩
    obtain ⟨m, hm, he⟩ := h.mp rfl
    exact hm (List.self_eq_append_right.mp he)
  unfold RightVerdict validateDesktopFile
  cases file with
  | none => exact iff_of_false (hwarned _) (by simp)
  | some text =>
    simp only [Option.some.injEq, exists_eq_left']
    generalize dbpDesktopParse (cString text) b = df
    cases hsec : dbpDesktopLookupSection df (some (lit "Desktop Entry")) with
    | none => exact iff_of_false (hwarned _) (by simp)
    | some sec =>
      simp only [Option.isNone_some, Bool.false_eq_true, if_false, Option.isSome_some, true_and]
      have hv : ({ v with valid := true } : Validation).valid = true := rfl
      cases htype : desktopKey df "Type" with
      | none =>
        refine iff_of_true ⟨_, rfl, iff_of_true rfl ⟨_, ?_, rfl⟩⟩ (by simp)
        simp
      | some type =>
        have h := reports_launcher path df { v with valid := true } iconsAvail type
        simp only
        cases hcat : desktopKey df "Categories" with
        | none =>
          obtain ⟨m, hm⟩ := h.grows
          have hadded : ∀ msg, ∃ n ≠ [], (Validation.logError _ msg).error = v.error ++ n := fun msg =>
            ⟨m ++ [msg], by simp, (congrArg (· ++ [msg]) hm).trans (List.append_assoc _ m [msg])⟩
          exact iff_of_true ⟨_, rfl, iff_of_true rfl (hadded _)⟩ (by simp)
        | some category =>
          have htells := tells_checkCategories path h hv before category
          refine Iff.trans htells ⟨fun hc type' category' ht hcat' => ?_, fun hc => hc type category rfl rfl⟩
          obtain rfl := Option.some.inj ht
          obtain rfl := Option.some.inj hcat'
          exact hc

/-- A launcher in which only the semicolon is missing. -/
theorem validateDesktopFile_unterminated : ¬ Tells ⟨true, [], [], []⟩
    (validateDesktopFile [lit "game.png"] '\x00' ⟨[], []⟩ (lit "meta/game.desktop")
      (some (lit "[Desktop Entry]\nType=Application\nExec=game\nName=Game\nComment=A game\nIcon=game.png\nCategories=Game\n"))
      ⟨true, [], [], []⟩) := by
  rintro ⟨r, hr, h⟩
  have hvalid : (validateDesktopFile [lit "game.png"] '\x00' ⟨[], []⟩ (lit "meta/game.desktop")
      (some (lit "[Desktop Entry]\nType=Application\nExec=game\nName=Game\nComment=A game\nIcon=game.png\nCategories=Game\n"))
      ⟨true, [], [], []⟩) = some (true, ⟨true, [lit
        "Desktop file meta/game.desktop has categories, but the list isn't terminated with a ';'"], [], [lit "game.png"]⟩) := by
    decide +kernel
  obtain rfl := Option.some.inj (hvalid.symm.trans hr)
  exact absurd (h.mpr ⟨_, by simp, rfl⟩) (by decide)

end Dbp
