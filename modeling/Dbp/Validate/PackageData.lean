/-
# The validator of package trees

`dbp-validate-extracted` reads `meta/default.desktop` of an extracted package,
checks its `[Package Entry]`, lists the icons and the launchers of the tree,
and goes through the launchers (`validateDesktopFile`). It ends with status 1
if there is an error among its messages.

Each of its checks adds errors exactly if what it looks at is wrong
(`AddsUnless`), or, for the categories of a launcher, does not come to its
end (`AddsOrStops`). They compose, so that the program ends with status 0
exactly for trees in which everything is right (`validate_exit_iff`).
Launchers that cannot be opened or have no `[Desktop Entry]` pass, as they
only lead to warnings.

Key definitions: `ExtractedTree`, `directorylistToChecklist`, `validatePackageData`, `validateMain`, `AddsUnless`,
`AddsOrStops`, `TreeOk`.
Key theorems: `adds_desktopFile`, `adds_packageData`, `adds_tree`, `validate_exit_iff`.
-/
import Dbp.Run.ConfigFile
import Dbp.Validate.DesktopFile

namespace Dbp

open CLib

/-! ### Names -/

/-- A character that `_conforms_strict_name_type` accepts. -/
def strictChar (c : Char) : Bool :=
  decide (c.toNat < 128) && (isalpha c || isdigit c || c == '.' || c == '_' || c == '-')

/-- `_conforms_strict_name_type`. -/
def conformsStrictNameType (str : CStr) : Bool := str.head? != some '.' && str != [] && str.all strictChar

/-- `_contains_uppercase`. -/
def containsUppercase (str : CStr) : Bool := str.any isupper

/-! ### The tree -/

/-- `struct CheckList`, without its mark, which nothing reads. -/
structure CheckList where
  name : CStr
  fullName : CStr
deriving Repr, DecidableEq

/-- What the validator finds: the files, and what its memory holds that it does not set. -/
structure ExtractedTree where
  /-- The names in a directory that can be opened. -/
  readDir : CStr → Option (List CStr)
  /-- The contents of a file that can be opened. -/
  readFile : CStr → Option CStr
  /-- What the stack holds in the parser's buffers when it reads `default.desktop`. -/
  stack : ParseBufs
  /-- What it holds when it reads a launcher. -/
  launcherStack : CStr → ParseBufs
  /-- The byte in front of the copy of a launcher's categories. -/
  before : CStr → Char

/-- `checklist_add`. -/
def checklistAdd (str name : CStr) (list : List CheckList) : List CheckList := ⟨name, str⟩ :: list

/-- `checklist_find`. -/
def checklistFind (str : CStr) (list : List CheckList) : Option CheckList := list.find? (·.name == str)

/-- A name that `directorylist_to_checklist` takes. It is the directory's path that is compared with the prefix. -/
def listedName (path : CStr) (pre suffix : Option CStr) (name : CStr) : Bool :=
  name != lit "." && name != lit ".." && pre.all (·.isPrefixOf path) && suffix.all (·.isSuffixOf name)

/-- `directorylist_to_checklist`. -/
def directorylistToChecklist (t : ExtractedTree) (path : CStr) (list : List CheckList) (pre suffix : Option CStr) :
    Bool × List CheckList :=
  match t.readDir path with
  | none => (false, list)
  | some names => (true, (names.filter (listedName path pre suffix)).foldl
      (fun list name => checklistAdd (path ++ lit "/" ++ name) name list) list)

/-! ### The package entry -/

section Checks

variable (df : DesktopFile)

/-- `dbp_desktop_lookup(def, key, NULL, "Package Entry")`. -/
def packageKey (key : String) : Option CStr := dbpDesktopLookup df (lit key) [] (some (lit "Package Entry"))

def checkId (v : Validation) : Validation :=
  match packageKey df "Id" with
  | none => v.logError (lit "default.desktop is missing its 'Id' entry")
  | some id =>
    if !conformsStrictNameType id then v.logError (lit "default.desktop has a package ID specified, but it's invalid")
    else if containsUppercase id then v.logError (lit "default.desktop has a package ID containg upper-case characters")
    else v

def checkPackageIcon (iconsAvail : List CheckList) (v : Validation) : Validation :=
  match packageKey df "Icon" with
  | none => v.logWarning (lit "default.desktop does not have an icon specified in its Package Entry")
  | some icon =>
    let v := { v with iconsUsed := icon :: v.iconsUsed }
    if (checklistFind icon iconsAvail).isNone then
      v.logError (lit "default.desktop has the icon '" ++ icon ++ lit "' specified in its Package Entry, which is missing")
    else v

def checkAppdata (v : Validation) : Validation :=
  match packageKey df "Appdata" with
  | none => v
  | some appdata =>
    if !conformsStrictNameType appdata then
      v.logError (lit "default.desktop has an appdata directory specified, but it contains illegal characters")
    else v

/-- A warning if `c` holds. -/
def Validation.warnIf (v : Validation) (c : Prop) [Decidable c] (msg : CStr) : Validation :=
  if c then v.logWarning msg else v

/-- What `validate_package_data` leaves, and returns. -/
structure PackageData where
  result : Bool
  messages : Validation
  iconsAvail : List CheckList
  desktopFilesToScan : List CheckList

/-- `validate_package_data`. -/
def validatePackageData (t : ExtractedTree) (metaPath : CStr) (v : Validation) : PackageData :=
  let path := metaPath ++ lit "/icons"
  let icons := directorylistToChecklist t path [] none (some (lit ".png"))
  let v := v.warnIf (icons.1 = false) (lit "Icon directory '" ++ path ++ lit "' is missing")
  if (dbpDesktopLookupSection df (some (lit "Package Entry"))).isNone then
    ⟨false, v.logError (lit "default.desktop is missing the [Package Entry] section"), icons.2, []⟩
  else
    let v := checkAppdata df (checkPackageIcon df icons.2 (checkId df v))
    let v := v.warnIf ((dbpDesktopLookupSection df (some (lit "Desktop Entry"))).isNone)
      (lit "default.desktop is lacking a [Desktop Entry], this package will not have a default launch action")
    let files := (directorylistToChecklist t (metaPath ++ lit "/meta") [] none (some (lit ".desktop"))).2
    let v := v.warnIf (icons.2 = []) (lit "No icons found, this is probably not what you want")
    ⟨true, v.warnIf (files = []) (lit "No desktop files found"), icons.2, files⟩

end Checks

/-! ### The program -/

/-- One turn of the loop over the launchers. -/
def launcherTurn (t : ExtractedTree) (iconsAvail : List CheckList) (v : Validation) (next : CheckList) :
    Option Validation :=
  (validateDesktopFile (iconsAvail.map (·.name)) (t.before next.fullName) (t.launcherStack next.fullName) next.fullName
    (t.readFile next.fullName) v).map (·.2)

/-- `_find_unused_icons`. -/
def findUnusedIcons (iconsAvail : List CheckList) (v : Validation) : Validation :=
  iconsAvail.foldl (fun v next => v.warnIf (next.name ∉ v.iconsUsed)
    (lit "Icon file " ++ next.name ++ lit " is present but not used")) v

/-- What `main` does between its arguments and its messages; nothing if a launcher's check has no result. -/
def validateTree (t : ExtractedTree) (metaPath : CStr) (v : Validation) : Option Validation :=
  let path := metaPath ++ lit "/meta/default.desktop"
  match t.readFile path with
  | none => some (v.logError (lit "Missing default.desktop [" ++ path ++ lit "]"))
  | some text =>
    let data := validatePackageData (dbpDesktopParse (cString text) t.stack) t metaPath v
    (data.desktopFilesToScan.foldlM (launcherTurn t data.iconsAvail) data.messages).map (findUnusedIcons data.iconsAvail)

/-- The lines of a kind of messages. -/
def messageLines (kind : String) (msgs : List CStr) : CStr := msgs.flatMap fun msg => lit kind ++ msg ++ lit "\n"

/-- `print_messages`. -/
def printMessages (v : Validation) (notice : List CStr) : CStr :=
  messageLines "ERROR: " v.error ++ messageLines "WARNING: " v.warning ++ messageLines "NOTICE: " notice ++
    if v.error ≠ [] ∨ v.warning ≠ [] ∨ notice ≠ [] then
      formatInt v.error.length ++ lit " errors, " ++ formatInt v.warning.length ++ lit " warnings, " ++
        formatInt notice.length ++ lit " notices\n"
    else []

/-- `main` of `dbp-validate-extracted`, where `usage` is what `usage` prints. -/
def validateMain (usage : CStr) (t : ExtractedTree) : List CStr → Option ProgramRun
  | _ :: metaPath :: rest =>
    (validateTree t metaPath ⟨true, [], [], []⟩).map fun v =>
      let notice := if rest = [] then [lit "No rootfs given, assuming meta-only package"] else []
      ⟨if v.error = [] then 0 else 1, printMessages v notice, []⟩
  | _ => some ⟨1, usage, []⟩

/-! ### Checks that add errors -/

/-- A check for `ok`: it adds errors, or leaves them as they are exactly if `ok` holds. -/
def AddsUnless (ok : Prop) (v v' : Validation) : Prop := ∃ m, v'.error = v.error ++ m ∧ (m = [] ↔ ok)

namespace AddsUnless

variable {p q : Prop} {v v' v'' : Validation}

theorem of_pass (h : p) (he : v'.error = v.error) : AddsUnless p v v' :=
  ⟨[], by rw [he, List.append_nil], iff_of_true rfl h⟩

theorem of_fail (h : ¬ p) (msg : CStr) (he : v'.error = v.error ++ [msg]) : AddsUnless p v v' :=
  ⟨[msg], he, iff_of_false (by simp) h⟩

theorem congr (h : AddsUnless p v v') (hpq : p ↔ q) : AddsUnless q v v' := propext hpq ▸ h

/-- One check after the other. -/
theorem trans (h : AddsUnless p v v') (h' : AddsUnless q v' v'') : AddsUnless (p ∧ q) v v'' := by
  obtain ⟨m, he, hm⟩ := h
  obtain ⟨m', he', hm'⟩ := h'
  exact ⟨m ++ m', by rw [he', he, List.append_assoc], by rw [List.append_eq_nil_iff, hm, hm']⟩

/-- A check before one that adds an error in any case. -/
theorem trans_fail (h : AddsUnless p v v') (hq : ¬ q) (msg : CStr) (he : v''.error = v'.error ++ [msg]) :
    AddsUnless q v v'' :=
  (h.trans (of_fail hq msg he)).congr ⟨fun hpq => hpq.2, fun hq' => absurd hq' hq⟩

theorem of_reports (h : ReportsFault p v v') : AddsUnless p v v' := by
  by_cases hp : p
  · exact of_pass hp (h.pass hp).2
  · obtain ⟨-, m, hm, he⟩ := h.fail hp
    exact ⟨m, he, iff_of_false hm hp⟩

/-- A loop of checks. -/
theorem foldl {α : Type*} {ok : α → Prop} {f : Validation → α → Validation} (h : ∀ x v, AddsUnless (ok x) v (f v x)) :
    ∀ (xs : List α) (v : Validation), AddsUnless (∀ x ∈ xs, ok x) v (xs.foldl f v)
  | [], _ => of_pass (fun _ hx => nomatch hx) rfl
  | x :: xs, v => ((h x v).trans (foldl h xs (f v x))).congr List.forall_mem_cons.symm

end AddsUnless

/-- A check for `ok` that adds errors unless it holds, or does not come to its end. -/
def AddsOrStops (ok : Prop) (v : Validation) : Option Validation → Prop
  | some v' => AddsUnless ok v v'
  | none => ¬ ok

namespace AddsOrStops

variable {p q : Prop} {v v' : Validation} {r : Option Validation}

theorem congr (h : AddsOrStops p v r) (hpq : p ↔ q) : AddsOrStops q v r := propext hpq ▸ h

/-- After a check that comes to its end. -/
theorem after (h : AddsUnless p v v') (h' : AddsOrStops q v' r) : AddsOrStops (p ∧ q) v r := by
  cases r with
  | some v'' => exact h.trans h'
  | none => exact fun hpq => h' hpq.2

/-- One check after the other. -/
theorem bind {f : Validation → Option Validation} (h : AddsOrStops p v r) (h' : ∀ v', AddsOrStops q v' (f v')) :
    AddsOrStops (p ∧ q) v (r.bind f) := by
  cases r with
  | some v' => exact after h (h' v')
  | none => exact fun hpq => h hpq.1

/-- A loop of checks. -/
theorem foldlM {α : Type*} {ok : α → Prop} {f : Validation → α → Option Validation}
    (h : ∀ x v, AddsOrStops (ok x) v (f v x)) :
    ∀ (xs : List α) (v : Validation), AddsOrStops (∀ x ∈ xs, ok x) v (xs.foldlM f v)
  | [], _ => .of_pass (fun _ hx => nomatch hx) rfl
  | x :: xs, v => by
    rw [List.foldlM_cons]
    exact ((h x v).bind (foldlM h xs)).congr List.forall_mem_cons.symm

/-- Something after it that adds no errors. -/
theorem map {f : Validation → Validation} (h : AddsOrStops p v r) (hf : ∀ v, AddsUnless True v (f v)) :
    AddsOrStops p v (r.map f) := by
  cases r with
  | some v' => exact (AddsUnless.trans h (hf v')).congr (and_iff_left trivial)
  | none => exact h

/-- Without errors before, it comes to its end and there are none after it exactly if all is right. -/
theorem ends_iff (h : AddsOrStops p v r) (hv : v.error = []) : (∃ v', r = some v' ∧ v'.error = []) ↔ p := by
  cases r with
  | none => exact iff_of_false (by rintro ⟨_, ⟨⟩, -⟩) h
  | some v' =>
    obtain ⟨m, he, hm⟩ := h
    rw [hv, List.nil_append] at he
    constructor
    · rintro ⟨_, ⟨⟩, herror⟩
      exact hm.mp (he.symm.trans herror)
    · exact fun hp => ⟨v', rfl, he.trans (hm.mpr hp)⟩

end AddsOrStops

theorem error_warnIf (v : Validation) (c : Prop) [Decidable c] (msg : CStr) : (v.warnIf c msg).error = v.error := by
  unfold Validation.warnIf
  split_ifs <;> rfl

/-- A warning before a check. -/
theorem AddsUnless.warn_left {p c : Prop} [Decidable c] {v v' : Validation} {msg : CStr}
    (h : AddsUnless p (v.warnIf c msg) v') : AddsUnless p v v' := by
  rwa [AddsUnless, error_warnIf] at h

/-- A warning after it. -/
theorem AddsUnless.warn_right {p c : Prop} [Decidable c] {v v' : Validation} {msg : CStr} (h : AddsUnless p v v') :
    AddsUnless p v (v'.warnIf c msg) := by
  rwa [AddsUnless, error_warnIf]

/-! ### The trees that pass -/

/-- The names with that suffix in a directory of the tree, as they come. -/
def ExtractedTree.listed (t : ExtractedTree) (path : CStr) (suffix : String) : List CStr :=
  ((t.readDir path).getD []).filter ((lit suffix).isSuffixOf ·)

/-- What `validate_desktop_file` finds right, or cannot look at. -/
def LauncherPasses (iconsAvail : List CStr) (before : Char) (b : ParseBufs) (file : Option CStr) : Prop :=
  ∀ text, file = some text →
    let df := dbpDesktopParse (cString text) b
    (dbpDesktopLookupSection df (some (lit "Desktop Entry"))).isSome →
      ∃ type category, desktopKey df "Type" = some type ∧ desktopKey df "Categories" = some category ∧
        LauncherOk df iconsAvail type ∧ Terminated before category ∧ CategoriesOk none (categoryList before category)

/-- The `[Package Entry]` is right. -/
structure PackageOk (df : DesktopFile) (icons : List CStr) : Prop where
  present : (dbpDesktopLookupSection df (some (lit "Package Entry"))).isSome
  id : ∃ id, packageKey df "Id" = some id ∧ conformsStrictNameType id = true ∧ containsUppercase id = false
  icon : ∀ icon, packageKey df "Icon" = some icon → icon ∈ icons
  appdata : ∀ appdata, packageKey df "Appdata" = some appdata → conformsStrictNameType appdata = true

/-- All of a tree is right: its package entry, and its launchers. -/
def TreeOk (t : ExtractedTree) (metaPath : CStr) : Prop :=
  let icons := t.listed (metaPath ++ lit "/icons") ".png"
  (∃ text, t.readFile (metaPath ++ lit "/meta/default.desktop") = some text ∧
    PackageOk (dbpDesktopParse (cString text) t.stack) icons) ∧
  ∀ name ∈ t.listed (metaPath ++ lit "/meta") ".desktop",
    let path := metaPath ++ lit "/meta" ++ lit "/" ++ name
    LauncherPasses icons (t.before path) (t.launcherStack path) (t.readFile path)

section Lists

variable (t : ExtractedTree) (path : CStr) (suffix : String)

/-- A name with a suffix of more than two characters is none of the two that are left out. -/
theorem listedName_suffix (h : 2 < (lit suffix).length) (name : CStr) :
    listedName path none (some (lit suffix)) name = (lit suffix).isSuffixOf name := by
  have hlong : ∀ dots : CStr, dots.length ≤ 2 → (lit suffix).isSuffixOf name = true → name ≠ dots := by
    rintro dots hd hs rfl
    have hle := (List.isSuffixOf_iff_suffix.mp hs).length_le
    omega
  cases hs : (lit suffix).isSuffixOf name with
  | false => simp [listedName, hs]
  | true => simp [listedName, hs, hlong (lit ".") (by decide) hs, hlong (lit "..") (by decide) hs]

/-- The list is the names in reverse. -/
theorem directorylist_eq (h : 2 < (lit suffix).length) : (directorylistToChecklist t path [] none (some (lit suffix))).2 =
    ((t.listed path suffix).map fun name => ⟨name, path ++ lit "/" ++ name⟩).reverse := by
  have hfold : ∀ (names : List CStr) (list : List CheckList),
      names.foldl (fun list name => checklistAdd (path ++ lit "/" ++ name) name list) list =
        (names.map fun name => (⟨name, path ++ lit "/" ++ name⟩ : CheckList)).reverse ++ list := by
    intro names
    induction names with
    | nil => exact fun _ => rfl
    | cons name names ih =>
      intro list
      rw [List.foldl_cons, ih]
      simp [checklistAdd]
  unfold directorylistToChecklist ExtractedTree.listed
  cases t.readDir path with
  | none => rfl
  | some names =>
    dsimp only [Option.getD_some]
    rw [hfold, List.append_nil, funext (listedName_suffix path suffix h)]

/-- The names on it. -/
theorem mem_directorylist (h : 2 < (lit suffix).length) (name : CStr) :
    name ∈ ((directorylistToChecklist t path [] none (some (lit suffix))).2.map (·.name)) ↔ name ∈ t.listed path suffix := by
  rw [directorylist_eq t path suffix h, List.map_reverse, List.mem_reverse, List.map_map]
  simp

end Lists

theorem checklistFind_isNone (str : CStr) (list : List CheckList) :
    (checklistFind str list).isNone = true ↔ str ∉ list.map (·.name) := by
  simp only [checklistFind, Option.isNone_iff_eq_none, List.find?_eq_none, beq_iff_eq, List.mem_map, not_exists, not_and]

/-! ### What the checks add -/

/-- The category list and what is said of its end. -/
theorem adds_checkCategories (before : Char) (path category : CStr) (v : Validation) :
    AddsOrStops (Terminated before category ∧ CategoriesOk none (categoryList before category)) v
      (checkCategories path before category v) := by
  have hend : AddsUnless (Terminated before category) v (if Terminated before category then v
      else v.logError (aboutFile path (lit " has categories, but the list isn't terminated with a ';'"))) := by
    split_ifs with h
    · exact .of_pass h rfl
    · exact .of_fail h _ rfl
  unfold checkCategories
  refine .after hend ?_
  by_cases hknown : ∀ cat ∈ categoryList before category, KnownCategory cat
  · obtain ⟨v', hv', hcats⟩ := reports_checkCategoriesFrom path _ none _ hknown
    rw [hv']
    exact .of_reports hcats
  · rw [checkCategoriesFrom_unknown path _ none _ hknown]
    exact fun hok => hknown hok.known

theorem adds_desktopFile (iconsAvail : List CStr) (before : Char) (b : ParseBufs) (path : CStr) (file : Option CStr)
    (v : Validation) : AddsOrStops (LauncherPasses iconsAvail before b file) v
      ((validateDesktopFile iconsAvail before b path file v).map (·.2)) := by
  unfold LauncherPasses validateDesktopFile
  cases file with
  | none => exact AddsUnless.of_pass (fun _ h => nomatch h) rfl
  | some text =>
    simp only [Option.some.injEq, forall_eq']
    generalize dbpDesktopParse (cString text) b = df
    cases hsec : dbpDesktopLookupSection df (some (lit "Desktop Entry")) with
    | none => exact AddsUnless.of_pass (fun h => nomatch h) rfl
    | some sec =>
      simp only [Option.isNone_some, Bool.false_eq_true, if_false, Option.isSome_some, forall_const]
      cases htype : desktopKey df "Type" with
      | none => exact AddsUnless.of_fail (by simp) _ rfl
      | some type =>
        have hstart : AddsUnless True v { v with valid := true } := .of_pass trivial rfl
        have hlauncher := hstart.trans (.of_reports (reports_launcher path df { v with valid := true } iconsAvail type))
        simp only
        cases hcat : desktopKey df "Categories" with
        | none => exact hlauncher.trans_fail (by simp) _ rfl
        | some category =>
          have hcats := AddsOrStops.after hlauncher (adds_checkCategories before path category _)
          rw [Option.map_map, show (fun r : Bool × Validation => r.2) ∘ (fun v : Validation => (v.valid, v)) = id from rfl,
            Option.map_id, id]
          refine hcats.congr ⟨?_, ?_⟩
          · rintro ⟨⟨-, hl⟩, ht, hc⟩
            exact ⟨type, category, rfl, rfl, hl, ht, hc⟩
          · rintro ⟨type', category', htype', hcat', hl, ht, hc⟩
            obtain rfl := Option.some.inj htype'
            obtain rfl := Option.some.inj hcat'
            exact ⟨⟨trivial, hl⟩, ht, hc⟩

section Package

variable (df : DesktopFile) (v : Validation)

theorem adds_checkId : AddsUnless
    (∃ id, packageKey df "Id" = some id ∧ conformsStrictNameType id = true ∧ containsUppercase id = false) v
    (checkId df v) := by
  unfold checkId
  cases packageKey df "Id" with
  | none => exact .of_fail (by simp) _ rfl
  | some id =>
    dsimp only
    split_ifs with hname hupper
    · exact .of_fail (by simp_all) _ rfl
    · exact .of_fail (by simp_all) _ rfl
    · exact .of_pass ⟨id, rfl, by simpa using hname, by simpa using hupper⟩ rfl

theorem adds_checkPackageIcon (iconsAvail : List CheckList) :
    AddsUnless (∀ icon, packageKey df "Icon" = some icon → icon ∈ iconsAvail.map (·.name)) v
      (checkPackageIcon df iconsAvail v) := by
  unfold checkPackageIcon
  cases packageKey df "Icon" with
  | none => exact .of_pass (fun _ h => nomatch h) rfl
  | some icon =>
    simp only [Option.some.injEq, forall_eq']
    split_ifs with h
    · exact .of_fail ((checklistFind_isNone icon iconsAvail).mp h) _ rfl
    · exact .of_pass (not_not.mp (mt (checklistFind_isNone icon iconsAvail).mpr h)) rfl

theorem adds_checkAppdata :
    AddsUnless (∀ appdata, packageKey df "Appdata" = some appdata → conformsStrictNameType appdata = true) v
      (checkAppdata df v) := by
  unfold checkAppdata
  cases packageKey df "Appdata" with
  | none => exact .of_pass (fun _ h => nomatch h) rfl
  | some appdata =>
    simp only [Option.some.injEq, forall_eq']
    split_ifs with h
    · exact .of_fail (by simpa using h) _ rfl
    · exact .of_pass (by simpa using h) rfl

end Package

/-- What `validate_package_data` adds, and lists. -/
theorem adds_packageData (df : DesktopFile) (t : ExtractedTree) (metaPath : CStr) (v : Validation) :
    let data := validatePackageData df t metaPath v
    AddsUnless (PackageOk df (t.listed (metaPath ++ lit "/icons") ".png")) v data.messages ∧
      (∀ name, name ∈ data.iconsAvail.map (·.name) ↔ name ∈ t.listed (metaPath ++ lit "/icons") ".png") ∧
        (PackageOk df (t.listed (metaPath ++ lit "/icons") ".png") → data.desktopFilesToScan =
          ((t.listed (metaPath ++ lit "/meta") ".desktop").map fun name =>
            ⟨name, metaPath ++ lit "/meta" ++ lit "/" ++ name⟩).reverse) := by
  have hicons := mem_directorylist t (metaPath ++ lit "/icons") ".png" (by decide)
  have hfiles := directorylist_eq t (metaPath ++ lit "/meta") ".desktop" (by decide)
  unfold validatePackageData
  cases hsec : dbpDesktopLookupSection df (some (lit "Package Entry")) with
  | none =>
    have hno : ¬ PackageOk df (t.listed (metaPath ++ lit "/icons") ".png") := fun h => by simpa [hsec] using h.present
    exact ⟨.warn_left (.of_fail hno _ rfl), hicons, fun h => absurd h hno⟩
  | some sec =>
    simp only [Option.isNone_some, Bool.false_eq_true, if_false]
    refine ⟨.warn_right (.warn_right (.warn_right ?_)), hicons, fun _ => hfiles⟩
    refine AddsUnless.congr
      (.warn_left (((adds_checkId df _).trans (adds_checkPackageIcon df _ _)).trans (adds_checkAppdata df _))) ⟨?_, ?_⟩
    · rintro ⟨⟨hid, hicon⟩, happ⟩
      exact ⟨by rw [hsec]; rfl, hid, fun icon h => (hicons icon).mp (hicon icon h), happ⟩
    · intro h
      exact ⟨⟨h.id, fun icon hi => (hicons icon).mpr (h.icon icon hi)⟩, h.appdata⟩

/-- Launchers pass whatever the order of the icons. -/
theorem launcherPasses_congr {icons icons' : List CStr} (h : ∀ name, name ∈ icons ↔ name ∈ icons')
    (before : Char) (b : ParseBufs) (file : Option CStr) :
    LauncherPasses icons before b file ↔ LauncherPasses icons' before b file := by
  have hok : ∀ df type, LauncherOk df icons type ↔ LauncherOk df icons' type := by
    intro df type
    rw [LauncherOk, LauncherOk, IconOk, IconOk, h]
  simp only [LauncherPasses, hok]

/-- What the validator adds for a tree. -/
theorem adds_tree (t : ExtractedTree) (metaPath : CStr) (v : Validation) :
    AddsOrStops (TreeOk t metaPath) v (validateTree t metaPath v) := by
  unfold TreeOk validateTree
  dsimp only
  cases hfile : t.readFile (metaPath ++ lit "/meta/default.desktop") with
  | none => exact AddsUnless.of_fail (by simp) _ rfl
  | some text =>
    simp only [Option.some.injEq, exists_eq_left']
    generalize dbpDesktopParse (cString text) t.stack = df
    obtain ⟨hdata, hicons, hfiles⟩ := adds_packageData df t metaPath v
    have hlaunchers := AddsOrStops.foldlM (f := launcherTurn t (validatePackageData df t metaPath v).iconsAvail)
      (fun next v => adds_desktopFile _ (t.before next.fullName) (t.launcherStack next.fullName) next.fullName
        (t.readFile next.fullName) v)
      (validatePackageData df t metaPath v).desktopFilesToScan (validatePackageData df t metaPath v).messages
    have hunused : ∀ (icons : List CheckList) (v : Validation), AddsUnless True v (findUnusedIcons icons v) :=
      fun icons v => (@AddsUnless.foldl _ (fun _ => True) _ (fun _ v => .of_pass trivial (error_warnIf v _ _)) icons v).congr
        (iff_true_intro fun _ _ => trivial)
    refine ((AddsOrStops.after hdata hlaunchers).map (hunused _)).congr ?_
    refine and_congr_right fun hpackage => ?_
    rw [hfiles hpackage]
    simp only [List.mem_reverse, List.forall_mem_map, launcherPasses_congr hicons]

/-- The status for a tree. -/
theorem validateMain_tree (usage : CStr) (t : ExtractedTree) (name metaPath : CStr) (rest : List CStr) :
    (∃ r, validateMain usage t (name :: metaPath :: rest) = some r ∧ r.exit = 0) ↔ TreeOk t metaPath := by
  rw [← (adds_tree t metaPath ⟨true, [], [], []⟩).ends_iff rfl]
  simp only [validateMain, Option.map_eq_some_iff]
  constructor
  · rintro ⟨_, ⟨v, hv, rfl⟩, hexit⟩
    refine ⟨v, hv, ?_⟩
    by_contra herror
    simp [herror] at hexit
  · rintro ⟨v, hv, herror⟩
    exact ⟨_, ⟨v, hv, rfl⟩, by simp [herror]⟩

/-- **The validator's status** is 0 exactly if it is given a tree in which everything is right. -/
theorem validate_exit_iff (usage : CStr) (t : ExtractedTree) (argv : List CStr) :
    (∃ r, validateMain usage t argv = some r ∧ r.exit = 0) ↔
      ∃ name metaPath rest, argv = name :: metaPath :: rest ∧ TreeOk t metaPath := by
  rcases argv with _ | ⟨name, _ | ⟨metaPath, rest⟩⟩
  · simp [validateMain]
  · simp [validateMain]
  · rw [validateMain_tree]
    constructor
    · exact fun hok => ⟨name, metaPath, rest, rfl, hok⟩
    · rintro ⟨_, _, _, hargv, hok⟩
      obtain ⟨-, h⟩ := List.cons.inj hargv
      obtain ⟨rfl, -⟩ := List.cons.inj h
      exact hok

end Dbp
