/-
# The packages in the tree

Whatever is put into the package tree is found again by its name, nothing
lost and nothing twice, in an order that depends on how the nodes have split
(`debianYields_populated`). `dbpmgr_depend_debian_check` looks at the entries
in that order, and the first of the dependency's name with a fitting
architecture decides for all: its versions not meeting the dependency, the
check fails there. So the check says whether an installed package satisfies
the dependency, in whichever order the status file has the packages, exactly
where all candidates meet its versions or none does (`debianCheck_installed_iff`).

Key definitions: `databaseEntries`, `searchedEntries`, `installedDatabases`, `DBPDepend.candidate`.
Key theorems: `debianYields_populated`, `debianNext_installed`, `debianNext_map`, `debianCheck_installed_iff`.
-/
import Dbp.Mgr.Depend
import Dbp.Mgr.Installed
import Mathlib.Data.Fintype.Basic

namespace Dbp

open CLib BucketTrie Iterate

open scoped List

/-! ### Nothing lost, nothing twice -/

/-- The entries that `build_database` puts into the tree, if all have names. -/
def databaseEntries : Option CStr → Option (List DPackage)
  | none => some []
  | some text =>
    if ∀ s ∈ takenStanzas (stanzas text), (stanzaFields s).name.isSome then
      some ((takenStanzas (stanzas text)).filterMap fun s => (stanzaFields s).entry)
    else none

/-- What is in the tree once a search has begun: a tree that is empty is filled from the status file. -/
def searchedEntries (status : Option CStr) : List DPackage → Option (List DPackage)
  | [] => databaseEntries status
  | e :: es => some (e :: es)

/-- The database of a status file has its entries. -/
theorem buildDatabase_entries {status : Option CStr} {entries : List DPackage} (h : databaseEntries status = some entries) :
    ∃ depth, (∀ e ∈ entries, e.name.length < depth) ∧
      ∀ t, buildDatabase t status = some (entries.foldl (packageTreePopulate t depth) .null) := by
  cases status with
  | none =>
    obtain rfl := Option.some.inj h
    exact ⟨0, by simp, fun _ => rfl⟩
  | some text =>
    dsimp only [databaseEntries] at h
    split_ifs at h with hnamed
    obtain rfl := Option.some.inj h
    refine ⟨text.length + 1, fun e he => ?_, fun t => by rw [buildDatabase_eq, if_pos hnamed]⟩
    obtain ⟨s, hs, hse⟩ := List.mem_filterMap.mp he
    exact Nat.lt_succ_of_le (length_name_le ((takenStanzas_sublist _).subset hs) hse)

/-- **The package tree loses and duplicates nothing**: from NULL on, the loop over `dbpmgr_depend_debian_next` ends,
and has seen the entries of the name that were put into the tree, each once. -/
theorem debianYields_populated {status : Option CStr} {es entries : List DPackage} {depth : ℕ}
    (hdepth : ∀ e ∈ es, e.name.length < depth) (h : searchedEntries status es = some entries) (pkgName : CStr) :
    ∃ seen, seen ~ entries.filter (fun e => e.name == pkgName) ∧
      ∀ l, DebianYields status pkgName ⟨initConvTable, es.foldl (packageTreePopulate initConvTable depth) .null⟩ [] l ↔
        l = seen := by
  cases es with
  | nil =>
    obtain ⟨depth, hlen, hb⟩ := buildDatabase_entries h
    refine ⟨_, findList_populated initConvTable hlen pkgName, fun l => ?_⟩
    rw [List.foldl_nil, debianYields_iff]
    constructor
    · rintro ⟨root, hroot, rfl⟩
      rw [← Option.some.inj ((hb initConvTable).symm.trans hroot)]
    · exact fun hl => ⟨_, hb initConvTable, hl⟩
  | cons e es =>
    obtain rfl := Option.some.inj h
    have hroot : (e :: es).foldl (packageTreePopulate initConvTable depth) .null ≠ .null := by
      obtain ⟨fuel, rfl⟩ := Nat.exists_eq_add_one_of_ne_zero (Nat.ne_zero_of_lt (hdepth e (by simp)))
      rw [← List.dropLast_append_getLast (List.cons_ne_nil e es), List.foldl_append]
      exact insert_ne_null fuel _ _ 0
    have hinit : dbpmgrDependDebianInit status ⟨initConvTable, (e :: es).foldl (packageTreePopulate initConvTable depth) .null⟩ = _ :=
      dbpmgrDependDebianInit_built hroot
    exact ⟨_, findList_populated initConvTable hdepth pkgName, fun l => debianYields_built hinit hinit⟩

/-- Two versions of a package, between others. -/
theorem debianYields_populated_demo :
    ∃ seen : List DPackage, seen ~ [⟨lit "ab", some (lit "1"), none⟩, ⟨lit "ab", some (lit "2"), none⟩] ∧
      ∀ l, DebianYields none (lit "ab") ⟨initConvTable, [⟨lit "ab", some (lit "1"), none⟩, ⟨lit "a", none, none⟩,
        ⟨lit "ab", some (lit "2"), none⟩].foldl (packageTreePopulate initConvTable 3) .null⟩ [] l ↔ l = seen :=
  @debianYields_populated none [⟨lit "ab", some (lit "1"), none⟩, ⟨lit "a", none, none⟩, ⟨lit "ab", some (lit "2"), none⟩] _ 3
    (by decide) rfl (lit "ab")

/-! ### The first candidate decides -/

/-- A package as it stands in the tree, with its version and its architecture. -/
def DBPDependDPackage.entry (pkg : DBPDependDPackage) : DPackage := ⟨pkg.name, some pkg.version, some pkg.arch⟩

/-- The package of an entry that has both. -/
def DPackage.complete (e : DPackage) : Option DBPDependDPackage :=
  match e.version, e.arch with
  | some version, some arch => some ⟨e.name, version, arch⟩
  | _, _ => none

/-- The databases with these Debian packages put into the tree, one after the other. -/
def installedDatabases (db : Databases) (depth : ℕ) (es : List DBPDependDPackage) : Databases :=
  { db with
    debianNext := fun pkgName =>
      ((findList initConvTable pkgName ((es.map (·.entry)).foldl (packageTreePopulate initConvTable depth) .null)).filter
        fun e => e.name == pkgName).filterMap DPackage.complete }

/-- The package has the dependency's name, and an architecture that fits. -/
def DBPDepend.candidate (dep : DBPDepend) (pkg : DBPDependDPackage) : Bool := pkg.name == dep.pkgName && dep.archOk pkg

theorem filterMap_complete (l : List DBPDependDPackage) : (l.map (·.entry)).filterMap DPackage.complete = l := by
  rw [List.filterMap_map]
  exact List.filterMap_some

section Installed

variable {db : Databases} {depth : ℕ} {es : List DBPDependDPackage} {pkgName : CStr}

/-- Packages in any form: where they stand in the tree depends on their names alone. -/
theorem debianNext_map {β : Type} (f : β → DBPDependDPackage) (l : List β) :
    (installedDatabases db depth (l.map f)).debianNext pkgName =
      ((find (l.foldl (fun n b => BucketTrie.insert (fun b => (f b).name.map initConvTable.treeLookup) 25 40 depth n b 0) .null)
        (pkgName.map initConvTable.treeLookup)).filter fun b => (f b).name == pkgName).map f := by
  have htree : ((l.map f).map (·.entry)).foldl (packageTreePopulate initConvTable depth) .null =
      (l.foldl (fun n b => BucketTrie.insert (fun b => (f b).name.map initConvTable.treeLookup) 25 40 depth n b 0) .null).map
        fun b => (f b).entry := by
    rw [List.map_map]
    exact insertAll_map (fun b => (f b).entry) depth l .null
  unfold installedDatabases findList
  dsimp only
  rw [htree, find_map, List.filter_map, ← filterMap_complete (List.map f _), List.map_map]
  rfl

/-- The loop comes to the packages of the name, in some order. -/
theorem debianNext_perm (h : ∀ pkg ∈ es, pkg.name.length < depth) :
    (installedDatabases db depth es).debianNext pkgName ~ es.filter fun pkg => pkg.name == pkgName := by
  have hlen : ∀ e ∈ es.map (·.entry), e.name.length < depth := List.forall_mem_map.mpr h
  have hperm := (findList_populated initConvTable hlen pkgName).filterMap DPackage.complete
  rwa [List.filter_map, filterMap_complete] at hperm

/-- It is the loop over `dbpmgr_depend_debian_next`, for a status file with these packages. -/
theorem debianNext_installed {status : Option CStr} (h : ∀ pkg ∈ es, pkg.name.length < depth)
    (hstatus : buildDatabase initConvTable status = some ((es.map (·.entry)).foldl (packageTreePopulate initConvTable depth) .null))
    (t : ConvTable) : DebianYields status pkgName ⟨t, .null⟩ []
      (((installedDatabases db depth es).debianNext pkgName).map (·.entry)) := by
  rw [debianYields_iff]
  refine ⟨_, hstatus, ?_⟩
  have hlen : ∀ e ∈ es.map (·.entry), e.name.length < depth := List.forall_mem_map.mpr h
  unfold installedDatabases
  dsimp only
  rw [List.map_filterMap]
  refine Eq.trans (List.filterMap_congr fun e he => ?_) List.filterMap_some
  -- what is found was put in
  have hin := (findList_populated initConvTable hlen pkgName).subset he
  obtain ⟨pkg, -, rfl⟩ := List.mem_map.mp (List.mem_of_mem_filter hin)
  rfl

end Installed

/-- The check, by the first candidate that the loop comes to. -/
theorem dbpmgrDependDebianCheck_eq (db : Databases) (packageString : CStr) : dbpmgrDependDebianCheck db packageString =
    ((db.debianNext (dbpmgrDependParse db.defaultArch packageString).pkgName).find?
      (dbpmgrDependParse db.defaultArch packageString).candidate).any
        (dbpmgrDependParse db.defaultArch packageString).versionOk := by
  unfold dbpmgrDependDebianCheck DBPDepend.candidate
  dsimp only
  cases List.find? _ _ <;> rfl

section Check

variable (db : Databases) {depth : ℕ} {es : List DBPDependDPackage} (packageString : CStr)

/-- Two candidates can change places: the one is found where the other was. -/
theorem exists_perm_first {dep : DBPDepend} {x y : DBPDependDPackage}
    (hx : ((installedDatabases db depth es).debianNext dep.pkgName).find? dep.candidate = some x) (hy : y ∈ es)
    (hcand : dep.candidate y) :
    ∃ es', es' ~ es ∧ ((installedDatabases db depth es').debianNext dep.pkgName).find? dep.candidate = some y := by
  have hofFn : ∀ f : Fin es.length → DBPDependDPackage, List.ofFn f = (List.finRange es.length).map f := fun f => List.ofFn_eq_map
  -- the packages by their places in the list
  have hes : es = (List.finRange es.length).map es.get := by rw [← hofFn, List.ofFn_get]
  rw [hes, debianNext_map, List.find?_map] at hx
  obtain ⟨i, hi, rfl⟩ := Option.map_eq_some_iff.mp hx
  obtain ⟨j, rfl⟩ := List.mem_iff_get.mp hy
  have hcandi : dep.candidate (es.get i) := List.find?_some (p := dep.candidate ∘ es.get) hi
  have hname : ∀ k, dep.candidate (es.get k) → (es.get k).name = dep.pkgName :=
    fun k hk => eq_of_beq (Bool.and_elim_left hk)
  -- the two have the same name, and are both candidates
  have hswap : ∀ k, (es.get (Equiv.swap i j k)).name = (es.get k).name ∧
      dep.candidate (es.get (Equiv.swap i j k)) = dep.candidate (es.get k) := by
    intro k
    by_cases hki : k = i
    · rw [hki, Equiv.swap_apply_left, hname i hcandi, hname j hcand, hcandi, hcand]
      exact ⟨rfl, rfl⟩
    · by_cases hkj : k = j
      · rw [hkj, Equiv.swap_apply_right, hname i hcandi, hname j hcand, hcandi, hcand]
        exact ⟨rfl, rfl⟩
      · rw [Equiv.swap_apply_of_ne_of_ne hki hkj]
        exact ⟨rfl, rfl⟩
  refine ⟨(List.finRange es.length).map (es.get ∘ Equiv.swap i j), ?_, ?_⟩
  · have hperm := (Equiv.swap i j).ofFn_comp_perm es.get
    rwa [hofFn, List.ofFn_get] at hperm
  · have hnames : (fun k => ((es.get ∘ Equiv.swap i j) k).name) = fun k => (es.get k).name := funext fun k => (hswap k).1
    have hcands : dep.candidate ∘ (es.get ∘ Equiv.swap i j) = dep.candidate ∘ es.get := funext fun k => (hswap k).2
    rw [debianNext_map, List.find?_map, hcands]
    simp only [congrFun hnames]
    rw [hi]
    simp

/-- What the search for a name comes to are the packages of that name. -/
theorem mem_debianNext_iff (hdepth : ∀ pkg ∈ es, pkg.name.length < depth) {es' : List DBPDependDPackage} (hperm : es' ~ es)
    {dep : DBPDepend} {pkg : DBPDependDPackage} (hpkg : dep.candidate pkg) :
    pkg ∈ (installedDatabases db depth es').debianNext dep.pkgName ↔ pkg ∈ es := by
  have hlen : ∀ x ∈ es', x.name.length < depth := fun x hx => hdepth x (hperm.subset hx)
  rw [(debianNext_perm hlen).mem_iff, List.mem_filter, hperm.mem_iff]
  exact and_iff_left (Bool.and_elim_left hpkg)

/-- **A Debian dependency is satisfied if and only if some installed package satisfies it**, in whichever order the
packages were put into the tree, exactly where of the candidates all meet the versions or none does. -/
theorem debianCheck_installed_iff (hdepth : ∀ pkg ∈ es, pkg.name.length < depth) :
    (∀ es', es' ~ es → (dbpmgrDependDebianCheck (installedDatabases db depth es') packageString = true ↔
      ∃ pkg ∈ es', (dbpmgrDependParse db.defaultArch packageString).candidate pkg ∧
        (dbpmgrDependParse db.defaultArch packageString).versionOk pkg)) ↔
    (∀ pkg ∈ es, (dbpmgrDependParse db.defaultArch packageString).candidate pkg →
      (dbpmgrDependParse db.defaultArch packageString).versionOk pkg) ∨
    ∀ pkg ∈ es, (dbpmgrDependParse db.defaultArch packageString).candidate pkg →
      ¬ (dbpmgrDependParse db.defaultArch packageString).versionOk pkg := by
  set dep := dbpmgrDependParse db.defaultArch packageString
  have hcheck : ∀ es', dbpmgrDependDebianCheck (installedDatabases db depth es') packageString =
      (((installedDatabases db depth es').debianNext dep.pkgName).find? dep.candidate).any dep.versionOk :=
    fun es' => dbpmgrDependDebianCheck_eq _ _
  constructor
  · intro h
    by_contra hne
    push Not at hne
    obtain ⟨⟨y, hy, hycand, hybad⟩, z, hz, hzcand, hzok⟩ := hne
    -- the first candidate meets the versions, and `y` can take its place
    have htrue := (h es (.refl _)).mpr ⟨z, hz, hzcand, hzok⟩
    rw [hcheck, Option.any_eq_true] at htrue
    obtain ⟨x, hx, -⟩ := htrue
    obtain ⟨es', hperm, hfirst⟩ := exists_perm_first db hx hy hycand
    have hsat := (h es' hperm).mpr ⟨z, hperm.mem_iff.mpr hz, hzcand, hzok⟩
    rw [hcheck, hfirst, Option.any_some] at hsat
    exact hybad hsat
  · intro h es' hperm
    rw [hcheck, Option.any_eq_true]
    constructor
    · rintro ⟨x, hx, hok⟩
      have hcand : dep.candidate x := List.find?_some hx
      have hxes := (mem_debianNext_iff db hdepth hperm hcand).mp (List.mem_of_find?_eq_some hx)
      exact ⟨x, hperm.mem_iff.mpr hxes, hcand, hok⟩
    · rintro ⟨z, hz, hzcand, hzok⟩
      have hz := hperm.mem_iff.mp hz
      have hzmem := (mem_debianNext_iff db hdepth hperm hzcand).mpr hz
      obtain ⟨x, hx⟩ := Option.isSome_iff_exists.mp (List.find?_isSome.mpr ⟨z, hzmem, hzcand⟩)
      have hcand : dep.candidate x := List.find?_some hx
      have hxes := (mem_debianNext_iff db hdepth hperm hcand).mp (List.mem_of_find?_eq_some hx)
      rcases h with hall | hnone
      · exact ⟨x, hx, hall x hxes hcand⟩
      · exact absurd hzok (hnone z hz hzcand)

end Check

/-- Two versions of a package for two architectures, both new enough, in either order. -/
theorem debianCheck_installed_both :
    dbpmgrDependDebianCheck (installedDatabases ⟨fun _ => [], fun _ => [], none⟩ 2
        [⟨lit "x", lit "2", lit "armhf"⟩, ⟨lit "x", lit "3", lit "amd64"⟩]) (lit "x>=2") = true ↔
      ∃ pkg ∈ ([⟨lit "x", lit "2", lit "armhf"⟩, ⟨lit "x", lit "3", lit "amd64"⟩] : List DBPDependDPackage),
        (dbpmgrDependParse none (lit "x>=2")).candidate pkg ∧ (dbpmgrDependParse none (lit "x>=2")).versionOk pkg :=
  have hdepth : ∀ pkg ∈ ([⟨lit "x", lit "3", lit "amd64"⟩, ⟨lit "x", lit "2", lit "armhf"⟩] : List DBPDependDPackage),
      pkg.name.length < 2 := by decide
  (debianCheck_installed_iff ⟨fun _ => [], fun _ => [], none⟩ (lit "x>=2") hdepth).mpr (.inl (by decide)) _ (.swap _ _ _)

/-- With an old version behind a new one, the old one decides. -/
theorem debianCheck_old_decides :
    ¬ (dbpmgrDependDebianCheck (installedDatabases ⟨fun _ => [], fun _ => [], none⟩ 2
        [⟨lit "x", lit "3", lit "amd64"⟩, ⟨lit "x", lit "1", lit "armhf"⟩]) (lit "x>=2") = true ↔
      ∃ pkg ∈ ([⟨lit "x", lit "3", lit "amd64"⟩, ⟨lit "x", lit "1", lit "armhf"⟩] : List DBPDependDPackage),
        (dbpmgrDependParse none (lit "x>=2")).candidate pkg ∧ (dbpmgrDependParse none (lit "x>=2")).versionOk pkg) := by decide

end Dbp
