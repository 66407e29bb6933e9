/-
# Dependencies on registered packages

From the registry of the daemon to the answer of a dependency check: the
daemon lists its packages, the library puts what it is sent into its tree,
and a check looks up the name of the dependency there and compares the
versions of what it finds first. Nothing is lost on the way, and ids are
distinct, so the check says that a dependency is met exactly if a package of
that name and of a fitting version is registered (`dependency_met_iff`).

Key definitions: `dbpPackages`, `Meets`.
Key theorems: `dbpPackages_yields`, `dbpPackages_perm`, `dbpCheck_listed_iff`, `dependency_met_iff`.
-/
import Dbp.Mgr.Server

namespace Dbp

open CLib Sweep Find Runs Iterate

/-! ### What a check finds -/

/-- The package of an entry of the tree. -/
def DPackage.package (e : DPackage) : DBPDependDPackage := ⟨e.name, e.version.getD [], []⟩

/-- The entries that the loop over `dbpmgr_depend_dbp_next` comes to. -/
def dbpEntries (list : List DBPList) (s : DependLibrary) (pkgName : CStr) : List DPackage :=
  (findList s.table pkgName (dbpmgrDependDbpInit list s).dbpRoot).filter fun e => e.name == pkgName

/-- The packages of these entries. -/
def dbpPackages (list : List DBPList) (s : DependLibrary) (pkgName : CStr) : List DBPDependDPackage :=
  (dbpEntries list s pkgName).map DPackage.package

section Found

variable (list : List DBPList) (s : DependLibrary) (pkgName : CStr)

theorem table_dbpInit : (dbpmgrDependDbpInit list s).table = s.table := by
  unfold dbpmgrDependDbpInit
  split <;> rfl

/-- The tree is built once, if there is anything to build it of. -/
theorem dbpInit_twice : dbpmgrDependDbpInit list (dbpmgrDependDbpInit list s) = dbpmgrDependDbpInit list s := by
  by_cases h : (dbpmgrDependDbpInit list s).dbpRoot = .null
  · have hroot : s.dbpRoot = .null := by
      by_contra hne
      rw [dbpmgrDependDbpInit_built hne] at h
      exact hne h
    have htree : buildDbpDatabase s.table list = .null := by rwa [dbpmgrDependDbpInit_null hroot] at h
    rw [dbpmgrDependDbpInit_null hroot, htree, dbpmgrDependDbpInit_null rfl]
    exact congrArg (fun root => { s with dbpRoot := root }) htree
  · exact dbpmgrDependDbpInit_built h

/-- The loop comes to these entries, and ends. -/
theorem dbpPackages_yields (es : List DPackage) : Yields (dbpmgrDependDbpNext list pkgName) s [] es ↔
    es = dbpEntries list s pkgName := by
  rw [dbpEntries, yields_filter (s := dbpmgrDependDbpInit list s)]
  · intro e l
    rw [dbpmgrDependDbpNext, dbpInit_twice]
    rfl
  · rw [dbpmgrDependDbpNext, ← table_dbpInit list s]
    rfl

/-- They are the packages of the name that are listed, in some order. -/
theorem dbpPackages_perm (h : s.dbpRoot = .null) :
    (dbpPackages list s pkgName).Perm ((list.filter fun p => p.id == pkgName).map fun p => ⟨p.id, p.version, []⟩) := by
  have hperm := (findList_populated s.table (length_lt_listDepth list) pkgName).map DPackage.package
  have hlist : ((list.map DBPList.entry).filter fun e => e.name == pkgName).map DPackage.package =
      (list.filter fun p => p.id == pkgName).map fun p => ⟨p.id, p.version, []⟩ := by
    rw [List.filter_map, List.map_map]
    rfl
  rw [hlist] at hperm
  rw [dbpPackages, dbpEntries, dbpmgrDependDbpInit_null h]
  exact hperm

end Found

/-! ### The check -/

/-- A package of that id and version meets the dependency. -/
def Meets (db : Databases) (packageString : CStr) (id version : CStr) : Prop :=
  id = (dbpmgrDependParse db.defaultArch packageString).pkgName ∧
    (dbpmgrDependParse db.defaultArch packageString).versionOk ⟨id, version, []⟩ = true

instance (db : Databases) (packageString id version : CStr) : Decidable (Meets db packageString id version) :=
  inferInstanceAs (Decidable (_ ∧ _))

/-- A list whose ids are distinct has one package of a name, or none. -/
theorem filter_id {list : List DBPList} (h : (list.map (·.id)).Nodup) (pkgName : CStr) :
    (list.filter fun p => p.id == pkgName) = [] ∧ (∀ p ∈ list, p.id ≠ pkgName) ∨
      ∃ p ∈ list, p.id = pkgName ∧ (∀ q ∈ list, q.id = pkgName → q = p) ∧ (list.filter fun p => p.id == pkgName) = [p] := by
  by_cases hex : ∃ p ∈ list, p.id = pkgName
  · obtain ⟨p, hp, rfl⟩ := hex
    have huniq : ∀ q ∈ list, q.id = p.id → q = p := fun q hq he => List.inj_on_of_nodup_map h hq hp he
    refine .inr ⟨p, hp, rfl, huniq, ?_⟩
    obtain ⟨pre, post, rfl⟩ := List.append_of_mem hp
    have hrest := (nodup_rest rfl h).1
    have hnone : ∀ l : List DBPList, (∀ q ∈ l, q.id ≠ p.id) → (l.filter fun q => q.id == p.id) = [] := by
      intro l hl
      simpa using hl
    rw [List.filter_append, List.filter_cons_of_pos (by simp), hnone pre fun q hq => hrest q (List.mem_append_left _ hq),
      hnone post fun q hq => hrest q (List.mem_append_right _ hq), List.nil_append]
  · push Not at hex
    exact .inl ⟨by simpa using hex, hex⟩

/-- With distinct ids, it is the package of the name that decides. -/
theorem dbpCheck_listed_iff {list : List DBPList} (h : (list.map (·.id)).Nodup) {s : DependLibrary}
    (hs : s.dbpRoot = .null) (db : Databases) (packageString : CStr) :
    dbpmgrDependDbpCheck { db with dbpNext := dbpPackages list s } packageString = true ↔
      ∃ p ∈ list, Meets db packageString p.id p.version := by
  have hperm := dbpPackages_perm list s (dbpmgrDependParse db.defaultArch packageString).pkgName hs
  unfold dbpmgrDependDbpCheck Meets
  dsimp only
  rcases filter_id h (dbpmgrDependParse db.defaultArch packageString).pkgName with ⟨hnone, hno⟩ | ⟨p, hp, hid, huniq, hone⟩
  · rw [hnone, List.map_nil] at hperm
    rw [hperm.eq_nil]
    simp only [List.head?_nil, Bool.false_eq_true, false_iff, not_exists, not_and]
    exact fun p hp he => absurd he (hno p hp)
  · rw [hone, List.map_singleton] at hperm
    rw [List.perm_singleton.mp hperm]
    simp only [List.head?_cons]
    constructor
    · exact fun hok => ⟨p, hp, hid, hok⟩
    · rintro ⟨q, hq, hqid, hok⟩
      rwa [huniq q hq hqid] at hok

/-! ### The registry -/

/-- The ids of the list are those of the registry, but `!`. -/
theorem nodup_listed (cfg : DBPConfig) (sv : ServerEnv) {d : Daemon} (hnd : d.ids.Nodup) (h : sv.reply = .answered) :
    (((dbpmgrServerPackageList cfg sv d).1.map (·.toDBPList)).map (·.id)).Nodup := by
  rw [packageList_eq cfg sv d h, List.map_reverse, List.map_reverse, List.nodup_reverse, List.map_map, List.map_map]
  have hsub : ((d.p.entry.filter (·.id ≠ lit "!")).map (·.id)).Sublist d.ids := List.filter_sublist.map _
  exact hnd.sublist hsub

/-- **A dependency is met exactly if a package that meets it is registered**, in every state of the daemon and of the
library, if the list that the check begins with arrives; and the check stays inside its tables. -/
theorem dependency_met_iff (cfg : DBPConfig) (icons desktops execs : Dir) (ops : List DaemonOp) (sv : ServerEnv)
    (hreply : sv.reply = .answered) (behind : Bool) (calls : List DependCall) (db : Databases) (packageString : CStr)
    (lib : DependLibrary) (hlib : (calls.foldl (DependRun.step behind) DependRun.start).library = some lib)
    (hnull : lib.dbpRoot = .null) :
    let d := (Daemon.init icons desktops execs).run cfg ops
    let list := (dbpmgrServerPackageList cfg sv d).1.map (·.toDBPList)
    let db' := { db with dbpNext := dbpPackages list lib }
    Admissible (DependRun.step behind) DependRun.Prepared DependRun.start (calls ++ [.dbpCheck list packageString]) →
      (∀ u ∈ lib.callUses (.dbpCheck list packageString), u.1 < u.2) ∧
        (dbpmgrDependDbpCheck db' packageString = true ↔
          ∃ x ∈ d.p.entry, x.id ≠ lit "!" ∧ Meets db packageString x.id x.version) := by
  intro d list db' hadm
  have hstart : (Daemon.init icons desktops execs).ids.Nodup := List.nodup_nil
  have hnd : d.ids.Nodup := nodup_ids_run cfg hstart ops
  obtain ⟨hcalls, hprepared, -⟩ := (admissible_append DependRun.start calls [.dbpCheck list packageString]).mp hadm
  have hinv : (calls.foldl (DependRun.step behind) DependRun.start).Inv :=
    @run_history _ _ (DependRun.step behind) DependRun.Prepared (fun _ r => r.Inv) _ DependRun.inv_start
      (fun _ _ _ hr hok => hr.step behind hok) calls hcalls
  refine ⟨?_, ?_⟩
  · refine (call_ready (hinv.2 lib hlib) behind (.dbpCheck list packageString) fun l str he hroot => ?_).1
    unfold DependRun.Prepared at hprepared
    rw [hlib] at hprepared
    obtain ⟨rfl, rfl⟩ := DependCall.dbpCheck.inj he
    exact hprepared hroot
  · rw [dbpCheck_listed_iff (nodup_listed cfg sv hnd hreply) hnull db packageString]
    have hlist : list = ((d.p.entry.filter (·.id ≠ lit "!")).map (·.row.listed.toDBPList)).reverse := by
      rw [← List.map_reverse]
      show (dbpmgrServerPackageList cfg sv d).1.map (·.toDBPList) = _
      rw [packageList_eq cfg sv d hreply, List.map_reverse, List.map_map, List.map_reverse]
      rfl
    rw [show (dbpmgrServerPackageList cfg sv d).1.map (·.toDBPList) = list from rfl, hlist]
    constructor
    · rintro ⟨p, hp, hmeets⟩
      obtain ⟨x, hx, rfl⟩ := List.mem_map.mp (List.mem_reverse.mp hp)
      obtain ⟨hmem, hne⟩ := List.mem_filter.mp hx
      exact ⟨x, hmem, by simpa using hne, hmeets⟩
    · rintro ⟨x, hx, hne, hmeets⟩
      have hmem : x ∈ d.p.entry.filter (·.id ≠ lit "!") := List.mem_filter.mpr ⟨hx, by simpa using hne⟩
      exact ⟨x.row.listed.toDBPList, List.mem_reverse.mpr (List.mem_map_of_mem hmem), hmeets⟩

/-- A check in a new process, for a package that is registered. -/
theorem dependency_met_iff_demo :
    let env := demoEnv [(lit "/m/a.dbp", [demoMeta (lit "a")])]
    let d := (Daemon.init [] [] []).run demoConfig [.registerPath env (lit "/dev/sda1") (lit "/m/a.dbp") (lit "/m")]
    let sv : ServerEnv := ⟨.answered, [], ⟨0, 0, env, ([], [])⟩⟩
    let list := (dbpmgrServerPackageList demoConfig sv d).1.map (·.toDBPList)
    dbpmgrDependDbpCheck ⟨fun _ => [], dbpPackages list dependLibraryStart, none⟩ (lit "a") = true := by
  intro env d sv list
  have hiff := (dependency_met_iff demoConfig [] [] [] [.registerPath env (lit "/dev/sda1") (lit "/m/a.dbp") (lit "/m")] sv rfl true []
    ⟨fun _ => [], fun _ => [], none⟩ (lit "a") dependLibraryStart rfl rfl ?_).2
  · rw [hiff]
    decide +kernel
  · refine ⟨fun _ => .inr ?_, trivial⟩
    decide +kernel

end Dbp
