/-
# Calls of the dependency checks

The tree of Debian packages and the tree of DBP packages are built when they
are first needed, and `dbpmgr_depend_cleanup` frees both. The character
table and `lookup_size` are filled in by `dbpmgr_depend_debian_init` alone,
and stay. A DBP tree built before has all characters at place 0, of tables
with no places: with at most 25 packages that have an id it has no table at
all, and with more it is used outside its bounds. So for every sequence of
calls the places used are inside their tables, and the packages of the
server's list are found again, exactly where that does not happen
(`dependCalls_iff`).

To fill in the table, `init_conv_table` clears 256 bytes of its 128. Where
the linker puts `dbp_root` among the bytes behind it, the DBP tree is gone
then, and the next check builds it again. Whether it does is a parameter,
`behind`, of the calls.

What a check answers is in `Dbp.Mgr.Depend`; here is what it does to the
table and the trees. Its loop goes on from an entry that was found, when the
tree is there, and changes nothing more (`debianNext_again`).

Key definitions: `DependLibrary`, `buildDatabaseUses`, `DependCall`, `DependRun`, `Safe`, `Prepared`.
Key theorems: `linesUses_inside`, `dependStep_ready`, `dependCalls_iff`.
-/
import Dbp.Lib.Run
import Dbp.Mgr.Debian
import Dbp.Mgr.Depend
import Mathlib.Algebra.Order.BigOperators.Group.List
import Mathlib.Algebra.Order.Group.Nat

namespace Dbp

open CLib BucketTrie Iterate

open scoped List

/-! ### The DBP packages -/

/-- `struct DBPList`: a package as the server lists it. -/
structure DBPList where
  id : CStr
  version : CStr
  onDesktop : Bool
deriving Repr, DecidableEq

/-- The entry that `build_dbp_database` makes of it. -/
def DBPList.entry (p : DBPList) : DPackage := ⟨p.id, some p.version, none⟩

/-- The library's state, with both trees. -/
structure DependLibrary extends DependState where
  dbpRoot : PackageNode

/-- The state when the process starts. -/
def dependLibraryStart : DependLibrary := ⟨⟨convTableStart, .null⟩, .null⟩

/-- No id is longer than all together. -/
def listDepth (list : List DBPList) : ℕ := (list.map fun p => p.id.length).sum + 1

/-- `build_dbp_database`, of the server's list. -/
def buildDbpDatabase (t : ConvTable) (list : List DBPList) : PackageNode :=
  (list.map DBPList.entry).foldl (packageTreePopulate t (listDepth list)) .null

/-- `dbpmgr_depend_dbp_init`. -/
def dbpmgrDependDbpInit (list : List DBPList) (s : DependLibrary) : DependLibrary :=
  match s.dbpRoot with
  | .null => { s with dbpRoot := buildDbpDatabase s.table list }
  | _ => s

/-- `dbpmgr_depend_dbp_next`. -/
def dbpmgrDependDbpNext (list : List DBPList) (pkgName : CStr) (s : DependLibrary) (prev : List DPackage) :
    Option (DependLibrary × List DPackage) :=
  let s := dbpmgrDependDbpInit list s
  some (s, (match prev with
    | [] => findList s.table pkgName s.dbpRoot
    | _ :: next => next).dropWhile fun e => e.name != pkgName)

/-- `dbpmgr_depend_cleanup`. -/
def dbpmgrDependCleanup (s : DependLibrary) : DependLibrary := { s with debianRoot := .null, dbpRoot := .null }

/-! ### The places used -/

/-- The places that `find_list` uses at the root. -/
def findListUses (t : ConvTable) (pkgName : CStr) (node : PackageNode) : List (ℕ × ℕ) :=
  findUses node (pkgName.map t.treeLookup)

section Build

variable (t : ConvTable) (depth : ℕ)

/-- The places that `package_tree_populate` uses. -/
def populateUses (root : PackageNode) (this : DPackageFields) : List (ℕ × ℕ) :=
  match this.entry with
  | none => []
  | some entry => insertUses (DPackage.path t) 25 t.lookupSize depth root entry 0

/-- The places used in a turn of the loop in `build_database`. -/
def lineUses (s : Build) (tok : CStr) : List (ℕ × ℕ) :=
  if tok = [] then
    match s.installed, s.this with
    | true, some this => populateUses t depth s.root this
    | _, _ => []
  else []

/-- The places used in the loop, and after it. -/
def linesUses : Build → List CStr → List (ℕ × ℕ)
  | s, [] =>
    match s.this with
    | none => []
    | some this => populateUses t depth s.root this
  | s, tok :: db =>
    lineUses t depth s tok ++
      match buildLine t depth s tok with
      | none => []
      | some s => linesUses s db

/-- The places that `build_database` uses. -/
def buildDatabaseUses (status : Option CStr) : List (ℕ × ℕ) :=
  match status with
  | none => []
  | some db => linesUses t (db.length + 1) ⟨.null, none, false⟩ (db.splitOn '\n')

/-- The places that `build_dbp_database` uses. -/
def buildDbpDatabaseUses (list : List DBPList) : List (ℕ × ℕ) :=
  insertAllUses (DPackage.path t) 25 t.lookupSize (listDepth list) .null (list.map DBPList.entry)

end Build

/-- The places that `dbpmgr_depend_debian_init` uses. -/
def debianInitUses (status : Option CStr) (s : DependState) : List (ℕ × ℕ) :=
  match s.debianRoot with
  | .null => buildDatabaseUses initConvTable status
  | _ => []

/-- The places that `dbpmgr_depend_dbp_init` uses. -/
def dbpInitUses (list : List DBPList) (s : DependLibrary) : List (ℕ × ℕ) :=
  match s.dbpRoot with
  | .null => buildDbpDatabaseUses s.table list
  | _ => []

/-! ### Calls -/

/-- A call of the library, with what it reads: the status file, or the server's list. -/
inductive DependCall
  | debianCheck (status : Option CStr) (packageString : Option CStr)
  | dbpCheck (list : List DBPList) (packageString : CStr)
  | cleanup

/-- The name that a check looks for, whatever the default architecture. -/
def dependPkgName (packageString : CStr) : CStr := (dbpmgrDependParse none packageString).pkgName

/-- Whether `dbpmgr_depend_debian_init` clears `dbp_root`, which it does if it fills in the character table and `dbp_root`
is among the 128 bytes behind it. -/
def DependLibrary.clears (behind : Bool) (s : DependLibrary) : Bool :=
  match s.debianRoot with
  | .null => behind
  | _ => false

/-- What a call leaves behind, if it does not crash. -/
def DependLibrary.call (behind : Bool) (s : DependLibrary) : DependCall → Option DependLibrary
  | .debianCheck _ none => some s
  | .debianCheck status (some packageString) =>
    (dbpmgrDependDebianNext status s.toDependState (dependPkgName packageString) []).map fun r =>
      ⟨r.1, if s.clears behind then .null else s.dbpRoot⟩
  | .dbpCheck list packageString => (dbpmgrDependDbpNext list (dependPkgName packageString) s []).map Prod.fst
  | .cleanup => some (dbpmgrDependCleanup s)

/-- The places a call uses, up to its crash if it has one. -/
def DependLibrary.callUses (s : DependLibrary) : DependCall → List (ℕ × ℕ)
  | .debianCheck _ none => []
  | .debianCheck status (some packageString) =>
    debianInitUses status s.toDependState ++
      match dbpmgrDependDebianInit status s.toDependState with
      | none => []
      | some s => findListUses s.table (dependPkgName packageString) s.debianRoot
  | .dbpCheck list packageString =>
    dbpInitUses list s ++ findListUses s.table (dependPkgName packageString) (dbpmgrDependDbpInit list s).dbpRoot
  | .cleanup => []

/-- The list that the DBP tree is built from. -/
def DependLibrary.callFetched (behind : Bool) (s : DependLibrary) (fetched : List DBPList) : DependCall → List DBPList
  | .debianCheck _ none => fetched
  | .debianCheck _ (some _) => if s.clears behind then [] else fetched
  | .dbpCheck list _ =>
    match s.dbpRoot with
    | .null => list
    | _ => fetched
  | .cleanup => []

/-- A run: the library, unless it has crashed; the list that the DBP tree was last built from; the places used so far. -/
structure DependRun where
  library : Option DependLibrary
  fetched : List DBPList
  uses : List (ℕ × ℕ)

namespace DependRun

def start : DependRun := ⟨some dependLibraryStart, [], []⟩

def step (behind : Bool) (r : DependRun) (c : DependCall) : DependRun :=
  match r.library with
  | none => r
  | some s => ⟨s.call behind c, s.callFetched behind r.fetched c, r.uses ++ s.callUses c⟩

/-- Every place used is one the table has, and every package of the list is found again, whatever the server would
list by now. -/
structure Safe (r : DependRun) : Prop where
  inside : ∀ u ∈ r.uses, u.1 < u.2
  found : ∀ s, r.library = some s → ∀ p ∈ r.fetched, ∀ list,
    ∃ seen, p.entry ∈ seen ∧ Yields (dbpmgrDependDbpNext list p.id) s [] seen

/-- A DBP tree is built with the character table filled in, or of at most 25 packages that have an id. -/
def Prepared (r : DependRun) (c : DependCall) : Prop :=
  match r.library, c with
  | some s, .dbpCheck list _ =>
    s.dbpRoot = .null → s.table.lookupSize ≠ 0 ∨ (list.filter fun p => p.id ≠ []).length ≤ 25
  | _, _ => True

end DependRun

/-- A check's loop goes on from an entry without changing the state, the tree being there. -/
theorem debianNext_again {status : Option CStr} {s : DependState} (h : s.debianRoot ≠ .null) (pkgName : CStr) (e : DPackage)
    (next : List DPackage) : dbpmgrDependDebianNext status s pkgName (e :: next) =
      some (s, next.dropWhile fun e => e.name != pkgName) := by
  rw [dbpmgrDependDebianNext, dbpmgrDependDebianInit_built h]
  rfl

/-! ### Inside the tables -/

theorem treeLookup_lt (c : Char) : initConvTable.treeLookup c < 40 := by
  unfold ConvTable.treeLookup initConvTable
  dsimp only
  split_ifs <;> omega

theorem path_lt {pkgName : CStr} {i : ℕ} (h : i ∈ pkgName.map initConvTable.treeLookup) : i < 40 := by
  obtain ⟨c, -, rfl⟩ := List.mem_map.mp h
  exact treeLookup_lt c

/-- A place of a name in a table of 40. -/
theorem use_inside {u : ℕ × ℕ} (h : (∃ x : DPackage, u.1 ∈ x.path initConvTable) ∧ u.2 = 40) : u.1 < u.2 := by
  obtain ⟨⟨x, hx⟩, hu⟩ := h
  rw [hu]
  exact path_lt hx

theorem findListUses_inside {node : PackageNode} (h : Sized 40 node) (pkgName : CStr) :
    ∀ u ∈ findListUses initConvTable pkgName node, u.1 < u.2 := by
  intro u hu
  have hs := findUses_sized h _ u hu
  rw [hs.2]
  exact path_lt hs.1

section Build

variable (depth : ℕ)

theorem populateFields_inside {root : PackageNode} (h : Sized 40 root) (this : DPackageFields) :
    (∀ u ∈ populateUses initConvTable depth root this, u.1 < u.2) ∧
      ∀ root', populateFields initConvTable depth root this = some root' → Sized 40 root' := by
  unfold populateUses populateFields
  cases this.entry with
  | none => exact ⟨fun _ hu => (nomatch hu), fun _ hr => (nomatch hr)⟩
  | some entry =>
    have hstep : InsertSized (DPackage.path initConvTable) 40
        (fun n a => BucketTrie.insert (DPackage.path initConvTable) 25 40 depth n a 0)
        fun n a => insertUses (DPackage.path initConvTable) 25 40 depth n a 0 := insert_sized depth 0
    have hs := hstep root entry h
    refine ⟨fun u hu => use_inside (hs.2 u hu), fun root' hr => ?_⟩
    rw [← Option.some.inj hr]
    exact hs.1

theorem buildLine_inside {s : Build} (h : Sized 40 s.root) (tok : CStr) :
    (∀ u ∈ lineUses initConvTable depth s tok, u.1 < u.2) ∧
      ∀ s', buildLine initConvTable depth s tok = some s' → Sized 40 s'.root := by
  -- a line that puts nothing into the tree
  have hkeep : ∀ {this installed s'}, some (Build.mk s.root this installed) = some s' → Sized 40 s'.root := by
    intro this installed s' hs
    rw [← Option.some.inj hs]
    exact h
  unfold lineUses buildLine
  split_ifs with htok
  · cases hi : s.installed with
    | false => exact ⟨fun _ hu => (nomatch hu), fun _ => hkeep⟩
    | true =>
      cases ht : s.this with
      | none => exact ⟨fun _ hu => (nomatch hu), fun _ => hkeep⟩
      | some this =>
        have hp := populateFields_inside depth h this
        refine ⟨hp.1, fun s' hs => ?_⟩
        obtain ⟨root', hroot', rfl⟩ := Option.map_eq_some_iff.mp hs
        exact hp.2 root' hroot'
  · exact ⟨fun _ hu => (nomatch hu), fun _ => hkeep⟩

theorem linesUses_inside : ∀ (db : List CStr) {s : Build}, Sized 40 s.root →
    (∀ u ∈ linesUses initConvTable depth s db, u.1 < u.2) ∧
      ∀ root, db.foldlM (buildLine initConvTable depth) s >>= buildEnd initConvTable depth = some root → Sized 40 root
  | [], s, h => by
    unfold linesUses
    rw [List.foldlM_nil, pure_bind, buildEnd]
    cases s.this with
    | none =>
      refine ⟨fun _ hu => (nomatch hu), fun root hr => ?_⟩
      rw [← Option.some.inj hr]
      exact h
    | some this => exact populateFields_inside depth h this
  | tok :: db, s, h => by
    have hline := buildLine_inside depth h tok
    rw [List.foldlM_cons, linesUses]
    cases hl : buildLine initConvTable depth s tok with
    | none =>
      refine ⟨fun u hu => hline.1 u ?_, fun _ hr => (nomatch hr)⟩
      simpa using hu
    | some s' =>
      have ih := linesUses_inside db (hline.2 s' hl)
      refine ⟨fun u hu => ?_, ih.2⟩
      exact (List.mem_append.mp hu).elim (hline.1 u) (ih.1 u)

end Build

/-- The Debian tree has tables of 40 places, and is built inside them. -/
theorem buildDatabase_inside (status : Option CStr) : (∀ u ∈ buildDatabaseUses initConvTable status, u.1 < u.2) ∧
    ∀ root, buildDatabase initConvTable status = some root → Sized 40 root := by
  cases status with
  | none =>
    refine ⟨fun _ hu => (nomatch hu), fun root hr => ?_⟩
    rw [← Option.some.inj hr]
    trivial
  | some db => exact linesUses_inside _ _ trivial

/-! ### The DBP tree -/

theorem dbpmgrDependDbpInit_null {list : List DBPList} {s : DependLibrary} (h : s.dbpRoot = .null) :
    dbpmgrDependDbpInit list s = { s with dbpRoot := buildDbpDatabase s.table list } := by
  rw [dbpmgrDependDbpInit, h]

theorem dbpmgrDependDbpInit_built {list : List DBPList} {s : DependLibrary} (h : s.dbpRoot ≠ .null) :
    dbpmgrDependDbpInit list s = s := by
  unfold dbpmgrDependDbpInit
  cases hr : s.dbpRoot with
  | null => exact absurd hr h
  | bucket ends list => rfl
  | table ends slots lookup => rfl

theorem length_lt_listDepth (list : List DBPList) : ∀ e ∈ list.map DBPList.entry, e.name.length < listDepth list := by
  intro e he
  obtain ⟨p, hp, rfl⟩ := List.mem_map.mp he
  apply Nat.lt_succ_of_le
  exact List.le_sum_of_mem (List.mem_map_of_mem hp)

/-- A DBP tree is there once something was listed. -/
theorem buildDbpDatabase_ne_null (t : ConvTable) {list : List DBPList} (h : list ≠ []) : buildDbpDatabase t list ≠ .null := by
  rw [buildDbpDatabase, ← List.dropLast_append_getLast h, List.map_append, List.foldl_append]
  exact insert_ne_null _ _ _ 0

/-- With the table filled in, the DBP tree has tables of 40 places, and is built inside them. -/
theorem buildDbpDatabase_inside (list : List DBPList) :
    (∀ u ∈ buildDbpDatabaseUses initConvTable list, u.1 < u.2) ∧ Sized 40 (buildDbpDatabase initConvTable list) := by
  have hnull : Sized 40 (.null : PackageNode) := trivial
  have hs : Sized 40 (buildDbpDatabase initConvTable list) ∧
      ∀ u ∈ buildDbpDatabaseUses initConvTable list, (∃ x : DPackage, u.1 ∈ x.path initConvTable) ∧ u.2 = 40 :=
    insertAll_sized _ _ hnull
  exact ⟨fun u hu => use_inside (hs.2 u hu), hs.1⟩

/-- The packages with an id are those whose entries go below the root. -/
theorem length_filter_path (t : ConvTable) (list : List DBPList) :
    ((list.map DBPList.entry).filter (DPackage.path t · ≠ [])).length = (list.filter fun p => p.id ≠ []).length := by
  rw [List.filter_map, List.length_map]
  congr 1
  apply List.filter_congr
  intro p _
  apply decide_eq_decide.mpr
  simp [DPackage.path, DBPList.entry]

theorem few_path (t t' : ConvTable) (es : List DPackage) : Node.few (DPackage.path t) es = Node.few (DPackage.path t') es := by
  simp [Node.few, DPackage.path]

section Few

variable {list : List DBPList} (h : (list.filter fun p => p.id ≠ []).length ≤ 25)
include h

theorem buildDbpDatabase_few (t : ConvTable) :
    buildDbpDatabase t list = Node.few (DPackage.path t) (list.map DBPList.entry) ∧ buildDbpDatabaseUses t list = [] :=
  insertAll_few t.lookupSize _ (by rwa [length_filter_path])

/-- A tree of few packages is the same with any character table. -/
theorem buildDbpDatabase_congr (t t' : ConvTable) : buildDbpDatabase t list = buildDbpDatabase t' list := by
  rw [(buildDbpDatabase_few h t).1, (buildDbpDatabase_few h t').1, few_path t t']

end Few

/-- Of more packages, the tree built with the first character table uses a place of a table with none. -/
theorem buildDbpDatabaseUses_outside {list : List DBPList} (h : 25 < (list.filter fun p => p.id ≠ []).length) :
    ∃ u ∈ buildDbpDatabaseUses convTableStart list, ¬ u.1 < u.2 := by
  have hne : buildDbpDatabaseUses convTableStart list ≠ [] :=
    insertAllUses_ne_nil convTableStart.lookupSize _ (by rwa [length_filter_path])
  obtain ⟨u, hu⟩ := List.exists_mem_of_ne_nil _ hne
  have hnull : Sized 0 (.null : PackageNode) := trivial
  have hsize : u.2 = 0 := ((insertAll_sized (listDepth list) (list.map DBPList.entry) hnull).2 u hu).2
  exact ⟨u, hu, by simp [hsize]⟩

/-! ### The invariant -/

/-- The library between calls: the character table as it is at first, or filled in; the Debian tree with tables of 40
places; the DBP tree as the table builds it, of few packages as long as the table is not filled in. -/
structure Ready (s : DependLibrary) (fetched : List DBPList) : Prop where
  table : s.table = convTableStart ∨ s.table = initConvTable
  debian : Sized 40 s.debianRoot
  early : s.table = convTableStart → s.debianRoot = .null ∧ (fetched.filter fun p => p.id ≠ []).length ≤ 25
  dbp : s.dbpRoot = buildDbpDatabase s.table fetched

theorem initConvTable_ne : initConvTable ≠ convTableStart := fun h => absurd (congrArg ConvTable.lookupSize h) (by decide)

section Ready

variable {s : DependLibrary} {fetched : List DBPList} (h : Ready s fetched)
include h

/-- With the table filled in, the tree is the one it builds. -/
theorem Ready.dbp_init : s.dbpRoot = buildDbpDatabase initConvTable fetched := by
  rcases h.table with ht | ht
  · rw [h.dbp, buildDbpDatabase_congr (h.early ht).2 s.table initConvTable]
  · rw [h.dbp, ht]

theorem Ready.dbpUses (pkgName : CStr) : ∀ u ∈ findListUses s.table pkgName s.dbpRoot, u.1 < u.2 := by
  rcases h.table with ht | ht
  · -- no table was made
    have hnone : findListUses s.table pkgName s.dbpRoot = [] := by
      rw [findListUses, h.dbp, (buildDbpDatabase_few (h.early ht).2 s.table).1, findUses_few]
    rw [hnone]
    exact nofun
  · have hsized : Sized 40 s.dbpRoot := by
      rw [h.dbp_init]
      exact (buildDbpDatabase_inside fetched).2
    rw [ht]
    exact findListUses_inside hsized pkgName

/-- Every package of the list is found again. -/
theorem Ready.found {p : DBPList} (hp : p ∈ fetched) (list : List DBPList) :
    ∃ seen, p.entry ∈ seen ∧ Yields (dbpmgrDependDbpNext list p.id) s [] seen := by
  have hroot : s.dbpRoot ≠ .null := by
    rw [h.dbp]
    exact buildDbpDatabase_ne_null s.table (List.ne_nil_of_mem hp)
  have hinit : dbpmgrDependDbpInit list s = s := dbpmgrDependDbpInit_built hroot
  have hfound := findList_populated s.table (length_lt_listDepth fetched) p.id
  refine ⟨(findList s.table p.id s.dbpRoot).filter fun e => e.name == p.id, ?_, ?_⟩
  · rw [h.dbp]
    apply hfound.symm.subset
    exact List.mem_filter.mpr ⟨List.mem_map_of_mem hp, beq_self_eq_true p.id⟩
  · rw [yields_filter (s := s)]
    · intro e l
      rw [dbpmgrDependDbpNext, hinit]
      rfl
    · rw [dbpmgrDependDbpNext, hinit]
      rfl

end Ready

/-! ### Steps -/

/-- `dbpmgr_depend_debian_init` fills in the table, if that was not done, and the tree with it. -/
theorem debianInit_ready {s : DependLibrary} {fetched : List DBPList} (h : Ready s fetched) (behind : Bool)
    (status : Option CStr) : (∀ u ∈ debianInitUses status s.toDependState, u.1 < u.2) ∧
      ∀ d, dbpmgrDependDebianInit status s.toDependState = some d → d.table = initConvTable ∧
        Ready ⟨d, if s.clears behind then .null else s.dbpRoot⟩ (if s.clears behind then [] else fetched) := by
  by_cases hr : s.debianRoot = .null
  · have hb := buildDatabase_inside status
    have huses : debianInitUses status s.toDependState = buildDatabaseUses initConvTable status := by
      rw [debianInitUses, hr]
    have hinit : dbpmgrDependDebianInit status s.toDependState =
        (buildDatabase initConvTable status).map fun root => ⟨initConvTable, root⟩ := by
      rw [dbpmgrDependDebianInit, hr]
    rw [huses, hinit]
    refine ⟨hb.1, fun d hd => ?_⟩
    obtain ⟨root, hroot, rfl⟩ := Option.map_eq_some_iff.mp hd
    refine ⟨rfl, .inr rfl, hb.2 root hroot, fun ht => absurd ht initConvTable_ne, ?_⟩
    cases s.clears behind with
    | true => rfl
    | false => exact h.dbp_init
  · have huses : debianInitUses status s.toDependState = [] := by
      unfold debianInitUses
      cases hs : s.debianRoot with
      | null => exact absurd hs hr
      | bucket ends list => rfl
      | table ends slots lookup => rfl
    have hkeep : s.clears behind = false := by
      unfold DependLibrary.clears
      cases hs : s.debianRoot with
      | null => exact absurd hs hr
      | bucket ends list => rfl
      | table ends slots lookup => rfl
    rw [huses, dbpmgrDependDebianInit_built hr, hkeep]
    refine ⟨fun _ hu => absurd hu List.not_mem_nil, fun d hd => ?_⟩
    rw [← Option.some.inj hd]
    exact ⟨h.table.resolve_left fun ht => hr (h.early ht).1, h⟩

/-- `dbpmgr_depend_dbp_init`, with the table filled in or few packages listed. -/
theorem dbpInit_ready {s : DependLibrary} {fetched list : List DBPList} (h : Ready s fetched)
    (hc : s.dbpRoot = .null → s.table.lookupSize ≠ 0 ∨ (list.filter fun p => p.id ≠ []).length ≤ 25) (behind : Bool)
    (packageString : CStr) : (∀ u ∈ dbpInitUses list s, u.1 < u.2) ∧
      Ready (dbpmgrDependDbpInit list s) (s.callFetched behind fetched (.dbpCheck list packageString)) := by
  by_cases hr : s.dbpRoot = .null
  · have huses : dbpInitUses list s = buildDbpDatabaseUses s.table list := by rw [dbpInitUses, hr]
    have hfetched : s.callFetched behind fetched (.dbpCheck list packageString) = list := by rw [DependLibrary.callFetched, hr]
    rw [huses, hfetched, dbpmgrDependDbpInit_null hr]
    rcases h.table with ht | ht
    · have hfew := (hc hr).resolve_left (by rw [ht]; exact fun hz => hz rfl)
      rw [(buildDbpDatabase_few hfew s.table).2]
      exact ⟨fun _ hu => absurd hu List.not_mem_nil, h.table, h.debian, fun ht => ⟨(h.early ht).1, hfew⟩, rfl⟩
    · rw [ht]
      exact ⟨(buildDbpDatabase_inside list).1, .inr ht, h.debian, fun hs => absurd (ht.symm.trans hs) initConvTable_ne, by rw [ht]⟩
  · have hnone : dbpInitUses list s = [] ∧ s.callFetched behind fetched (.dbpCheck list packageString) = fetched := by
      unfold dbpInitUses DependLibrary.callFetched
      cases hs : s.dbpRoot with
      | null => exact absurd hs hr
      | bucket ends list => exact ⟨rfl, rfl⟩
      | table ends slots lookup => exact ⟨rfl, rfl⟩
    rw [hnone.1, hnone.2, dbpmgrDependDbpInit_built hr]
    exact ⟨nofun, h⟩

/-- A call that meets the condition keeps the invariant, and its places are inside their tables. -/
theorem call_ready {s : DependLibrary} {fetched : List DBPList} (h : Ready s fetched) (behind : Bool) (c : DependCall)
    (hc : ∀ list packageString, c = .dbpCheck list packageString → s.dbpRoot = .null →
      s.table.lookupSize ≠ 0 ∨ (list.filter fun p => p.id ≠ []).length ≤ 25) :
    (∀ u ∈ s.callUses c, u.1 < u.2) ∧ ∀ s', s.call behind c = some s' → Ready s' (s.callFetched behind fetched c) := by
  cases c with
  | debianCheck status packageString =>
    cases packageString with
    | none =>
      refine ⟨nofun, fun s' hs => ?_⟩
      rw [← Option.some.inj hs]
      exact h
    | some packageString =>
      have hinit := debianInit_ready h behind status
      unfold DependLibrary.callUses DependLibrary.call dbpmgrDependDebianNext
      dsimp only
      cases hd : dbpmgrDependDebianInit status s.toDependState with
      | none => exact ⟨by simpa using hinit.1, nofun⟩
      | some d =>
        obtain ⟨ht, hready⟩ := hinit.2 d hd
        refine ⟨fun u hu => ?_, fun s' hs => ?_⟩
        · rcases List.mem_append.mp hu with hu | hu
          · exact hinit.1 u hu
          · have hfind : u ∈ findListUses d.table (dependPkgName packageString) d.debianRoot := hu
            rw [ht] at hfind
            exact findListUses_inside hready.debian _ u hfind
        · rw [← Option.some.inj hs]
          exact hready
  | dbpCheck list packageString =>
    have hinit := dbpInit_ready h (hc list packageString rfl) behind packageString
    have htable : (dbpmgrDependDbpInit list s).table = s.table := by
      unfold dbpmgrDependDbpInit
      split <;> rfl
    refine ⟨fun u hu => ?_, fun s' hs => ?_⟩
    · rcases List.mem_append.mp hu with hu | hu
      · exact hinit.1 u hu
      · rw [← htable] at hu
        exact hinit.2.dbpUses _ u hu
    · rw [← Option.some.inj hs]
      exact hinit.2
  | cleanup =>
    refine ⟨nofun, fun s' hs => ?_⟩
    rw [← Option.some.inj hs]
    exact ⟨h.table, trivial, fun _ => ⟨rfl, by simp [DependLibrary.callFetched]⟩, rfl⟩

namespace DependRun

/-- The invariant of a run. -/
def Inv (r : DependRun) : Prop := (∀ u ∈ r.uses, u.1 < u.2) ∧ ∀ s, r.library = some s → Ready s r.fetched

theorem inv_start : Inv start := by
  refine ⟨nofun, fun s hs => ?_⟩
  rw [← Option.some.inj hs]
  exact ⟨.inl rfl, trivial, fun _ => ⟨rfl, Nat.zero_le 25⟩, rfl⟩

theorem Inv.safe {r : DependRun} (h : Inv r) : Safe r := ⟨h.1, fun s hs _ hp list => (h.2 s hs).found hp list⟩

theorem Inv.step {r : DependRun} (h : Inv r) (behind : Bool) {c : DependCall} (hc : Prepared r c) :
    Inv (r.step behind c) := by
  unfold DependRun.step
  cases hl : r.library with
  | none => exact h
  | some s =>
    have hcall := call_ready (h.2 s hl) behind c fun list packageString hcs => by
      unfold Prepared at hc
      rw [hl, hcs] at hc
      exact hc
    refine ⟨fun u hu => ?_, hcall.2⟩
    exact (List.mem_append.mp hu).elim (h.1 u) (hcall.1 u)

/-- A call that does not meet its condition uses a place of a table that has none. -/
theorem prepared_of_safe {r : DependRun} (h : Inv r) {behind : Bool} {c : DependCall} (hs : Safe (r.step behind c)) :
    Prepared r c := by
  unfold Prepared
  cases hl : r.library with
  | none => trivial
  | some s =>
    cases c with
    | debianCheck status packageString => trivial
    | cleanup => trivial
    | dbpCheck list packageString =>
      intro hr
      by_contra hne
      obtain ⟨hzero, hmany⟩ := not_or.mp hne
      -- the table is as it is at first
      have ht : s.table = convTableStart := by
        apply (h.2 s hl).table.resolve_right
        intro ht
        exact hzero (by rw [ht]; decide)
      obtain ⟨u, hu, hout⟩ := buildDbpDatabaseUses_outside (Nat.lt_of_not_le hmany)
      apply hout
      apply hs.inside u
      have huses : (r.step behind (.dbpCheck list packageString)).uses = r.uses ++ s.callUses (.dbpCheck list packageString) := by
        rw [DependRun.step, hl]
      rw [huses, DependLibrary.callUses, dbpInitUses, hr, ht]
      exact List.mem_append_right _ (List.mem_append_left _ hu)

end DependRun

/-- **Lookup tables are used inside their bounds**, and the packages of the server's list found again, all along a
sequence of calls from the start of the process, exactly where every DBP tree is built with the character table filled
in or of at most 25 packages that have an id. -/
theorem dependCalls_iff (behind : Bool) (calls : List DependCall) :
    (∀ pre, pre <+: calls → DependRun.Safe (pre.foldl (DependRun.step behind) DependRun.start)) ↔
      Runs.Admissible (DependRun.step behind) DependRun.Prepared DependRun.start calls :=
  Runs.run_iff_of calls DependRun.start
    (fun _ _ _ h => ⟨DependRun.prepared_of_safe h, fun hc => (h.step behind hc).safe⟩)
    (fun _ _ _ h hc => h.step behind hc) DependRun.inv_start DependRun.inv_start.safe

/-- A first check against 26 registered packages. -/
theorem dependCalls_dbp_first : ¬ DependRun.Safe (DependRun.start.step true
    (.dbpCheck ((List.range 26).map fun i => ⟨[Char.ofNat (97 + i)], lit "1", false⟩) (lit "a"))) := by
  intro h
  exact absurd (h.inside (0, 0) (by decide)) (by decide)

end Dbp
