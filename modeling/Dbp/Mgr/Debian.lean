/-
# The database of Debian packages

`libdbpmgr/dependencies.c` reads dpkg's status file once, line by line, and
keeps the packages that are installed in a tree by their names, which
`dbpmgr_depend_debian_next` searches. A pointer to an entry is the list of
the entries from there on, and NULL is the empty list. A package without a
name cannot be put into the tree: the source reads its name, and crashes
(`none`).

Key definitions: `ConvTable`, `packageTreePopulate`, `findList`, `buildLine`, `buildDatabase`,
`dbpmgrDependDebianNext`, `DebianYields`.
Key theorems: `debianYields_iff`.
-/
import Dbp.C.String
import Dbp.Lib.BucketTrie
import Dbp.Lib.Iterate

namespace Dbp

open CLib BucketTrie Iterate

/-! ### The tree -/

/-- `char_to_index` and `lookup_size`. -/
structure ConvTable where
  charToIndex : ℕ → ℕ
  lookupSize : ℕ

/-- The table when the process starts. -/
def convTableStart : ConvTable := ⟨fun _ => 0, 0⟩

/-- `init_conv_table`: letters and digits, then the other characters of package names, numbered from 1 on. -/
def initConvTable : ConvTable where
  charToIndex c :=
    if 97 ≤ c ∧ c ≤ 122 then c - 97 + 1
    else if 48 ≤ c ∧ c ≤ 57 then c - 48 + 27
    else if c = 43 then 37
    else if c = 45 then 38
    else if c = 46 then 39
    else 0
  lookupSize := 40

/-- `TREE_LOOKUP`. -/
def ConvTable.treeLookup (t : ConvTable) (c : Char) : ℕ := t.charToIndex (c.toNat % 128)

/-- `struct DBPDependDPackage` in the tree: its `version` and `arch` may be NULL. -/
structure DPackage where
  name : CStr
  version : Option CStr
  arch : Option CStr
deriving Repr, DecidableEq

/-- `struct DBPDependDPackageNode`, NULL included. -/
abbrev PackageNode := Node ℕ DPackage

/-- The places a name takes in the tables on its way down. -/
def DPackage.path (t : ConvTable) (entry : DPackage) : List ℕ := entry.name.map t.treeLookup

/-- `package_tree_populate` at the root. A list of more than 25 entries is big, and gets a table. -/
def packageTreePopulate (t : ConvTable) (depth : ℕ) (root : PackageNode) (entry : DPackage) : PackageNode :=
  insert (DPackage.path t) 25 t.lookupSize depth root entry 0

/-- `find_list` at the root. -/
def findList (t : ConvTable) (pkgName : CStr) (node : PackageNode) : List DPackage :=
  find node (pkgName.map t.treeLookup)

/-- Entries put into an empty tree are found again: those of a name by a search for it, in some order. -/
theorem findList_populated (t : ConvTable) {depth : ℕ} {es : List DPackage} (h : ∀ e ∈ es, e.name.length < depth) (pkgName : CStr) :
    ((findList t pkgName (es.foldl (packageTreePopulate t depth) .null)).filter fun e => e.name == pkgName).Perm
      (es.filter fun e => e.name == pkgName) := by
  cases es with
  | nil => exact .refl _
  | cons e es =>
    have hpos : 0 < depth := Nat.zero_lt_of_lt (h e (by simp))
    have hlen : ∀ x ∈ e :: es, (x.path t).length ≤ depth - 1 := by
      intro x hx
      rw [DPackage.path, List.length_map]
      exact Nat.le_sub_one_of_lt (h x hx)
    exact find_insertAll hlen (Nat.sub_lt hpos Nat.one_pos) _ _ fun x hx => by rw [DPackage.path, eq_of_beq hx]

/-! ### Reading the status file -/

/-- `struct DBPDependDPackage` as it is filled in: a field that was not read is NULL. -/
structure DPackageFields where
  name : Option CStr
  version : Option CStr
  arch : Option CStr
deriving Repr, DecidableEq

/-- A new entry, as `calloc` leaves it. -/
def DPackageFields.empty : DPackageFields := ⟨none, none, none⟩

/-- The entry with its name, if it has one. -/
def DPackageFields.entry (this : DPackageFields) : Option DPackage :=
  this.name.map fun name => ⟨name, this.version, this.arch⟩

/-- What a line that is not empty sets. -/
def setField (s : DPackageFields × Bool) (tok : CStr) : DPackageFields × Bool :=
  if (lit "Package: ").isPrefixOf tok then ({ s.1 with name := some (tok.drop 9) }, s.2)
  else if (lit "Architecture: ").isPrefixOf tok then ({ s.1 with arch := some (tok.drop 14) }, s.2)
  else if (lit "Version: ").isPrefixOf tok then ({ s.1 with version := some (tok.drop 9) }, s.2)
  else if (lit "Status: ").isPrefixOf tok then (s.1, (strstr (lit "installed") tok).isSome)
  else s

/-- The variables of the loop in `build_database`. -/
structure Build where
  root : PackageNode
  this : Option DPackageFields
  installed : Bool

section Build

variable (t : ConvTable) (depth : ℕ)

/-- `package_tree_populate` of an entry that may have no name. -/
def populateFields (root : PackageNode) (this : DPackageFields) : Option PackageNode :=
  this.entry.map (packageTreePopulate t depth root)

/-- A turn of the loop: an empty line ends the entry, any other line is of the entry. -/
def buildLine (s : Build) (tok : CStr) : Option Build :=
  if tok = [] then
    match s.installed, s.this with
    | true, some this => (populateFields t depth s.root this).map fun root => ⟨root, none, false⟩
    | _, _ => some ⟨s.root, none, false⟩
  else
    let r := setField (s.this.getD .empty, s.installed) tok
    some ⟨s.root, some r.1, r.2⟩

/-- What follows the loop: the entry that no empty line has ended. -/
def buildEnd (s : Build) : Option PackageNode :=
  match s.this with
  | none => some s.root
  | some this => populateFields t depth s.root this

/-- `build_database`, where `status` is the status file, if it can be opened. No name is longer than the file, so
that is depth enough. -/
def buildDatabase (status : Option CStr) : Option PackageNode :=
  match status with
  | none => some .null
  | some db => (db.splitOn '\n').foldlM (buildLine t (db.length + 1)) ⟨.null, none, false⟩ >>= buildEnd t (db.length + 1)

end Build

/-! ### Searching it -/

/-- The library's state between calls. -/
structure DependState where
  table : ConvTable
  debianRoot : PackageNode

/-- `dbpmgr_depend_debian_init`. -/
def dbpmgrDependDebianInit (status : Option CStr) (s : DependState) : Option DependState :=
  match s.debianRoot with
  | .null => (buildDatabase initConvTable status).map fun root => ⟨initConvTable, root⟩
  | _ => some s

theorem dbpmgrDependDebianInit_built {status : Option CStr} {s : DependState} (h : s.debianRoot ≠ .null) :
    dbpmgrDependDebianInit status s = some s := by
  unfold dbpmgrDependDebianInit
  cases hr : s.debianRoot with
  | null => exact absurd hr h
  | bucket ends list => rfl
  | table ends slots lookup => rfl

/-- `dbpmgr_depend_debian_next`. -/
def dbpmgrDependDebianNext (status : Option CStr) (s : DependState) (pkgName : CStr) (prev : List DPackage) :
    Option (DependState × List DPackage) :=
  (dbpmgrDependDebianInit status s).map fun s =>
    (s, (match prev with
      | [] => findList s.table pkgName s.debianRoot
      | _ :: next => next).dropWhile fun e => e.name != pkgName)

/-- The loop `for (pkg = next(name, prev); pkg; pkg = next(name, pkg))` comes to an end, and has seen these entries. -/
abbrev DebianYields (status : Option CStr) (pkgName : CStr) : DependState → List DPackage → List DPackage → Prop :=
  Yields fun s prev => dbpmgrDependDebianNext status s pkgName prev

section Yields

variable {status : Option CStr} {pkgName : CStr}

/-- With the database built, the loop sees the entries of the name in the list that the search comes to. -/
theorem debianYields_built {s s' : DependState} (h : dbpmgrDependDebianInit status s' = some s)
    (hs : dbpmgrDependDebianInit status s = some s) {es : List DPackage} : DebianYields status pkgName s' [] es ↔
      es = (findList s.table pkgName s.debianRoot).filter fun e => e.name == pkgName := by
  apply yields_filter (s := s)
  · intro e l
    rw [dbpmgrDependDebianNext, hs]
    rfl
  · rw [dbpmgrDependDebianNext, h]
    rfl

/-- **What the loop sees**, from NULL and with no database built: the entries of the name in the list that the search
for it comes to, as the status file has them. -/
theorem debianYields_iff (t : ConvTable) (es : List DPackage) :
    DebianYields status pkgName ⟨t, .null⟩ [] es ↔
      ∃ root, buildDatabase initConvTable status = some root ∧
        es = (findList initConvTable pkgName root).filter fun e => e.name == pkgName := by
  cases hb : buildDatabase initConvTable status with
  | none =>
    have hnext : dbpmgrDependDebianNext status ⟨t, .null⟩ pkgName [] = none := by
      simp [dbpmgrDependDebianNext, dbpmgrDependDebianInit, hb]
    constructor
    · exact fun hy => absurd hy (not_yields hnext)
    · rintro ⟨root, h, -⟩
      cases h
  | some root =>
    have hstart : dbpmgrDependDebianInit status ⟨t, .null⟩ = some ⟨initConvTable, root⟩ := by
      simp [dbpmgrDependDebianInit, hb]
    have hinit : dbpmgrDependDebianInit status ⟨initConvTable, root⟩ = some ⟨initConvTable, root⟩ := by
      cases root with
      | null => simp [dbpmgrDependDebianInit, hb]
      | bucket ends list => rfl
      | table ends slots lookup => rfl
    rw [debianYields_built hstart hinit]
    constructor
    · exact fun h => ⟨root, rfl, h⟩
    · rintro ⟨root', h, rfl⟩
      rw [Option.some.inj h]

end Yields

end Dbp
