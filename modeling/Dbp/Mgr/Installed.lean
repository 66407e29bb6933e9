/-
# The installed packages

dpkg's status file has a stanza for each package it knows of, and the third
word of its status says whether the package is installed. `build_database`
looks for `installed` anywhere in the status, which `not-installed` and
`half-installed` have too, and puts the stanza the file ends with into the
tree whatever its status, if no line end follows it. So for a name the loop
over `dbpmgr_depend_debian_next` sees the installed packages exactly where
the stanzas that are taken are installed, and complete (`installed_iff`).

Key definitions: `stanzas`, `stanzaField`, `stanzaState`, `installedStanzas`, `InstalledExactly`,
`takenStanzas`, `TakenInstalled`.
Key theorems: `foldl_setField`, `buildDatabase_eq`, `found_perm`, `installed_iff`.
-/
import Dbp.Mgr.Debian

namespace Dbp

open CLib BucketTrie

open scoped List

/-! ### Stanzas -/

/-- The stanzas of a status text, the lines between its empty lines: some may be empty, and no empty line follows the
last. -/
def stanzas (text : CStr) : List (List CStr) := (text.splitOn '\n').splitOn []

/-- The value a line has for a field. -/
def lineValue (field line : CStr) : Option CStr :=
  if field.isPrefixOf line then some (line.drop field.length) else none

/-- The value of a field of a stanza: the last one, where it is repeated. -/
def stanzaField (field : CStr) (stanza : List CStr) : Option CStr := (stanza.filterMap (lineValue field)).getLast?

/-- What a stanza says of its package. -/
def stanzaFields (stanza : List CStr) : DPackageFields where
  name := stanzaField (lit "Package: ") stanza
  version := stanzaField (lit "Version: ") stanza
  arch := stanzaField (lit "Architecture: ") stanza

/-- The state word, the third of the status. -/
def stanzaState (stanza : List CStr) : Option CStr :=
  (stanzaField (lit "Status: ") stanza).bind fun status => (strtok ' ' status)[2]?

/-- The stanzas of the installed packages of a name. -/
def installedStanzas (text pkgName : CStr) : List (List CStr) :=
  (stanzas text).filter fun s => (stanzaFields s).name = some pkgName ∧ stanzaState s = some (lit "installed")

/-- The loop over `dbpmgr_depend_debian_next` sees the installed packages of the name, each once and in some order,
with their names, architectures and versions. -/
def InstalledExactly (t : ConvTable) (text pkgName : CStr) : Prop :=
  ∃ es, DebianYields (some text) pkgName ⟨t, .null⟩ [] es ∧
    es ~ (installedStanzas text pkgName).filterMap (fun s => (stanzaFields s).entry) ∧
    ∀ e ∈ es, e.arch.isSome ∧ e.version.isSome

/-! ### What is taken -/

/-- The status has `installed` somewhere. -/
def mentionsInstalled (stanza : List CStr) : Bool :=
  (stanzaField (lit "Status: ") stanza).any fun status => (strstr (lit "installed") status).isSome

/-- The stanzas that are put into the tree: those whose status mentions `installed`, and the one the text ends with. -/
def takenStanzas : List (List CStr) → List (List CStr)
  | [] => []
  | [last] => if last = [] then [] else [last]
  | s :: ss => if mentionsInstalled s then s :: takenStanzas ss else takenStanzas ss

/-- All that is taken has a name, and what is taken with this name is installed and complete. -/
def TakenInstalled (text pkgName : CStr) : Prop :=
  ∀ s ∈ takenStanzas (stanzas text), (stanzaFields s).name.isSome ∧
    ((stanzaFields s).name = some pkgName →
      stanzaState s = some (lit "installed") ∧ (stanzaFields s).arch.isSome ∧ (stanzaFields s).version.isSome)

instance (text pkgName : CStr) : Decidable (TakenInstalled text pkgName) := List.decidableBAll _ _

theorem takenStanzas_sublist : ∀ ss : List (List CStr), takenStanzas ss <+ ss
  | [] => .slnil
  | [last] => by
    unfold takenStanzas
    split_ifs
    · exact List.nil_sublist _
    · exact .refl _
  | s :: s' :: ss => by
    unfold takenStanzas
    split_ifs
    · exact (takenStanzas_sublist (s' :: ss)).cons_cons s
    · exact (takenStanzas_sublist (s' :: ss)).cons s

/-- An installed package is taken. -/
theorem mentionsInstalled_of_state {s : List CStr} (h : stanzaState s = some (lit "installed")) : mentionsInstalled s := by
  obtain ⟨status, hs, hw⟩ := Option.bind_eq_some_iff.mp h
  have hmem := List.mem_of_getElem? hw
  have hinfix := infix_of_mem_splitOn (List.mem_of_mem_filter hmem)
  rw [mentionsInstalled, hs]
  exact strstr_isSome_iff.mpr hinfix

/-- So the installed packages are among what is taken. -/
theorem filter_takenStanzas {q : List CStr → Bool} (hq : ∀ s, q s → stanzaState s = some (lit "installed")) :
    ∀ ss : List (List CStr), (takenStanzas ss).filter q = ss.filter q
  | [] => rfl
  | [last] => by
    unfold takenStanzas
    split_ifs with h
    · have hnot : q last = false := Bool.eq_false_iff.mpr fun hl => by
        have := hq last hl
        rw [h] at this
        cases this
      simp [hnot]
    · rfl
  | s :: s' :: ss => by
    unfold takenStanzas
    split_ifs with h
    · rw [List.filter_cons, List.filter_cons, filter_takenStanzas hq (s' :: ss)]
    · have hnot : q s = false := Bool.eq_false_iff.mpr fun hs => h (mentionsInstalled_of_state (hq s hs))
      rw [List.filter_cons_of_neg (by simp [hnot]), filter_takenStanzas hq (s' :: ss)]

/-! ### The loop -/

theorem stanzaField_concat (field : CStr) (b : List CStr) (tok : CStr) :
    stanzaField field (b ++ [tok]) = (lineValue field tok).or (stanzaField field b) := by
  rw [stanzaField, List.filterMap_append, List.getLast?_append]
  cases h : lineValue field tok <;> simp [h, stanzaField]

theorem lineValue_self (field v : CStr) : lineValue field (field ++ v) = some v := by
  simp [lineValue]

/-- A line has no value for a field that begins with another character. -/
theorem lineValue_other {field key : CStr} (h : ∀ c ∈ field.head?, ∀ d ∈ key.head?, c ≠ d) (hf : field ≠ []) (hk : key ≠ [])
    (v : CStr) : lineValue field (key ++ v) = none := by
  obtain ⟨c, field, rfl⟩ := List.exists_cons_of_ne_nil hf
  obtain ⟨d, key, rfl⟩ := List.exists_cons_of_ne_nil hk
  have hcd : c ≠ d := h c rfl d rfl
  simp [lineValue, hcd]

/-- What a line sets, field by field. -/
theorem setField_eq (s : DPackageFields × Bool) (tok : CStr) : setField s tok =
    (⟨(lineValue (lit "Package: ") tok).or s.1.name, (lineValue (lit "Version: ") tok).or s.1.version,
      (lineValue (lit "Architecture: ") tok).or s.1.arch⟩,
      ((lineValue (lit "Status: ") tok).map fun status => (strstr (lit "installed") status).isSome).getD s.2) := by
  unfold setField
  split_ifs with hp ha hv hs
  · obtain ⟨v, rfl⟩ := List.isPrefixOf_iff_prefix.mp hp
    simp (disch := decide) only [lineValue_self, lineValue_other]
    rfl
  · obtain ⟨v, rfl⟩ := List.isPrefixOf_iff_prefix.mp ha
    simp (disch := decide) only [lineValue_self, lineValue_other]
    rfl
  · obtain ⟨v, rfl⟩ := List.isPrefixOf_iff_prefix.mp hv
    simp (disch := decide) only [lineValue_self, lineValue_other]
    rfl
  · obtain ⟨v, rfl⟩ := List.isPrefixOf_iff_prefix.mp hs
    simp (disch := decide) only [lineValue_self, lineValue_other]
    rfl
  · simp [lineValue, hp, ha, hv, hs]

/-- The lines of a stanza fill in its fields, and the flag tells if its status mentions `installed`. -/
theorem foldl_setField (b : List CStr) : b.foldl setField (.empty, false) = (stanzaFields b, mentionsInstalled b) := by
  induction b using List.reverseRecOn with
  | nil => rfl
  | append_singleton b tok ih =>
    rw [List.foldl_append, ih, List.foldl_cons, List.foldl_nil, setField_eq]
    simp only [stanzaFields, mentionsInstalled, stanzaField_concat]
    cases lineValue (lit "Status: ") tok <;> rfl

section Loop

variable (t : ConvTable) (depth : ℕ)

/-- Lines that are not empty are all of one entry. -/
theorem buildLine_foldlM (root : PackageNode) : ∀ {b : List CStr}, [] ∉ b → ∀ (this : Option DPackageFields) (installed : Bool),
    b.foldlM (buildLine t depth) ⟨root, this, installed⟩ =
      some ⟨root, if b = [] then this else some (b.foldl setField (this.getD .empty, installed)).1,
        (b.foldl setField (this.getD .empty, installed)).2⟩
  | [], _, this, installed => rfl
  | tok :: b, h, this, installed => by
    obtain ⟨htok, hb⟩ := not_or.mp fun hor => h (List.mem_cons.mpr hor)
    have hstep : buildLine t depth ⟨root, this, installed⟩ tok =
        some ⟨root, some (setField (this.getD .empty, installed) tok).1, (setField (this.getD .empty, installed) tok).2⟩ := by
      rw [buildLine, if_neg fun htok' => htok htok'.symm]
    rw [List.foldlM_cons, hstep, Option.bind_eq_bind, Option.bind_some, buildLine_foldlM root hb]
    cases b <;> rfl

/-- The lines of a stanza, from its start. -/
theorem buildLine_stanza (root : PackageNode) {s : List CStr} (h : [] ∉ s) :
    s.foldlM (buildLine t depth) ⟨root, none, false⟩ =
      some ⟨root, if s = [] then none else some (stanzaFields s), mentionsInstalled s⟩ := by
  rw [buildLine_foldlM t depth root h, Option.getD_none, foldl_setField]

/-- The whole text: the stanzas that are taken are put into the tree, in order. -/
theorem build_stanzas : ∀ {ss : List (List CStr)}, ss ≠ [] → (∀ s ∈ ss, [] ∉ s) → ∀ root : PackageNode,
    (([[]] : List CStr).intercalate ss).foldlM (buildLine t depth) ⟨root, none, false⟩ >>= buildEnd t depth =
      (takenStanzas ss).foldlM (fun root s => populateFields t depth root (stanzaFields s)) root
  | [last], _, h, root => by
    rw [List.intercalate_singleton, buildLine_stanza t depth root (h last (by simp)), Option.bind_eq_bind, Option.bind_some]
    by_cases hl : last = []
    · simp [takenStanzas, buildEnd, hl]
    · simp [takenStanzas, buildEnd, hl]
  | s :: s' :: ss, _, h, root => by
    obtain ⟨hs, hss⟩ := List.forall_mem_cons.mp h
    have ih := build_stanzas (List.cons_ne_nil s' ss) hss
    rw [List.intercalate_cons_cons, List.append_assoc, List.foldlM_append, buildLine_stanza t depth root hs]
    simp only [Option.bind_eq_bind, Option.bind_some, List.singleton_append, List.foldlM_cons]
    by_cases hm : mentionsInstalled s
    · have hne : s ≠ [] := by rintro rfl; exact absurd hm (by decide)
      simp only [takenStanzas, hm, hne, ↓reduceIte, buildLine, List.foldlM_cons]
      cases populateFields t depth root (stanzaFields s) with
      | none => rfl
      | some root' => exact ih root'
    · simp only [takenStanzas, hm, ↓reduceIte, buildLine]
      exact ih root

/-- Entries are put into the tree as long as they have names. -/
theorem populateFields_foldlM : ∀ (ss : List (List CStr)) (root : PackageNode),
    ss.foldlM (fun root s => populateFields t depth root (stanzaFields s)) root =
      if ∀ s ∈ ss, (stanzaFields s).name.isSome then
        some ((ss.filterMap fun s => (stanzaFields s).entry).foldl (packageTreePopulate t depth) root)
      else none
  | [], root => by simp
  | s :: ss, root => by
    rw [List.foldlM_cons, populateFields]
    cases hn : (stanzaFields s).name with
    | none => simp [DPackageFields.entry, hn]
    | some name =>
      have he : (stanzaFields s).entry = some ⟨name, (stanzaFields s).version, (stanzaFields s).arch⟩ := by
        simp [DPackageFields.entry, hn]
      rw [he, Option.map_some, Option.bind_eq_bind, Option.bind_some, populateFields_foldlM ss]
      simp [hn, he]

end Loop

/-- The database of a status text: without a stanza that has no name, the stanzas that are taken. -/
theorem buildDatabase_eq (t : ConvTable) (text : CStr) : buildDatabase t (some text) =
    if ∀ s ∈ takenStanzas (stanzas text), (stanzaFields s).name.isSome then
      some (((takenStanzas (stanzas text)).filterMap fun s => (stanzaFields s).entry).foldl
        (packageTreePopulate t (text.length + 1)) .null)
    else none := by
  have hlines : text.splitOn '\n' = ([[]] : List CStr).intercalate (stanzas text) :=
    (List.intercalate_splitOn []).symm
  have hss : ∀ s ∈ stanzas text, [] ∉ s := fun s hs => not_mem_of_mem_splitOn hs
  unfold buildDatabase
  dsimp only
  have hne : stanzas text ≠ [] := List.splitOn_ne_nil _ _
  rw [hlines, build_stanzas t _ hne hss, populateFields_foldlM]

/-! ### What is found -/

/-- No name is longer than the text. -/
theorem length_name_le {text : CStr} {s : List CStr} (hs : s ∈ stanzas text) {e : DPackage} (he : (stanzaFields s).entry = some e) :
    e.name.length ≤ text.length := by
  obtain ⟨name, hname, rfl⟩ := Option.map_eq_some_iff.mp he
  obtain ⟨line, hline, hv⟩ := List.mem_filterMap.mp (List.mem_of_getLast? hname)
  unfold lineValue at hv
  split_ifs at hv
  obtain rfl := Option.some.inj hv
  calc (line.drop (lit "Package: ").length).length
      ≤ line.length := by simp
    _ ≤ text.length := (infix_of_mem_splitOn ((infix_of_mem_splitOn hs).mem hline)).length_le

/-- The taken stanzas of a name. -/
def takenNamed (text pkgName : CStr) : List (List CStr) :=
  (takenStanzas (stanzas text)).filter fun s => (stanzaFields s).name = some pkgName

/-- Their entries are the entries of the name. -/
theorem filterMap_takenNamed (text pkgName : CStr) :
    ((takenStanzas (stanzas text)).filterMap fun s => (stanzaFields s).entry).filter (fun e => e.name == pkgName) =
      (takenNamed text pkgName).filterMap fun s => (stanzaFields s).entry := by
  rw [takenNamed, List.filter_filterMap, List.filterMap_filter]
  apply List.filterMap_congr
  intro s _
  unfold DPackageFields.entry
  cases (stanzaFields s).name with
  | none => simp
  | some name => by_cases h : name = pkgName <;> simp [h, Option.filter]

/-- The entries that the search for a name comes to. -/
theorem found_perm (t : ConvTable) (text pkgName : CStr) :
    (findList t pkgName (((takenStanzas (stanzas text)).filterMap fun s => (stanzaFields s).entry).foldl
        (packageTreePopulate t (text.length + 1)) .null)).filter (fun e => e.name == pkgName) ~
      (takenNamed text pkgName).filterMap fun s => (stanzaFields s).entry := by
  rw [← filterMap_takenNamed]
  apply findList_populated t
  intro e he
  obtain ⟨s, hs, hse⟩ := List.mem_filterMap.mp he
  exact Nat.lt_succ_of_le (length_name_le ((takenStanzas_sublist _).subset hs) hse)

/-- What the loop over `dbpmgr_depend_debian_next` sees for a name. -/
theorem debianYields_taken {t : ConvTable} {text pkgName : CStr} {es : List DPackage}
    (h : DebianYields (some text) pkgName ⟨t, .null⟩ [] es) :
    (∀ s ∈ takenStanzas (stanzas text), (stanzaFields s).name.isSome) ∧
      es ~ (takenNamed text pkgName).filterMap fun s => (stanzaFields s).entry := by
  obtain ⟨root, hroot, rfl⟩ := (debianYields_iff t es).mp h
  rw [buildDatabase_eq] at hroot
  split_ifs at hroot with hnamed
  obtain rfl := Option.some.inj hroot
  exact ⟨hnamed, found_perm initConvTable text pkgName⟩

theorem exists_debianYields (t : ConvTable) {text : CStr} (pkgName : CStr)
    (h : ∀ s ∈ takenStanzas (stanzas text), (stanzaFields s).name.isSome) :
    ∃ es, DebianYields (some text) pkgName ⟨t, .null⟩ [] es :=
  ⟨_, (debianYields_iff t _).mpr ⟨_, by rw [buildDatabase_eq, if_pos h], rfl⟩⟩

/-- The installed packages of a name are among the taken stanzas of the name. -/
theorem installedStanzas_eq (text pkgName : CStr) :
    installedStanzas text pkgName = (takenNamed text pkgName).filter fun s => stanzaState s = some (lit "installed") := by
  rw [installedStanzas, ← filter_takenStanzas fun s hs => (of_decide_eq_true hs).2, takenNamed, List.filter_filter]
  apply List.filter_congr
  intro s _
  rw [Bool.decide_and, Bool.and_comm]

/-- The taken stanzas of a name have an entry each. -/
theorem length_filterMap_named {ss : List (List CStr)} (h : ∀ s ∈ ss, (stanzaFields s).name.isSome) :
    (ss.filterMap fun s => (stanzaFields s).entry).length = ss.length := by
  induction ss with
  | nil => rfl
  | cons s ss ih =>
    obtain ⟨hs, hss⟩ := List.forall_mem_cons.mp h
    obtain ⟨name, hname⟩ := Option.isSome_iff_exists.mp hs
    have he : (stanzaFields s).entry = some ⟨name, (stanzaFields s).version, (stanzaFields s).arch⟩ := by
      simp [DPackageFields.entry, hname]
    simp [he, ih hss]

/-- **Installed packages are recognised exactly** where what is taken into the database has a name, and what is taken
with the name asked for is installed and complete. -/
theorem installed_iff (t : ConvTable) (text pkgName : CStr) :
    InstalledExactly t text pkgName ↔ TakenInstalled text pkgName := by
  have hname : ∀ s ∈ takenNamed text pkgName, s ∈ takenStanzas (stanzas text) ∧ (stanzaFields s).name = some pkgName :=
    fun s hs => ⟨List.mem_of_mem_filter hs, of_decide_eq_true (List.mem_filter.mp hs).2⟩
  have hsome : ∀ s ∈ takenNamed text pkgName, (stanzaFields s).name.isSome := fun s hs => by rw [(hname s hs).2]; rfl
  have hentry : ∀ s ∈ takenNamed text pkgName,
      (stanzaFields s).entry = some ⟨pkgName, (stanzaFields s).version, (stanzaFields s).arch⟩ :=
    fun s hs => by rw [DPackageFields.entry, (hname s hs).2]; rfl
  rw [InstalledExactly, installedStanzas_eq]
  constructor
  · rintro ⟨es, hes, hperm, hfull⟩ s hs
    obtain ⟨hnamed, hes⟩ := debianYields_taken hes
    refine ⟨hnamed s hs, fun hn => ?_⟩
    have hmem : s ∈ takenNamed text pkgName := List.mem_filter.mpr ⟨hs, decide_eq_true hn⟩
    -- as many stanzas are installed as are taken
    have hlen : ((takenNamed text pkgName).filter fun s => stanzaState s = some (lit "installed")).length =
        (takenNamed text pkgName).length := by
      rw [← length_filterMap_named hsome, ← hes.length_eq, hperm.length_eq,
        length_filterMap_named fun s hs => hsome s (List.mem_of_mem_filter hs)]
    have hfulls := hfull _ (hes.mem_iff.mpr (List.mem_filterMap.mpr ⟨s, hmem, hentry s hmem⟩))
    exact ⟨of_decide_eq_true (List.length_filter_eq_length_iff.mp hlen s hmem), hfulls⟩
  · intro h
    obtain ⟨es, hes⟩ := exists_debianYields t pkgName fun s hs => (h s hs).1
    have hperm := (debianYields_taken hes).2
    refine ⟨es, hes, ?_, fun e he => ?_⟩
    · rwa [List.filter_eq_self.mpr fun s hs => decide_eq_true ((h s (hname s hs).1).2 (hname s hs).2).1]
    · obtain ⟨s, hs, hse⟩ := List.mem_filterMap.mp (hperm.mem_iff.mp he)
      obtain rfl := Option.some.inj ((hentry s hs).symm.trans hse)
      exact ((h s (hname s hs).1).2 (hname s hs).2).2

/-- A package that is not installed is seen. -/
theorem installed_not_installed :
    ¬ InstalledExactly convTableStart (lit "Package: a\nStatus: purge ok not-installed\n\n") (lit "a") := by
  rintro ⟨es, hes, hperm, -⟩
  have hnone : (installedStanzas (lit "Package: a\nStatus: purge ok not-installed\n\n") (lit "a")).filterMap
      (fun s => (stanzaFields s).entry) = [] := by decide
  have hone : (takenNamed (lit "Package: a\nStatus: purge ok not-installed\n\n") (lit "a")).filterMap
      (fun s => (stanzaFields s).entry) = [⟨lit "a", none, none⟩] := by decide
  have htaken := (debianYields_taken hes).2
  rw [hnone] at hperm
  rw [hone] at htaken
  exact List.not_perm_nil_cons _ _ (hperm.symm.trans htaken)

/-- Without the line end, so is any package. -/
example : ¬ TakenInstalled (lit "Package: a\nStatus: deinstall ok config-files") (lit "a") := by decide

end Dbp
