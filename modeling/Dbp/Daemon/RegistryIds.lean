/-
# The ids of the registered packages

The documentation gives package ids the form `[-_.a-zA-Z0-9]+`. `package_add`
checks an id inside its loop over the entries, so nothing checks the id of
a package that comes to an empty registry, and `package_id_validate` takes
the empty id. These two are the only holes: as long as no registration
brings an empty id, or an illegal one to an empty registry, all ids have
the documented form (`registry_ids`).

Key definitions: `Daemon.ids`, `DocumentedId`, `IdsOk`, `SafeAttempt`, `SafeOp`.
Key theorems: `registerPath_cases`, `packageIdValidate_iff`, `idsOk_register`, `idsOk_step`, `registry_ids`.
-/
import Dbp.Daemon.Machine
import Mathlib.Tactic.Common

namespace Dbp

open CLib Sweep Find Runs

/-! ### Ids under each call -/

/-- The ids of the registered packages, in the order of the array. -/
abbrev Daemon.ids (d : Daemon) : List CStr := d.p.entry.map (·.id)

/-- The id in the meta data of the package file at `path`. -/
def readId (e : Env) (path : CStr) : Option CStr :=
  match dbpMetaPackageOpen e path with
  | .inl _ => none
  | .inr df => metaLookup df (lit "Id")

/-- `package_add` accepts an id nobody has, valid unless nothing is registered. -/
theorem packageAddCheck_none {id : CStr} : ∀ {es : List PackageEntry}, packageAddCheck id es = none ↔
    id ∉ es.map (·.id) ∧ (es ≠ [] → packageIdValidate id)
  | [] => by simp [packageAddCheck]
  | e :: es => by
    unfold packageAddCheck
    rw [List.map_cons, List.mem_cons]
    split_ifs with hv he
    · simpa using fun _ _ => hv
    · simp [he]
    · have hv' : packageIdValidate id = true := by simpa using hv
      rw [packageAddCheck_none]
      simp [hv', Ne.symm he]

theorem ids_export (cfg : DBPConfig) (d : Daemon) (e : Env) (path : CStr) (i : ℕ) :
    (packageExport cfg d e path i).ids = d.ids := by
  unfold packageExport
  cases h : d.p.entry[i]? with
  | none => rfl
  | some p =>
    obtain ⟨hi, rfl⟩ := List.getElem?_eq_some_iff.mp h
    have hid : (d.p.entry.map (·.id)).set i d.p.entry[i].id = d.p.entry.map (·.id) := by
      rw [← List.getElem_map (fun p : PackageEntry => p.id) (h := by simpa using hi), List.set_getElem_self]
    simp only [Daemon.ids, List.map_set, hid]

/-- A registration leaves the ids, or appends the one it read. -/
theorem ids_register (cfg : DBPConfig) (d : Daemon) (e : Env) (path device mount : CStr) :
    (packageRegister cfg d e path device mount).2.2.ids =
      match readId e path with
      | none => d.ids
      | some id => if packageAddCheck id d.p.entry = none then d.ids ++ [id] else d.ids := by
  unfold readId
  have hc := packageRegister_cases cfg d e path device mount
  generalize packageRegister cfg d e path device mount = r at hc ⊢
  cases hc with
  | unreadable errid h => simp [h]
  | noId df h hid => simp [h, hid]
  | rejected df id errid coll h hid hc => simp [h, hid, hc]
  | added df id h hid hc =>
    have hadd := @packageAdd_added d e (packageStrings df id path device mount) hc
    simp only [h, hid, hc, ↓reduceIte, ids_export, hadd]
    simp [Daemon.ids, newEntry, packageStrings]

theorem packageRegisterPath_state (cfg : DBPConfig) (d : Daemon) (e : Env) (device path mount : CStr) :
    (packageRegisterPath cfg d e device path mount).2.2 =
      if packageFilenameInteresting cfg path then (packageRegister cfg d e path device mount).2.2 else d := by
  unfold packageRegisterPath
  by_cases hp : packageFilenameInteresting cfg path
  · simp only [hp, Bool.not_true, Bool.false_eq_true, ↓reduceIte]
    split_ifs <;> rfl
  · simp [hp]

/-- The paths a crawl of a mount tries to register, in order. -/
def crawlPaths (cfg : DBPConfig) (e : Env) (path : CStr) : List CStr :=
  cfg.searchDir.flatMap fun dir =>
    let dirPath := path ++ lit "/" ++ dir
    (((e.readDir dirPath).getD []).filter (packageFilenameInteresting cfg)).map
      fun name => dirPath ++ lit "/" ++ name

/-- A crawl registers its paths one after the other. -/
theorem packageCrawlMount_eq (cfg : DBPConfig) (d : Daemon) (e : Env) (device path : CStr) :
    packageCrawlMount cfg d e device path =
      (crawlPaths cfg e path).foldl (fun d f => (packageRegister cfg d e f device path).2.2) d := by
  unfold packageCrawlMount crawlPaths
  rw [List.foldl_flatMap]
  congr
  funext d dir
  unfold packageCrawl
  cases h : e.readDir (path ++ lit "/" ++ dir) with
  | none => simp only [h, Option.getD_none, List.filter_nil, List.map_nil, List.foldl_nil]
  | some names => simp only [h, Option.getD_some, List.foldl_map]

theorem ids_releasePath (cfg : DBPConfig) (d : Daemon) (path : CStr) :
    (packageReleasePath cfg d path).2.ids.Sublist d.ids := by
  unfold packageReleasePath
  split
  · exact .refl _
  · unfold packageKill
    split
    · exact .refl _
    · exact (List.eraseIdx_sublist _ _).map _

theorem entries_releaseMount_sublist (cfg : DBPConfig) (d : Daemon) (device : CStr) :
    (packageReleaseMount cfg d device).p.entry.Sublist d.p.entry := by
  rw [packageReleaseMount_eq]
  refine mapKeep_sublist (fun s p => ?_) _ _
  unfold releaseVisit
  split_ifs
  · exact .inr rfl
  · exact .inr rfl
  · exact .inl rfl

theorem ids_releaseMount (cfg : DBPConfig) (d : Daemon) (device : CStr) :
    (packageReleaseMount cfg d device).ids.Sublist d.ids := (entries_releaseMount_sublist cfg d device).map _

/-! ### Paths under a call -/

/-- A release removes the first entry of the path. -/
theorem packageReleasePath_eraseP (cfg : DBPConfig) (d : Daemon) (path : CStr) :
    (packageReleasePath cfg d path).2.p.entry = d.p.entry.eraseP fun p => p.path == dropSlash path := by
  unfold packageReleasePath
  rw [List.eraseP_eq_eraseIdx]
  cases d.p.entry.findIdx? fun p => p.path == dropSlash path with
  | none => rfl
  | some k =>
    simp only [packageKill]
    cases h : d.p.entry[k]? with
    | none => simp only [List.eraseIdx_of_length_le (List.getElem?_eq_none_iff.mp h)]
    | some p => rfl

theorem entries_releasePath_sublist (cfg : DBPConfig) (d : Daemon) (path : CStr) :
    (packageReleasePath cfg d path).2.p.entry.Sublist d.p.entry := by
  rw [packageReleasePath_eraseP]
  exact List.eraseP_sublist

/-- What a registration of a path can do: it is refused, or appends an entry of the path with a new id. -/
inductive RegisterPathCase (d : Daemon) (path : CStr) : ℤ × CStr × Daemon → Prop
  | refused (err : ℤ) (id : CStr) (herr : err < 0) : RegisterPathCase d path (err, id, d)
  | added (ret : ℤ) (id : CStr) (d' : Daemon) (e : PackageEntry) (hret : 0 ≤ ret) (hpath : e.path = dropSlash path)
    (hid : e.id ∉ d.ids) (he : d'.p.entry = d.p.entry ++ [e]) : RegisterPathCase d path (ret, id, d')

/-- The export of the last entry. -/
theorem packageExport_last (cfg : DBPConfig) {d : Daemon} {es : List PackageEntry} {p : PackageEntry}
    (h : d.p.entry = es ++ [p]) (e : Env) (path : CStr) :
    let m := packageMetaExtract cfg e path p (p.desktop == lit "desk") ⟨d.icons, d.desktops, d.execs, d.signals, p.exec⟩
    packageExport cfg d e path es.length = { d with
      p := { d.p with entry := es ++ [{ p with exec := m.exec }] }
      icons := m.icons
      desktops := m.desktops
      execs := m.execs
      signals := m.signals } := by
  have hget : d.p.entry[es.length]? = some p := by simp [h]
  simp only [packageExport, hget]
  rw [h, List.set_append_right _ _ le_rfl, Nat.sub_self, List.set_cons_zero]

theorem register_cases (cfg : DBPConfig) (d : Daemon) (e : Env) (path device mount id : CStr) :
    RegisterPathCase d path ((packageRegister cfg d e path device mount).1, id,
      (packageRegister cfg d e path device mount).2.2) := by
  have hc := packageRegister_cases cfg d e path device mount
  generalize packageRegister cfg d e path device mount = r at hc ⊢
  cases hc with
  | unreadable errid h => exact .refused _ _ (dbpMetaPackageOpen_neg h)
  | noId df h hid => exact .refused DBP_ERROR_BAD_PKG_ID _ (by decide)
  | rejected df pkgId errid coll h hid hc => exact .refused _ _ (packageAddCheck_neg hc)
  | added df pkgId h hid hc =>
    have hadd := @packageAdd_added d e (packageStrings df pkgId path device mount) hc
    have hentry : (packageAdd d e (packageStrings df pkgId path device mount)).2.p.entry =
        d.p.entry ++ [newEntry e d.p.entry (packageStrings df pkgId path device mount)] := by rw [hadd]
    have he := congrArg (fun d : Daemon => d.p.entry) (packageExport_last cfg hentry e path)
    exact .added _ _ _ _ (by omega) rfl (packageAddCheck_none.mp hc).1 he

theorem registerPath_cases (cfg : DBPConfig) (d : Daemon) (e : Env) (device path mount : CStr) :
    RegisterPathCase d path (packageRegisterPath cfg d e device path mount) := by
  unfold packageRegisterPath
  split
  · exact .refused _ _ (by decide)
  · simp only
    split
    · exact register_cases cfg d e path device mount _
    · exact register_cases cfg d e path device mount _

/-! ### The documented form -/

/-- The characters of the documented form. -/
def documentedChars : CStr := lit "-_.abcdefghijklmnopqrstuvwxyzABCDEFGHIJKLMNOPQRSTUVWXYZ0123456789"

/-- The documented form of an id, and no directory of every directory. -/
def DocumentedId (id : CStr) : Prop :=
  id ≠ [] ∧ (∀ c ∈ id, c ∈ documentedChars) ∧ id ≠ lit "." ∧ id ≠ lit ".."

instance (id : CStr) : Decidable (DocumentedId id) := inferInstanceAs (Decidable (_ ∧ _))

/-- The ids are distinct and have the documented form. -/
def IdsOk (d : Daemon) : Prop := d.ids.Nodup ∧ ∀ id ∈ d.ids, DocumentedId id

instance (d : Daemon) : Decidable (IdsOk d) := inferInstanceAs (Decidable (_ ∧ _))

theorem idChar_iff (c : Char) : idChar c ↔ c ∈ documentedChars := by
  have hid : idChar c → c.toNat < 128 := fun h => by
    simp only [idChar, isalpha, isdigit, Bool.or_eq_true, Bool.and_eq_true, decide_eq_true_eq, beq_iff_eq] at h
    rcases h with (((h | h) | rfl) | rfl) | rfl
    · omega
    · omega
    all_goals decide
  have hdoc : ∀ c ∈ documentedChars, c.toNat < 128 := by decide +kernel
  by_cases hc : c.toNat < 128
  · exact forall_ascii (P := fun c => idChar c ↔ c ∈ documentedChars) (by decide +kernel) c hc
  · exact ⟨fun h => absurd (hid h) hc, fun h => absurd (hdoc c h) hc⟩

/-- What `package_id_validate` accepts is the documented form and the empty id. -/
theorem packageIdValidate_iff (id : CStr) : packageIdValidate id ↔ DocumentedId id ∨ id = [] := by
  by_cases h0 : id = []
  · subst h0
    simp [packageIdValidate]
  · have hall : id.all idChar = true ↔ ∀ c ∈ id, c ∈ documentedChars := by
      simp only [List.all_eq_true, idChar_iff]
    simp only [packageIdValidate, DocumentedId, Bool.and_eq_true, bne_iff_ne, hall, h0, or_false]
    tauto

/-! ### Registrations that keep the form -/

/-- A registration that brings no empty id, and no illegal id to an empty registry. -/
def SafeAttempt (e : Env) (d : Daemon) (path : CStr) : Prop :=
  ∀ id ∈ readId e path, id ≠ [] ∧ (d.p.entry = [] → packageIdValidate id)

instance (e : Env) (d : Daemon) (path : CStr) : Decidable (SafeAttempt e d path) :=
  match h : readId e path with
  | none => isTrue (by simp [SafeAttempt, h])
  | some id => decidable_of_iff (id ≠ [] ∧ (d.p.entry = [] → packageIdValidate id)) (by simp [SafeAttempt, h])

/-- Every registration a call attempts is safe. -/
def SafeOp (cfg : DBPConfig) (d : Daemon) : DaemonOp → Prop
  | .registerPath e _ path _ => packageFilenameInteresting cfg path → SafeAttempt e d path
  | .crawlMount e device path =>
    Admissible (fun d f => (packageRegister cfg d e f device path).2.2) (SafeAttempt e) d (crawlPaths cfg e path)
  | _ => True

instance (cfg : DBPConfig) (d : Daemon) : ∀ op, Decidable (SafeOp cfg d op)
  | .registerPath e _ path _ =>
    inferInstanceAs (Decidable (packageFilenameInteresting cfg path → SafeAttempt e d path))
  | .crawlMount e _ path => inferInstanceAs (Decidable (Admissible _ (SafeAttempt e) d (crawlPaths cfg e path)))
  | .releasePath _ => isTrue trivial
  | .releaseMount _ => isTrue trivial
  | .run _ _ _ => isTrue trivial
  | .stop _ _ => isTrue trivial
  | .purgatoryCheck _ => isTrue trivial

theorem idsOk_of_sublist {d d' : Daemon} (h : IdsOk d) (hs : d'.ids.Sublist d.ids) : IdsOk d' :=
  ⟨h.1.sublist hs, fun id hid => h.2 id (hs.subset hid)⟩

theorem idsOk_of_same {d d' : Daemon} (h : IdsOk d) (hs : SameRegistry d d') : IdsOk d' :=
  idsOk_of_sublist h (by rw [Daemon.ids, hs.entry])

/-- A new id. -/
theorem idsOk_concat {d d' : Daemon} {id : CStr} (h : IdsOk d) (hid : id ∉ d.ids) (hids : d'.ids = d.ids ++ [id]) :
    IdsOk d' ↔ DocumentedId id := by
  unfold IdsOk
  rw [hids, List.forall_mem_append, List.forall_mem_singleton]
  exact ⟨fun hd => hd.2.2, fun hdoc => ⟨nodup_concat h.1 hid, h.2, hdoc⟩⟩

/-- One registration. -/
theorem idsOk_register (cfg : DBPConfig) (d : Daemon) (e : Env) (path device mount : CStr) (h : IdsOk d) :
    IdsOk (packageRegister cfg d e path device mount).2.2 ↔ SafeAttempt e d path := by
  have hids := ids_register cfg d e path device mount
  unfold SafeAttempt
  cases hid : readId e path with
  | none =>
    rw [hid] at hids
    exact ⟨fun _ => by simp, fun _ => idsOk_of_sublist h (by rw [hids])⟩
  | some id =>
    have hnil : [] ∉ d.ids := fun hm => (h.2 _ hm).1 rfl
    simp only [hid] at hids
    simp only [Option.mem_some_iff, forall_eq']
    split_ifs at hids with hc
    · obtain ⟨hnew, hval⟩ := packageAddCheck_none.mp hc
      rw [idsOk_concat h hnew hids]
      refine ⟨fun hdoc => ⟨hdoc.1, fun _ => (packageIdValidate_iff id).mpr (.inl hdoc)⟩, fun ⟨hne, hv⟩ => ?_⟩
      have hvalid : packageIdValidate id := by
        by_cases hes : d.p.entry = []
        · exact hv hes
        · exact hval hes
      exact ((packageIdValidate_iff id).mp hvalid).resolve_right hne
    · -- A rejected id is a duplicate or illegal, and not the first one.
      have hes : d.p.entry ≠ [] := fun hes => hc (by simp [hes, packageAddCheck])
      refine ⟨fun _ => ⟨fun h0 => hc ?_, fun h' => absurd h' hes⟩, fun _ => idsOk_of_sublist h (by rw [hids])⟩
      subst h0
      exact packageAddCheck_none.mpr ⟨hnil, fun _ => (packageIdValidate_iff _).mpr (.inr rfl)⟩

theorem ids_register_grows (cfg : DBPConfig) (d : Daemon) (e : Env) (path device mount : CStr) :
    d.ids <+: (packageRegister cfg d e path device mount).2.2.ids := by
  rw [ids_register]
  split
  · exact List.prefix_refl _
  · split_ifs
    · exact List.prefix_append _ _
    · exact List.prefix_refl _

/-- A crawl: nothing is removed on the way, so what it leaves is in order only if every
registration was. -/
theorem idsOk_crawl (cfg : DBPConfig) (e : Env) (device mount : CStr) : ∀ (fs : List CStr) (d : Daemon), IdsOk d →
    (IdsOk (fs.foldl (fun d f => (packageRegister cfg d e f device mount).2.2) d) ↔
      Admissible (fun d f => (packageRegister cfg d e f device mount).2.2) (SafeAttempt e) d fs)
  | [], d, h => ⟨fun _ => trivial, fun _ => h⟩
  | f :: fs, d, h => by
    have hstep := idsOk_register cfg d e f device mount h
    have hgrow : ∀ (fs : List CStr) (d : Daemon),
        d.ids <+: (fs.foldl (fun d f => (packageRegister cfg d e f device mount).2.2) d).ids := by
      intro fs
      induction fs with
      | nil => exact fun d => List.prefix_refl _
      | cons f fs ih => exact fun d => (ids_register_grows cfg d e f device mount).trans (ih _)
    rw [List.foldl_cons]
    refine ⟨fun hend => ?_, fun ⟨h1, h2⟩ => ?_⟩
    · have hmid := idsOk_of_sublist hend (hgrow fs _).sublist
      exact ⟨hstep.mp hmid, (idsOk_crawl cfg e device mount fs _ hmid).mp hend⟩
    · exact (idsOk_crawl cfg e device mount fs _ (hstep.mpr h1)).mpr h2

/-- One call. -/
theorem idsOk_step (cfg : DBPConfig) (d : Daemon) (op : DaemonOp) (h : IdsOk d) :
    IdsOk (d.step cfg op) ↔ SafeOp cfg d op := by
  cases op with
  | registerPath e device path mount =>
    show IdsOk (packageRegisterPath cfg d e device path mount).2.2 ↔ _
    rw [packageRegisterPath_state]
    unfold SafeOp
    by_cases hp : packageFilenameInteresting cfg path
    · simp only [hp, ↓reduceIte, forall_const]
      exact idsOk_register cfg d e path device mount h
    · simp [hp, h]
  | crawlMount e device path =>
    show IdsOk (packageCrawlMount cfg d e device path) ↔ _
    rw [packageCrawlMount_eq]
    exact idsOk_crawl cfg e device path _ d h
  | releasePath path => exact ⟨fun _ => trivial, fun _ => idsOk_of_sublist h (ids_releasePath cfg d path)⟩
  | releaseMount device => exact ⟨fun _ => trivial, fun _ => idsOk_of_sublist h (ids_releaseMount cfg d device)⟩
  | run ret id user => exact ⟨fun _ => trivial, fun _ => idsOk_of_same h (sameRegistry_run d ret id user)⟩
  | stop now runId => exact ⟨fun _ => trivial, fun _ => idsOk_of_same h (sameRegistry_stop d now runId)⟩
  | purgatoryCheck out => exact ⟨fun _ => trivial, fun _ => idsOk_of_same h (sameRegistry_purgatoryCheck d out)⟩

/-- **Registry ids.** The runs whose states all have distinct ids of the documented form are
those in which every registration attempt is safe. -/
theorem registry_ids (cfg : DBPConfig) (icons desktops execs : Dir) (ops : List DaemonOp) :
    (∀ pre, pre <+: ops → IdsOk (Daemon.run cfg (Daemon.init icons desktops execs) pre)) ↔
      Admissible (Daemon.step cfg) (SafeOp cfg) (Daemon.init icons desktops execs) ops :=
  run_iff ops _ (fun d op _ h => idsOk_step cfg d op h) ⟨List.nodup_nil, by simp [Daemon.ids, Daemon.init, packageInit]⟩

/-- The first package of an empty registry may have any id. -/
theorem registry_ids_first_package : ¬ IdsOk (Daemon.run demoConfig (Daemon.init [] [] [])
    [.registerPath (demoEnv [(lit "/m/a.dbp", [demoMeta (lit "../../etc")])]) (lit "/dev/sda1") (lit "/m/a.dbp")
      (lit "/m")]) := by
  decide

end Dbp
