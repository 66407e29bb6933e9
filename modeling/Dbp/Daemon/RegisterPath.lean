/-
# Packages by their path

What `package_register_path` does to the registry and what it tells the
caller: it appends one entry and hands out its id, or changes nothing and
hands out the id of the package that is there already, if it could read it
(`registerPath_outcome`).

A path then names the package for `package_id_from_path` and
`package_release_path`, as long as its id stays registered: the entry stays
behind entries of other paths and ids, whatever else is registered or
released (`Holds.run`). But only two of the three take a leading `//` for
`/`. So they agree on the paths that do not begin with `//`
(`pathNames_iff`).

Key definitions: `readableId`, `Appended`, `Refused`, `packageIdFromPath`, `Holds`, `PathNames`.
Key theorems: `registerPath_outcome`, `Holds.step`, `Holds.run`, `pathNames_iff`.
-/
import Dbp.Daemon.RegistryIds

namespace Dbp

open CLib Sweep Find Runs

/-! ### What a registration by path reports -/

/-- The id the daemon can read of the package file at a path; it reads only files with one of its extensions. -/
def readableId (cfg : DBPConfig) (e : Env) (path : CStr) : Option CStr :=
  if packageFilenameInteresting cfg path then readId e path else none

theorem readableId_eq_some {cfg : DBPConfig} {e : Env} {path id : CStr} (h : readableId cfg e path = some id) :
    packageFilenameInteresting cfg path = true ∧ readId e path = some id := by
  unfold readableId at h
  split at h
  · next hp => exact ⟨hp, h⟩
  · exact absurd h (by simp)

/-- A registration with result `r` has appended one entry at the index it returns, with the package's id, the
device and the mount it was given and the path without one slash of a leading `//`, and hands out the id. -/
def Appended (cfg : DBPConfig) (d : Daemon) (e : Env) (device path mount : CStr) (r : ℤ × CStr × Daemon) : Prop :=
  r.1 = d.p.entry.length ∧ readableId cfg e path = some r.2.1 ∧
    ∃ x : PackageEntry, r.2.2.p.entry = d.p.entry ++ [x] ∧
      x.id = r.2.1 ∧ x.device = device ∧ x.mount = mount ∧ x.path = dropSlash path

/-- A registration with result `r` has failed and left all as it is, and hands out the package's id if it could
be read and is registered. -/
def Refused (cfg : DBPConfig) (d : Daemon) (e : Env) (path : CStr) (r : ℤ × CStr × Daemon) : Prop :=
  r.1 < 0 ∧ r.2.2 = d ∧
    r.2.1 = match readableId cfg e path with
      | none => lit "!"
      | some id => if id ∈ d.ids then id else lit "!"

/-- The entry that has an id, if one has. -/
theorem packageFind_entry (d : Daemon) (id : CStr) :
    packageFind d.p id = none ∧ id ∉ d.ids ∨
      ∃ i, packageFind d.p id = some i ∧ id ∈ d.ids ∧ d.p.entry[i]?.map (·.id) = some id := by
  cases h : packageFind d.p id with
  | none => exact .inl ⟨rfl, by simpa [Daemon.ids] using fun e he => by simpa using findIdx?_none h e he⟩
  | some i =>
    obtain ⟨pre, x, post, hes, rfl, hx, -⟩ := findIdx?_split h
    have hid : x.id = id := by simpa using hx
    exact .inr ⟨_, rfl, by simp [Daemon.ids, hes, hid], by simp [hes, hid]⟩

section Register

variable (cfg : DBPConfig) (d : Daemon) {e : Env} {path : CStr} (device mount : CStr)

/-- A package whose id cannot be read. -/
theorem packageRegister_unread (h : readId e path = none) :
    ∃ errid < 0, packageRegister cfg d e path device mount = (errid, -1, d) := by
  unfold readId at h
  unfold packageRegister
  cases ho : dbpMetaPackageOpen e path with
  | inl errid => exact ⟨errid, dbpMetaPackageOpen_neg ho, rfl⟩
  | inr df =>
    simp only [ho] at h
    exact ⟨DBP_ERROR_BAD_PKG_ID, by decide, by simp only [h]⟩

variable {d} in
/-- A package whose id is rejected collides with the entry that has the id, if there is one. -/
theorem packageRegister_rejected {id : CStr} {errid : ℤ} (h : readId e path = some id)
    (hc : packageAddCheck id d.p.entry = some errid) :
    id ∉ d.ids ∧ packageRegister cfg d e path device mount = (errid, -1, d) ∨
      ∃ i : ℕ, id ∈ d.ids ∧ d.p.entry[i]?.map (·.id) = some id ∧
        packageRegister cfg d e path device mount = (errid, (i : ℤ), d) := by
  unfold readId at h
  unfold packageRegister
  cases ho : dbpMetaPackageOpen e path with
  | inl err => simp only [ho, reduceCtorEq] at h
  | inr df =>
    simp only [ho] at h
    have hadd := @packageAdd_rejected d e (packageStrings df id path device mount) errid hc
    simp only [h, hadd, packageAddCheck_neg hc, ↓reduceIte]
    rcases packageFind_entry d id with ⟨hf, hnew⟩ | ⟨i, hf, hmem, hi⟩
    · exact .inl ⟨hnew, by simp only [hf]⟩
    · exact .inr ⟨i, hmem, hi, by simp only [hf]⟩

variable {d} in
/-- A package whose id is accepted. -/
theorem packageRegister_added {id : CStr} (h : readId e path = some id) (hc : packageAddCheck id d.p.entry = none) :
    ∃ (x : PackageEntry) (d' : Daemon), x.id = id ∧ x.device = device ∧ x.mount = mount ∧ x.path = dropSlash path ∧
      d'.p.entry = d.p.entry ++ [x] ∧ packageRegister cfg d e path device mount = ((d.p.entry.length : ℤ), -1, d') := by
  unfold readId at h
  have hr := packageRegister_cases cfg d e path device mount
  generalize packageRegister cfg d e path device mount = r at hr ⊢
  cases hr with
  | unreadable errid ho => simp only [ho, reduceCtorEq] at h
  | noId df ho hid => simp only [ho, hid, reduceCtorEq] at h
  | rejected df id' errid coll ho hid hc' =>
    simp only [ho, hid, Option.some.injEq] at h
    simp only [h, hc, reduceCtorEq] at hc'
  | added df id' ho hid _ =>
    simp only [ho, hid, Option.some.injEq] at h
    subst h
    have hadd := @packageAdd_added d e (packageStrings df id' path device mount) hc
    have hentry : (packageAdd d e (packageStrings df id' path device mount)).2.p.entry =
        d.p.entry ++ [newEntry e d.p.entry (packageStrings df id' path device mount)] := by rw [hadd]
    have he := congrArg (fun d : Daemon => d.p.entry) (packageExport_last cfg hentry e path)
    exact ⟨_, _, rfl, rfl, rfl, rfl, he, rfl⟩

variable {d} in
/-- A package that can be read and whose id is accepted is registered under its path. -/
theorem packageRegisterPath_appended {id : CStr} (hread : readableId cfg e path = some id)
    (hc : packageAddCheck id d.p.entry = none) :
    Appended cfg d e device path mount (packageRegisterPath cfg d e device path mount) := by
  obtain ⟨hp, hid⟩ := readableId_eq_some hread
  obtain ⟨x, d', hxid, hdev, hmnt, hpath, hd', hr⟩ := packageRegister_added cfg device mount hid hc
  have hindex : ¬ (((d.p.entry.length : ℤ) < 0 ∨ (d'.p.entry.length : ℤ) ≤ d.p.entry.length) ∧ (-1 : ℤ) < 0) := by
    rw [hd', List.length_append, List.length_singleton]
    omega
  simp only [packageRegisterPath, hp, Bool.not_true, Bool.false_eq_true, ↓reduceIte]
  rw [hr, if_neg hindex]
  refine ⟨rfl, ?_, x, hd', ?_, hdev, hmnt, hpath⟩
  · simp [hread, hd', hxid]
  · simp [hd']

/-- Every other registration by path is refused. -/
theorem packageRegisterPath_refused
    (h : ∀ id, readableId cfg e path = some id → packageAddCheck id d.p.entry ≠ none) :
    Refused cfg d e path (packageRegisterPath cfg d e device path mount) := by
  cases hp : packageFilenameInteresting cfg path with
  | false => simp [packageRegisterPath, Refused, readableId, hp, DBP_ERROR_BADEXT]
  | true =>
    have hread : readableId cfg e path = readId e path := by simp [readableId, hp]
    simp only [packageRegisterPath, hp, Bool.not_true, Bool.false_eq_true, ↓reduceIte]
    cases hid : readId e path with
    | none =>
      obtain ⟨errid, hneg, hr⟩ := packageRegister_unread cfg d device mount hid
      simp [hr, hneg, Refused, hread, hid]
    | some id =>
      obtain ⟨errid, hc⟩ := Option.ne_none_iff_exists'.mp (h id (hread.trans hid))
      have hneg := packageAddCheck_neg hc
      rcases packageRegister_rejected cfg device mount hid hc with ⟨hnew, hr⟩ | ⟨i, hmem, hi, hr⟩
      · rw [hr, if_pos ⟨.inl hneg, show (-1 : ℤ) < 0 by decide⟩]
        exact ⟨hneg, rfl, by simp only [hread, hid, hnew, ↓reduceIte]⟩
      · have hcoll : ¬ (i : ℤ) < 0 := by omega
        rw [hr, if_neg fun h => hcoll h.2]
        refine ⟨hneg, rfl, ?_⟩
        simp [hread, hid, hmem, hi]

end Register

/-- **Registration by path.** It appends the package and hands out its id, or it is refused. -/
theorem registerPath_outcome (cfg : DBPConfig) (d : Daemon) (e : Env) (device path mount : CStr) :
    0 ≤ (packageRegisterPath cfg d e device path mount).1 ∧
        Appended cfg d e device path mount (packageRegisterPath cfg d e device path mount) ∨
      Refused cfg d e path (packageRegisterPath cfg d e device path mount) := by
  by_cases h : ∃ id, readableId cfg e path = some id ∧ packageAddCheck id d.p.entry = none
  · obtain ⟨id, hread, hc⟩ := h
    have ha := packageRegisterPath_appended cfg device mount hread hc
    exact .inl ⟨ha.1 ▸ Int.natCast_nonneg _, ha⟩
  · exact .inr (packageRegisterPath_refused cfg d device mount fun id hread hc => h ⟨id, hread, hc⟩)

/-! ### A path as the name of a package -/

/-- `package_id_from_path`. -/
def packageIdFromPath (p : Package) (path : CStr) : Option CStr :=
  (p.entry.find? fun x => x.path == path).map (·.id)

/-- The entry is in the array, behind entries of other paths than `path`, and no other entry has its id. -/
def Holds (path : CStr) (x : PackageEntry) (d : Daemon) : Prop :=
  ∃ pre post, d.p.entry = pre ++ x :: post ∧ (∀ y ∈ pre, y.path ≠ path) ∧ ∀ y ∈ pre ++ post, y.id ≠ x.id

namespace Holds

variable {path : CStr} {x : PackageEntry} {d d' : Daemon}

/-- An entry taken in behind others. -/
theorem appended (hpath : ∀ y ∈ d.p.entry, y.path ≠ path) (hid : x.id ∉ d.ids) (hd : d'.p.entry = d.p.entry ++ [x]) :
    Holds path x d' := by
  refine ⟨d.p.entry, [], hd, hpath, fun y hy he => hid ?_⟩
  rw [List.append_nil] at hy
  exact List.mem_map.mpr ⟨y, hy, he⟩

/-- A removal of other entries. -/
theorem of_sublist (h : Holds path x d) (hs : d'.p.entry.Sublist d.p.entry) (hid : x.id ∈ d'.ids) : Holds path x d' := by
  obtain ⟨pre, post, hd, hpath, hids⟩ := h
  rw [hd] at hs
  obtain ⟨pre', rest, hd', hpre, hrest⟩ := List.sublist_append_iff.mp hs
  cases hrest with
  | cons _ hrest =>
    obtain ⟨y, hy, hyid⟩ := List.mem_map.mp hid
    rw [hd'] at hy
    exact absurd hyid (hids y ((hpre.append hrest).subset hy))
  | cons_cons _ hrest =>
    exact ⟨pre', _, hd', fun y hy => hpath y (hpre.subset hy), fun y hy => hids y ((hpre.append hrest).subset hy)⟩

/-- A registration of another package. -/
theorem register (h : Holds path x d) (cfg : DBPConfig) (e : Env) (f device mount : CStr) :
    Holds path x (packageRegister cfg d e f device mount).2.2 := by
  have hc := register_cases cfg d e f device mount []
  generalize packageRegister cfg d e f device mount = r at hc ⊢
  obtain ⟨pre, post, hd, hpath, hids⟩ := h
  cases hc with
  | refused err id herr => exact ⟨pre, post, hd, hpath, hids⟩
  | added ret id d' y hret hy hid hd' =>
    refine ⟨pre, post ++ [y], by rw [hd', hd]; simp, hpath, fun z hz => ?_⟩
    rw [← List.append_assoc] at hz
    rcases List.mem_append.mp hz with hz | hz
    · exact hids z hz
    · obtain rfl := List.mem_singleton.mp hz
      exact fun he => hid (List.mem_map.mpr ⟨x, by rw [hd]; simp, he.symm⟩)

/-- A call that does not take the id away leaves the entry where it is. -/
theorem step (h : Holds path x d) (cfg : DBPConfig) (op : DaemonOp) (hid : x.id ∈ (d.step cfg op).ids) :
    Holds path x (d.step cfg op) := by
  cases op with
  | registerPath e device f mount =>
    show Holds path x (packageRegisterPath cfg d e device f mount).2.2
    rw [packageRegisterPath_state]
    split_ifs
    · exact h.register cfg e f device mount
    · exact h
  | crawlMount e device m =>
    show Holds path x (packageCrawlMount cfg d e device m)
    rw [packageCrawlMount_eq]
    exact List.foldlRecOn _ _ h fun d hd f _ => hd.register cfg e f device m
  | releasePath f => exact h.of_sublist (entries_releasePath_sublist cfg d f) hid
  | releaseMount device => exact h.of_sublist (entries_releaseMount_sublist cfg d device) hid
  | run ret id user => exact h.of_sublist ((sameRegistry_run d ret id user).entry ▸ .refl _) hid
  | stop now runId => exact h.of_sublist ((sameRegistry_stop d now runId).entry ▸ .refl _) hid
  | purgatoryCheck out => exact h.of_sublist ((sameRegistry_purgatoryCheck d out).entry ▸ .refl _) hid

/-- No call of the run takes the id away. -/
abbrev Kept (cfg : DBPConfig) (d : Daemon) (id : CStr) (ops : List DaemonOp) : Prop :=
  Admissible (Daemon.step cfg) (fun t op => id ∈ (t.step cfg op).ids) d ops

theorem run (h : Holds path x d) (cfg : DBPConfig) {ops : List DaemonOp} (hk : Kept cfg d x.id ops) :
    Holds path x (d.run cfg ops) :=
  run_history (I := fun _ t => Holds path x t) h (fun _ op _ ht hid => ht.step cfg op hid) ops hk

end Holds

/-- The path names the entry `x` of id `id`: it gives the id, the id finds the entry, and a release of the path
removes the entry and no other. -/
def PathNames (cfg : DBPConfig) (d : Daemon) (path id : CStr) (x : PackageEntry) : Prop :=
  packageIdFromPath d.p path = some id ∧
    ∃ i, packageFind d.p id = some i ∧ d.p.entry[i]? = some x ∧
      (packageReleasePath cfg d path).1 = 1 ∧ (packageReleasePath cfg d path).2.p.entry = d.p.entry.eraseIdx i

theorem findIdx?_middle {α : Type*} {p : α → Bool} {pre post : List α} {x : α} (hpre : ∀ y ∈ pre, p y = false)
    (hx : p x = true) : (pre ++ x :: post).findIdx? p = some pre.length := by
  rw [List.findIdx?_append, List.findIdx?_eq_none_iff.mpr hpre]
  simp [List.findIdx?_cons, hx]

theorem dropSlash_of_not_prefix {path : CStr} (h : ¬ lit "//" <+: path) : dropSlash path = path :=
  if_neg fun hp => h (List.isPrefixOf_iff_prefix.mp hp)

theorem dropSlash_ne {path : CStr} (h : lit "//" <+: path) : dropSlash path ≠ path := by
  rw [dropSlash, if_pos (List.isPrefixOf_iff_prefix.mpr h)]
  obtain ⟨t, rfl⟩ := h
  intro he
  have hlen := congrArg List.length he
  simp [lit] at hlen

/-- The entry taken in for a path is what the path names, if the path does not begin with two slashes. -/
theorem Holds.names_iff {cfg : DBPConfig} {d : Daemon} {path : CStr} {x : PackageEntry} (h : Holds path x d)
    (hx : x.path = dropSlash path) : PathNames cfg d path x.id x ↔ ¬ lit "//" <+: path := by
  obtain ⟨pre, post, hd, hpath, hids⟩ := h
  constructor
  · intro hn hslash
    obtain ⟨y, hy, hyid⟩ := Option.map_eq_some_iff.mp hn.1
    have hyp : y.path = path := by simpa using List.find?_some hy
    have hmem := List.mem_of_find?_eq_some hy
    rw [hd, List.mem_append, List.mem_cons] at hmem
    rcases hmem with hmem | rfl | hmem
    · exact hpath y hmem hyp
    · exact dropSlash_ne hslash (hx.symm.trans hyp)
    · exact hids y (List.mem_append_right _ hmem) hyid
  · intro hslash
    have hdrop := dropSlash_of_not_prefix hslash
    have hbypath : d.p.entry.findIdx? (fun y => y.path == path) = some pre.length := by
      rw [hd]
      exact findIdx?_middle (fun y hy => by simpa using hpath y hy) (by simpa [hdrop] using hx)
    have hbyid : packageFind d.p x.id = some pre.length := by
      rw [packageFind, hd]
      exact findIdx?_middle (fun y hy => by simpa using hids y (List.mem_append_left _ hy)) (by simp)
    have hget : d.p.entry[pre.length]? = some x := by simp [hd]
    refine ⟨?_, pre.length, hbyid, hget, ?_, ?_⟩
    · rw [packageIdFromPath, ← find?_eq_findIdx? _ x, hbypath]
      simp [hd]
    · simp [packageReleasePath, hdrop, hbypath]
    · simp [packageReleasePath, hdrop, hbypath, packageKill, hget, packageKillFiles]

/-- An entry taken in has a new id. -/
theorem registerPath_new (cfg : DBPConfig) (d : Daemon) (e : Env) (device path mount : CStr) {x : PackageEntry}
    (hd : (packageRegisterPath cfg d e device path mount).2.2.p.entry = d.p.entry ++ [x]) : x.id ∉ d.ids := by
  have hc := registerPath_cases cfg d e device path mount
  generalize packageRegisterPath cfg d e device path mount = r at hc hd
  cases hc with
  | refused err id herr => simp at hd
  | added ret id d' y hret hpath hid he =>
    obtain rfl : y = x := by simpa [he] using hd
    exact hid

/-- **Paths name packages.** A path that was not registered and is registered now names its package, as long as the
package's id stays registered, exactly if it does not begin with two slashes. -/
theorem pathNames_iff (cfg : DBPConfig) (d : Daemon) (e : Env) (device path mount : CStr)
    (hnew : ∀ y ∈ d.p.entry, y.path ≠ path) (hok : 0 ≤ (packageRegisterPath cfg d e device path mount).1)
    (ops : List DaemonOp) (hkept : Holds.Kept cfg (packageRegisterPath cfg d e device path mount).2.2
      (packageRegisterPath cfg d e device path mount).2.1 ops) :
    ∃ x, (packageRegisterPath cfg d e device path mount).2.2.p.entry = d.p.entry ++ [x] ∧
      (PathNames cfg ((packageRegisterPath cfg d e device path mount).2.2.run cfg ops) path
          (packageRegisterPath cfg d e device path mount).2.1 x ↔ ¬ lit "//" <+: path) := by
  obtain ⟨id, hread, hc⟩ : ∃ id, readableId cfg e path = some id ∧ packageAddCheck id d.p.entry = none := by
    by_contra h
    have hneg := (packageRegisterPath_refused cfg d device mount fun id hread hc => h ⟨id, hread, hc⟩).1
    omega
  obtain ⟨-, -, x, hd, hid, -, -, hx⟩ := packageRegisterPath_appended cfg device mount hread hc
  have hnewid := registerPath_new cfg d e device path mount hd
  have hheld : Holds path x (packageRegisterPath cfg d e device path mount).2.2 := .appended hnew hnewid hd
  rw [← hid] at hkept ⊢
  exact ⟨x, hd, (hheld.run cfg hkept).names_iff hx⟩

/-- The registration of a package at `/m/a.dbp`, then one of another that goes again. -/
theorem pathNames_iff_other_package :
    ∃ x, (packageRegisterPath demoConfig (Daemon.init [] [] []) (demoEnv [(lit "/m/a.dbp", [demoMeta (lit "a")])])
        (lit "/dev/sda1") (lit "/m/a.dbp") (lit "/m")).2.2.p.entry = [] ++ [x] ∧
      (PathNames demoConfig ((packageRegisterPath demoConfig (Daemon.init [] [] [])
          (demoEnv [(lit "/m/a.dbp", [demoMeta (lit "a")])]) (lit "/dev/sda1") (lit "/m/a.dbp") (lit "/m")).2.2.run
            demoConfig [.registerPath (demoEnv [(lit "/m/b.dbp", [demoMeta (lit "b")])]) (lit "/dev/sda1")
              (lit "/m/b.dbp") (lit "/m"), .releasePath (lit "/m/b.dbp")]) (lit "/m/a.dbp")
          (packageRegisterPath demoConfig (Daemon.init [] [] []) (demoEnv [(lit "/m/a.dbp", [demoMeta (lit "a")])])
            (lit "/dev/sda1") (lit "/m/a.dbp") (lit "/m")).2.1 x ↔ ¬ lit "//" <+: lit "/m/a.dbp") :=
  pathNames_iff demoConfig (Daemon.init [] [] []) (demoEnv [(lit "/m/a.dbp", [demoMeta (lit "a")])]) (lit "/dev/sda1")
    (lit "/m/a.dbp") (lit "/m") (fun _ hy => absurd hy List.not_mem_nil) (by decide) _ (by decide)

/-- A package registered by a path with two leading slashes is not found by that path. -/
theorem packageIdFromPath_double_slash :
    (packageRegisterPath demoConfig (Daemon.init [] [] []) (demoEnv [(lit "//m/a.dbp", [demoMeta (lit "a")])])
        (lit "/dev/sda1") (lit "//m/a.dbp") (lit "/m")).1 = 0 ∧
      packageIdFromPath (packageRegisterPath demoConfig (Daemon.init [] [] [])
        (demoEnv [(lit "//m/a.dbp", [demoMeta (lit "a")])]) (lit "/dev/sda1") (lit "//m/a.dbp") (lit "/m")).2.2.p
          (lit "//m/a.dbp") = none := by
  decide

end Dbp
