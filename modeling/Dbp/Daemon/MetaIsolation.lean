/-
# Whose files a removal deletes

Ids and file names may contain `_`, so the removal prefix `__dbp__<id>_` of
a package may also begin a file of another: take the ids `a` and `a_b`, or a
file `b_x` of `a`. The directories hold the files of the registered packages,
and a removal leaves the other packages' alone, in exactly the runs in which
no package comes to the registry whose names and removal prefix clash so with
those of a registered one (`meta_isolation`).

Key definitions: `registeredFiles`, `MetaIsolated`, `ClashFree`.
Key theorems: `metaIsolated_iff`, `good_step`, `meta_isolation`.
-/
import Dbp.Daemon.MetaFiles

namespace Dbp

open CLib Sweep Runs Namespaces

/-! ### Recording what was registered -/

/-- A registration; what it extracts is recorded under its id if it succeeds. -/
def recordRegister (cfg : DBPConfig) (e : Env) (device mount : CStr) (t : Daemon × Archives) (path : CStr) :
    Daemon × Archives :=
  let r := packageRegister cfg t.1 e path device mount
  let id := (readId e path).getD []
  (r.2.2, if 0 ≤ r.1 then Function.update t.2 id (extractedFiles cfg e id path) else t.2)

/-- A call, with the files of the registered packages kept up to date. -/
def recordStep (cfg : DBPConfig) (t : Daemon × Archives) : DaemonOp → Daemon × Archives
  | .registerPath e device path mount =>
    if packageFilenameInteresting cfg path then recordRegister cfg e device mount t path else t
  | .crawlMount e device path => (crawlPaths cfg e path).foldl (recordRegister cfg e device path) t
  | op => (t.1.step cfg op, t.2)

/-- The files extracted from the packages registered in a run. -/
def registeredFiles (cfg : DBPConfig) (d : Daemon) (ops : List DaemonOp) : Archives :=
  (ops.foldl (recordStep cfg) (d, fun _ => [])).2

theorem recordStep_fst (cfg : DBPConfig) (t : Daemon × Archives) (op : DaemonOp) :
    (recordStep cfg t op).1 = t.1.step cfg op := by
  cases op with
  | registerPath e device path mount =>
    show (if _ then recordRegister cfg e device mount t path else t).1 = (packageRegisterPath cfg _ _ _ _ _).2.2
    rw [packageRegisterPath_state]
    split_ifs <;> rfl
  | crawlMount e device path =>
    show (List.foldl _ t _).1 = packageCrawlMount cfg t.1 e device path
    rw [packageCrawlMount_eq]
    generalize crawlPaths cfg e path = fs
    induction fs generalizing t with
    | nil => rfl
    | cons f fs ih => exact ih (recordRegister cfg e device path t f)
  | _ => rfl

theorem recordRun_fst (cfg : DBPConfig) : ∀ (ops : List DaemonOp) (t : Daemon × Archives),
    (ops.foldl (recordStep cfg) t).1 = Daemon.run cfg t.1 ops
  | [], _ => rfl
  | op :: ops, t => by
    rw [List.foldl_cons, recordRun_fst cfg ops, recordStep_fst]
    rfl

/-- What a registration of a valid id does: it appends the id, records the files and adds
their names to the directories, or the id is there already or missing and nothing changes. -/
inductive RecordCase (cfg : DBPConfig) (e : Env) (t : Daemon × Archives) (path : CStr) : Daemon × Archives → Prop
  | added (id : CStr) (d : Daemon) (hr : readId e path = some id) (hid : id ∉ t.1.ids) (hids : d.ids = t.1.ids ++ [id])
    (hi : ∀ n, n ∈ d.icons.names ↔ n ∈ t.1.icons.names ∨ n ∈ exportedIcons id (extractedFiles cfg e id path))
    (hd : ∀ n, n ∈ d.desktops.names ↔ n ∈ t.1.desktops.names ∨ n ∈ exportedDesktops id (extractedFiles cfg e id path)) :
    RecordCase cfg e t path (d, Function.update t.2 id (extractedFiles cfg e id path))
  | same (hr : ∀ id ∈ readId e path, id ∈ t.1.ids) : RecordCase cfg e t path t

theorem recordRegister_cases (cfg : DBPConfig) (e : Env) (device mount : CStr) (t : Daemon × Archives) (path : CStr)
    (hv : ∀ id ∈ readId e path, packageIdValidate id) :
    RecordCase cfg e t path (recordRegister cfg e device mount t path) := by
  have hids := ids_register cfg t.1 e path device mount
  have hread : ∀ {df : DesktopFile}, dbpMetaPackageOpen e path = .inr df → readId e path = metaLookup df (lit "Id") :=
    fun h => by simp only [readId, h]
  have hc := packageRegister_cases cfg t.1 e path device mount
  unfold recordRegister
  generalize packageRegister cfg t.1 e path device mount = r at hc hids ⊢
  cases hc with
  | unreadable errid h =>
    have hneg : ¬ 0 ≤ errid := not_le.mpr (dbpMetaPackageOpen_neg h)
    simp only [hneg, ↓reduceIte]
    exact .same (by simp [readId, h])
  | noId df h hid =>
    have hneg : ¬ 0 ≤ DBP_ERROR_BAD_PKG_ID := by decide
    simp only [hneg, ↓reduceIte]
    exact .same (by simp [hread h, hid])
  | rejected df id errid coll h hid hc =>
    have hneg : ¬ 0 ≤ errid := not_le.mpr (packageAddCheck_neg hc)
    have hr : readId e path = some id := (hread h).trans hid
    simp only [hneg, ↓reduceIte]
    refine .same fun x hx => ?_
    obtain rfl : id = x := by simpa [hr] using hx
    by_contra hnew
    have hok := packageAddCheck_none.mpr ⟨hnew, fun _ => hv id (by rw [hr]; rfl)⟩
    rw [hok] at hc
    cases hc
  | added df id h hid hc =>
    have hr : readId e path = some id := (hread h).trans hid
    have hpos : (0 : ℤ) ≤ t.1.p.entry.length := by omega
    simp only [hpos, ↓reduceIte, hr, Option.getD_some]
    simp only [hr, hc, ↓reduceIte] at hids
    have hexp := @mem_names_added cfg t.1 e path (packageStrings df id path device mount) hc
    exact .added id _ hr (packageAddCheck_none.mp hc).1 hids (fun n => (hexp n).1) fun n => (hexp n).2

/-! ### Isolation of the registered packages -/

/-- From `d` to `d'` no file of package `q` is deleted or announced as removed. -/
structure Untouched (cfg : DBPConfig) (a : Archives) (q : PackageEntry) (d d' : Daemon) : Prop where
  icons : ∀ n ∈ exportedIcons q.id (a q.id), n ∈ d'.icons.names
  desktops : ∀ n ∈ exportedDesktops q.id (a q.id), n ∈ d'.desktops.names
  unannounced : ∀ n ∈ exportedDesktops q.id (a q.id),
    Signal.removeMeta (cfg.desktopDirectory ++ lit "/" ++ n) ∉ d'.signals.drop d.signals.length

/-- **Meta-file isolation.** The files with the `__dbp__` prefix are those extracted from the
registered packages, no two of which write the same file, and a removal does not touch the
files of the others. -/
structure MetaIsolated (cfg : DBPConfig) (d : Daemon) (a : Archives) : Prop where
  ids : d.ids.Nodup
  icons : ∀ n, metaPrefix <+: n → (n ∈ d.icons.names ↔ ∃ p ∈ d.p.entry, n ∈ exportedIcons p.id (a p.id))
  desktops : ∀ n, metaPrefix <+: n →
    (n ∈ d.desktops.names ↔ ∃ p ∈ d.p.entry, n ∈ exportedDesktops p.id (a p.id))
  disjoint : ∀ p ∈ d.p.entry, ∀ q ∈ d.p.entry, p.id ≠ q.id →
    (∀ n ∈ exportedIcons p.id (a p.id), n ∉ exportedIcons q.id (a q.id)) ∧
      ∀ n ∈ exportedDesktops p.id (a p.id), n ∉ exportedDesktops q.id (a q.id)
  kill : ∀ (i : ℕ) (p : PackageEntry), d.p.entry[i]? = some p → ∀ q ∈ d.p.entry, q.id ≠ p.id →
    Untouched cfg a q d (packageKill cfg d i)
  releaseMount : ∀ device, ∀ q ∈ (packageReleaseMount cfg d device).p.entry,
    Untouched cfg a q d (packageReleaseMount cfg d device)

/-- The state of a removal loop: the packages not yet removed have their files, and nothing
of theirs was announced. -/
structure Releasing (cfg : DBPConfig) (a : Archives) (d d' : Daemon) (es : List PackageEntry) : Prop where
  files : FilesOk a d'.icons d'.desktops (es.map (·.id))
  announced : ∃ new, d'.signals = d.signals ++ new ∧ ∀ q ∈ es, ∀ n ∈ exportedDesktops q.id (a q.id),
    Signal.removeMeta (cfg.desktopDirectory ++ lit "/" ++ n) ∉ new

theorem Releasing.refl (cfg : DBPConfig) (a : Archives) (d : Daemon) (h : FilesOk a d.icons d.desktops d.ids) :
    Releasing cfg a d d d.p.entry :=
  ⟨h, [], by simp, by simp⟩

theorem Releasing.kill {cfg : DBPConfig} {a : Archives} {d d' : Daemon} {l r : List PackageEntry} {p : PackageEntry}
    (h : Releasing cfg a d d' (l ++ p :: r)) : Releasing cfg a d (packageKillFiles cfg d' p) (l ++ r) := by
  obtain ⟨new, hnew, hann⟩ := h.announced
  have hfiles := h.files
  rw [List.map_append, List.map_cons] at hfiles
  refine ⟨by rw [List.map_append]; exact hfiles.kill, ?_⟩
  refine ⟨new ++ _, by rw [packageKillFiles, hnew, List.append_assoc, List.append_assoc], fun q hq n hn hmem => ?_⟩
  have hq' : q ∈ l ++ p :: r := (List.Sublist.append_left (List.sublist_cons_self p r) l).subset hq
  -- The names announced begin with the prefix of `p`, and those of `q` do not.
  have hpre : ¬ metaPrefixOf p.id <+: n := by
    have hpid : p.id ∉ (l ++ r).map (·.id) := by
      rw [List.map_append]
      exact (List.nodup_cons.mp (List.perm_middle.nodup_iff.mp hfiles.nodup)).1
    have hne : p.id ≠ q.id := (ne_of_mem_of_not_mem (List.mem_map_of_mem hq) hpid).symm
    exact h.files.isolated p.id (List.mem_map_of_mem (by simp)) q.id (List.mem_map_of_mem hq') hne n
      (desktopsOf_subset a q.id hn)
  rcases List.mem_append.mp hmem with hmem | hmem
  · exact hann q hq' n hn hmem
  · split_ifs at hmem
    · simp only [List.mem_append, List.mem_map, List.mem_singleton, reduceCtorEq, or_false, packageKillPrefix,
        List.mem_filter] at hmem
      obtain ⟨name, ⟨-, hname⟩, he⟩ := hmem
      rw [Signal.removeMeta.injEq, List.append_cancel_left_eq] at he
      exact hpre (he ▸ List.isPrefixOf_iff_prefix.mp hname)
    · simp at hmem

theorem Releasing.untouched {cfg : DBPConfig} {a : Archives} {d d' : Daemon} {es : List PackageEntry}
    (h : Releasing cfg a d d' es) {q : PackageEntry} (hq : q ∈ es) : Untouched cfg a q d d' := by
  obtain ⟨new, hnew, hann⟩ := h.announced
  have hid : q.id ∈ es.map (·.id) := List.mem_map_of_mem hq
  refine ⟨fun n hn => ?_, fun n hn => ?_, fun n hn => ?_⟩
  · have hm : n ∈ owned (iconsOf a) (es.map (·.id)) := ⟨q.id, hid, hn⟩
    rw [← h.files.icons] at hm
    exact hm.1
  · have hm : n ∈ owned (desktopsOf a) (es.map (·.id)) := ⟨q.id, hid, hn⟩
    rw [← h.files.desktops] at hm
    exact hm.1
  · rw [hnew, List.drop_left]
    exact hann q hq n hn

theorem releasing_kill (cfg : DBPConfig) {a : Archives} {d : Daemon} (h : FilesOk a d.icons d.desktops d.ids)
    {i : ℕ} {p : PackageEntry} (hp : d.p.entry[i]? = some p) :
    Releasing cfg a d (packageKill cfg d i) (packageKill cfg d i).p.entry := by
  obtain ⟨hi, rfl⟩ := List.getElem?_eq_some_iff.mp hp
  have hsplit : d.p.entry = d.p.entry.take i ++ d.p.entry[i] :: d.p.entry.drop (i + 1) := by simp
  have hr := Releasing.refl cfg a d h
  rw [hsplit] at hr
  unfold packageKill
  simp only [hp, List.eraseIdx_eq_take_drop_succ]
  exact ⟨hr.kill.files, hr.kill.announced⟩

theorem releasing_releaseMount (cfg : DBPConfig) {a : Archives} {d : Daemon}
    (h : FilesOk a d.icons d.desktops d.ids) (device : CStr) :
    Releasing cfg a d (packageReleaseMount cfg d device) (packageReleaseMount cfg d device).p.entry := by
  rw [packageReleaseMount_eq]
  have hinv := mapKeep_invariant (f := releaseVisit cfg device)
    (P := fun s kept rest => Releasing cfg a d s.2 (kept ++ rest)) (fun s kept p rest hs => ?_)
    d.p.entry (none, d) [] (Releasing.refl cfg a d h)
  · rw [List.nil_append, List.append_nil] at hinv
    exact ⟨hinv.files, hinv.announced⟩
  · unfold releaseVisit
    split_ifs
    · simpa using hs
    · simpa using hs
    · simpa using hs.kill

theorem mem_owned_ids {f : CStr → Set CStr} {d : Daemon} {n : CStr} :
    n ∈ owned f d.ids ↔ ∃ p ∈ d.p.entry, n ∈ f p.id := by
  simp [owned, Daemon.ids]

/-- A directory with the names of the registered packages that carry the prefix. -/
theorem metaNames_eq_iff {dir : Dir} {f : CStr → Set CStr} {d : Daemon} (hf : ∀ id, ∀ n ∈ f id, metaPrefix <+: n) :
    metaNames dir = owned f d.ids ↔
      ∀ n, metaPrefix <+: n → (n ∈ dir.names ↔ ∃ p ∈ d.p.entry, n ∈ f p.id) := by
  refine ⟨fun h n hn => ?_, fun h => Set.ext fun n => ?_⟩
  · have hm := Set.ext_iff.mp h n
    rw [mem_owned_ids] at hm
    exact ⟨fun hd => hm.mp ⟨hd, hn⟩, fun hp => (hm.mpr hp).1⟩
  · rw [mem_owned_ids]
    refine ⟨fun ⟨hd, hn⟩ => (h n hn).mp hd, fun hp => ?_⟩
    obtain ⟨p, -, hm⟩ := id hp
    exact ⟨(h n (hf _ n hm)).mpr hp, hf _ n hm⟩

theorem iconsOf_starts (a : Archives) (id : CStr) : ∀ n ∈ iconsOf a id, metaPrefix <+: n :=
  fun _ hn => (metaPrefix_starts id).trans (namesOf_subset a id (iconsOf_subset a id hn))

theorem desktopsOf_starts (a : Archives) (id : CStr) : ∀ n ∈ desktopsOf a id, metaPrefix <+: n :=
  fun _ hn => (metaPrefix_starts id).trans (namesOf_subset a id (desktopsOf_subset a id hn))

/-- The packages whose files a removal leaves have no names with the prefix that it removes. -/
theorem MetaIsolated.isolated {cfg : DBPConfig} {d : Daemon} {a : Archives} (h : MetaIsolated cfg d a) :
    Isolated (namesOf a) removedOf d.ids := by
  intro x hx y hy hne n hn hpre
  obtain ⟨p, hp, rfl⟩ := List.mem_map.mp hx
  obtain ⟨q, hq, rfl⟩ := List.mem_map.mp hy
  obtain ⟨i, hi⟩ := List.mem_iff_getElem?.mp hp
  have hu := h.kill i p hi q hq hne.symm
  simp only [packageKill, hi, packageKillFiles] at hu
  rcases List.mem_append.mp hn with hn | hn
  · exact ((mem_names_kill _ _ _).mp (hu.icons n hn)).2 hpre
  · exact ((mem_names_kill _ _ _).mp (hu.desktops n hn)).2 hpre

/-- Another package's entry stays when one is erased. -/
theorem mem_packageKill (cfg : DBPConfig) {d : Daemon} {i : ℕ} {p q : PackageEntry} (hp : d.p.entry[i]? = some p)
    (hq : q ∈ d.p.entry) (hne : q.id ≠ p.id) : q ∈ (packageKill cfg d i).p.entry := by
  simp only [packageKill, hp]
  obtain ⟨j, hj⟩ := List.mem_iff_getElem?.mp hq
  refine List.mem_eraseIdx_iff_getElem?.mpr ⟨j, fun hij => hne ?_, hj⟩
  rw [hij, hp] at hj
  rw [Option.some.inj hj]

/-- Isolation is what the directories and the names say of it. -/
theorem metaIsolated_iff (cfg : DBPConfig) (d : Daemon) (a : Archives) :
    MetaIsolated cfg d a ↔ FilesOk a d.icons d.desktops d.ids := by
  constructor
  · intro h
    exact ⟨h.ids, (metaNames_eq_iff (iconsOf_starts a)).mpr h.icons,
      (metaNames_eq_iff (desktopsOf_starts a)).mpr h.desktops, h.isolated⟩
  · intro h
    refine ⟨h.nodup, (metaNames_eq_iff (iconsOf_starts a)).mp h.icons,
      (metaNames_eq_iff (desktopsOf_starts a)).mp h.desktops, fun p hp q hq hne => ?_, fun i p hp q hq hne => ?_,
      fun device q hq => (releasing_releaseMount cfg h device).untouched hq⟩
    · have hdisj : ∀ n ∈ namesOf a p.id, n ∉ namesOf a q.id := fun n hn hn' =>
        h.isolated.disjoint (namesOf_subset a) (List.mem_map_of_mem hp) (List.mem_map_of_mem hq) hne hn hn'
      exact ⟨fun n hn hn' => hdisj n (iconsOf_subset a _ hn) (iconsOf_subset a _ hn'),
        fun n hn hn' => hdisj n (desktopsOf_subset a _ hn) (desktopsOf_subset a _ hn')⟩
    · exact (releasing_kill cfg h hp).untouched (mem_packageKill cfg hp hq hne)

/-! ### Registrations that keep the isolation -/

/-- A registration of an id nobody has, by names and prefix without a clash. -/
def NoClash (cfg : DBPConfig) (e : Env) (t : Daemon × Archives) (path : CStr) : Prop :=
  ∀ id ∈ readId e path, id ∉ t.1.ids → ∀ q ∈ t.1.ids, PairOk id q (extractedFiles cfg e id path) (t.2 q)

instance (cfg : DBPConfig) (e : Env) (t : Daemon × Archives) (path : CStr) : Decidable (NoClash cfg e t path) :=
  match h : readId e path with
  | none => isTrue (by simp [NoClash, h])
  | some id => decidable_of_iff
    (id ∉ t.1.ids → ∀ q ∈ t.1.ids, PairOk id q (extractedFiles cfg e id path) (t.2 q)) (by simp [NoClash, h])

/-- No registration of a call clashes. -/
def ClashFree (cfg : DBPConfig) (t : Daemon × Archives) : DaemonOp → Prop
  | .registerPath e _ path _ => packageFilenameInteresting cfg path → NoClash cfg e t path
  | .crawlMount e device path => Admissible (recordRegister cfg e device path) (NoClash cfg e) t (crawlPaths cfg e path)
  | _ => True

instance (cfg : DBPConfig) (t : Daemon × Archives) : ∀ op, Decidable (ClashFree cfg t op)
  | .registerPath e _ path _ => inferInstanceAs (Decidable (packageFilenameInteresting cfg path → NoClash cfg e t path))
  | .crawlMount e _ path => inferInstanceAs (Decidable (Admissible _ (NoClash cfg e) t (crawlPaths cfg e path)))
  | .releasePath _ => isTrue trivial
  | .releaseMount _ => isTrue trivial
  | .run _ _ _ => isTrue trivial
  | .stop _ _ => isTrue trivial
  | .purgatoryCheck _ => isTrue trivial

/-- Every package a call presents has an id that `package_id_validate` accepts. -/
def ValidIds (cfg : DBPConfig) : DaemonOp → Prop
  | .registerPath e _ path _ => ∀ id ∈ readId e path, packageIdValidate id
  | .crawlMount e _ path => ∀ f ∈ crawlPaths cfg e path, ∀ id ∈ readId e f, packageIdValidate id
  | _ => True

/-- The state of a run and the recorded archives. -/
abbrev Good (t : Daemon × Archives) : Prop := FilesOk t.2 t.1.icons t.1.desktops t.1.ids

theorem good_register (cfg : DBPConfig) (e : Env) (device mount : CStr) (t : Daemon × Archives) (path : CStr)
    (hv : ∀ id ∈ readId e path, packageIdValidate id) (h : Good t) (hn : NoClash cfg e t path) :
    Good (recordRegister cfg e device mount t path) := by
  have hc := recordRegister_cases cfg e device mount t path hv
  generalize recordRegister cfg e device mount t path = t' at hc ⊢
  cases hc with
  | added id d hr hid hids hi hd =>
    rw [Good, hids]
    exact h.register hid hi hd (hn id (by rw [hr]; rfl) hid)
  | same hr => exact h

/-- What a registration does to the isolation, whether it clashes or not: it only grows the
registry, and an isolated registry after it tells that it did not clash. -/
theorem record_grows (cfg : DBPConfig) (e : Env) (device mount : CStr) (t : Daemon × Archives) (path : CStr)
    (hv : ∀ id ∈ readId e path, packageIdValidate id) :
    (∀ id ∈ t.1.ids, id ∈ (recordRegister cfg e device mount t path).1.ids ∧
        (recordRegister cfg e device mount t path).2 id = t.2 id) ∧
      (Isolated (namesOf (recordRegister cfg e device mount t path).2) removedOf
        (recordRegister cfg e device mount t path).1.ids → NoClash cfg e t path) := by
  have hc := recordRegister_cases cfg e device mount t path hv
  generalize recordRegister cfg e device mount t path = t' at hc ⊢
  cases hc with
  | added id d hr hid hids hi hd =>
    refine ⟨fun x hx => ⟨by rw [hids]; exact List.mem_append_left _ hx, ?_⟩, fun h x hx hnew => ?_⟩
    · exact Function.update_of_ne (ne_of_mem_of_not_mem hx hid) _ _
    · obtain rfl : id = x := by simpa [hr] using hx
      rw [hids] at h
      exact isolated_register hid h
  | same hr => exact ⟨fun x hx => ⟨hx, rfl⟩, fun _ x hx hnew => absurd (hr x hx) hnew⟩

theorem record_foldl_grows (cfg : DBPConfig) (e : Env) (device mount : CStr) : ∀ (fs : List CStr)
    (t : Daemon × Archives), (∀ f ∈ fs, ∀ id ∈ readId e f, packageIdValidate id) → ∀ id ∈ t.1.ids,
      id ∈ (fs.foldl (recordRegister cfg e device mount) t).1.ids ∧
        (fs.foldl (recordRegister cfg e device mount) t).2 id = t.2 id
  | [], _, _, _, hid => ⟨hid, rfl⟩
  | f :: fs, t, hv, id, hid => by
    obtain ⟨h1, h2⟩ := (record_grows cfg e device mount t f (hv f (by simp))).1 id hid
    obtain ⟨h3, h4⟩ := record_foldl_grows cfg e device mount fs _ (fun f hf => hv f (by simp [hf])) id h1
    exact ⟨h3, h4.trans h2⟩

/-- A crawl. -/
theorem good_crawl (cfg : DBPConfig) (e : Env) (device mount : CStr) : ∀ (fs : List CStr) (t : Daemon × Archives),
    (∀ f ∈ fs, ∀ id ∈ readId e f, packageIdValidate id) → Good t →
      (Good (fs.foldl (recordRegister cfg e device mount) t) ↔
        Admissible (recordRegister cfg e device mount) (NoClash cfg e) t fs)
  | [], _, _, h => ⟨fun _ => trivial, fun _ => h⟩
  | f :: fs, t, hv, h => by
    have hvf := hv f (by simp)
    have hvs : ∀ f ∈ fs, ∀ id ∈ readId e f, packageIdValidate id := fun f hf => hv f (by simp [hf])
    have ih := fun h => good_crawl cfg e device mount fs (recordRegister cfg e device mount t f) hvs h
    rw [List.foldl_cons]
    refine ⟨fun hend => ?_, fun ⟨h1, h2⟩ => ?_⟩
    · have hmid : NoClash cfg e t f := by
        refine (record_grows cfg e device mount t f hvf).2 fun p hp q hq hne n hn => ?_
        have hgrow := record_foldl_grows cfg e device mount fs (recordRegister cfg e device mount t f) hvs
        refine hend.isolated p (hgrow p hp).1 q (hgrow q hq).1 hne n ?_
        show n ∈ exportedNames q _
        rw [(hgrow q hq).2]
        exact hn
      have hg := good_register cfg e device mount t f hvf h hmid
      exact ⟨hmid, (ih hg).mp hend⟩
    · exact (ih (good_register cfg e device mount t f hvf h h1)).mpr h2

theorem good_of_same {t : Daemon × Archives} {d' : Daemon} (h : Good t) (hs : SameRegistry t.1 d') :
    Good (d', t.2) := by
  show FilesOk t.2 d'.icons d'.desktops d'.ids
  rw [hs.icons, hs.desktops, Daemon.ids, hs.entry]
  exact h

/-- One call. -/
theorem good_step (cfg : DBPConfig) (t : Daemon × Archives) (op : DaemonOp) (hv : ValidIds cfg op) (h : Good t) :
    Good (recordStep cfg t op) ↔ ClashFree cfg t op := by
  cases op with
  | registerPath e device path mount =>
    unfold recordStep ClashFree
    by_cases hp : packageFilenameInteresting cfg path
    · simp only [hp, ↓reduceIte, forall_const]
      exact ⟨fun h' => (record_grows cfg e device mount t path hv).2 h'.isolated,
        good_register cfg e device mount t path hv h⟩
    · simp [hp, h]
  | crawlMount e device path => exact good_crawl cfg e device path _ t hv h
  | releasePath path =>
    have hgood : Good ((packageReleasePath cfg t.1 path).2, t.2) := by
      unfold packageReleasePath
      cases hf : t.1.p.entry.findIdx? fun p => p.path == dropSlash path with
      | none => exact h
      | some i =>
        obtain ⟨hi, -⟩ := List.findIdx?_eq_some_iff_getElem.mp hf
        exact (releasing_kill cfg h (List.getElem?_eq_getElem hi)).files
    exact ⟨fun _ => trivial, fun _ => hgood⟩
  | releaseMount device => exact ⟨fun _ => trivial, fun _ => (releasing_releaseMount cfg h device).files⟩
  | run ret id user => exact ⟨fun _ => trivial, fun _ => good_of_same h (sameRegistry_run t.1 ret id user)⟩
  | stop now runId => exact ⟨fun _ => trivial, fun _ => good_of_same h (sameRegistry_stop t.1 now runId)⟩
  | purgatoryCheck out => exact ⟨fun _ => trivial, fun _ => good_of_same h (sameRegistry_purgatoryCheck t.1 out)⟩

/-- **Meta-file isolation of runs.** Over directories without stale `__dbp__` files, the runs
whose states are all isolated are those whose registrations do not clash. -/
theorem meta_isolation (cfg : DBPConfig) (icons desktops execs : Dir) (ops : List DaemonOp)
    (hi : ∀ n ∈ icons.names, ¬ metaPrefix <+: n) (hd : ∀ n ∈ desktops.names, ¬ metaPrefix <+: n)
    (hv : ∀ op ∈ ops, ValidIds cfg op) :
    (∀ pre, pre <+: ops → MetaIsolated cfg (Daemon.run cfg (Daemon.init icons desktops execs) pre)
      (registeredFiles cfg (Daemon.init icons desktops execs) pre)) ↔
    Admissible (recordStep cfg) (ClashFree cfg) (Daemon.init icons desktops execs, fun _ => []) ops := by
  have hnone : ∀ {d : Dir} {f : CStr → Set CStr}, (∀ n ∈ d.names, ¬ metaPrefix <+: n) → metaNames d = owned f [] := by
    intro d f h
    ext n
    exact ⟨fun ⟨hn, hp⟩ => absurd hp (h n hn), fun ⟨_, hk, _⟩ => absurd hk (by simp)⟩
  have h0 : Good (Daemon.init icons desktops execs, fun _ => []) :=
    ⟨List.nodup_nil, hnone hi, hnone hd, fun p hp => absurd hp (by simp [Daemon.ids, Daemon.init, packageInit])⟩
  rw [← run_iff ops _ (fun t op hop h => good_step cfg t op (hv op hop) h) h0]
  refine forall_congr' fun pre => forall_congr' fun _ => ?_
  rw [metaIsolated_iff, registeredFiles, Good, recordRun_fst]

/-- Two packages with an icon each come to the registry, and the first one is removed. -/
def twoPackages (id id' : CStr) : List DaemonOp :=
  let e := demoEnv [(lit "/m/1.dbp", [demoMeta id, (lit "icons/x.png", lit "1")]),
    (lit "/m/2.dbp", [demoMeta id', (lit "icons/y.png", lit "2")])]
  [.registerPath e (lit "/dev/sda1") (lit "/m/1.dbp") (lit "/m"),
    .registerPath e (lit "/dev/sda1") (lit "/m/2.dbp") (lit "/m"), .releasePath (lit "/m/1.dbp")]

theorem meta_isolation_demo : MetaIsolated demoConfig
    (Daemon.run demoConfig (Daemon.init [] [] []) (twoPackages (lit "a") (lit "b")))
    (registeredFiles demoConfig (Daemon.init [] [] []) (twoPackages (lit "a") (lit "b"))) :=
  (meta_isolation demoConfig [] [] [] (twoPackages (lit "a") (lit "b")) (by decide) (by decide) (by
    intro op hop
    simp only [twoPackages, List.mem_cons, List.not_mem_nil, or_false] at hop
    rcases hop with rfl | rfl | rfl
    · show ∀ id ∈ readId _ _, _
      decide
    · show ∀ id ∈ readId _ _, _
      decide
    · trivial)).mpr (by decide) _ (List.prefix_refl _)

/-- With the ids `a` and `a_b` the removal of the first package deletes the icon of the second. -/
theorem meta_isolation_underscore : ¬ MetaIsolated demoConfig
    (Daemon.run demoConfig (Daemon.init [] [] []) (twoPackages (lit "a") (lit "a_b")))
    (registeredFiles demoConfig (Daemon.init [] [] []) (twoPackages (lit "a") (lit "a_b"))) := by
  intro h
  have hicon := (h.icons (lit "__dbp__a_b_y.png") (by decide)).mpr
  exact absurd (hicon (by decide)) (by decide)

end Dbp
