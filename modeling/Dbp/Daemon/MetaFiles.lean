/-
# The exported files of the registered packages

A package's icons and launchers are exported as `__dbp__<id>_<file>`, and
`package_meta_remove` takes back everything that starts with `__dbp__<id>_`.
`FilesOk` says that the two directories hold the exported files of a list of
packages, none of whose removals reaches into the files of another; a
removal keeps it, and so does a registration unless the new package's names
or its removal prefix clash with a registered one's.

Key definitions: `exportedIcons`, `exportedDesktops`, `Archives`, `FilesOk`, `PairOk`.
Key theorems: `foldl_exported`, `names_desktops_extract`, `mem_icons_extract`, `mem_desktops_extract`, `FilesOk.kill`,
`pairOk_of_ids`, `FilesOk.register`.
-/
import Dbp.Daemon.RegistryIds
import Dbp.Lib.Namespace

namespace Dbp

open CLib Sweep Find Runs Namespaces

/-! ### The names a package exports -/

/-- The files of an archive that `sel` selects, under their exported names. -/
def exported (sel : CStr → Bool) (id : CStr) (files : List ArchiveFile) : List CStr :=
  (files.filter fun f => f.1.length ≤ 256 && sel f.1).map fun f => metaName id (findFilename f.1)

/-- The icons of an archive. -/
def exportedIcons : CStr → List ArchiveFile → List CStr := exported isIcon

/-- The launchers of an archive. -/
def exportedDesktops : CStr → List ArchiveFile → List CStr := exported fun f => !isIcon f && isDesktop f

/-- Both. -/
def exportedNames (id : CStr) (files : List ArchiveFile) : List CStr :=
  exportedIcons id files ++ exportedDesktops id files

/-- Whether a file of an archive can be written under its exported name. -/
def Env.opensFile (cfg : DBPConfig) (e : Env) (id : CStr) (f : ArchiveFile) : Bool :=
  e.opens ((if isIcon f.1 then cfg.iconDirectory else cfg.desktopDirectory) ++ lit "/" ++ metaName id (findFilename f.1))

/-- The files of the archive at a path that are extracted, as far as they are icons or launchers. -/
def extractedFiles (cfg : DBPConfig) (e : Env) (id path : CStr) : List ArchiveFile :=
  ((e.archive path).getD []).filter (e.opensFile cfg id)

/-- The names in a directory with one more file. -/
def addName (names : List CStr) (n : CStr) : List CStr := if n ∈ names then names else names ++ [n]

theorem mem_addName {names : List CStr} {m n : CStr} : m ∈ addName names n ↔ m = n ∨ m ∈ names := by
  unfold addName
  split_ifs with h
  · exact ⟨.inr, fun hm => hm.elim (· ▸ h) id⟩
  · rw [List.mem_append, List.mem_singleton, or_comm]

theorem mem_addName_self (names : List CStr) (n : CStr) : n ∈ addName names n := mem_addName.mpr (.inl rfl)

theorem mem_addName_of_mem {names : List CStr} {m : CStr} (h : m ∈ names) (n : CStr) : m ∈ addName names n :=
  mem_addName.mpr (.inr h)

theorem mem_foldl_addName {n : CStr} : ∀ (ns : List CStr) (names : List CStr),
    n ∈ ns.foldl addName names ↔ n ∈ names ∨ n ∈ ns
  | [], names => by simp
  | m :: ns, names => by
    rw [List.foldl_cons, mem_foldl_addName ns, mem_addName, List.mem_cons, or_assoc, or_left_comm]

theorem names_write (d : Dir) (name data : CStr) : (d.write name data).names = addName d.names name := by
  unfold Dir.write addName
  split_ifs with h
  · rw [Dir.names, List.map_map]
    apply List.map_congr_left
    intro f _
    show (if f.1 = name then (name, data) else f).1 = f.1
    split_ifs with hf
    · exact hf.symm
    · rfl
  · simp [Dir.names]

/-- The loop over an archive, seen from a part of the state that only the selected files change. -/
theorem foldl_exported {β : Type*} (g : MetaState → β) (h : β → CStr → β) (sel : CStr → Bool) {id : CStr}
    {turn : MetaState → ArchiveFile → MetaState} : ∀ (files : List ArchiveFile) (m : MetaState),
    (∀ f ∈ files, ∀ m, g (turn m f) =
      if f.1.length ≤ 256 && sel f.1 then h (g m) (metaName id (findFilename f.1)) else g m) →
      g (files.foldl turn m) = (exported sel id files).foldl h (g m)
  | [], _, _ => rfl
  | f :: files, m, hturn => by
    have hfiles := foldl_exported g h sel files (turn m f) fun f' hf' => hturn f' (List.mem_cons_of_mem f hf')
    rw [List.foldl_cons, hfiles, hturn f List.mem_cons_self]
    unfold exported
    rw [List.filter_cons]
    split_ifs <;> rfl

section ExtractFile

variable (cfg : DBPConfig) {e : Env} {p : PackageEntry} {f : ArchiveFile} (announce : Bool) (m : MetaState)

/-- A file that cannot be written is passed over. -/
theorem extractFile_closed (h : e.opensFile cfg p.id f = false) : packageMetaExtractFile cfg e p announce m f = m := by
  unfold packageMetaExtractFile packageDesktopWrite
  unfold Env.opensFile at h
  cases hi : isIcon f.1 <;> simp [hi] at h ⊢ <;> simp [h]

/-- A file of an archive is too long a name, an icon, a launcher, or nothing of these. -/
theorem extractFile_eq (h : e.opensFile cfg p.id f = true) : packageMetaExtractFile cfg e p announce m f =
    if f.1.length ≤ 256 && isIcon f.1 then { m with icons := m.icons.write (metaName p.id (findFilename f.1)) f.2 }
    else if f.1.length ≤ 256 && (!isIcon f.1 && isDesktop f.1) then
      packageDesktopWrite cfg e p announce m (findFilename f.1) (cString f.2)
    else m := by
  unfold packageMetaExtractFile
  unfold Env.opensFile at h
  by_cases hlen : 256 < f.1.length
  · simp [hlen, not_le.mpr hlen]
  · cases hi : isIcon f.1 <;> simp [hi] at h <;> simp [hlen, not_lt.mp hlen, h]

/-- Where a launcher is written. -/
theorem opens_desktop (h : e.opensFile cfg p.id f = true) (hi : isIcon f.1 = false) :
    e.opens (cfg.desktopDirectory ++ lit "/" ++ metaName p.id (findFilename f.1)) = true := by
  simpa [Env.opensFile, hi] using h

end ExtractFile

section Extract

variable (cfg : DBPConfig) (e : Env) (path : CStr) (p : PackageEntry) (announce : Bool) (m : MetaState)

theorem icons_desktopWrite (fname data : CStr) : (packageDesktopWrite cfg e p announce m fname data).icons = m.icons := by
  simp only [packageDesktopWrite]
  split_ifs <;> rfl

/-- Only the files that can be written count. -/
theorem extract_eq : packageMetaExtract cfg e path p announce m =
    (extractedFiles cfg e p.id path).foldl (packageMetaExtractFile cfg e p announce) m := by
  have hskip : (fun m f => if e.opensFile cfg p.id f then packageMetaExtractFile cfg e p announce m f else m) =
      packageMetaExtractFile cfg e p announce := by
    funext m f
    cases h : e.opensFile cfg p.id f with
    | true => rfl
    | false => exact (extractFile_closed cfg announce m h).symm
  rw [extractedFiles, List.foldl_filter, hskip, packageMetaExtract]
  cases e.archive path <;> rfl

theorem opensFile_of_mem {f : ArchiveFile} {id : CStr} (h : f ∈ extractedFiles cfg e id path) :
    e.opensFile cfg id f = true := (List.mem_filter.mp h).2

theorem names_icons_extract : (packageMetaExtract cfg e path p announce m).icons.names =
    (exportedIcons p.id (extractedFiles cfg e p.id path)).foldl addName m.icons.names := by
  rw [extract_eq]
  refine foldl_exported (fun m => m.icons.names) addName isIcon _ m fun f hf m => ?_
  rw [extractFile_eq cfg announce m (opensFile_of_mem cfg e path hf), ← names_write m.icons _ f.2]
  split_ifs
  · rfl
  · rw [icons_desktopWrite]
  · rfl

/-- What a part of the state that only launchers change is after the extraction. -/
theorem extract_desktops {β : Type*} (g : MetaState → β) (h : β → CStr → β)
    (hicon : ∀ (m : MetaState) icons, g { m with icons := icons } = g m)
    (hdesk : ∀ (m : MetaState) fname data, e.opens (cfg.desktopDirectory ++ lit "/" ++ metaName p.id fname) = true →
      g (packageDesktopWrite cfg e p announce m fname data) = h (g m) (metaName p.id fname)) :
    g (packageMetaExtract cfg e path p announce m) =
      (exportedDesktops p.id (extractedFiles cfg e p.id path)).foldl h (g m) := by
  rw [extract_eq]
  refine foldl_exported g h (fun f => !isIcon f && isDesktop f) _ m fun f hf m => ?_
  have hopen := opensFile_of_mem cfg e path hf
  rw [extractFile_eq cfg announce m hopen]
  by_cases hi : f.1.length ≤ 256 && isIcon f.1
  · have hno : ¬ (f.1.length ≤ 256 && (!isIcon f.1 && isDesktop f.1)) = true := by simp_all
    rw [if_pos hi, if_neg hno, hicon]
  · rw [if_neg hi]
    split_ifs with hd
    · exact hdesk _ _ _ (opens_desktop cfg hopen (by simp_all))
    · rfl

theorem names_desktops_extract : (packageMetaExtract cfg e path p announce m).desktops.names =
    (exportedDesktops p.id (extractedFiles cfg e p.id path)).foldl addName m.desktops.names := by
  refine extract_desktops cfg e path p announce m (fun m => m.desktops.names) addName (fun _ _ => rfl) fun m _ _ ho => ?_
  simp only [packageDesktopWrite, ho, Bool.not_true, Bool.false_eq_true, if_false]
  exact names_write _ _ _

theorem mem_icons_extract (n : CStr) : n ∈ (packageMetaExtract cfg e path p announce m).icons.names ↔
    n ∈ m.icons.names ∨ n ∈ exportedIcons p.id (extractedFiles cfg e p.id path) := by
  rw [names_icons_extract, mem_foldl_addName]

theorem mem_desktops_extract (n : CStr) : n ∈ (packageMetaExtract cfg e path p announce m).desktops.names ↔
    n ∈ m.desktops.names ∨ n ∈ exportedDesktops p.id (extractedFiles cfg e p.id path) := by
  rw [names_desktops_extract, mem_foldl_addName]

end Extract

/-- The directories after the export of entry `i`. -/
theorem mem_names_export (cfg : DBPConfig) (d : Daemon) (e : Env) (path : CStr) {i : ℕ} {p : PackageEntry}
    (h : d.p.entry[i]? = some p) (n : CStr) :
    (n ∈ (packageExport cfg d e path i).icons.names ↔
      n ∈ d.icons.names ∨ n ∈ exportedIcons p.id (extractedFiles cfg e p.id path)) ∧
    (n ∈ (packageExport cfg d e path i).desktops.names ↔
      n ∈ d.desktops.names ∨ n ∈ exportedDesktops p.id (extractedFiles cfg e p.id path)) := by
  unfold packageExport
  simp only [h]
  exact ⟨mem_icons_extract cfg e path p _ _ n, mem_desktops_extract cfg e path p _ _ n⟩

/-- The directories after the registration of a package. -/
theorem mem_names_added (cfg : DBPConfig) {d : Daemon} (e : Env) (path : CStr) {s : PackageStrings}
    (h : packageAddCheck s.id d.p.entry = none) (n : CStr) :
    (n ∈ (packageExport cfg (packageAdd d e s).2 e path d.p.entry.length).icons.names ↔
      n ∈ d.icons.names ∨ n ∈ exportedIcons s.id (extractedFiles cfg e s.id path)) ∧
    (n ∈ (packageExport cfg (packageAdd d e s).2 e path d.p.entry.length).desktops.names ↔
      n ∈ d.desktops.names ∨ n ∈ exportedDesktops s.id (extractedFiles cfg e s.id path)) := by
  have hi : (packageAdd d e s).2.p.entry[d.p.entry.length]? = some (newEntry e d.p.entry s) := by
    rw [packageAdd_added h]
    exact List.getElem?_concat_length ..
  have hexp := mem_names_export cfg (packageAdd d e s).2 e path hi n
  rw [packageAdd_added h] at hexp ⊢
  exact hexp

theorem metaPrefixOf_starts {id n : CStr} {files : List ArchiveFile} (h : n ∈ exportedNames id files) :
    metaPrefixOf id <+: n := by
  have hname : ∀ fname, metaPrefixOf id <+: metaName id fname := fun fname => List.prefix_append _ _
  rcases List.mem_append.mp h with h | h
  all_goals
    obtain ⟨f, -, rfl⟩ := List.mem_map.mp h
    exact hname _

theorem metaPrefix_starts (id : CStr) : metaPrefix <+: metaPrefixOf id :=
  ⟨id ++ lit "_", by simp [metaPrefixOf]⟩

/-- The names that `package_kill_prefix` leaves. -/
theorem mem_names_kill (d : Dir) (pre n : CStr) : n ∈ (packageKillPrefix d pre).1.names ↔ n ∈ d.names ∧ ¬ pre <+: n := by
  unfold packageKillPrefix
  simp only [Dir.names, List.mem_map, List.mem_filter, Bool.not_eq_true', ← Bool.not_eq_true,
    List.isPrefixOf_iff_prefix]
  refine ⟨?_, ?_⟩
  · rintro ⟨f, ⟨hf, hp⟩, rfl⟩
    exact ⟨⟨f, hf, rfl⟩, hp⟩
  · rintro ⟨⟨f, hf, rfl⟩, hp⟩
    exact ⟨f, ⟨hf, hp⟩, rfl⟩

/-! ### The directories and the registered packages -/

/-- The archives of the registered packages, by id, as they were at registration. -/
abbrev Archives := CStr → List ArchiveFile

/-- The names in a directory that carry the `__dbp__` prefix. -/
def metaNames (d : Dir) : Set CStr := {n | n ∈ d.names ∧ metaPrefix <+: n}

def iconsOf (a : Archives) (id : CStr) : Set CStr := {n | n ∈ exportedIcons id (a id)}

def desktopsOf (a : Archives) (id : CStr) : Set CStr := {n | n ∈ exportedDesktops id (a id)}

def namesOf (a : Archives) (id : CStr) : Set CStr := {n | n ∈ exportedNames id (a id)}

/-- What `package_meta_remove` takes back. -/
def removedOf (id : CStr) : Set CStr := {n | metaPrefixOf id <+: n}

theorem iconsOf_subset (a : Archives) (id : CStr) : iconsOf a id ⊆ namesOf a id :=
  fun _ h => List.mem_append_left _ h

theorem desktopsOf_subset (a : Archives) (id : CStr) : desktopsOf a id ⊆ namesOf a id :=
  fun _ h => List.mem_append_right _ h

theorem namesOf_subset (a : Archives) (id : CStr) : namesOf a id ⊆ removedOf id := fun _ h => metaPrefixOf_starts h

theorem of_update (f : CStr → List ArchiveFile → List CStr) (a : Archives) (id : CStr) (files : List ArchiveFile) :
    (fun k => {n | n ∈ f k (Function.update a id files k)}) =
      Function.update (fun k => {n | n ∈ f k (a k)}) id {n | n ∈ f id files} := by
  funext k
  by_cases hk : k = id
  · subst hk
    rw [Function.update_self, Function.update_self]
  · rw [Function.update_of_ne hk, Function.update_of_ne hk]

/-- The directories hold the files of the packages `ids`, and these are isolated. -/
structure FilesOk (a : Archives) (icons desktops : Dir) (ids : List CStr) : Prop where
  nodup : ids.Nodup
  icons : metaNames icons = owned (iconsOf a) ids
  desktops : metaNames desktops = owned (desktopsOf a) ids
  isolated : Isolated (namesOf a) removedOf ids

theorem metaNames_kill (d : Dir) (id : CStr) :
    metaNames (packageKillPrefix d (metaPrefixOf id)).1 = metaNames d \ removedOf id := by
  ext n
  show n ∈ (packageKillPrefix d (metaPrefixOf id)).1.names ∧ _ ↔ (n ∈ d.names ∧ _) ∧ ¬ metaPrefixOf id <+: n
  rw [mem_names_kill]
  tauto

/-- A removal. -/
theorem FilesOk.kill {a : Archives} {icons desktops : Dir} {l r : List CStr} {id : CStr}
    (h : FilesOk a icons desktops (l ++ id :: r)) :
    FilesOk a (packageKillPrefix icons (metaPrefixOf id)).1 (packageKillPrefix desktops (metaPrefixOf id)).1
      (l ++ r) where
  nodup := h.nodup.sublist (List.Sublist.append_left (List.sublist_cons_self id r) l)
  icons := by
    rw [metaNames_kill, h.icons, owned_remove (h.isolated.mono (iconsOf_subset a))
      (fun k => (iconsOf_subset a k).trans (namesOf_subset a k)) h.nodup]
  desktops := by
    rw [metaNames_kill, h.desktops, owned_remove (h.isolated.mono (desktopsOf_subset a))
      (fun k => (desktopsOf_subset a k).trans (namesOf_subset a k)) h.nodup]
  isolated := h.isolated.subset fun k hk => (List.Sublist.append_left (List.sublist_cons_self id r) l).subset hk

theorem metaNames_add {d d' : Dir} {id : CStr} {files : List ArchiveFile} {new : List CStr}
    (h : ∀ n, n ∈ d'.names ↔ n ∈ d.names ∨ n ∈ new) (hs : ∀ n ∈ new, n ∈ exportedNames id files) :
    metaNames d' = metaNames d ∪ {n | n ∈ new} := by
  ext n
  show n ∈ d'.names ∧ metaPrefix <+: n ↔ (n ∈ d.names ∧ metaPrefix <+: n) ∨ n ∈ new
  have hp : n ∈ new → metaPrefix <+: n := fun hn => (metaPrefix_starts id).trans (metaPrefixOf_starts (hs n hn))
  rw [h]
  tauto

/-- The names that packages `p` and `q` export do not begin with each other's removal prefix. -/
def PairOk (p q : CStr) (fp fq : List ArchiveFile) : Prop :=
  (∀ n ∈ exportedNames p fp, ¬ metaPrefixOf q <+: n) ∧ ∀ n ∈ exportedNames q fq, ¬ metaPrefixOf p <+: n

instance (p q : CStr) (fp fq : List ArchiveFile) : Decidable (PairOk p q fp fq) := inferInstanceAs (Decidable (_ ∧ _))

/-- Two ids whose exported names can be the same. -/
theorem ids_of_metaPrefixOf {p q n : CStr} (hp : metaPrefixOf p <+: n) (hq : metaPrefixOf q <+: n) :
    p = q ∨ p ++ lit "_" <+: q ∨ q ++ lit "_" <+: p := by
  have hcancel : ∀ {x y : CStr}, metaPrefixOf x <+: metaPrefixOf y → x = y ∨ x ++ lit "_" <+: y := by
    intro x y h
    rw [metaPrefixOf, metaPrefixOf, List.append_assoc, List.append_assoc, List.prefix_append_right_inj] at h
    exact (List.prefix_concat_iff.mp h).imp (List.append_inj_left' · rfl) id
  rcases List.prefix_or_prefix_of_prefix hp hq with h | h
  · exact (hcancel h).imp_right .inl
  · exact (hcancel h).imp Eq.symm .inr

theorem not_prefix_of_ids {p q n : CStr} {files : List ArchiveFile} (hne : p ≠ q) (hpq : ¬ p ++ lit "_" <+: q)
    (hqp : ¬ q ++ lit "_" <+: p) (hn : n ∈ exportedNames p files) : ¬ metaPrefixOf q <+: n := fun hq =>
  (ids_of_metaPrefixOf (metaPrefixOf_starts hn) hq).elim hne fun h => h.elim hpq hqp

/-- Only ids of which one, followed by `_`, begins the other can clash. -/
theorem pairOk_of_ids {p q : CStr} (hne : p ≠ q) (hpq : ¬ p ++ lit "_" <+: q) (hqp : ¬ q ++ lit "_" <+: p)
    (fp fq : List ArchiveFile) : PairOk p q fp fq :=
  ⟨fun _ hn => not_prefix_of_ids hne hpq hqp hn, fun _ hn => not_prefix_of_ids hne.symm hqp hpq hn⟩

/-- A registration. -/
theorem FilesOk.register {a : Archives} {icons desktops icons' desktops' : Dir} {ids : List CStr} {id : CStr}
    {files : List ArchiveFile} (h : FilesOk a icons desktops ids) (hid : id ∉ ids)
    (hi : ∀ n, n ∈ icons'.names ↔ n ∈ icons.names ∨ n ∈ exportedIcons id files)
    (hd : ∀ n, n ∈ desktops'.names ↔ n ∈ desktops.names ∨ n ∈ exportedDesktops id files)
    (hp : ∀ q ∈ ids, PairOk id q files (a q)) :
    FilesOk (Function.update a id files) icons' desktops' (ids ++ [id]) where
  nodup := nodup_concat h.nodup hid
  icons := by
    rw [metaNames_add hi fun n hn => List.mem_append_left _ hn, h.icons, ← owned_concat hid]
    exact congrArg (owned · _) (of_update exportedIcons a id files).symm
  desktops := by
    rw [metaNames_add hd fun n hn => List.mem_append_right _ hn, h.desktops, ← owned_concat hid]
    exact congrArg (owned · _) (of_update exportedDesktops a id files).symm
  isolated := by
    rw [show namesOf (Function.update a id files) = _ from of_update exportedNames a id files]
    exact (isolated_concat hid).mpr ⟨h.isolated, hp⟩

/-- An isolated registry was one before its last registration, which did not clash. -/
theorem isolated_register {a : Archives} {ids : List CStr} {id : CStr} {files : List ArchiveFile} (hid : id ∉ ids)
    (h : Isolated (namesOf (Function.update a id files)) removedOf (ids ++ [id])) :
    ∀ q ∈ ids, PairOk id q files (a q) := by
  rw [show namesOf (Function.update a id files) = _ from of_update exportedNames a id files] at h
  exact ((isolated_concat hid).mp h).2

end Dbp
