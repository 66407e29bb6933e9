/-
# What the daemon makes of a valid package

A package file whose meta data is a tree that the validator has passed is
registered by the daemon, whatever packages it has, unless one of that id is
among them: the id is legal and is listed, the directory for its data has the
name that the package asks for, its launchers are in the launcher directory,
and each that names an icon has the path of an icon file that has been
exported too (`valid_package_registers`).

This takes that the package has the files of the tree and no launchers
besides, that its texts read the same whatever lies on the stack, that no
launcher is overridden, and that the files to be written can be opened. The
launchers and icons it is about are those whose exported names are short
enough for a file.

Key definitions: `ReadsAlike`, `NoOverrides`, `OpensNames`, `Packed`.
Key theorems: `packageIdValidate_of_strict`, `desktopKey_launcherFile`, `mem_desktops_extracted`, `valid_package_registers`.
-/
import Dbp.Daemon.MetaFiles
import Dbp.Daemon.RegisterPath
import Dbp.Validate.PackageData

namespace Dbp

open CLib Sweep Find Runs

/-- The parser reads the text the same whatever its buffers hold. -/
def ReadsAlike (text : CStr) : Prop := ∀ b b', dbpDesktopParse (cString text) b = dbpDesktopParse (cString text) b'

/-- So it does if the writer has written it. -/
theorem Writable.readsAlike {df : DesktopFile} (h : Writable df) (hnul : '\x00' ∉ dbpDesktopWrite df) :
    ReadsAlike (dbpDesktopWrite df) := by
  have hc : cString (dbpDesktopWrite df) = dbpDesktopWrite df :=
    List.takeWhile_eq_self_iff.mpr fun c hc => by simpa using ne_of_mem_of_not_mem hc hnul
  intro b b'
  rw [hc, h.parse, h.parse]

/-- No launcher is overridden. -/
def NoOverrides (e : Env) : Prop := ∀ path, (lit "_ovr").isSuffixOf path = true → e.readFile path = none

/-- Files of names that are not too long can be written in the directories for icons and launchers. -/
def OpensNames (cfg : DBPConfig) (e : Env) : Prop := ∀ dir ∈ [cfg.iconDirectory, cfg.desktopDirectory],
  ∀ name : CStr, '/' ∉ name → name.length ≤ 255 → e.opens (dir ++ lit "/" ++ name) = true

/-- The package has the icons of the tree at `metaPath`, and its launchers and no others. -/
structure Packed (t : ExtractedTree) (metaPath : CStr) (files : List ArchiveFile) : Prop where
  default : ∃ data, (lit "meta/default.desktop", data) ∈ files
  icons : ∀ name ∈ t.listed (metaPath ++ lit "/icons") ".png",
    '/' ∉ name ∧ ∃ data, (lit "icons/" ++ name, data) ∈ files
  launchers : ∀ f ∈ files, isDesktop f.1 = true → isIcon f.1 = false →
    (∃ name ∈ t.listed (metaPath ++ lit "/meta") ".desktop", '/' ∉ name ∧ f.1 = lit "meta/" ++ name ∧
      t.readFile (metaPath ++ lit "/meta" ++ lit "/" ++ name) = some f.2) ∧ ReadsAlike f.2

/-! ### Ids -/

theorem idChar_of_strict {c : Char} (h : strictChar c = true) : idChar c = true := by
  simp only [strictChar, idChar, Bool.and_eq_true, Bool.or_eq_true, decide_eq_true_eq, beq_iff_eq] at h ⊢
  tauto

/-- The daemon takes the names that the validator takes. -/
theorem packageIdValidate_of_strict {str : CStr} (h : conformsStrictNameType str = true) :
    packageIdValidate str = true := by
  simp only [conformsStrictNameType, Bool.and_eq_true, bne_iff_ne, ne_eq, List.all_eq_true] at h
  obtain ⟨⟨hdot, -⟩, hall⟩ := h
  simp only [packageIdValidate, Bool.and_eq_true, bne_iff_ne, ne_eq, List.all_eq_true]
  refine ⟨⟨?_, ?_⟩, fun c hc => idChar_of_strict (hall c hc)⟩
  · rintro rfl
    exact hdot rfl
  · rintro rfl
    exact hdot rfl

/-- They are not the mark for no package. -/
theorem ne_mark_of_strict {str : CStr} (h : conformsStrictNameType str = true) : str ≠ lit "!" := by
  rintro rfl
  exact absurd h (by decide)

/-! ### Launchers and their icons -/

/-- A search that does not look at what is changed. -/
theorem findIdx?_modify {α : Type*} {p : α → Bool} {f : α → α} (h : ∀ x, p (f x) = p x) : ∀ (xs : List α) (i : ℕ),
    (xs.modify i f).findIdx? p = xs.findIdx? p
  | [], i => by cases i <;> rfl
  | x :: xs, 0 => by rw [List.modify_zero_cons, List.findIdx?_cons, List.findIdx?_cons, h]
  | x :: xs, i + 1 => by rw [List.modify_succ_cons, List.findIdx?_cons, List.findIdx?_cons, findIdx?_modify h xs i]

/-- The file with another value for an entry. -/
def setValue (df : DesktopFile) (sec ent : ℕ) (value : CStr) : DesktopFile :=
  ⟨df.section_.modify sec fun s => { s with entry := s.entry.modify ent fun en => { en with value := value } }⟩

section Launcher

variable (df : DesktopFile) (s i : ℕ) (value : CStr)

theorem lookupSection_setValue (name : CStr) : dbpDesktopLookupSection (setValue df s i value) (some name) =
    dbpDesktopLookupSection df (some name) := by
  unfold dbpDesktopLookupSection setValue
  dsimp only
  rcases hsec : df.section_ with _ | ⟨x, xs⟩
  · cases s <;> rfl
  · cases s with
    | zero => rw [List.modify_zero_cons, List.tail_cons, List.tail_cons]
    | succ s =>
      rw [List.modify_succ_cons, List.tail_cons, List.tail_cons, findIdx?_modify]
      exact fun _ => rfl

theorem sec_setValue : (setValue df s i value).sec s =
    { df.sec s with entry := (df.sec s).entry.modify i fun en => { en with value := value } } := by
  simp only [DesktopFile.sec, setValue, List.getD_eq_getElem?_getD, List.getElem?_modify_eq]
  cases df.section_[s]? <;> simp

theorem lookupEntry_setValue (key : CStr) :
    dbpDesktopLookupEntry (setValue df s i value) key [] s = dbpDesktopLookupEntry df key [] s := by
  rw [dbpDesktopLookupEntry, sec_setValue, findIdx?_modify]
  · rfl
  · exact fun _ => rfl

variable {df s i} in
/-- The value is read back. -/
theorem desktopKey_setValue {key : String} (hs : dbpDesktopLookupSection df (some (lit "Desktop Entry")) = some s)
    (hi : dbpDesktopLookupEntry df (lit key) [] s = some i) : desktopKey (setValue df s i value) key = some value := by
  have hlt : i < (df.sec s).entry.length := (List.findIdx?_eq_some_iff_findIdx_eq.mp hi).1
  simp only [desktopKey, dbpDesktopLookup, lookupSection_setValue, hs, lookupEntry_setValue, hi, DesktopFile.value,
    sec_setValue]
  simp [List.getD_eq_getElem?_getD, List.getElem?_eq_getElem hlt]

/-- A launcher that is not overridden is exported with the path of its exported icon. -/
theorem desktopKey_launcherFile (cfg : DBPConfig) {e : Env} (he : NoOverrides e) (p : PackageEntry) (fname : CStr)
    {data icon : CStr} (h : desktopKey (dbpDesktopParse data e.stack) "Icon" = some icon) :
    desktopKey (launcherFile cfg e p fname data) "Icon" = some (cfg.iconDirectory ++ lit "/" ++ metaName p.id icon) := by
  have hovr : e.readFile (p.mount ++ lit "/" ++ cfg.dataDirectory ++ lit "/" ++ p.appdata ++ lit "/" ++ p.id ++
      lit "_" ++ fname ++ lit "_ovr") = none := he _ (List.isSuffixOf_iff_suffix.mpr (List.suffix_append _ _))
  unfold launcherFile
  simp only [hovr]
  generalize dbpDesktopParse data e.stack = df at h ⊢
  unfold desktopKey dbpDesktopLookup at h
  cases hs : dbpDesktopLookupSection df (some (lit "Desktop Entry")) with
  | none => simp [hs] at h
  | some s =>
    cases hi : dbpDesktopLookupEntry df (lit "Icon") [] s with
    | none => simp [hs, hi] at h
    | some i =>
      simp only [hs, hi, Option.some.injEq] at h ⊢
      rw [← h]
      exact desktopKey_setValue _ hs hi

end Launcher

/-! ### The launchers that are written -/

theorem mem_write_self (d : Dir) (name data : CStr) : (name, data) ∈ d.write name data := by
  unfold Dir.write
  split_ifs with h
  · obtain ⟨f, hf, hname⟩ := List.mem_map.mp h
    exact List.mem_map.mpr ⟨f, hf, if_pos hname⟩
  · exact List.mem_append_right _ List.mem_cons_self

/-- A file that is there stays, if no other contents are written to it. -/
theorem mem_write_of_mem {d : Dir} {f : CStr × CStr} (h : f ∈ d) {name data : CStr} (hsame : f.1 = name → f.2 = data) :
    f ∈ d.write name data := by
  unfold Dir.write
  split_ifs
  · refine List.mem_map.mpr ⟨f, h, ?_⟩
    split_ifs with hname
    · exact Prod.ext hname.symm (hsame hname).symm
    · rfl
  · exact List.mem_append_left _ h

section Written

variable (cfg : DBPConfig) (e : Env) (p : PackageEntry) (announce : Bool)

/-- The file that is written for a launcher of an archive. -/
def launcherOf (f : ArchiveFile) : CStr × CStr :=
  (metaName p.id (findFilename f.1), dbpDesktopWrite (launcherFile cfg e p (findFilename f.1) (cString f.2)))

/-- The launcher directory after one file of the archive. -/
theorem desktops_extractFile (m : MetaState) (g : ArchiveFile) :
    (packageMetaExtractFile cfg e p announce m g).desktops =
      if e.opensFile cfg p.id g = true ∧ g.1.length ≤ 256 ∧ isIcon g.1 = false ∧ isDesktop g.1 = true then
        m.desktops.write (launcherOf cfg e p g).1 (launcherOf cfg e p g).2
      else m.desktops := by
  cases ho : e.opensFile cfg p.id g with
  | false => rw [extractFile_closed cfg announce m ho, if_neg (by simp)]
  | true =>
    rw [extractFile_eq cfg announce m ho]
    cases hi : isIcon g.1 with
    | true =>
      rw [if_neg (by simp : ¬ (true = true ∧ g.1.length ≤ 256 ∧ true = false ∧ isDesktop g.1 = true))]
      split_ifs with h h'
      · rfl
      · exact absurd h' (by simp)
      · rfl
    | false =>
      have hopen := opens_desktop cfg ho hi
      rw [if_neg (by simp : ¬ (g.1.length ≤ 256 && false) = true)]
      by_cases hc : g.1.length ≤ 256 ∧ isDesktop g.1 = true
      · rw [if_pos (by simp [hc.1, hc.2]), if_pos ⟨rfl, hc.1, rfl, hc.2⟩]
        simp only [packageDesktopWrite, hopen, Bool.not_true, Bool.false_eq_true, if_false]
        rfl
      · rw [if_neg (by simpa using hc), if_neg (by simpa using hc)]

/-- A launcher that can be written is there after the extraction, if no other contents are written to its name. -/
theorem mem_desktops_extracted {f : ArchiveFile} (hopen : e.opensFile cfg p.id f = true) (hlen : f.1.length ≤ 256)
    (hicon : isIcon f.1 = false) (hdesk : isDesktop f.1 = true) : ∀ {files : List ArchiveFile}, f ∈ files →
    (∀ g ∈ files, isIcon g.1 = false → isDesktop g.1 = true →
      (launcherOf cfg e p f).1 = (launcherOf cfg e p g).1 → (launcherOf cfg e p f).2 = (launcherOf cfg e p g).2) →
    ∀ m : MetaState, launcherOf cfg e p f ∈ (files.foldl (packageMetaExtractFile cfg e p announce) m).desktops := by
  -- once it is there, the files after it leave it
  have hkeep : ∀ (files : List ArchiveFile) (m : MetaState), launcherOf cfg e p f ∈ m.desktops →
      (∀ g ∈ files, isIcon g.1 = false → isDesktop g.1 = true →
        (launcherOf cfg e p f).1 = (launcherOf cfg e p g).1 → (launcherOf cfg e p f).2 = (launcherOf cfg e p g).2) →
      launcherOf cfg e p f ∈ (files.foldl (packageMetaExtractFile cfg e p announce) m).desktops := by
    intro files
    induction files with
    | nil => exact fun m h _ => h
    | cons g files ih =>
      intro m hmem hsame
      obtain ⟨hg, hfiles⟩ := List.forall_mem_cons.mp hsame
      refine ih _ ?_ hfiles
      rw [desktops_extractFile]
      split_ifs with hc
      · exact mem_write_of_mem hmem (hg hc.2.2.1 hc.2.2.2)
      · exact hmem
  intro files hf hsame m
  obtain ⟨pre, post, rfl⟩ := List.append_of_mem hf
  rw [List.foldl_append, List.foldl_cons]
  refine hkeep post _ ?_ fun g hg => hsame g (List.mem_append_right _ (List.mem_cons_of_mem _ hg))
  rw [desktops_extractFile, if_pos ⟨hopen, hlen, hicon, hdesk⟩]
  exact mem_write_self _ _ _

end Written

/-! ### Registration -/

theorem findFilename_append (dir : CStr) {name : CStr} (h : '/' ∉ name) : findFilename (dir ++ lit "/" ++ name) = name := by
  have hall : ∀ c ∈ name.reverse, (decide (c ≠ '/')) = true := by
    intro c hc
    have hne : c ≠ '/' := fun he => h (he ▸ List.mem_reverse.mp hc)
    simpa using hne
  have hdir : (dir ++ lit "/").reverse = '/' :: dir.reverse := by
    rw [List.reverse_append]
    rfl
  rw [findFilename, strAfterLast, List.reverse_append, List.takeWhile_append_of_pos hall, hdir]
  simp

/-- The exported name of a file is a name. -/
theorem metaName_slash {id name : CStr} (hid : conformsStrictNameType id = true) (hname : '/' ∉ name) :
    '/' ∉ metaName id name := by
  simp only [conformsStrictNameType, Bool.and_eq_true, List.all_eq_true] at hid
  have hslash : '/' ∉ id := fun hmem => absurd (hid.2 _ hmem) (by decide)
  have hpre : '/' ∉ metaPrefix := by decide
  have hsep : '/' ∉ lit "_" := by decide
  simp only [metaName, metaPrefixOf, List.mem_append, not_or]
  exact ⟨⟨⟨hpre, hslash⟩, hsep⟩, hname⟩

/-- It is longer than the name, by more than what an archive has in front of it. -/
theorem length_of_metaName {id name : CStr} (h : (metaName id name).length ≤ 255) : 8 + name.length ≤ 255 := by
  simp only [metaName, metaPrefixOf, List.length_append] at h
  have hpre : metaPrefix.length = 7 := by decide
  have hsep : (lit "_").length = 1 := by decide
  omega

section Register

variable {t : ExtractedTree} {metaPath : CStr} {files : List ArchiveFile}

/-- An icon of the tree is exported under its name. -/
theorem Packed.exported (h : Packed t metaPath files) {cfg : DBPConfig} {e : Env} (hopens : OpensNames cfg e)
    {path : CStr} (hfiles : e.archive path = some files) {id : CStr} (hid : conformsStrictNameType id = true) {name : CStr}
    (hname : name ∈ t.listed (metaPath ++ lit "/icons") ".png") (hlen : (metaName id name).length ≤ 255) :
    metaName id name ∈ exportedIcons id (extractedFiles cfg e id path) := by
  obtain ⟨hslash, data, hmem⟩ := h.icons name hname
  have hfile : findFilename (lit "icons/" ++ name) = name := findFilename_append (lit "icons") hslash
  have hicon : isIcon (lit "icons/" ++ name) = true := List.isPrefixOf_iff_prefix.mpr (List.prefix_append _ _)
  have hopen : e.opensFile cfg id (lit "icons/" ++ name, data) = true := by
    rw [Env.opensFile, if_pos hicon, hfile]
    exact hopens _ List.mem_cons_self _ (metaName_slash hid hslash) hlen
  have hle : (lit "icons/" ++ name).length ≤ 256 := by
    have hshort := length_of_metaName hlen
    rw [List.length_append, show (lit "icons/").length = 6 by decide]
    omega
  refine List.mem_map.mpr ⟨(lit "icons/" ++ name, data), List.mem_filter.mpr ⟨?_, ?_⟩, by rw [hfile]⟩
  · rw [extractedFiles, hfiles]
    exact List.mem_filter.mpr ⟨hmem, hopen⟩
  · exact Bool.and_eq_true_iff.mpr ⟨decide_eq_true hle, hicon⟩

/-- A launcher of the tree can be written. -/
theorem Packed.opens_launcher (h : Packed t metaPath files) {cfg : DBPConfig} {e : Env} (hopens : OpensNames cfg e)
    {id : CStr} (hid : conformsStrictNameType id = true) {f : ArchiveFile} (hf : f ∈ files)
    (hdesk : isDesktop f.1 = true) (hicon : isIcon f.1 = false)
    (hlen : (metaName id (findFilename f.1)).length ≤ 255) : e.opensFile cfg id f = true ∧ f.1.length ≤ 256 := by
  obtain ⟨⟨name, -, hslash, hpath, -⟩, -⟩ := h.launchers f hf hdesk hicon
  have hfile : findFilename f.1 = name := hpath ▸ findFilename_append (lit "meta") hslash
  rw [hfile] at hlen
  constructor
  · rw [Env.opensFile, hicon, if_neg Bool.false_ne_true, hfile]
    exact hopens _ (List.mem_cons_of_mem _ List.mem_cons_self) _ (metaName_slash hid hslash) hlen
  · have hshort := length_of_metaName hlen
    rw [hpath, List.length_append, show (lit "meta/").length = 5 by decide]
    omega

/-- Launchers of one name are the same. -/
theorem Packed.same_launcher (h : Packed t metaPath files) {f g : ArchiveFile} (hf : f ∈ files)
    (hdesk : isDesktop f.1 = true) (hicon : isIcon f.1 = false) (hg : g ∈ files) (hdesk' : isDesktop g.1 = true)
    (hicon' : isIcon g.1 = false) (hname : findFilename f.1 = findFilename g.1) : f.2 = g.2 := by
  obtain ⟨⟨n, -, hn, hpath, hread⟩, -⟩ := h.launchers f hf hdesk hicon
  obtain ⟨⟨n', -, hn', hpath', hread'⟩, -⟩ := h.launchers g hg hdesk' hicon'
  have hfile : findFilename f.1 = n := hpath ▸ findFilename_append (lit "meta") hn
  have hfile' : findFilename g.1 = n' := hpath' ▸ findFilename_append (lit "meta") hn'
  obtain rfl : n = n' := hfile.symm.trans (hname.trans hfile')
  exact Option.some.inj (hread.symm.trans hread')

/-- The daemon reads the `default.desktop` that the validator has read. -/
theorem Packed.metaPackageOpen (h : Packed t metaPath files) {e : Env} {path : CStr}
    (hfiles : e.archive path = some files) : ∃ text, t.readFile (metaPath ++ lit "/meta/default.desktop") = some text ∧
      dbpMetaPackageOpen e path = .inr (dbpDesktopParse (cString text) t.stack) := by
  obtain ⟨data, hmem⟩ := h.default
  have hsome : (files.find? fun f => f.1 == lit "meta/default.desktop").isSome :=
    List.find?_isSome.mpr ⟨_, hmem, by simp⟩
  obtain ⟨f, hf⟩ := Option.isSome_iff_exists.mp hsome
  have hname : f.1 = lit "meta/default.desktop" := by simpa using List.find?_some hf
  obtain ⟨⟨name, -, -, hpath, hread⟩, halike⟩ :=
    h.launchers f (List.mem_of_find?_eq_some hf) (by rw [hname]; decide) (by rw [hname]; decide)
  have hdefault : name = lit "default.desktop" :=
    List.append_cancel_left ((hpath.symm.trans hname).trans (by decide))
  subst hdefault
  refine ⟨f.2, ?_, ?_⟩
  · rw [← hread]
    exact congrArg t.readFile (by rw [List.append_assoc, List.append_assoc]; rfl)
  · simp only [dbpMetaPackageOpen, hfiles, hf]
    rw [halike e.stack t.stack]

/-- A launcher of the package that names an icon names one of the tree. -/
theorem Packed.launcher_icon (h : Packed t metaPath files) (hok : TreeOk t metaPath) {f : ArchiveFile} (hf : f ∈ files)
    (hdesk : isDesktop f.1 = true) (hicon : isIcon f.1 = false) (b : ParseBufs) {icon : CStr}
    (hkey : desktopKey (dbpDesktopParse (cString f.2) b) "Icon" = some icon) (hne : icon ≠ []) :
    icon ∈ t.listed (metaPath ++ lit "/icons") ".png" := by
  obtain ⟨⟨name, hname, -, -, hread⟩, halike⟩ := h.launchers f hf hdesk hicon
  have hpass := hok.2 name hname f.2 hread
  rw [halike b (t.launcherStack (metaPath ++ lit "/meta" ++ lit "/" ++ name))] at hkey
  generalize dbpDesktopParse (cString f.2) (t.launcherStack (metaPath ++ lit "/meta" ++ lit "/" ++ name)) = df at hkey hpass
  have hsec : (dbpDesktopLookupSection df (some (lit "Desktop Entry"))).isSome := by
    unfold desktopKey dbpDesktopLookup at hkey
    cases hs : dbpDesktopLookupSection df (some (lit "Desktop Entry")) with
    | none => simp [hs] at hkey
    | some s => rfl
  obtain ⟨type, category, -, -, hlauncher, -, -⟩ := hpass hsec
  have hiconOk := hlauncher.2.2
  rw [IconOk, hkey] at hiconOk
  exact hiconOk hne

/-- What an accepted registration leaves: a new entry with its strings, and what its extraction does to the launchers and
the icons. -/
theorem register_accepted (cfg : DBPConfig) {d : Daemon} {e : Env} {df : DesktopFile} {path id : CStr}
    (device mount : CStr) (hopen : dbpMetaPackageOpen e path = .inr df) (hid : metaLookup df (lit "Id") = some id)
    (hc : packageAddCheck id d.p.entry = none) :
    let d' := (packageRegister cfg d e path device mount).2.2
    ∃ p exec announce m, d'.p.entry = d.p.entry ++ [{ p with exec := exec }] ∧ p.id = id ∧
      p.appdata = (packageStrings df id path device mount).appdata ∧
        d'.desktops = (packageMetaExtract cfg e path p announce m).desktops ∧
          ∀ n ∈ exportedIcons id (extractedFiles cfg e id path), n ∈ d'.icons.names := by
  have hadd := @packageAdd_added d e (packageStrings df id path device mount) hc
  have hpos : ¬ (d.p.entry.length : ℤ) < 0 := by omega
  have hreg : (packageRegister cfg d e path device mount).2.2 =
      packageExport cfg (packageAdd d e (packageStrings df id path device mount)).2 e path d.p.entry.length := by
    simp only [packageRegister, hopen, hid, hadd, if_neg hpos, Int.toNat_natCast]
  rw [hreg]
  generalize hstrings : packageStrings df id path device mount = strings at hadd hreg
  have hsid : strings.id = id := by rw [← hstrings]; rfl
  have hentry : (packageAdd d e strings).2.p.entry = d.p.entry ++ [newEntry e d.p.entry strings] := by rw [hadd]
  let d₁ := (packageAdd d e strings).2
  let p := newEntry e d.p.entry strings
  let m : MetaState := ⟨d₁.icons, d₁.desktops, d₁.execs, d₁.signals, p.exec⟩
  refine ⟨p, (packageMetaExtract cfg e path p (p.desktop == lit "desk") m).exec, p.desktop == lit "desk", m, ?_, hsid, rfl,
    ?_, fun n hn => ?_⟩
  · rw [packageExport_last cfg hentry e path]
  · rw [packageExport_last cfg hentry e path]
  · have hc' : packageAddCheck strings.id d.p.entry = none := by rw [hsid, hc]
    have hmem := ((mem_names_added cfg e path hc' n).1).mpr
    rw [hsid] at hmem
    exact hmem (.inr hn)

end Register

/-- **A valid package is registered** by a daemon that has none of its id, its data directory has the name it asks for,
its launchers are written, and every launcher that names an icon has the path of an icon file that is there. -/
theorem valid_package_registers (usage name metaPath : CStr) (rest : List CStr) (t : ExtractedTree) (run : ProgramRun)
    (hrun : validateMain usage t (name :: metaPath :: rest) = some run) (hexit : run.exit = 0) (cfg : DBPConfig)
    (d : Daemon) (e : Env) (device path mount : CStr) (files : List ArchiveFile)
    (hpath : packageFilenameInteresting cfg path = true) (hfiles : e.archive path = some files)
    (hpacked : Packed t metaPath files) (hovr : NoOverrides e) (hopens : OpensNames cfg e) :
    ∃ id df, dbpMetaPackageOpen e path = .inr df ∧ packageKey df "Id" = some id ∧ id ≠ lit "!" ∧
      packageIdValidate id = true ∧ (id ∉ d.ids →
        let r := packageRegisterPath cfg d e device path mount
        ∃ x, r.1 = d.p.entry.length ∧ r.2.1 = id ∧ r.2.2.p.entry = d.p.entry ++ [x] ∧ x.id = id ∧
          x.appdata = (packageKey df "Appdata").getD id ∧
          ∀ f ∈ files, isDesktop f.1 = true → isIcon f.1 = false → (metaName id (findFilename f.1)).length ≤ 255 →
            let launcher := launcherFile cfg e x (findFilename f.1) (cString f.2)
            (metaName id (findFilename f.1), dbpDesktopWrite launcher) ∈ r.2.2.desktops ∧
              ∀ icon ≠ [], desktopKey (dbpDesktopParse (cString f.2) e.stack) "Icon" = some icon →
                (metaName id icon).length ≤ 255 →
                  desktopKey launcher "Icon" = some (cfg.iconDirectory ++ lit "/" ++ metaName id icon) ∧
                    metaName id icon ∈ r.2.2.icons.names) := by
  have hok := (validateMain_tree usage t name metaPath rest).mp ⟨run, hrun, hexit⟩
  obtain ⟨text, hread, hopen⟩ := hpacked.metaPackageOpen hfiles
  obtain ⟨text', hread', hpackage⟩ := hok.1
  obtain rfl : text = text' := Option.some.inj (hread.symm.trans hread')
  obtain ⟨id, hid, hstrict, -⟩ := hpackage.id
  have hvalid := packageIdValidate_of_strict hstrict
  refine ⟨id, _, hopen, hid, ne_mark_of_strict hstrict, hvalid, fun hnew => ?_⟩
  have hc : packageAddCheck id d.p.entry = none := packageAddCheck_none.mpr ⟨hnew, fun _ => hvalid⟩
  have hreadable : readableId cfg e path = some id := by
    rw [readableId, if_pos hpath, readId, hopen]
    exact hid
  obtain ⟨hindex, hout, x, hentry, hxid, -, -, -⟩ := packageRegisterPath_appended cfg device mount hreadable hc
  have hrid : (packageRegisterPath cfg d e device path mount).2.1 = id := Option.some.inj (hout.symm.trans hreadable)
  obtain ⟨p, exec, announce, m, hentry', hpid, happ, hdesktops, hicons⟩ := register_accepted cfg device mount hopen hid hc
  have hstate := packageRegisterPath_state cfg d e device path mount
  rw [if_pos hpath] at hstate
  rw [← hstate] at hentry' hdesktops hicons
  obtain rfl : x = { p with exec := exec } := by simpa using List.append_cancel_left (hentry.symm.trans hentry')
  refine ⟨_, hindex, hrid, hentry, hxid.trans hrid, ?_, ?_⟩
  · rw [show ({ p with exec := exec } : PackageEntry).appdata = p.appdata from rfl, happ]
    have hasked := hpackage.appdata
    unfold packageStrings
    dsimp only
    rw [show metaLookup (dbpDesktopParse (cString text) t.stack) (lit "Appdata") =
      packageKey (dbpDesktopParse (cString text) t.stack) "Appdata" from rfl]
    cases hkey : packageKey (dbpDesktopParse (cString text) t.stack) "Appdata" with
    | none => rfl
    | some appdata => simp [packageIdValidate_of_strict (hasked appdata hkey)]
  · intro f hf hdesk hicon hlen launcher
    constructor
    · obtain ⟨hopenf, hlenf⟩ := hpacked.opens_launcher hopens hstrict hf hdesk hicon hlen
      have hwritten := mem_desktops_extracted cfg e p announce (hpid.symm ▸ hopenf) hlenf hicon hdesk hf
        (fun g hg hicon' hdesk' hname => ?_) m
      · rw [launcherOf, hpid] at hwritten
        rw [hdesktops, packageMetaExtract, hfiles]
        exact hwritten
      · have hfile : findFilename f.1 = findFilename g.1 := List.append_cancel_left hname
        have hsame := hpacked.same_launcher hf hdesk hicon hg hdesk' hicon' hfile
        simp only [launcherOf, hfile, hsame]
    · intro icon hne hkey hicon'
      have hlisted := hpacked.launcher_icon hok hf hdesk hicon e.stack hkey hne
      refine ⟨?_, hicons _ (hpacked.exported hopens hfiles hstrict hlisted hicon')⟩
      rw [desktopKey_launcherFile cfg hovr _ (findFilename f.1) hkey, hxid, hrid]

/-- The meta data of a package with one launcher. -/
def demoPackageDesktop : DesktopFile :=
  ⟨[⟨none, []⟩, ⟨some (lit "Package Entry"), [⟨lit "Id", [], lit "game"⟩, ⟨lit "Icon", [], lit "game.png"⟩]⟩,
    ⟨some (lit "Desktop Entry"), [⟨lit "Type", [], lit "Application"⟩, ⟨lit "Exec", [], lit "game"⟩,
      ⟨lit "Name", [], lit "Game"⟩, ⟨lit "Icon", [], lit "game.png"⟩, ⟨lit "Categories", [], lit "Game;"⟩]⟩]⟩

/-- A tree with that launcher and its icon. -/
def demoTree : ExtractedTree where
  readDir path :=
    if path = lit "t/icons" then some [lit "game.png"]
    else if path = lit "t/meta" then some [lit "default.desktop"]
    else none
  readFile path := if path = lit "t/meta/default.desktop" then some (dbpDesktopWrite demoPackageDesktop) else none
  stack := ⟨[], []⟩
  launcherStack _ := ⟨[], []⟩
  before _ := '\x00'

/-- The package made of it. -/
def demoFiles : List ArchiveFile :=
  [(lit "icons/game.png", lit "png"), (lit "meta/default.desktop", dbpDesktopWrite demoPackageDesktop)]

theorem packed_demo : Packed demoTree (lit "t") demoFiles where
  default := ⟨dbpDesktopWrite demoPackageDesktop, by simp [demoFiles]⟩
  icons := by
    intro name hname
    obtain rfl : name = lit "game.png" := List.mem_singleton.mp hname
    exact ⟨by decide, lit "png", by simp [demoFiles]; decide⟩
  launchers := by
    have hwritable : Writable demoPackageDesktop :=
      { nameless := rfl
        named := fun s hs => by
          simp only [demoPackageDesktop, List.tail_cons, List.mem_cons, List.not_mem_nil, or_false] at hs
          rcases hs with rfl | rfl
          · exact ⟨_, rfl, by decide, by decide⟩
          · exact ⟨_, rfl, by decide, by decide⟩
        distinct := by decide
        unique := by decide
        entry := by decide
        short := by decide }
    have halike : ReadsAlike (dbpDesktopWrite demoPackageDesktop) := hwritable.readsAlike (by decide +kernel)
    intro f hf _ hicon
    rcases List.mem_cons.mp hf with rfl | hf
    · exact absurd hicon (by decide)
    · obtain rfl := List.mem_singleton.mp hf
      exact ⟨⟨lit "default.desktop", by decide, by decide, by decide, by decide⟩, halike⟩

/-- A package with one launcher, at the first registration of a daemon. -/
theorem valid_package_registers_demo :
    let r := packageRegisterPath demoConfig (Daemon.init [] [] []) (demoEnv [(lit "/m/a.dbp", demoFiles)]) (lit "/dev/sda1")
      (lit "/m/a.dbp") (lit "/m")
    r.2.1 = lit "game" ∧ lit "__dbp__game_default.desktop" ∈ r.2.2.desktops.names ∧
      lit "__dbp__game_game.png" ∈ r.2.2.icons.names := by
  intro r
  have hvalid : ∃ run, validateMain [] demoTree [lit "dbp-validate-extracted", lit "t"] = some run ∧ run.exit = 0 := by
    decide +kernel
  obtain ⟨run, hrun, hexit⟩ := hvalid
  obtain ⟨id, df, hopen, hid, -, -, h⟩ := valid_package_registers [] (lit "dbp-validate-extracted") (lit "t") [] demoTree run
    hrun hexit demoConfig (Daemon.init [] [] []) (demoEnv [(lit "/m/a.dbp", demoFiles)]) (lit "/dev/sda1")
    (lit "/m/a.dbp") (lit "/m") demoFiles (by decide) rfl packed_demo (fun _ _ => rfl) fun _ _ _ _ _ => rfl
  have hdf : dbpMetaPackageOpen (demoEnv [(lit "/m/a.dbp", demoFiles)]) (lit "/m/a.dbp") = .inr demoPackageDesktop := by
    decide +kernel
  obtain rfl := Sum.inr.inj (hopen.symm.trans hdf)
  have hgame : packageKey demoPackageDesktop "Id" = some (lit "game") := by decide
  obtain rfl := Option.some.inj (hid.symm.trans hgame)
  obtain ⟨x, -, hname, -, -, -, hlaunchers⟩ := h List.not_mem_nil
  obtain ⟨hwritten, hicon⟩ := hlaunchers (lit "meta/default.desktop", dbpDesktopWrite demoPackageDesktop)
    (by simp [demoFiles]) (by decide) (by decide) (by decide)
  have hlauncher : metaName (lit "game") (findFilename (lit "meta/default.desktop")) = lit "__dbp__game_default.desktop" := by
    decide
  refine ⟨hname, List.mem_map.mpr ⟨_, hwritten, hlauncher⟩, ?_⟩
  exact (hicon (lit "game.png") (by decide) (by decide +kernel) (by decide)).2

end Dbp
