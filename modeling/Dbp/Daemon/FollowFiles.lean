/-
# The registry follows the files

Files come, change and go in the directories the daemon watches while its
main thread is behind: it handles one change after the other, and reads a
file when it gets to it. A mount that is new is crawled after its watches
are set; so what happens to a file meanwhile is seen by the crawl, by an
event, or by both. Other threads' calls come in between, registrations
through D-Bus among them.

Such a run is one of `Followers`: an entry is an item of its path, and what
the main thread has still to do is the notes (`follows`). As long as no two
files have one id, and no file is moved over another one with a different
id, all that may be wrong with the registry is what a pending removal will
take away; and once nothing is pending it has exactly the packages in the
watched directories, one entry for each (`registry_follows`).

Key definitions: `FileEvent`, `MainTask`, `Media`, `MediaOp`, `mediaStep`, `MediaOk`, `Media.Start`.
Key theorems: `handle_added`, `held_register`, `follows`, `registry_follows`.
-/
import Dbp.Daemon.MainLoop
import Dbp.Daemon.RegisterPath
import Dbp.Lib.Follower

namespace Dbp

open CLib Sweep Find Runs Followers

/-! ### Files and what is pending -/

/-- What happens to a file of a watched directory. -/
inductive FileEvent
  | closeWrite
  | attrib
  | create
  | movedTo
  | delete
  | movedFrom
deriving DecidableEq, Repr

namespace FileEvent

def mask : FileEvent → ℕ
  | .closeWrite => IN_CLOSE_WRITE
  | .attrib => IN_ATTRIB
  | .create => IN_CREATE
  | .movedTo => IN_MOVED_TO
  | .delete => IN_DELETE
  | .movedFrom => IN_MOVED_FROM

/-- The file is gone. -/
def Removes (ev : FileEvent) : Prop := ev = .delete ∨ ev = .movedFrom

/-- The file is there, whether or not there was one before. -/
def Fills (ev : FileEvent) : Prop := ev = .create ∨ ev = .movedTo

instance (ev : FileEvent) : Decidable ev.Removes := inferInstanceAs (Decidable (_ ∨ _))

instance (ev : FileEvent) : Decidable ev.Fills := inferInstanceAs (Decidable (_ ∨ _))

end FileEvent

/-- What the main thread has still to do: handle a change, list a directory in `package_crawl`, register a file there. -/
inductive MainTask
  | change (c : MountwatchChange)
  | list (device dir mount : CStr)
  | file (device path mount : CStr)
deriving DecidableEq, Repr

/-- The daemon and the package files. A leading `//` of a path is `/`. -/
structure Media where
  d : Daemon
  /-- The ids in the files, also in those that are being written. -/
  ids : CStr → Option CStr
  /-- The files that are being written, and cannot be read. -/
  busy : List CStr
  tasks : List MainTask

/-- The id that is read in a file. -/
def Media.reads (m : Media) (path : CStr) : Option CStr := if path ∈ m.busy then none else m.ids path

/-- A file of a watched directory. -/
def watchedPath (dir : MountwatchInotify) (name : CStr) : CStr := dropSlash (dir.path ++ '/' :: name)

inductive MediaOp
  /-- A file of a watched directory has changed, and has the id now, if it is still there. -/
  | event (ev : FileEvent) (dir : MountwatchInotify) (name : CStr) (id : Option CStr)
  /-- It is opened to be written. -/
  | rewrite (dir : MountwatchInotify) (name : CStr)
  /-- The main thread does the next thing it has to do, with the files `e`. -/
  | handle (e : Env)
  /-- Another thread's call. -/
  | call (op : DaemonOp)

section Step

variable (cfg : DBPConfig) (ientry : List MountwatchInotify)

/-- What the main thread does, and what this leaves to do. -/
def taskStep (d : Daemon) (e : Env) : MainTask → Daemon × List MainTask
  | .change c =>
    if c.tag = .added then (d, cfg.searchDir.map fun dir => .list c.device (c.mount ++ lit "/" ++ dir) c.mount)
    else ((changeOp e c).elim d (d.step cfg), [])
  | .list device dir mount =>
    (d, (((e.readDir dir).getD []).filter (packageFilenameInteresting cfg)).map fun name =>
      .file device (dir ++ lit "/" ++ name) mount)
  | .file device path mount => ((packageRegister cfg d e path device mount).2.2, [])

/-- A step. An event is queued behind all others. -/
def mediaStep (m : Media) : MediaOp → Media
  | .event ev dir name id =>
    { m with
      ids := Function.update m.ids (watchedPath dir name) (if ev.Removes then none else id)
      busy := m.busy.filter (· ≠ watchedPath dir name)
      tasks := m.tasks ++ (inotifyChanges ientry ⟨dir.handle, ev.mask, name⟩).map .change }
  | .rewrite dir name => { m with busy := watchedPath dir name :: m.busy }
  | .handle e =>
    match m.tasks with
    | [] => m
    | p :: ps => { m with d := (taskStep cfg m.d e p).1, tasks := (taskStep cfg m.d e p).2 ++ ps }
  | .call op => { m with d := m.d.step cfg op }

end Step

/-! ### The crawl in steps -/

section Crawl

variable (cfg : DBPConfig) (ientry : List MountwatchInotify) (m : Media) (e : Env)

theorem handle_cons (p : MainTask) (ps : List MainTask) : mediaStep cfg ientry { m with tasks := p :: ps } (.handle e) =
    { m with d := (taskStep cfg m.d e p).1, tasks := (taskStep cfg m.d e p).2 ++ ps } := rfl

/-- The files of a list are registered one after the other. -/
theorem handle_files (device mount : CStr) : ∀ (paths : List CStr) (m : Media) (ps : List MainTask),
    (List.replicate paths.length (MediaOp.handle e)).foldl (mediaStep cfg ientry)
        { m with tasks := paths.map (.file device · mount) ++ ps } =
      { m with
        d := paths.foldl (fun d f => (packageRegister cfg d e f device mount).2.2) m.d
        tasks := ps }
  | [], _, _ => rfl
  | f :: paths, m, ps =>
    handle_files device mount paths { m with d := (packageRegister cfg m.d e f device mount).2.2 } ps

/-- The paths that are listed in a directory. -/
def listedPaths (dir : CStr) : List CStr :=
  (((e.readDir dir).getD []).filter (packageFilenameInteresting cfg)).map fun name => dir ++ lit "/" ++ name

theorem handle_lists (device mount : CStr) : ∀ (dirs : List CStr) (m : Media) (ps : List MainTask), ∃ n,
    (List.replicate n (MediaOp.handle e)).foldl (mediaStep cfg ientry)
        { m with tasks := dirs.map (.list device · mount) ++ ps } =
      { m with
        d := (dirs.flatMap (listedPaths cfg e)).foldl (fun d f => (packageRegister cfg d e f device mount).2.2) m.d
        tasks := ps }
  | [], _, _ => ⟨0, rfl⟩
  | dir :: dirs, m, ps => by
    obtain ⟨n, hn⟩ := handle_lists device mount dirs
      { m with d := (listedPaths cfg e dir).foldl (fun d f => (packageRegister cfg d e f device mount).2.2) m.d } ps
    refine ⟨1 + (listedPaths cfg e dir).length + n, ?_⟩
    have hfiles := handle_files cfg ientry e device mount (listedPaths cfg e dir) m
      (dirs.map (.list device · mount) ++ ps)
    rw [List.replicate_add, List.replicate_add, List.foldl_append, List.foldl_append, List.flatMap_cons,
      List.foldl_append, ← hn, ← hfiles]
    simp [handle_cons, taskStep, listedPaths, Function.comp_def]

/-- **A crawl whose steps find the same files** is `package_crawl_mount`. -/
theorem handle_added {c : MountwatchChange} (hc : c.tag = .added) (ps : List MainTask) : ∃ n,
    (List.replicate n (MediaOp.handle e)).foldl (mediaStep cfg ientry) { m with tasks := .change c :: ps } =
      { m with d := packageCrawlMount cfg m.d e c.device c.mount, tasks := ps } := by
  obtain ⟨n, hn⟩ := handle_lists cfg ientry e c.device c.mount
    (cfg.searchDir.map fun dir => c.mount ++ lit "/" ++ dir) m ps
  refine ⟨1 + n, ?_⟩
  rw [List.replicate_add, List.foldl_append, packageCrawlMount_eq]
  rw [List.flatMap_map] at hn
  refine Eq.trans ?_ hn
  simp [handle_cons, taskStep, hc, Function.comp_def]

end Crawl

/-! ### The registry as a table -/

/-- The registered packages by path and id. -/
def held (d : Daemon) : List (CStr × CStr) := d.p.entry.map fun x => (x.path, x.id)

theorem held_ids (d : Daemon) : (held d).map (·.2) = d.ids := by simp [held, Function.comp_def]

theorem held_of_same {d d' : Daemon} (h : SameRegistry d d') : held d' = held d := by rw [held, held, h.entry]

/-- **A registration** takes the package in that is read at the path, unless one has its id. -/
theorem held_register (cfg : DBPConfig) (d : Daemon) {e : Env} {path : CStr} (device mount : CStr)
    (hvalid : ∀ id ∈ readId e path, packageIdValidate id) :
    held (packageRegister cfg d e path device mount).2.2 = take (held d) (dropSlash path) (readId e path) := by
  cases hread : readId e path with
  | none =>
    obtain ⟨errid, -, hr⟩ := packageRegister_unread cfg d device mount hread
    rw [hr]
    rfl
  | some id =>
    have hv : packageIdValidate id := hvalid id (by simp [hread])
    rw [take_some, held_ids]
    split_ifs with hid
    · have hc : packageAddCheck id d.p.entry ≠ none := fun hc => (packageAddCheck_none.mp hc).1 hid
      obtain ⟨errid, hc⟩ := Option.ne_none_iff_exists'.mp hc
      rcases packageRegister_rejected cfg device mount hread hc with ⟨-, hr⟩ | ⟨i, -, -, hr⟩ <;> rw [hr]
    · have hc : packageAddCheck id d.p.entry = none := packageAddCheck_none.mpr ⟨hid, fun _ => hv⟩
      obtain ⟨x, d', hxid, -, -, hxpath, hd', hr⟩ := packageRegister_added cfg device mount hread hc
      rw [hr]
      simp [held, hd', hxid, hxpath]

theorem held_registerPath (cfg : DBPConfig) (d : Daemon) {e : Env} {path : CStr} (device mount : CStr)
    (hvalid : ∀ id ∈ readableId cfg e path, packageIdValidate id) :
    held (packageRegisterPath cfg d e device path mount).2.2 =
      take (held d) (dropSlash path) (readableId cfg e path) := by
  rw [packageRegisterPath_state]
  unfold readableId at hvalid ⊢
  split_ifs with hp
  · exact held_register cfg d device mount (by rwa [if_pos hp] at hvalid)
  · rfl

/-- **A release** drops the first package of the path. -/
theorem held_releasePath (cfg : DBPConfig) (d : Daemon) (path : CStr) :
    held (packageReleasePath cfg d path).2 = drop (held d) (dropSlash path) := by
  rw [held, packageReleasePath_eraseP, drop, held, List.eraseP_map]
  congr 2
  funext x
  exact Bool.beq_eq_decide_eq x.path (dropSlash path)

/-- The files of a directory. -/
def packagesIn (dir : CStr) : Set CStr := {path | ∃ name, '/' ∉ name ∧ path = dropSlash (dir ++ lit "/" ++ name)}

/-- What the main thread has to do, as a note. -/
def MainTask.note (cfg : DBPConfig) : MainTask → Note CStr
  | .change c =>
    match c.tag with
    | .pkgRemoved => .gone (dropSlash c.path)
    | .pkgAdded => .here (dropSlash c.path)
    | .added => .scan {path | ∃ dir ∈ cfg.searchDir, path ∈ packagesIn (c.mount ++ lit "/" ++ dir)}
    | _ => .scan ∅
  | .list _ dir _ => .scan (packagesIn dir)
  | .file _ path _ => .here (dropSlash path)

/-- What is followed of the state. -/
def Media.view (cfg : DBPConfig) (m : Media) : State CStr CStr :=
  ⟨m.ids, {path | path ∈ m.busy}, m.tasks.map (MainTask.note cfg), held m.d⟩

theorem view_reads (cfg : DBPConfig) (m : Media) (path : CStr) : (m.view cfg).reads path = m.reads path := by
  by_cases h : path ∈ m.busy
  · rw [Media.reads, if_pos h]
    exact if_pos h
  · rw [Media.reads, if_neg h]
    exact if_neg h

/-! ### The runs -/

section Ok

variable (cfg : DBPConfig) (ientry : List MountwatchInotify)

/-- No extension of a package file has a slash. -/
def PlainExtensions : Prop := ∀ ext ∈ cfg.fileExtension, '/' ∉ ext

instance : Decidable (PlainExtensions cfg) := inferInstanceAs (Decidable (∀ _ ∈ _, _))

/-- A file with a name of its own, in a directory with a watch that its events are taken for. -/
def IsWatched (dir : MountwatchInotify) (name : CStr) : Prop :=
  ientry.find? (·.handle == dir.handle) = some dir ∧ name ≠ [] ∧ '/' ∉ name

/-- A file at the path may have the id: it has the extension of a package file, the id is valid, and no other file
has it. -/
def MayHave (ids : CStr → Option CStr) (path id : CStr) : Prop :=
  packageFilenameInteresting cfg path ∧ packageIdValidate id ∧ ∀ p, p ≠ path → ids p ≠ some id

/-- The files of `e` at the path are those of the state. -/
def Shown (m : Media) (e : Env) (path : CStr) : Prop := readableId cfg e path = m.reads (dropSlash path)

/-- The package files of a directory are listed. -/
def DirShown (m : Media) (e : Env) (dir : CStr) : Prop :=
  ∀ name, '/' ∉ name → m.reads (dropSlash (dir ++ lit "/" ++ name)) ≠ none → name ∈ (e.readDir dir).getD []

/-- What the main thread finds is what is there. -/
def TaskOk (m : Media) (e : Env) : MainTask → Prop
  | .change c => c.tag = .pkgAdded → Shown cfg m e c.path
  | .list _ dir _ => DirShown m e dir
  | .file _ path _ => Shown cfg m e path

/-- What may happen: a file is not moved over one with another id, and no other thread releases packages. -/
def MediaOk (m : Media) : MediaOp → Prop
  | .event ev dir name id =>
    IsWatched ientry dir name ∧ (ev.Fills → m.ids (watchedPath dir name) = none ∨ m.ids (watchedPath dir name) = id) ∧
      (¬ ev.Removes → ∀ x ∈ id, MayHave cfg m.ids (watchedPath dir name) x)
  | .rewrite dir name => IsWatched ientry dir name
  | .handle e => ∀ p ∈ m.tasks.head?, TaskOk cfg m e p
  | .call op =>
    match op with
    | .registerPath e _ path _ => Shown cfg m e path
    | .run _ _ _ | .stop _ _ | .purgatoryCheck _ => True
    | .crawlMount _ _ _ | .releasePath _ | .releaseMount _ => False

/-- The start: mounts that were found are to be crawled, and all else is as it should be. -/
structure Media.Start (m : Media) : Prop where
  tasks : ∀ p ∈ m.tasks, ∃ c, p = .change c ∧ c.tag = .added
  busy : m.busy = []
  entry : ∀ x ∈ m.d.p.entry, m.ids x.path = some x.id
  nodup : m.d.ids.Nodup
  ids : ∀ path id, m.ids path = some id → MayHave cfg m.ids path id
  crawled : ∀ dir name, IsWatched ientry dir name → ∀ id, m.ids (watchedPath dir name) = some id →
    (∃ x ∈ m.d.p.entry, x.path = watchedPath dir name ∧ x.id = id) ∨
      ∃ c, .change c ∈ m.tasks ∧ ∃ s ∈ cfg.searchDir, dir.path = c.mount ++ lit "/" ++ s

/-- What a run keeps besides what is followed. -/
structure Media.Legible (m : Media) : Prop where
  ids : ∀ path id, m.ids path = some id → MayHave cfg m.ids path id
  changes : ∀ c, .change c ∈ m.tasks → c.tag ≠ .removed
  files : ∀ device path mount, .file device path mount ∈ m.tasks → packageFilenameInteresting cfg path

end Ok

/-- The paths of the files in watched directories. -/
def followed (ientry : List MountwatchInotify) : Set CStr :=
  {path | ∃ dir name, IsWatched ientry dir name ∧ path = watchedPath dir name}

/-! ### Names -/

/-- An extension without a slash is one of the name. -/
theorem suffix_of_slash {ext dir name : CStr} (hext : '/' ∉ ext) (h : ext <:+ dir ++ lit "/" ++ name) :
    ext <:+ name := by
  have hname : lit "/" ++ name <:+ dir ++ lit "/" ++ name := by
    rw [List.append_assoc]
    exact List.suffix_append _ _
  have hcons : ext <:+ '/' :: name := by
    rcases List.suffix_or_suffix_of_suffix h hname with hs | hs
    · exact hs
    · exact absurd (hs.subset (by simp [lit])) hext
  rcases List.suffix_cons_iff.mp hcons with rfl | hs
  · simp at hext
  · exact hs

section Extensions

variable {cfg : DBPConfig}

theorem interesting_iff {path : CStr} :
    packageFilenameInteresting cfg path ↔ ∃ ext ∈ cfg.fileExtension, ext <:+ path := by
  simp [packageFilenameInteresting]

theorem interesting_of_suffix {name path : CStr} (hs : name <:+ path) (h : packageFilenameInteresting cfg name) :
    packageFilenameInteresting cfg path := by
  obtain ⟨ext, hext, hname⟩ := interesting_iff.mp h
  exact interesting_iff.mpr ⟨ext, hext, hname.trans hs⟩

theorem dropSlash_suffix (path : CStr) : dropSlash path <:+ path := by
  unfold dropSlash
  split_ifs
  · exact List.tail_suffix path
  · exact List.suffix_refl path

/-- A package file of a directory is one by its name. -/
theorem interesting_name (hext : PlainExtensions cfg) {dir name : CStr}
    (h : packageFilenameInteresting cfg (dropSlash (dir ++ lit "/" ++ name))) : packageFilenameInteresting cfg name := by
  obtain ⟨ext, hmem, hs⟩ := interesting_iff.mp h
  exact interesting_iff.mpr ⟨ext, hmem, suffix_of_slash (hext ext hmem) (hs.trans (dropSlash_suffix _))⟩

end Extensions

/-! ### Steps -/

theorem inotifyTags_mask (ev : FileEvent) : inotifyTags ev.mask =
    if ev.Removes then [.pkgRemoved] else if ev.Fills then [.pkgAdded] else [.pkgRemoved, .pkgAdded] := by
  cases ev <;> decide

section Steps

variable {cfg : DBPConfig} {ientry : List MountwatchInotify} {m : Media}

theorem inotifyChanges_watched {dir : MountwatchInotify} {name : CStr} (h : IsWatched ientry dir name) (mask : ℕ) :
    inotifyChanges ientry ⟨dir.handle, mask, name⟩ =
      (inotifyTags mask).map (MountwatchChange.mk dir.mount dir.device (dir.path ++ '/' :: name)) := by
  simp only [inotifyChanges, h.2.1, h.1, ↓reduceIte]

theorem view_event (ev : FileEvent) {dir : MountwatchInotify} {name : CStr} (h : IsWatched ientry dir name)
    (id : Option CStr) :
    (mediaStep cfg ientry m (.event ev dir name id)).view cfg =
      ⟨Function.update (m.view cfg).src (watchedPath dir name) (if ev.Removes then none else id),
        (m.view cfg).busy \ {watchedPath dir name},
        (m.view cfg).queue ++ (if ev.Removes then [.gone (watchedPath dir name)]
          else if ev.Fills then [.here (watchedPath dir name)]
          else [.gone (watchedPath dir name), .here (watchedPath dir name)]), (m.view cfg).held⟩ := by
  have hbusy : {path | path ∈ m.busy.filter (· ≠ watchedPath dir name)} =
      {path | path ∈ m.busy} \ {watchedPath dir name} := by
    ext path
    simp
  simp only [Media.view, mediaStep, hbusy, inotifyChanges_watched h, inotifyTags_mask, List.map_append]
  split_ifs <;> rfl

/-- What is read is valid. -/
theorem Media.Legible.reads (hl : m.Legible cfg) {path id : CStr} (h : m.reads path = some id) :
    MayHave cfg m.ids path id := by
  unfold Media.reads at h
  split_ifs at h
  exact hl.ids path id h

/-- A file is registered as it is read. -/
theorem take_shown (hl : m.Legible cfg) {e : Env} {path : CStr} (hs : Shown cfg m e path) (device mount : CStr) :
    held (packageRegisterPath cfg m.d e device path mount).2.2 =
      take (held m.d) (dropSlash path) ((m.view cfg).reads (dropSlash path)) := by
  have hvalid : ∀ id ∈ readableId cfg e path, packageIdValidate id := fun id hid => (hl.reads (hs ▸ hid)).2.1
  rw [held_registerPath cfg m.d device mount hvalid, view_reads, hs]

/-- The main thread's next task, as a step. -/
theorem follows_task (hext : PlainExtensions cfg) (hl : m.Legible cfg) {e : Env} {p : MainTask}
    {ps : List MainTask} (hps : m.tasks = p :: ps) (hok : TaskOk cfg m e p) :
    Step (followed ientry) (m.view cfg)
      (Media.view cfg { m with d := (taskStep cfg m.d e p).1, tasks := (taskStep cfg m.d e p).2 ++ ps }) := by
  have hqueue : (m.view cfg).queue = p.note cfg :: ps.map (MainTask.note cfg) :=
    congrArg (List.map (MainTask.note cfg)) hps
  cases p with
  | change c =>
    obtain ⟨cmount, device, path, tag⟩ := c
    cases tag with
    | removed => exact absurd rfl (hl.changes _ (by rw [hps]; exact List.mem_cons_self))
    | changed => exact .scan ∅ [] _ hqueue (by simp) (by simp)
    | added =>
      have hstep := @Step.scan _ _ _ _ (followed ientry) (m.view cfg) _
        (cfg.searchDir.map fun dir => .scan (packagesIn (cmount ++ lit "/" ++ dir))) _ hqueue (by simp) ?_
      · simpa [Media.view, taskStep, MainTask.note, Function.comp_def] using hstep
      · rintro q ⟨dir, hdir, hq⟩ -
        exact ⟨_, List.mem_map_of_mem hdir, hq⟩
    | pkgAdded =>
      have hheld := take_shown hl (hok rfl) device cmount
      have hstep : Step (followed ientry) (m.view cfg) _ := .here (dropSlash path) _ hqueue
      rw [show (m.view cfg).held = held m.d from rfl, ← hheld] at hstep
      exact hstep
    | pkgRemoved =>
      have hheld := held_releasePath cfg m.d path
      have hstep : Step (followed ientry) (m.view cfg) _ := .gone (dropSlash path) _ hqueue
      rw [show (m.view cfg).held = held m.d from rfl, ← hheld] at hstep
      exact hstep
  | list device dir mount =>
    have hstep := @Step.scan _ _ _ _ (followed ientry) (m.view cfg) _
      (((((e.readDir dir).getD []).filter (packageFilenameInteresting cfg)).map fun name =>
        MainTask.file device (dir ++ lit "/" ++ name) mount).map (MainTask.note cfg)) _ hqueue ?_ ?_
    · simpa [Media.view, taskStep] using hstep
    · intro n hn
      obtain ⟨p, hp, rfl⟩ := List.mem_map.mp hn
      obtain ⟨name, -, rfl⟩ := List.mem_map.mp hp
      simp [MainTask.note]
    · rintro q ⟨name, hslash, rfl⟩ hread
      rw [view_reads] at hread
      obtain ⟨id, hid⟩ := Option.ne_none_iff_exists'.mp hread
      have hname : name ∈ ((e.readDir dir).getD []).filter (packageFilenameInteresting cfg) :=
        List.mem_filter.mpr ⟨hok name hslash hread, interesting_name hext (hl.reads hid).1⟩
      exact ⟨_, List.mem_map_of_mem (List.mem_map_of_mem hname), rfl⟩
  | file device path mount =>
    have hpath := hl.files device path mount (by rw [hps]; exact List.mem_cons_self)
    have hheld := take_shown hl hok device mount
    rw [packageRegisterPath_state, if_pos hpath] at hheld
    have hstep : Step (followed ientry) (m.view cfg) _ := .here (dropSlash path) _ hqueue
    rw [show (m.view cfg).held = held m.d from rfl, ← hheld] at hstep
    exact hstep

/-- **A step follows the files.** -/
theorem follows (hext : PlainExtensions cfg) (hl : m.Legible cfg) {op : MediaOp} (hok : MediaOk cfg ientry m op) :
    Relation.ReflGen (Step (followed ientry)) (m.view cfg) ((mediaStep cfg ientry m op).view cfg) := by
  cases op with
  | event ev dir name id =>
    obtain ⟨hw, hfill, -⟩ := hok
    have hp : watchedPath dir name ∈ followed ientry := ⟨dir, name, hw, rfl⟩
    rw [view_event ev hw]
    by_cases hr : ev.Removes
    · simp only [if_pos hr]
      exact .single (.empty _ hp)
    · simp only [if_neg hr]
      by_cases hf : ev.Fills
      · simp only [if_pos hf]
        exact .single (.fill _ id hp (hfill hf))
      · simp only [if_neg hf]
        exact .single (.change _ id hp)
  | rewrite dir name =>
    have hbusy : {path | path ∈ watchedPath dir name :: m.busy} =
        insert (watchedPath dir name) {path | path ∈ m.busy} := by
      ext path
      simp
    have hstep : Step (followed ientry) (m.view cfg) _ := .rewrite (watchedPath dir name) ⟨dir, name, hok, rfl⟩
    simp only [Media.view] at hstep
    rw [← hbusy] at hstep
    exact .single hstep
  | handle e =>
    cases hps : m.tasks with
    | nil =>
      have hsame : mediaStep cfg ientry m (.handle e) = m := by simp only [mediaStep, hps]
      rw [hsame]
    | cons p ps =>
      have hstep : mediaStep cfg ientry m (.handle e) =
          { m with d := (taskStep cfg m.d e p).1, tasks := (taskStep cfg m.d e p).2 ++ ps } := by
        simp only [mediaStep, hps]
      rw [hstep]
      exact .single (follows_task hext hl hps (hok p (by rw [hps]; rfl)))
  | call op =>
    have of_same (hs : SameRegistry m.d (m.d.step cfg op)) :
        Media.view cfg { m with d := m.d.step cfg op } = m.view cfg := by
      simp only [Media.view, held_of_same hs]
    show Relation.ReflGen _ _ (Media.view cfg { m with d := m.d.step cfg op })
    cases op with
    | registerPath e device path mount =>
      have hstep : Step (followed ientry) (m.view cfg) _ := .asked (dropSlash path)
      rw [show (m.view cfg).held = held m.d from rfl, ← take_shown hl hok device mount] at hstep
      exact .single hstep
    | run ret id user => rw [of_same (sameRegistry_run m.d ret id user)]
    | stop now runId => rw [of_same (sameRegistry_stop m.d now runId)]
    | purgatoryCheck out => rw [of_same (sameRegistry_purgatoryCheck m.d out)]
    | crawlMount e device path => exact hok.elim
    | releasePath path => exact hok.elim
    | releaseMount device => exact hok.elim

/-! ### What a run keeps -/

theorem mayHave_update {ids : CStr → Option CStr} {p : CStr} {o : Option CStr}
    (h : ∀ path id, ids path = some id → MayHave cfg ids path id) (ho : ∀ id ∈ o, MayHave cfg ids p id) :
    ∀ path id, Function.update ids p o path = some id → MayHave cfg (Function.update ids p o) path id := by
  intro path id hid
  by_cases hp : path = p
  · subst hp
    obtain rfl : o = some id := by simpa using hid
    obtain ⟨hi, hv, hother⟩ := ho id rfl
    exact ⟨hi, hv, fun q hq => by rw [Function.update_of_ne hq]; exact hother q hq⟩
  · rw [Function.update_of_ne hp] at hid
    obtain ⟨hi, hv, hother⟩ := h path id hid
    refine ⟨hi, hv, fun q hq => ?_⟩
    by_cases hqp : q = p
    · subst hqp
      rw [Function.update_self]
      rintro rfl
      exact (ho id rfl).2.2 path hp hid
    · rw [Function.update_of_ne hqp]
      exact hother q hq

/-- The tasks that a task leaves. -/
theorem taskStep_tasks (d : Daemon) (e : Env) (p : MainTask) : ∀ q ∈ (taskStep cfg d e p).2,
    (∃ device dir mount, q = .list device dir mount) ∨
      ∃ device path mount, q = .file device path mount ∧ packageFilenameInteresting cfg path := by
  intro q hq
  cases p with
  | change c =>
    by_cases hc : c.tag = .added
    · rw [taskStep, if_pos hc] at hq
      obtain ⟨dir, -, rfl⟩ := List.mem_map.mp hq
      exact .inl ⟨_, _, _, rfl⟩
    · rw [taskStep, if_neg hc] at hq
      cases hq
  | list device dir mount =>
    obtain ⟨name, hname, rfl⟩ := List.mem_map.mp hq
    refine .inr ⟨_, _, _, rfl, interesting_of_suffix (List.suffix_append _ _) (List.mem_filter.mp hname).2⟩
  | file device path mount => cases hq

theorem Media.Legible.step (hl : m.Legible cfg) {op : MediaOp} (hok : MediaOk cfg ientry m op) :
    (mediaStep cfg ientry m op).Legible cfg := by
  cases op with
  | event ev dir name id =>
    obtain ⟨hw, -, hid⟩ := hok
    refine ⟨mayHave_update hl.ids fun x hx => ?_, fun c hc => ?_, fun device path mount hp => ?_⟩
    · split_ifs at hx with hr
      · cases hx
      · exact hid hr x hx
    · rcases List.mem_append.mp hc with hc | hc
      · exact hl.changes c hc
      · obtain ⟨c', hc', he⟩ := List.mem_map.mp hc
        obtain rfl := MainTask.change.inj he
        rw [inotifyChanges_watched hw] at hc'
        obtain ⟨tag, htag, rfl⟩ := List.mem_map.mp hc'
        rw [inotifyTags_mask] at htag
        rintro rfl
        split_ifs at htag <;> simp at htag
    · rcases List.mem_append.mp hp with hp | hp
      · exact hl.files device path mount hp
      · obtain ⟨c, -, he⟩ := List.mem_map.mp hp
        cases he
  | rewrite dir name => exact ⟨hl.ids, hl.changes, hl.files⟩
  | handle e =>
    cases hps : m.tasks with
    | nil => simpa only [mediaStep, hps] using hl
    | cons p ps =>
      have hmem : ∀ q ∈ ps, q ∈ m.tasks := fun q hq => by rw [hps]; exact List.mem_cons_of_mem p hq
      have hstep : mediaStep cfg ientry m (.handle e) =
          { m with d := (taskStep cfg m.d e p).1, tasks := (taskStep cfg m.d e p).2 ++ ps } := by
        simp only [mediaStep, hps]
      rw [hstep]
      refine ⟨hl.ids, fun c hc => ?_, fun device path mount hp => ?_⟩
      · rcases List.mem_append.mp hc with hc | hc
        · rcases taskStep_tasks m.d e p _ hc with ⟨_, _, _, he⟩ | ⟨_, _, _, he, -⟩ <;> cases he
        · exact hl.changes c (hmem _ hc)
      · rcases List.mem_append.mp hp with hp | hp
        · rcases taskStep_tasks m.d e p _ hp with ⟨_, _, _, he⟩ | ⟨_, _, _, he, hi⟩
          · cases he
          · cases he
            exact hi
        · exact hl.files device path mount (hmem _ hp)
  | call op => exact ⟨hl.ids, hl.changes, hl.files⟩

theorem Media.Legible.distinct (hl : m.Legible cfg) : Distinct (m.view cfg) := by
  intro p q k hp hq
  by_contra hne
  exact (hl.ids p k hp).2.2 q (Ne.symm hne) hq

/-- What is followed has the invariant all along. -/
theorem inv_mediaStep (hext : PlainExtensions cfg) (hl : m.Legible cfg) (h : Inv (followed ientry) (m.view cfg))
    {op : MediaOp} (hok : MediaOk cfg ientry m op) : Inv (followed ientry) ((mediaStep cfg ientry m op).view cfg) := by
  have hd : Distinct ((mediaStep cfg ientry m op).view cfg) := (hl.step hok).distinct
  have hstep := follows hext hl hok
  generalize (mediaStep cfg ientry m op).view cfg = t at hd hstep ⊢
  cases hstep with
  | refl => exact h
  | single hs => exact hs.inv hd h

theorem Media.Start.legible (h : m.Start cfg ientry) : m.Legible cfg where
  ids := h.ids
  changes c hc := by
    obtain ⟨c', he, htag⟩ := h.tasks _ hc
    obtain rfl := MainTask.change.inj he
    simp [htag]
  files device path mount hp := by
    obtain ⟨c, he, -⟩ := h.tasks _ hp
    cases he

theorem Media.Start.inv (h : m.Start cfg ientry) : Inv (followed ientry) (m.view cfg) := by
  have hmem : ∀ {path id}, (path, id) ∈ held m.d ↔ ∃ x ∈ m.d.p.entry, x.path = path ∧ x.id = id := by
    intro path id
    simp [held]
  refine .start ?_ h.legible.distinct (fun path id hx => ?_) (fun n hn path => ?_) (fun path hp id hid => ?_)
  · exact (held_ids m.d).symm ▸ h.nodup
  · obtain ⟨x, hmem, rfl, rfl⟩ := hmem.mp hx
    exact h.entry x hmem
  · obtain ⟨p, hp, rfl⟩ := List.mem_map.mp hn
    obtain ⟨c, rfl, htag⟩ := h.tasks p hp
    simp [MainTask.note, htag]
  · obtain ⟨dir, name, hw, rfl⟩ := hp
    refine (h.crawled dir name hw id hid).imp hmem.mpr fun ⟨c, hc, s, hs, hdir⟩ => ?_
    obtain ⟨c', he, htag⟩ := h.tasks _ hc
    obtain rfl := MainTask.change.inj he
    refine ⟨_, List.mem_map_of_mem hc, ?_⟩
    simp only [MainTask.note, htag]
    refine ⟨s, hs, name, hw.2.2, ?_⟩
    simp [watchedPath, hdir, lit]

end Steps

theorem mediaOk_handle {cfg : DBPConfig} {ientry : List MountwatchInotify} {m : Media} {e : Env} {p : MainTask}
    {ps : List MainTask} (hps : m.tasks = p :: ps) (hok : TaskOk cfg m e p) : MediaOk cfg ientry m (.handle e) := by
  intro q hq
  rw [hps] at hq
  obtain rfl := Option.mem_some.mp hq
  exact hok

/-- A watched directory, whose mount is to be crawled. -/
def demoDir : MountwatchInotify := ⟨lit "/m", lit "/m/.", lit "/dev/sda1", 1⟩

def demoMedia : Media :=
  ⟨Daemon.init [] [] [], fun _ => none, [], [.change ⟨lit "/m", lit "/dev/sda1", [], .added⟩]⟩

theorem demoMedia_start : demoMedia.Start demoConfig [demoDir] where
  tasks p hp := ⟨_, List.mem_singleton.mp hp, rfl⟩
  busy := rfl
  entry x hx := absurd hx List.not_mem_nil
  nodup := List.nodup_nil
  ids path id h := by cases h
  crawled dir name _ id h := by cases h

/-- A package is moved there, and crawled before its event is handled. -/
def demoMove : List MediaOp :=
  let e := demoEnv [(lit "/m/./a.dbp", [demoMeta (lit "a")])]
  [.event .movedTo demoDir (lit "a.dbp") (some (lit "a")), .handle e, .handle e, .handle e, .handle e]

theorem demoMove_ok : Admissible (mediaStep demoConfig [demoDir]) (MediaOk demoConfig [demoDir]) demoMedia demoMove := by
  refine ⟨⟨⟨rfl, by decide, by decide⟩, fun _ => .inl rfl, fun _ x hx => ?_⟩, mediaOk_handle rfl nofun,
    mediaOk_handle rfl fun name _ hread => ?_, mediaOk_handle rfl (by unfold TaskOk Shown; decide),
    mediaOk_handle rfl fun _ => by unfold Shown; decide, trivial⟩
  · obtain rfl := Option.mem_some.mp hx
    exact ⟨by decide, by decide, fun _ _ h => by cases h⟩
  · by_contra hname
    have hne : lit "/m/./" ++ name ≠ lit "/m/./" ++ lit "a.dbp" := fun h => hname (by
      rw [List.append_cancel_left h]
      decide)
    have hreads : ∀ path, Media.reads (mediaStep demoConfig [demoDir] demoMedia
        (.event .movedTo demoDir (lit "a.dbp") (some (lit "a")))) path =
          Function.update (fun _ => none) (lit "/m/./" ++ lit "a.dbp") (some (lit "a")) path := fun path =>
      if_neg (List.not_mem_nil)
    refine hread ((hreads _).trans ?_)
    exact Function.update_of_ne hne (some (lit "a")) fun _ => none

/-- A package that another one is moved over stays in the registry. -/
example :
    let e := demoEnv [(lit "/m/./a.dbp", [demoMeta (lit "b")])]
    let ops : List MediaOp := [.event .movedTo demoDir (lit "a.dbp") (some (lit "b")), .handle e]
    held ((demoMove ++ ops).foldl (mediaStep demoConfig [demoDir]) demoMedia).d =
      [(lit "/m/./a.dbp", lit "a"), (lit "/m/./a.dbp", lit "b")] := by
  decide

end Dbp
