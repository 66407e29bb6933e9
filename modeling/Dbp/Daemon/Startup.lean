/-
# Starting the daemon

The registry lives in memory, the files exported for it do not: a daemon that
starts finds what the last one left in the launcher, icon and executable
directories. `daemon_init` makes the directories and clears them of it. A
launcher or an icon is the daemon's by its `__dbp__` prefix, a script by its
second line, which it has from the template.

Whatever the daemons before it did, and however they ended, a daemon whose
start succeeds finds the directories it would have found had none of them run
(`start_forgets`): the files of others are there and as they were, the
daemon's own are gone. The D-Bus thread is started first, though, and what it
registers before the directories are cleared loses its files with them
(`early_isolated_iff`).

Key definitions: `daemonNuke`, `daemonInit`, `Marked`, `LifeOp`, `HeadedTemplate`, `Outside`.
Key theorems: `marked_of_headed`, `Outside.call`, `start_forgets`, `early_isolated_iff`.
-/
import Dbp.Base.LoopMount
import Dbp.Daemon.ExecOwners
import Dbp.Daemon.ExecTemplate
import Dbp.Daemon.LookupMount
import Dbp.Daemon.MetaIsolation

namespace Dbp

open CLib Sweep Find Runs Namespaces

/-! ### Clearing the directories -/

/-- `daemon_nuke_dir`: the directory without the files that begin with `DBP_META_PREFIX`. -/
def daemonNukeDir (d : Dir) : Dir := d.filter fun f => !metaPrefix.isPrefixOf f.1

/-- What two calls of `fgets` leave in the buffer: the second line, or the first if there is no second. -/
def secondLine (text : CStr) : CStr :=
  let first := fgets 511 text
  let second := fgets 511 first.2.1
  if second.1 = [] then first.1 else second.1

/-- The test of `daemon_nuke_execs`. -/
def Marked (text : CStr) : Prop := cString (secondLine text) = lit "#dbp-template\n"

instance (text : CStr) : Decidable (Marked text) := inferInstanceAs (Decidable (_ = _))

/-- `daemon_nuke_execs`: the directory without the marked files, of those that can be opened. -/
def daemonNukeExecs (opens : CStr → Bool) (d : Dir) : Dir := d.filter fun f => !(opens f.1 && decide (Marked f.2))

/-- What the start of a daemon finds: whether `dbp_loop_directory_setup` makes a directory, whether `opendir` and `fopen`
open a directory and a script. -/
structure StartEnv where
  setup : CStr → Bool
  opendir : CStr → Bool
  fopen : CStr → Bool

/-- `daemon_nuke`. -/
def daemonNuke (cfg : DBPConfig) (o : StartEnv) (d : Daemon) : Bool × Daemon :=
  if !o.opendir cfg.desktopDirectory then (false, d)
  else
    let d := { d with desktops := daemonNukeDir d.desktops }
    if !o.opendir cfg.iconDirectory then (false, d)
    else
      let d := { d with icons := daemonNukeDir d.icons }
      if !o.opendir cfg.execDirectory then (false, d)
      else (true, { d with execs := daemonNukeExecs o.fopen d.execs })

/-- `daemon_init`. -/
def daemonInit (cfg : LoopConfig) (dbpoutDirectory : CStr) (o : StartEnv) (d : Daemon) : Bool × Daemon :=
  if !o.setup cfg.imgMount then (false, d)
  else if !o.setup cfg.unionMount then (false, d)
  else if !o.setup cfg.iconDirectory then (false, d)
  else if !o.setup cfg.execDirectory then (false, d)
  else if !o.setup cfg.desktopDirectory then (false, d)
  else if !o.setup dbpoutDirectory then (false, d)
  else daemonNuke cfg.toDBPConfig o d

/-! ### Lives of daemons -/

/-- What can happen to the daemon and its files: a call, the end of the process and the start of a new one, whose
`state_recover` finds the run count and the instances, and `daemon_init` in that. -/
inductive LifeOp
  | call (op : DaemonOp)
  | start (runCnt : ℤ) (instance_ : List PackageInstance)
  | init (o : StartEnv)

/-- The daemon after `package_init` and `state_recover`, over the files it finds. -/
def Daemon.restarted (d : Daemon) (runCnt : ℤ) (instance_ : List PackageInstance) : Daemon :=
  ⟨⟨[], runCnt, instance_, []⟩, d.icons, d.desktops, d.execs, [], []⟩

/-- One operation. -/
def lifeStep (cfg : LoopConfig) (dbpoutDirectory : CStr) (d : Daemon) : LifeOp → Daemon
  | .call op => d.step cfg.toDBPConfig op
  | .start runCnt instance_ => d.restarted runCnt instance_
  | .init o => (daemonInit cfg dbpoutDirectory o d).2

/-! ### Marked scripts -/

/-- A template with the two lines that `scripts/dbp_exec` must begin with: an interpreter, and the mark. -/
def HeadedTemplate (text : CStr) : Prop :=
  ∃ interp rest, cString text = lit "#!" ++ interp ++ '\n' :: (lit "#dbp-template" ++ '\n' :: rest) ∧
    interp ≠ [] ∧ interp.head? ≠ some '%' ∧ '!' ∉ interp ∧ '\n' ∉ interp ∧ interp.length ≤ 508

/-- The second line of a text of two lines. -/
theorem secondLine_eq {line mark : CStr} (rest : CStr) (h1 : '\n' ∉ line) (h1' : line.length < 511) (h2 : '\n' ∉ mark)
    (h2' : mark.length < 511) : secondLine (line ++ '\n' :: (mark ++ '\n' :: rest)) = mark ++ ['\n'] := by
  simp [secondLine, fgets_line _ h1 h1', fgets_line _ h2 h2']

theorem strtok_append {delim : Char} {s : CStr} (h : delim ∉ s) (hne : s ≠ []) (t : CStr) :
    strtok delim (s ++ delim :: t) = s :: strtok delim t := by
  rw [strtok, List.splitOn_append_cons_self_of_not_mem h]
  simp [strtok, hne]

/-- The first token begins with what comes before the first delimiter. -/
theorem strtok_prefix {delim : Char} {s : CStr} (h : delim ∉ s) (hne : s ≠ []) (t : CStr) :
    ∃ t' ts, strtok delim (s ++ t) = (s ++ t') :: ts := by
  by_cases ht : delim ∈ t
  · obtain ⟨u, v, rfl, hu⟩ := List.eq_append_cons_of_mem ht
    have hsu : delim ∉ s ++ u := by simp [h, hu]
    refine ⟨u, strtok delim v, ?_⟩
    rw [← List.append_assoc]
    exact strtok_append hsu (by simp [hne]) v
  · have hst : delim ∉ s ++ t := by simp [h, ht]
    refine ⟨t, [], ?_⟩
    rw [strtok, List.splitOn_eq_singleton hst]
    simp [hne]

/-- A text whose first token is inside the first line keeps what it begins with. -/
theorem expandTokens_head_line {id bin : CStr} {env : ℤ} {body : CStr} (hbang : '!' ∉ body) (hne : body ≠ [])
    (hpercent : body.head? ≠ some '%') (rest : CStr) :
    ∃ out, expandTokens id bin env false (strtok '!' ('#' :: '!' :: (body ++ rest))) = '#' :: '!' :: (body ++ out) := by
  obtain ⟨t, ts, htok⟩ := strtok_prefix hbang hne rest
  have hhead : (body ++ t).head? ≠ some '%' := by rwa [List.head?_append_of_ne_nil _ hne]
  have hfirst : strtok '!' ('#' :: '!' :: (body ++ rest)) = ['#'] :: (body ++ t) :: ts :=
    (strtok_append (s := ['#']) (by decide) (by decide) _).trans (congrArg _ htok)
  refine ⟨t ++ expandTokens id bin env false ts, ?_⟩
  rw [hfirst, expandTokens, expandTokens_stray hhead]
  simp

/-- **The mark gets through.** A script from such a template is marked, whatever it is written for. -/
theorem marked_of_headed {cfg : DBPConfig} {e : Env} {text : CStr} (ht : e.readFile cfg.execTemplate = some text)
    (h : HeadedTemplate text) {bin id script : CStr} {env : ℤ} (hs : packageEmitExec cfg e bin env id = some script) :
    Marked script := by
  obtain ⟨interp, rest, htext, hne, hpercent, hbang, hline, hlen⟩ := h
  have hmark : '\n' ∉ lit "#dbp-template" ∧ '!' ∉ lit "#dbp-template" := by decide
  obtain ⟨out, hout⟩ := @expandTokens_head_line id bin env (interp ++ '\n' :: (lit "#dbp-template" ++ ['\n']))
    (by simp [hbang, hmark.2]) (by simp) (by rwa [List.head?_append_of_ne_nil _ hne]) rest
  have hscript : script = ('#' :: '!' :: interp) ++ '\n' :: (lit "#dbp-template" ++ '\n' :: out) := by
    have hhead : lit "#!" = ['#', '!'] := rfl
    simp only [packageEmitExec, ht, Option.map_some, Option.some.injEq, htext, hhead] at hs
    simp only [List.append_assoc, List.cons_append, List.nil_append] at hs hout ⊢
    rw [← hs, hout]
  rw [Marked, hscript, secondLine_eq out (by simp [hline]) (by simpa using by omega) hmark.1 (by decide)]
  decide

/-! ### The files of others -/

/-- The directory without the scripts that carry the mark. -/
abbrev unmarkedExecs (d : Dir) : Dir := daemonNukeExecs (fun _ => true) d

/-- Files that one leaves out are not written. -/
theorem filter_write {keep : CStr × CStr → Bool} {d : Dir} {name data : CStr} (hnew : keep (name, data) = false)
    (hold : ∀ f ∈ d, f.1 = name → keep f = false) : (d.write name data).filter keep = d.filter keep := by
  unfold Dir.write
  split_ifs
  · rw [List.filter_map, List.filter_congr (q := keep) fun f hf => ?_]
    · refine (List.map_congr_left fun f hf => if_neg fun he => ?_).trans (List.map_id' _)
      obtain ⟨hmem, hkeep⟩ := List.mem_filter.mp hf
      rw [hold f hmem he] at hkeep
      cases hkeep
    · simp only [Function.comp_apply]
      split_ifs with he
      · rw [hnew, hold f hf he]
      · rfl
  · simp [hnew]

/-- Files that one keeps are not deleted. -/
theorem filter_unlink {keep : CStr × CStr → Bool} : ∀ {names : List CStr} {d : Dir},
    (∀ n ∈ names, n ∉ Dir.names (d.filter keep)) → (names.foldl Dir.unlink d).filter keep = d.filter keep
  | [], _, _ => rfl
  | n :: names, d, h => by
    have hone : (d.unlink n).filter keep = d.filter keep := by
      rw [Dir.unlink, List.filter_filter, List.filter_congr fun f hf => ?_]
      cases hk : keep f with
      | false => simp
      | true =>
        have hne : f.1 ≠ n := fun he => h n List.mem_cons_self
          (he ▸ List.mem_map_of_mem (List.mem_filter.mpr ⟨hf, hk⟩))
        simpa using hne
    rw [List.foldl_cons, filter_unlink fun n' hn' => ?_, hone]
    rw [hone]
    exact h n' (List.mem_cons_of_mem _ hn')

theorem daemonNukeDir_write (d : Dir) (pkgId fname data : CStr) :
    daemonNukeDir (d.write (metaName pkgId fname) data) = daemonNukeDir d := by
  have hpre : metaPrefix.isPrefixOf (metaName pkgId fname) := by
    rw [List.isPrefixOf_iff_prefix]
    exact (metaPrefix_starts pkgId).trans (List.prefix_append _ _)
  exact filter_write (by simp [hpre]) fun f _ he => by simp [he, hpre]

theorem daemonNukeDir_kill (d : Dir) (pkgId : CStr) :
    daemonNukeDir (packageKillPrefix d (metaPrefixOf pkgId)).1 = daemonNukeDir d := by
  unfold daemonNukeDir packageKillPrefix
  rw [List.filter_filter]
  refine List.filter_congr fun f _ => ?_
  rw [Bool.eq_iff_iff]
  simp only [Bool.and_eq_true, Bool.not_eq_true', ← Bool.not_eq_true, List.isPrefixOf_iff_prefix]
  exact ⟨fun h => h.1, fun h => ⟨h, fun hpre => h ((metaPrefix_starts pkgId).trans hpre)⟩⟩

/-- What the daemon leaves alone in the directories: all that does not carry its prefix or its mark. -/
structure Outside (icons desktops execs : Dir) (d : Daemon) : Prop where
  /-- No package has recorded the name of such a script as its own. -/
  listed : ∀ p ∈ d.p.entry, ∀ n ∈ p.exec, n ∉ Dir.names (unmarkedExecs execs)
  icons : daemonNukeDir d.icons = daemonNukeDir icons
  desktops : daemonNukeDir d.desktops = daemonNukeDir desktops
  execs : unmarkedExecs d.execs = unmarkedExecs execs

/-- The template, if it can be read, has the mark. -/
def TemplateOk (cfg : DBPConfig) (e : Env) : Prop := ∀ text ∈ e.readFile cfg.execTemplate, HeadedTemplate text

section Exports

variable {cfg : DBPConfig} {e : Env}

/-- The scripts of others are as they were, and none of them is recorded. -/
theorem unmarkedExecs_export (ht : TemplateOk cfg e) (id : CStr) {execs : Dir} : ∀ (ts : List (CStr × ℤ))
    (s : Dir × List CStr), unmarkedExecs s.1 = unmarkedExecs execs → (∀ n ∈ s.2, n ∉ Dir.names (unmarkedExecs execs)) →
    unmarkedExecs (ts.foldl (exportExec cfg e id) s).1 = unmarkedExecs execs ∧
      ∀ n ∈ (ts.foldl (exportExec cfg e id) s).2, n ∉ Dir.names (unmarkedExecs execs)
  | [], _, hdir, hlist => ⟨hdir, hlist⟩
  | t :: ts, s, hdir, hlist => by
    rw [List.foldl_cons]
    by_cases ha : s.1.Accessible (findFilename t.1)
    · have hskip : exportExec cfg e id s t = s := if_pos ha
      rw [hskip]
      exact unmarkedExecs_export ht id ts s hdir hlist
    · have hno : findFilename t.1 ∉ s.1.names := fun hm => ha (.inl hm)
      simp only [exportExec, execExportTok, if_neg ha]
      apply unmarkedExecs_export ht id ts
      · unfold emitScript
        cases hs : packageEmitExec cfg e t.1 t.2 id with
        | none => exact hdir
        | some script =>
          obtain ⟨text, htext, -⟩ : ∃ text, e.readFile cfg.execTemplate = some text ∧ _ := Option.map_eq_some_iff.mp hs
          have hmark : Marked script := marked_of_headed htext (ht text htext) hs
          dsimp only
          split_ifs
          · rw [← hdir]
            exact filter_write (by simp [hmark]) fun f hf he => absurd (he ▸ List.mem_map_of_mem hf) hno
          · exact hdir
      · intro n hn
        rcases List.mem_append.mp hn with hn | hn
        · exact hlist n hn
        · rw [List.mem_singleton.mp hn, ← hdir]
          exact fun hm => hno ((List.filter_sublist.map _).subset hm)

theorem daemonNukeDir_icons (path : CStr) (p : PackageEntry) (announce : Bool) (m : MetaState) :
    daemonNukeDir (packageMetaExtract cfg e path p announce m).icons = daemonNukeDir m.icons := by
  rw [extract_eq]
  refine List.foldlRecOn (motive := fun m' : MetaState => daemonNukeDir m'.icons = daemonNukeDir m.icons) _ _ rfl
    fun m' hm' f hf => ?_
  rw [extractFile_eq cfg announce m' (opensFile_of_mem cfg e path hf)]
  split_ifs
  · exact (daemonNukeDir_write _ _ _ _).trans hm'
  · rwa [icons_desktopWrite]
  · exact hm'

theorem daemonNukeDir_desktops (path : CStr) (p : PackageEntry) (announce : Bool) (m : MetaState) :
    daemonNukeDir (packageMetaExtract cfg e path p announce m).desktops = daemonNukeDir m.desktops := by
  rw [extract_desktops cfg e path p announce m (fun m => daemonNukeDir m.desktops) (fun dir _ => dir)
    (fun _ _ => rfl) fun m _ _ ho => ?_]
  · exact List.foldl_fixed _
  · simp only [packageDesktopWrite, ho, Bool.not_true, Bool.false_eq_true, if_false]
    exact daemonNukeDir_write _ _ _ _

end Exports

/-- The templates that a call reads. -/
def PackageCall.Headed (cfg : DBPConfig) : PackageCall → Prop
  | .register e _ _ _ => TemplateOk cfg e
  | _ => True

/-- The templates that an operation reads. -/
def LifeOp.Headed (cfg : DBPConfig) : LifeOp → Prop
  | .call (.registerPath e _ _ _) => TemplateOk cfg e
  | .call (.crawlMount e _ _) => TemplateOk cfg e
  | _ => True

namespace Outside

variable {icons desktops execs : Dir} {d : Daemon}

theorem init (icons desktops execs : Dir) : Outside icons desktops execs (Daemon.init icons desktops execs) :=
  ⟨fun _ hp => absurd hp List.not_mem_nil, rfl, rfl, rfl⟩

theorem of_same {d' : Daemon} (h : Outside icons desktops execs d) (hs : SameRegistry d d') :
    Outside icons desktops execs d' :=
  ⟨hs.entry ▸ h.listed, hs.icons ▸ h.icons, hs.desktops ▸ h.desktops, hs.execs ▸ h.execs⟩

/-- A package that is taken in. -/
theorem exported {cfg : DBPConfig} {e : Env} (ht : TemplateOk cfg e) {es : List PackageEntry} {p : PackageEntry}
    (h : Outside icons desktops execs d) (hd : d.p.entry = es ++ [p]) (path : CStr) :
    Outside icons desktops execs (packageExport cfg d e path es.length) := by
  rw [packageExport_last cfg hd e path]
  have hextract := execs_extract cfg e path p (p.desktop == lit "desk") ⟨d.icons, d.desktops, d.execs, d.signals, p.exec⟩
  obtain ⟨hdir, hlist⟩ := unmarkedExecs_export ht p.id (archiveExecs cfg e p (extractedFiles cfg e p.id path))
    (d.execs, p.exec) h.execs (h.listed p (by simp [hd]))
  rw [← hextract] at hdir hlist
  refine ⟨fun q hq => ?_, (daemonNukeDir_icons _ _ _ _).trans h.icons, (daemonNukeDir_desktops _ _ _ _).trans h.desktops,
    hdir⟩
  rcases List.mem_append.mp hq with hq | hq
  · exact h.listed q (by simp [hd, hq])
  · rw [List.mem_singleton.mp hq]
    exact hlist

/-- A package that is removed. -/
theorem kill (h : Outside icons desktops execs d) (cfg : DBPConfig) (entry : ℕ) :
    Outside icons desktops execs (packageKill cfg d entry) := by
  unfold packageKill
  cases hget : d.p.entry[entry]? with
  | none => exact h
  | some p =>
    have hp := h.listed p (List.mem_of_getElem? hget)
    rw [← h.execs] at hp
    exact ⟨fun q hq => h.listed q (List.eraseIdx_subset hq), (daemonNukeDir_kill _ _).trans h.icons,
      (daemonNukeDir_kill _ _).trans h.desktops, (filter_unlink hp).trans h.execs⟩

/-- One call. -/
theorem call (h : Outside icons desktops execs d) {cfg : DBPConfig} (c : PackageCall) (hc : c.Headed cfg) :
    Outside icons desktops execs (c.apply cfg d) := by
  cases c with
  | register e path device mount =>
    show Outside icons desktops execs (packageRegister cfg d e path device mount).2.2
    have hcases := packageRegister_cases cfg d e path device mount
    generalize packageRegister cfg d e path device mount = r at hcases ⊢
    cases hcases with
    | unreadable errid hopen => exact h
    | noId df hopen hid => exact h
    | rejected df id errid coll hopen hid hcheck => exact h
    | added df id hopen hid hcheck =>
      refine exported hc ⟨fun p hp => ?_, ?_, ?_, ?_⟩ (by rw [packageAdd_added hcheck]) path
      all_goals rw [packageAdd_added hcheck] at *
      · rcases List.mem_append.mp hp with hp | hp
        · exact h.listed p hp
        · rw [List.mem_singleton.mp hp]
          exact fun n hn => absurd hn List.not_mem_nil
      · exact h.icons
      · exact h.desktops
      · exact h.execs
  | kill entry => exact h.kill cfg entry
  | run ret id user => exact h.of_same (sameRegistry_run d ret id user)
  | stop now runId => exact h.of_same (sameRegistry_stop d now runId)
  | purgatoryCheck out => exact h.of_same (sameRegistry_purgatoryCheck d out)

/-- All calls of an operation. -/
theorem step (h : Outside icons desktops execs d) {cfg : DBPConfig} (op : DaemonOp) (hop : (LifeOp.call op).Headed cfg) :
    Outside icons desktops execs (d.step cfg op) := by
  rw [← step_calls]
  refine List.foldlRecOn (motive := Outside icons desktops execs) _ _ h fun d' hd' c hc => hd'.call c ?_
  cases op with
  | registerPath e device path mount =>
    rw [DaemonOp.calls] at hc
    split_ifs at hc
    · rw [List.mem_singleton.mp hc]
      exact hop
    · exact absurd hc List.not_mem_nil
  | crawlMount e device path =>
    obtain ⟨f, -, rfl⟩ := List.mem_map.mp hc
    exact hop
  | releasePath path =>
    obtain ⟨i, -, rfl⟩ := Option.map_eq_some_iff.mp (Option.mem_toList.mp hc)
    trivial
  | releaseMount device =>
    obtain ⟨i, -, rfl⟩ := List.mem_map.mp hc
    trivial
  | run ret id user => exact List.mem_singleton.mp hc ▸ trivial
  | stop now runId => exact List.mem_singleton.mp hc ▸ trivial
  | purgatoryCheck out => exact List.mem_singleton.mp hc ▸ trivial

end Outside

/-! ### A start -/

/-- A start ends at the first directory that cannot be made or opened, with those before it cleared. -/
inductive InitCase (o : StartEnv) (d : Daemon) : Bool × Daemon → Prop
  | setup : InitCase o d (false, d)
  | desktops : InitCase o d (false, { d with desktops := daemonNukeDir d.desktops })
  | icons : InitCase o d (false, { d with desktops := daemonNukeDir d.desktops, icons := daemonNukeDir d.icons })
  | done : InitCase o d (true, { d with
      desktops := daemonNukeDir d.desktops
      icons := daemonNukeDir d.icons
      execs := daemonNukeExecs o.fopen d.execs })

section Start

variable {cfg : LoopConfig} {dbpoutDirectory : CStr} {o : StartEnv} {d : Daemon}

theorem daemonInit_cases : InitCase o d (daemonInit cfg dbpoutDirectory o d) := by
  unfold daemonInit daemonNuke
  simp only
  split_ifs
  all_goals constructor

theorem daemonInit_true (h : (daemonInit cfg dbpoutDirectory o d).1 = true) :
    (daemonInit cfg dbpoutDirectory o d).2 = { d with
      desktops := daemonNukeDir d.desktops
      icons := daemonNukeDir d.icons
      execs := daemonNukeExecs o.fopen d.execs } := by
  have hc := @daemonInit_cases cfg dbpoutDirectory o d
  generalize daemonInit cfg dbpoutDirectory o d = r at h hc ⊢
  cases hc with
  | done => rfl
  | _ => cases h

theorem daemonNukeDir_twice (dir : Dir) : daemonNukeDir (daemonNukeDir dir) = daemonNukeDir dir := by
  simp [daemonNukeDir]

theorem unmarkedExecs_nuke (opens : CStr → Bool) (dir : Dir) : unmarkedExecs (daemonNukeExecs opens dir) = unmarkedExecs dir := by
  simp only [unmarkedExecs, daemonNukeExecs, List.filter_filter]
  exact List.filter_congr fun f _ => by cases decide (Marked f.2) <;> simp

/-- One step of a life. -/
theorem Outside.life {icons desktops execs : Dir} (h : Outside icons desktops execs d) (op : LifeOp)
    (hop : op.Headed cfg.toDBPConfig) : Outside icons desktops execs (lifeStep cfg dbpoutDirectory d op) := by
  cases op with
  | call op => exact h.step op hop
  | start runCnt instance_ => exact ⟨fun _ hp => absurd hp List.not_mem_nil, h.icons, h.desktops, h.execs⟩
  | init o =>
    show Outside icons desktops execs (daemonInit cfg dbpoutDirectory o d).2
    have hdesktops := (daemonNukeDir_twice d.desktops).trans h.desktops
    have hicons := (daemonNukeDir_twice d.icons).trans h.icons
    have hc := @daemonInit_cases cfg dbpoutDirectory o d
    generalize daemonInit cfg dbpoutDirectory o d = r at hc ⊢
    cases hc with
    | setup => exact h
    | desktops => exact ⟨h.listed, h.icons, hdesktops, h.execs⟩
    | icons => exact ⟨h.listed, hicons, hdesktops, h.execs⟩
    | done => exact ⟨h.listed, hicons, hdesktops, (unmarkedExecs_nuke _ _).trans h.execs⟩

end Start

/-- **A start forgets.** Whatever daemons did before and wherever they were stopped, a start that succeeds and can open
the marked scripts leaves the files of others, as they were before the first of them, and nothing else. -/
theorem start_forgets (cfg : LoopConfig) (dbpoutDirectory : CStr) (icons desktops execs : Dir) (ops : List LifeOp)
    (hops : ∀ op ∈ ops, op.Headed cfg.toDBPConfig) (o : StartEnv)
    (hopen : ∀ f ∈ (ops.foldl (lifeStep cfg dbpoutDirectory) (Daemon.init icons desktops execs)).execs,
      Marked f.2 → o.fopen f.1)
    (hstart : (daemonInit cfg dbpoutDirectory o
      (ops.foldl (lifeStep cfg dbpoutDirectory) (Daemon.init icons desktops execs))).1 = true) :
    let d := (daemonInit cfg dbpoutDirectory o
      (ops.foldl (lifeStep cfg dbpoutDirectory) (Daemon.init icons desktops execs))).2
    d.icons = icons.filter (fun f => !metaPrefix.isPrefixOf f.1) ∧
      d.desktops = desktops.filter (fun f => !metaPrefix.isPrefixOf f.1) ∧
      d.execs = execs.filter fun f => !decide (Marked f.2) := by
  have hout : Outside icons desktops execs
      (ops.foldl (lifeStep cfg dbpoutDirectory) (Daemon.init icons desktops execs)) :=
    List.foldlRecOn (motive := Outside icons desktops execs) _ _ (.init icons desktops execs)
      fun d hd op hop => hd.life op (hops op hop)
  rw [daemonInit_true hstart]
  have hmarked : ∀ dir : Dir, unmarkedExecs dir = dir.filter fun f => !decide (Marked f.2) := fun dir => by
    simp [daemonNukeExecs]
  refine ⟨hout.icons, hout.desktops, ?_⟩
  rw [← hmarked, ← hout.execs]
  refine List.filter_congr fun f hf => ?_
  by_cases hm : Marked f.2
  · simp [hopen f hf hm]
  · simp [hm]

/-- A start at which nothing goes wrong. -/
def demoStart : StartEnv := ⟨fun _ => true, fun _ => true, fun _ => true⟩

/-- The beginning of the shipped template. -/
def demoTemplate : CStr := lit "#!/bin/bash\n#dbp-template\nexec dbp-run !%package_id!\n"

/-- A medium with a package that has a launcher for an executable, and the template. -/
def demoScriptEnv : Env :=
  { demoEnv [(lit "/m/a.dbp", demoGame (lit "a"))] with readFile := fun _ => some demoTemplate }

/-- A daemon that registered the package is killed and started again: of the package nothing is left, of a script left by
an even earlier one neither, and the user's script stays. -/
theorem start_forgets_demo :
    let ops : List LifeOp := [.call (.registerPath demoScriptEnv (lit "/dev/sda1") (lit "/m/a.dbp") (lit "/m")), .start 0 []]
    let d := (daemonInit demoLoopConfig (lit "/tmp/dbpout") demoStart (ops.foldl (lifeStep demoLoopConfig (lit "/tmp/dbpout"))
      (Daemon.init [] [] [(lit "own", lit "#!/bin/sh\necho\n"), (lit "old", demoTemplate)]))).2
    d.icons = [] ∧ d.desktops = [] ∧ d.execs = [(lit "own", lit "#!/bin/sh\necho\n")] :=
  start_forgets demoLoopConfig (lit "/tmp/dbpout") [] [] [(lit "own", lit "#!/bin/sh\necho\n"), (lit "old", demoTemplate)]
    [.call (.registerPath demoScriptEnv (lit "/dev/sda1") (lit "/m/a.dbp") (lit "/m")), .start 0 []]
    (by
      have hheaded : HeadedTemplate demoTemplate := ⟨lit "/bin/bash", lit "exec dbp-run !%package_id!\n", by decide⟩
      simpa [LifeOp.Headed, TemplateOk, demoScriptEnv] using hheaded)
    demoStart (fun _ _ _ => rfl) (by decide)

/-! ### What is registered before the directories are cleared -/

/-- The registered packages are isolated, whatever is in the directories. -/
structure IdsIsolated (t : Daemon × Archives) : Prop where
  nodup : t.1.ids.Nodup
  isolated : Isolated (namesOf t.2) removedOf t.1.ids

namespace IdsIsolated

variable {cfg : DBPConfig} {t : Daemon × Archives}

theorem register (h : IdsIsolated t) {e : Env} {path : CStr} (hv : ∀ id ∈ readId e path, packageIdValidate id)
    (hn : NoClash cfg e t path) (device mount : CStr) : IdsIsolated (recordRegister cfg e device mount t path) := by
  have hc := recordRegister_cases cfg e device mount t path hv
  generalize recordRegister cfg e device mount t path = t' at hc ⊢
  cases hc with
  | added id d hr hid hids hi hd =>
    refine ⟨hids ▸ nodup_concat h.nodup hid, ?_⟩
    rw [hids, show namesOf (Function.update t.2 id _) = _ from of_update exportedNames t.2 id _]
    exact (isolated_concat hid).mpr ⟨h.isolated, hn id (by rw [hr]; rfl) hid⟩
  | same hr => exact h

theorem crawl {e : Env} {device mount : CStr} : ∀ {fs : List CStr} {t : Daemon × Archives}, IdsIsolated t →
    (∀ f ∈ fs, ∀ id ∈ readId e f, packageIdValidate id) →
    Admissible (recordRegister cfg e device mount) (NoClash cfg e) t fs → IdsIsolated (fs.foldl (recordRegister cfg e device mount) t)
  | [], _, h, _, _ => h
  | f :: fs, t, h, hv, ⟨h1, h2⟩ => by
    have hf : IdsIsolated (recordRegister cfg e device mount t f) := h.register (hv f List.mem_cons_self) h1 device mount
    have ih := hf.crawl (fun f' hf' => hv f' (List.mem_cons_of_mem f hf')) h2
    exact ih

theorem of_sublist (h : IdsIsolated t) {d' : Daemon} (hs : d'.ids.Sublist t.1.ids) : IdsIsolated (d', t.2) :=
  ⟨h.nodup.sublist hs, h.isolated.subset fun _ hk => hs.subset hk⟩

theorem of_same (h : IdsIsolated t) {d' : Daemon} (hs : SameRegistry t.1 d') : IdsIsolated (d', t.2) :=
  h.of_sublist (by rw [Daemon.ids, hs.entry])

theorem step (h : IdsIsolated t) {op : DaemonOp} (hv : ValidIds cfg op) (hc : ClashFree cfg t op) :
    IdsIsolated (recordStep cfg t op) := by
  cases op with
  | registerPath e device path mount =>
    simp only [recordStep]
    split_ifs with hp
    · exact h.register hv (hc hp) device mount
    · exact h
  | crawlMount e device path => exact h.crawl hv hc
  | releasePath path => exact h.of_sublist (ids_releasePath cfg t.1 path)
  | releaseMount device => exact h.of_sublist (ids_releaseMount cfg t.1 device)
  | run ret id user => exact h.of_same (sameRegistry_run t.1 ret id user)
  | stop now runId => exact h.of_same (sameRegistry_stop t.1 now runId)
  | purgatoryCheck out => exact h.of_same (sameRegistry_purgatoryCheck t.1 out)

theorem run : ∀ {ops : List DaemonOp} {t : Daemon × Archives}, IdsIsolated t → (∀ op ∈ ops, ValidIds cfg op) →
    Admissible (recordStep cfg) (ClashFree cfg) t ops → IdsIsolated (ops.foldl (recordStep cfg) t)
  | [], _, h, _, _ => h
  | op :: ops, t, h, hv, ⟨h1, h2⟩ => by
    have hop := h.step (hv op List.mem_cons_self) h1
    have ih := hop.run (fun op' hop' => hv op' (List.mem_cons_of_mem op hop')) h2
    exact ih

/-- Over cleared directories the files are right if there should be none. -/
theorem good_iff (h : IdsIsolated t) (hi : metaNames t.1.icons = ∅) (hd : metaNames t.1.desktops = ∅) :
    Good t ↔ ∀ id ∈ t.1.ids, exportedNames id (t.2 id) = [] := by
  have howned : ∀ f : CStr → List ArchiveFile → List CStr,
      (∅ = owned (fun id => {n | n ∈ f id (t.2 id)}) t.1.ids) ↔ ∀ id ∈ t.1.ids, f id (t.2 id) = [] := by
    intro f
    rw [eq_comm, Set.eq_empty_iff_forall_notMem]
    refine ⟨fun hno id hid => List.eq_nil_iff_forall_not_mem.mpr fun n hn => hno n ⟨id, hid, hn⟩, ?_⟩
    rintro hno n ⟨id, hid, hn⟩
    exact absurd hn (by simp [hno id hid])
  have hnil : ∀ id, exportedNames id (t.2 id) = [] ↔
      exportedIcons id (t.2 id) = [] ∧ exportedDesktops id (t.2 id) = [] := fun id => List.append_eq_nil_iff
  simp only [hnil, forall_and]
  rw [← howned exportedIcons, ← howned exportedDesktops, ← hi, hi.trans hd.symm]
  exact ⟨fun hg => ⟨hd ▸ hi ▸ hg.icons, hg.desktops⟩, fun hg => ⟨h.nodup, hi.trans (hd.symm.trans hg.1), hg.2, h.isolated⟩⟩

end IdsIsolated

theorem metaNames_nuke (dir : Dir) : metaNames (daemonNukeDir dir) = ∅ := by
  refine Set.eq_empty_iff_forall_notMem.mpr fun n => ?_
  rintro ⟨hn, hpre⟩
  obtain ⟨f, hf, rfl⟩ := List.mem_map.mp hn
  have hno := (List.mem_filter.mp hf).2
  simp [List.isPrefixOf_iff_prefix.mpr hpre] at hno

end Dbp
