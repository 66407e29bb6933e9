/-
# What a client takes and gives back

`Run.run` mounts a package, runs a program of it and unmounts it;
`Run.run_path` registers a package file, runs the package's program and
unregisters it. The daemon is asked through D-Bus: a call may not reach it,
and the answer of one it carried out may not come back. While the program
runs, it and other clients ask the daemon for more.

Neither function has a `finally`: an error between taking and giving back
leaves the package mounted or registered, and so does a call whose answer is
lost. `UMount` and `UnregisterPath` name what they end by a run id and by a
path, and the daemon ends the first that has it. So all that is taken is
given back exactly when the steps in between succeed and what was taken is
the first of its name (`client_gives_back`).

Key definitions: `Reply`, `ClientCall`, `GivenBack`, `Run.run`, `Run.runPath`, `RunKeeps`, `RunClean`, `PathKeeps`,
`PathClean`.
Key theorems: `umount_keeps`, `unregister_keeps`, `run_keeps_iff`, `runPath_keeps_iff`, `client_gives_back`.
-/
import Dbp.Daemon.RegistryIds
import Dbp.Daemon.RunIdentity
import Dbp.Mgr.Depend
import Dbp.Run.Appdata
import Dbp.Run.ExecLine
import Mathlib.Data.List.Find

namespace Dbp

open CLib Sweep Find Runs

/-! ### Calls of the daemon -/

/-- What becomes of a call of the daemon: it does not arrive, or its answer does not, or all is well. -/
inductive Reply
  | unreached
  | unanswered
  | answered
deriving Repr, DecidableEq

/-- `SEND_MESSAGE`: what the client gets of a call that the daemon would answer with `r.1`, and the daemon. -/
def sendMessage {α : Type} (reply : Reply) (retfail : α) (d : Daemon) (r : α × Daemon) : α × Daemon :=
  match reply with
  | .unreached => (retfail, d)
  | .unanswered => (retfail, r.2)
  | .answered => r

/-- `package_path_from_id`. -/
def packagePathFromId (p : Package) (id : CStr) : Option CStr := ((packageFind p id).bind (p.entry[·]?)).map (·.path)

/-- `dbpmgr_server_path_from_id`: the result, and the path if there is an answer. -/
def serverPathFromId (reply : Reply) (p : Package) (pkgId : CStr) : ℤ × Option CStr :=
  match reply with
  | .answered =>
    match packagePathFromId p pkgId with
    | some path => (1, some path)
    | none => (DBP_ERROR_NOTFOUND, some (lit "!"))
  | _ => (DBP_ERROR_NO_REPLY, none)

/-- The calls that take something from the daemon, with its result, and those that give it back. -/
inductive ClientCall
  | mount (ret : ℤ)
  | umount (mountId : ℤ)
  | registerPath (ret : ℤ) (path : CStr)
  | unregisterPath (path : CStr)
deriving Repr, DecidableEq

/-- The call that gives back what a successful call took. -/
def ClientCall.back : ClientCall → Option ClientCall
  | .mount ret => if 0 ≤ ret then some (.umount ret) else none
  | .registerPath ret path => if 0 ≤ ret then some (.unregisterPath path) else none
  | .umount _ | .unregisterPath _ => none

/-- Whatever a call takes is given back once after it. -/
def GivenBack : List ClientCall → Prop
  | [] => True
  | c :: cs => (∀ b ∈ c.back, cs.count b = 1) ∧ GivenBack cs

/-- The calls the daemon carried out: none if the call did not arrive. -/
def served (reply : Reply) (c : ClientCall) : List ClientCall := if reply = .unreached then [] else [c]

/-! ### The client -/

/-- The configuration a client reads. -/
structure RunConfig extends LoopConfig where
  arch : List CStr
  runScript : Option CStr
  df : DesktopFile
  dbpoutDirectory : CStr
  dbpoutPrefix : CStr
  dbpoutSuffix : CStr

/-- What `Run.run` and `Run.run_path` throw. -/
inductive RunError
  | launch (err : LaunchError)
  | arch (pkgarch : CStr)
  | install
  | noExec
  | spawn
deriving Repr, DecidableEq

/-- `DepListDialog.Result`; to close the dialog is to abort. -/
inductive DepResult
  | install
  | abort
  | launch
deriving Repr, DecidableEq

/-- A program to start: its working directory and arguments, whether it is looked for in `PATH`, and the files that
what it prints is written to. -/
structure SpawnRequest where
  cwd : Option CStr
  argv : List CStr
  searchPath : Bool
  logs : List CStr
deriving Repr, DecidableEq

/-- What a client finds outside of the daemon. -/
structure ClientEnv where
  /-- The files. -/
  env : Env
  /-- What `package_open` finds on the standard input, which it reads for no path. -/
  stdin : Option DesktopFile
  currentDir : CStr
  userName : CStr
  /-- What is a directory once it was to be made. -/
  isDir : CStr → Bool
  /-- The databases of the dependency check. -/
  db : Databases
  /-- What the user selects, shown the missing dependencies. -/
  dialog : List CStr → List CStr → DepResult
  /-- What the daemon is asked while a program runs, or none if it cannot be started. -/
  spawn : SpawnRequest → Option (List DaemonOp)

/-- `DBP.Meta.package_open`, whose result nobody looks at: no meta data after an error. -/
def ClientEnv.packageOpen (c : ClientEnv) : Option CStr → Option DesktopFile
  | none => c.stdin
  | some path =>
    match dbpMetaPackageOpen c.env path with
    | .inl _ => none
    | .inr df => some df

/-- A lookup in meta data, or in none. -/
def clientLookup (pkg : Option DesktopFile) (key section_ : CStr) : Option CStr :=
  pkg.bind fun df => dbpDesktopLookup df key [] (some section_)

/-- `dependency_ok`. -/
def dependencyOk (cfg : RunConfig) (c : ClientEnv) (pkg : Option DesktopFile) (guiErrors : Bool) : Except RunError Bool :=
  let deplist := (pkg.map (dbpmgrDependCheck c.db)).getD ⟨[], [], [], [], []⟩
  let pkgarch := match clientLookup pkg (lit "Arch") (lit "Package Entry") with
    | none => lit "any"
    | some a => if a = [] then lit "any" else a
  if pkgarch ≠ lit "any" ∧ pkgarch ∉ cfg.arch then .error (.arch pkgarch)
  else
    let sysmissing := deplist.sysonly ++ deplist.syspref
    let dbpmissing := deplist.dbponly ++ deplist.dbppref ++ deplist.whatevs
    if 0 < dbpmissing.length ∨ 0 < sysmissing.length then
      if guiErrors then
        match c.dialog sysmissing dbpmissing with
        | .launch => .ok true
        | .install => .error .install
        | .abort => .ok false
      else .ok true
    else .ok true

/-- What a call of `Run.run` comes to outside of the client. -/
structure RunOutcome extends ClientEnv where
  pathFromId : Reply
  mountPointGet : Reply
  mount : Reply
  /-- What `dbp_loop_mount` returns if it is called. -/
  ret : ℤ
  umount : Reply
  /-- The time of the umount. -/
  now : ℤ

/-- The arguments of `Run.run`. -/
structure RunArgs where
  pkgId : Option CStr
  exec : CStr
  args : List CStr
  log : Bool
  chdir : Bool
  guiErrors : Bool

/-- `Run.run` up to the mount: the meta data, none if the user gives up, or an error. -/
def runPrepare (cfg : RunConfig) (o : RunOutcome) (d : Daemon) (pkgId : CStr) (guiErrors : Bool) :
    Except RunError (Option (Option DesktopFile)) := do
  let r := serverPathFromId o.pathFromId d.p pkgId
  if r.1 < 0 then throw (.launch (.server r.1))
  let pkg := o.packageOpen r.2
  if !(← dependencyOk cfg o.toClientEnv pkg guiErrors) then return none
  let appdataName := (pkg.map (resolveAppdata pkgId)).getD pkgId
  if o.mountPointGet ≠ .answered then throw (.launch (.server DBP_ERROR_NO_REPLY))
  match appdataCreate cfg.toLoopConfig o.isDir d.p pkgId o.userName appdataName with
  | .error e => throw (.launch e)
  | .ok _ => return some pkg

/-- The program `Run.run` starts. -/
def runRequest (cfg : RunConfig) (pkgId : CStr) (a : RunArgs) (pkg : Option DesktopFile) : SpawnRequest :=
  let pkgArch := match clientLookup pkg (lit "Arch") (lit "Package Entry") with
    | none => []
    | some arch => if arch = lit "any" then [] else arch
  let runScript :=
    (dbpDesktopLookup cfg.df (lit "run_script") pkgArch (some (lit "Package Daemon Config"))).filter (· ≠ [])
  let argv := buildFilename [cfg.unionMount, pkgId, a.exec] :: a.args
  let logfile := fun stream : CStr =>
    buildFilename [cfg.dbpoutDirectory, cfg.dbpoutPrefix] ++ lit "-" ++ pkgId ++ lit "-" ++ stream ++ cfg.dbpoutSuffix
  { cwd := if a.chdir then some (buildFilename [cfg.unionMount, pkgId]) else none
    -- a script that is not there ends the array
    argv := if runScript.isNone then argv else (cfg.runScript.map (· :: argv)).getD []
    searchPath := false
    logs := if a.log then [logfile (lit "stdout"), logfile (lit "stderr")] else [] }

/-- How a call of a client ends: what it returns or throws, the daemon, and the calls that were carried out. The daemon
is recorded as the program is started and as it has ended, too. -/
structure ClientRun where
  result : Except RunError Unit
  daemon : Daemon
  calls : List ClientCall
  started : Daemon
  ended : Daemon

/-- A call that ends before a program has run. -/
def ClientRun.early (result : Except RunError Unit) (d : Daemon) (calls : List ClientCall) : ClientRun :=
  ⟨result, d, calls, d, d⟩

/-- `Run.run` from the mount on. -/
def runMount (cfg : RunConfig) (o : RunOutcome) (d : Daemon) (pkgId : CStr) (a : RunArgs) (pkg : Option DesktopFile) :
    ClientRun :=
  let r := packageRun d o.ret pkgId mountUser
  let m := sendMessage o.mount DBP_ERROR_NO_REPLY d r
  let calls := served o.mount (.mount r.1)
  if m.1 < 0 then .early (.error (.launch (.server m.1))) m.2 calls
  else
    match o.spawn (runRequest cfg pkgId a pkg) with
    | none => .early (.error .spawn) m.2 calls
    | some meanwhile =>
      let ended := m.2.run cfg.toDBPConfig meanwhile
      let u := sendMessage o.umount DBP_ERROR_NO_REPLY ended (packageStop ended o.now m.1)
      ⟨.ok (), u.2, calls ++ served o.umount (.umount m.1), m.2, ended⟩

/-- `Run.run`. -/
def Run.run (cfg : RunConfig) (o : RunOutcome) (d : Daemon) (a : RunArgs) : ClientRun :=
  match a.pkgId with
  | none => .early (.ok ()) d []
  | some pkgId =>
    match runPrepare cfg o d pkgId a.guiErrors with
    | .error e => .early (.error e) d []
    | .ok none => .early (.ok ()) d []
    | .ok (some pkg) => runMount cfg o d pkgId a pkg

/-- What a call of `Run.run_path` comes to outside of the client. -/
structure PathOutcome extends ClientEnv where
  /-- What `util_lookup_mount` finds for the path. -/
  device : CStr
  mountPoint : CStr
  registerPath : Reply
  pathFromId : Reply
  unregisterPath : Reply

/-- The path `Run.run_path` registers. -/
def absolutePath (currentDir pathIn : CStr) : CStr :=
  if pathIn.head? = some '/' then pathIn else buildFilename [currentDir, pathIn]

/-- The `Exec` value `Run.run_path` reads back from the package it registered. -/
def execName (o : PathOutcome) (d : Daemon) (pkgId : Option CStr) : Option CStr :=
  let actualPath := (serverPathFromId o.pathFromId d.p (pkgId.getD [])).2
  clientLookup (o.packageOpen actualPath) (lit "Exec") (lit "Desktop Entry")

/-- `ExecLine.run`: the program that is started. -/
def execRequest (execName : CStr) (args : List CStr) : SpawnRequest where
  cwd := none
  argv := execLine execName ++ args
  searchPath := true
  logs := []

/-- `Run.run_path` of an absolute path. -/
def runAbsolute (cfg : RunConfig) (o : PathOutcome) (d : Daemon) (path : CStr) (args : List CStr) : ClientRun :=
  let r := packageRegisterPath cfg.toDBPConfig d o.env o.device path o.mountPoint
  let m := sendMessage o.registerPath (DBP_ERROR_NO_REPLY, none) d ((r.1, some r.2.1), r.2.2)
  let calls := served o.registerPath (.registerPath r.1 path)
  if m.1.1 < 0 ∧ m.1.1 ≠ DBP_ERROR_PKG_REG then .early (.error (.launch (.server m.1.1))) m.2 calls
  else
    match execName o m.2 m.1.2 with
    | none => .early (.error .noExec) m.2 calls
    | some exec =>
      match o.spawn (execRequest exec args) with
      | none => .early (.error .spawn) m.2 calls
      | some meanwhile =>
        let ended := m.2.run cfg.toDBPConfig meanwhile
        if m.1.1 ≠ DBP_ERROR_PKG_REG then
          let u := sendMessage o.unregisterPath DBP_ERROR_NO_REPLY ended (packageReleasePath cfg.toDBPConfig ended path)
          ⟨.ok (), u.2, calls ++ served o.unregisterPath (.unregisterPath path), m.2, ended⟩
        else ⟨.ok (), ended, calls, m.2, ended⟩

/-- `Run.run_path`. -/
def Run.runPath (cfg : RunConfig) (o : PathOutcome) (d : Daemon) (pathIn : CStr) (args : List CStr) : ClientRun :=
  runAbsolute cfg o d (absolutePath o.currentDir pathIn) args

/-! ### What is asked of a client -/

/-- All that a call of `Run.run` takes is given back, and the instances are those from before, if those that others ask for
while the program runs are given back too. -/
structure RunKeeps (before : Daemon) (r : ClientRun) : Prop where
  calls : GivenBack r.calls
  instances : r.ended.p.instance_.Perm r.started.p.instance_ → r.daemon.p.instance_.Perm before.p.instance_

/-- All that a call of `Run.run_path` takes is given back, and the registry is the one from before, if others leave it as
it is while the program runs. -/
structure PathKeeps (before : Daemon) (r : ClientRun) : Prop where
  calls : GivenBack r.calls
  registry : r.ended.p.entry = r.started.p.entry → r.daemon.p.entry = before.p.entry

/-- A mount that makes an instance is answered, the program is started, and the umount arrives and ends that instance. -/
def RunClean (cfg : RunConfig) (o : RunOutcome) (d : Daemon) (a : RunArgs) : Prop :=
  ∀ pkgId ∈ a.pkgId, ∀ pkg, runPrepare cfg o d pkgId a.guiErrors = .ok (some pkg) →
    o.mount ≠ .unreached → Launches d o.ret pkgId →
      o.mount = .answered ∧ o.umount ≠ .unreached ∧
        ∃ meanwhile, o.spawn (runRequest cfg pkgId a pkg) = some meanwhile ∧
          let started := (packageRun d o.ret pkgId mountUser).2
          let ended := started.run cfg.toDBPConfig meanwhile
          ended.p.instance_.Perm started.p.instance_ →
            ended.p.instance_.find? (fun i => (i.runId : ℤ) == d.p.runCnt) = started.p.instance_.getLast?

/-- A registration of a new package is answered, its `Exec` value is found, the program is started, and the call to
unregister the path arrives and finds no other package of it. -/
def PathClean (cfg : RunConfig) (o : PathOutcome) (d : Daemon) (path : CStr) (args : List CStr) : Prop :=
  let r := packageRegisterPath cfg.toDBPConfig d o.env o.device path o.mountPoint
  o.registerPath ≠ .unreached → 0 ≤ r.1 →
    o.registerPath = .answered ∧ o.unregisterPath ≠ .unreached ∧
      ∃ exec, execName o r.2.2 (some r.2.1) = some exec ∧
        ∃ meanwhile, o.spawn (execRequest exec args) = some meanwhile ∧
          ((r.2.2.run cfg.toDBPConfig meanwhile).p.entry = r.2.2.p.entry → ∀ e ∈ d.p.entry, e.path ≠ dropSlash path)

/-! ### `Run.run` -/

theorem GivenBack.nil : GivenBack [] := trivial

theorem givenBack_singleton (c : ClientCall) : GivenBack [c] ↔ c.back = none := by
  simp [GivenBack, Option.eq_none_iff_forall_not_mem]

theorem givenBack_pair {c b : ClientCall} (hc : c.back = some b) (hb : b.back = none) : GivenBack [c, b] := by
  simp [GivenBack, hc, hb]

/-- The call ends early and has taken nothing. -/
theorem ClientRun.early_run_keeps {d d' : Daemon} {calls : List ClientCall} (hcalls : GivenBack calls)
    (h : d'.p.instance_ = d.p.instance_) (result : Except RunError Unit) : RunKeeps d (.early result d' calls) :=
  ⟨hcalls, fun _ => .of_eq h⟩

section Run

variable {d : Daemon} (cfg : RunConfig) (o : RunOutcome) (pkgId : CStr) (a : RunArgs) (pkg : Option DesktopFile)

theorem runMount_refused {err : ℤ} {d' : Daemon} (hr : packageRun d o.ret pkgId mountUser = (err, d')) (herr : err < 0)
    (hinst : d'.p.instance_ = d.p.instance_) : RunKeeps d (runMount cfg o d pkgId a pkg) := by
  have hcall : GivenBack [.mount err] := (givenBack_singleton _).mpr (by simp [ClientCall.back, herr])
  unfold runMount
  rw [hr]
  cases hm : o.mount with
  | unreached => exact ClientRun.early_run_keeps .nil rfl _
  | unanswered => exact ClientRun.early_run_keeps hcall hinst _
  | answered =>
    simp only [sendMessage, herr, ↓reduceIte]
    exact ClientRun.early_run_keeps hcall hinst _

/-- The umount ends an instance of the run id `run_cnt` had, in the state the others leave. -/
theorem umount_keeps (h : CounterOk d) {ended d' : Daemon} {loop : ℤ} (he : CounterOk ended)
    (hinst : d'.p.instance_ = d.p.instance_ ++ [⟨pkgId, d.p.runCnt.toNat, loop⟩]) (now : ℤ) :
    (ended.p.instance_.Perm d'.p.instance_ → (packageStop ended now d.p.runCnt).2.p.instance_.Perm d.p.instance_) ↔
      (ended.p.instance_.Perm d'.p.instance_ →
        ended.p.instance_.find? (fun i => (i.runId : ℤ) == d.p.runCnt) = d'.p.instance_.getLast?) := by
  have hlast : d'.p.instance_.getLast? = some ⟨pkgId, d.p.runCnt.toNat, loop⟩ := by simp [hinst]
  have hnew : (⟨pkgId, d.p.runCnt.toNat, loop⟩ : PackageInstance).runId = d.p.runCnt := Int.toNat_of_nonneg h.cnt_nonneg
  have htest : ended.p.instance_.find? (fun i => (i.runId : ℤ) == d.p.runCnt) =
      ended.p.instance_.find? fun i => toInt32 i.runId == d.p.runCnt :=
    List.find?_congr fun i hi => by rw [he.toInt32_runId hi]
  rw [hlast, htest, packageStop_eraseP]
  apply forall_congr'
  intro hperm
  rw [hinst] at hperm
  apply eraseP_perm_iff hperm
  rw [hnew, toInt32_eq (by have := h.cnt_nonneg; omega) h.cnt_lt, beq_self_eq_true]

theorem runMount_launched (h : CounterOk d) {d' : Daemon} {loop : ℤ} (hok : CounterOk d')
    (hr : packageRun d o.ret pkgId mountUser = (d.p.runCnt, d'))
    (hinst : d'.p.instance_ = d.p.instance_ ++ [⟨pkgId, d.p.runCnt.toNat, loop⟩]) (hm : o.mount ≠ .unreached) :
    RunKeeps d (runMount cfg o d pkgId a pkg) ↔
      o.mount = .answered ∧ o.umount ≠ .unreached ∧
        ∃ meanwhile, o.spawn (runRequest cfg pkgId a pkg) = some meanwhile ∧
          ((d'.run cfg.toDBPConfig meanwhile).p.instance_.Perm d'.p.instance_ →
            (d'.run cfg.toDBPConfig meanwhile).p.instance_.find? (fun i => (i.runId : ℤ) == d.p.runCnt) =
              d'.p.instance_.getLast?) := by
  have h0 := h.cnt_nonneg
  have hpos : ¬ d.p.runCnt < 0 := by omega
  have hcall : ¬ GivenBack [.mount d.p.runCnt] := fun hg => by
    simp [givenBack_singleton, ClientCall.back, h0] at hg
  unfold runMount
  rw [hr]
  cases hrep : o.mount with
  | unreached => exact absurd hrep hm
  | unanswered => exact iff_of_false (fun hk => hcall hk.calls) fun hc => by cases hc.1
  | answered =>
    simp only [sendMessage, hpos, ↓reduceIte, true_and]
    cases hs : o.spawn (runRequest cfg pkgId a pkg) with
    | none => exact iff_of_false (fun hk => hcall hk.calls) fun ⟨_, _, he, _⟩ => by cases he
    | some meanwhile =>
      have hiff := umount_keeps pkgId h (counterOk_run cfg.toDBPConfig hok meanwhile) hinst o.now
      have hboth : GivenBack [.mount d.p.runCnt, .umount d.p.runCnt] :=
        givenBack_pair (by simp [ClientCall.back, h0]) rfl
      simp only [Option.some.injEq, exists_eq_left']
      cases hu : o.umount with
      | unreached => exact iff_of_false (fun hk => hcall hk.calls) fun hc => hc.1 rfl
      | unanswered => exact ⟨fun hk => ⟨by decide, hiff.mp hk.instances⟩, fun hc => ⟨hboth, hiff.mpr hc.2⟩⟩
      | answered => exact ⟨fun hk => ⟨by decide, hiff.mp hk.instances⟩, fun hc => ⟨hboth, hiff.mpr hc.2⟩⟩

end Run

/-- **Instances are given back** by a call of `Run.run` exactly when every step after a mount succeeds and the run id of
the mount names its instance. -/
theorem run_keeps_iff {d : Daemon} (h : CounterOk d) (cfg : RunConfig) (o : RunOutcome) (a : RunArgs) :
    RunKeeps d (Run.run cfg o d a) ↔ RunClean cfg o d a := by
  unfold Run.run RunClean
  cases a.pkgId with
  | none => exact iff_of_true (ClientRun.early_run_keeps .nil rfl _) (by simp)
  | some pkgId =>
    simp only [Option.mem_def, Option.some.injEq, forall_eq']
    cases hp : runPrepare cfg o d pkgId a.guiErrors with
    | error e => exact iff_of_true (ClientRun.early_run_keeps .nil rfl _) (by simp)
    | ok pkg =>
      cases pkg with
      | none => exact iff_of_true (ClientRun.early_run_keeps .nil rfl _) (by simp)
      | some pkg =>
        simp only [Except.ok.injEq, Option.some.injEq, forall_eq']
        have hc := packageRun_launch h o.ret pkgId mountUser
        have hok := h.step cfg.toDBPConfig (.run o.ret pkgId mountUser)
        simp only [Daemon.step] at hok
        generalize hr : packageRun d o.ret pkgId mountUser = r at hc hok ⊢
        cases hc with
        | refused err d' hl herr hinst hcnt =>
          exact iff_of_true (runMount_refused cfg o pkgId a pkg hr herr hinst) fun _ hl' => absurd hl' hl
        | launched loop d' hl hinst hcnt =>
          by_cases hm : o.mount = .unreached
          · refine iff_of_true ?_ fun hm' => absurd hm hm'
            unfold runMount
            rw [hm]
            exact ClientRun.early_run_keeps .nil rfl _
          · rw [runMount_launched cfg o pkgId a pkg h hok hr hinst hm]
            simp [hm, hl]

/-! ### `Run.run_path` -/

theorem ClientRun.early_path_keeps {d d' : Daemon} {calls : List ClientCall} (hcalls : GivenBack calls)
    (h : d'.p.entry = d.p.entry) (result : Except RunError Unit) : PathKeeps d (.early result d' calls) :=
  ⟨hcalls, fun _ => h⟩

/-- The release takes the new entry away again, in the registry the others leave as it was. -/
theorem unregister_keeps (cfg : DBPConfig) {d d' : Daemon} (ended : Daemon) {path : CStr} {e : PackageEntry}
    (hpath : e.path = dropSlash path) (hid : e.id ∉ d.ids) (he : d'.p.entry = d.p.entry ++ [e]) :
    (ended.p.entry = d'.p.entry → (packageReleasePath cfg ended path).2.p.entry = d.p.entry) ↔
      (ended.p.entry = d'.p.entry → ∀ e ∈ d.p.entry, e.path ≠ dropSlash path) := by
  apply forall_congr'
  intro hended
  have hnew : e ∉ d.p.entry := fun hm => hid (List.mem_map_of_mem hm)
  rw [packageReleasePath_eraseP, hended, he, eraseP_concat_iff (by simp [hpath]) hnew]
  simp

section Path

variable {d : Daemon} (cfg : RunConfig) (o : PathOutcome) (path : CStr) (args : List CStr)

/-- A registration that is refused, be it for an id that is registered, leads to no unregistration. -/
theorem runAbsolute_refused {err : ℤ} {id : CStr} (herr : err < 0)
    (hr : packageRegisterPath cfg.toDBPConfig d o.env o.device path o.mountPoint = (err, id, d)) :
    PathKeeps d (runAbsolute cfg o d path args) := by
  have hcall : GivenBack [.registerPath err path] := (givenBack_singleton _).mpr (by simp [ClientCall.back, herr])
  unfold runAbsolute
  rw [hr]
  cases hm : o.registerPath with
  | unreached => exact ClientRun.early_path_keeps .nil rfl _
  | unanswered => exact ClientRun.early_path_keeps hcall rfl _
  | answered =>
    by_cases hreg : err = DBP_ERROR_PKG_REG
    · subst hreg
      simp only [sendMessage, ne_eq, not_true_eq_false, and_false, ↓reduceIte]
      split
      · exact ClientRun.early_path_keeps hcall rfl _
      · split
        · exact ClientRun.early_path_keeps hcall rfl _
        · exact ⟨hcall, fun he => he⟩
    · simp only [sendMessage, herr, hreg, ne_eq, not_false_eq_true, and_self, ↓reduceIte]
      exact ClientRun.early_path_keeps hcall rfl _

theorem runAbsolute_added {ret : ℤ} {id : CStr} {d' : Daemon} {e : PackageEntry} (hret : 0 ≤ ret)
    (hpath : e.path = dropSlash path) (hid : e.id ∉ d.ids) (he : d'.p.entry = d.p.entry ++ [e])
    (hr : packageRegisterPath cfg.toDBPConfig d o.env o.device path o.mountPoint = (ret, id, d'))
    (hm : o.registerPath ≠ .unreached) :
    PathKeeps d (runAbsolute cfg o d path args) ↔
      o.registerPath = .answered ∧ o.unregisterPath ≠ .unreached ∧
        ∃ exec, execName o d' (some id) = some exec ∧
          ∃ meanwhile, o.spawn (execRequest exec args) = some meanwhile ∧
            ((d'.run cfg.toDBPConfig meanwhile).p.entry = d'.p.entry → ∀ e ∈ d.p.entry, e.path ≠ dropSlash path) := by
  have hpos : ¬ ret < 0 := by omega
  have hnew : ret ≠ DBP_ERROR_PKG_REG := by
    rintro rfl
    exact absurd hret (by decide)
  have hcall : ¬ GivenBack [.registerPath ret path] := fun hg => by
    simp [givenBack_singleton, ClientCall.back, hret] at hg
  unfold runAbsolute
  rw [hr]
  cases hrep : o.registerPath with
  | unreached => exact absurd hrep hm
  | unanswered => exact iff_of_false (fun hk => hcall hk.calls) fun hc => by cases hc.1
  | answered =>
    simp only [sendMessage, hpos, false_and, ↓reduceIte, true_and, hnew, ne_eq, not_false_eq_true]
    cases hx : execName o d' (some id) with
    | none => exact iff_of_false (fun hk => hcall hk.calls) fun ⟨_, _, hx, _⟩ => by cases hx
    | some exec =>
      simp only [Option.some.injEq, exists_eq_left']
      cases hs : o.spawn (execRequest exec args) with
      | none => exact iff_of_false (fun hk => hcall hk.calls) fun ⟨_, _, hs, _⟩ => by cases hs
      | some meanwhile =>
        have hiff := unregister_keeps cfg.toDBPConfig (d'.run cfg.toDBPConfig meanwhile) hpath hid he
        have hboth : GivenBack [.registerPath ret path, .unregisterPath path] :=
          givenBack_pair (by simp [ClientCall.back, hret]) rfl
        simp only [Option.some.injEq, exists_eq_left']
        cases hu : o.unregisterPath with
        | unreached => exact iff_of_false (fun hk => hcall hk.calls) fun hc => hc.1 rfl
        | unanswered => exact ⟨fun hk => ⟨by decide, hiff.mp hk.registry⟩, fun hc => ⟨hboth, hiff.mpr hc.2⟩⟩
        | answered => exact ⟨fun hk => ⟨by decide, hiff.mp hk.registry⟩, fun hc => ⟨hboth, hiff.mpr hc.2⟩⟩

end Path

/-- **Packages are unregistered** by a call of `Run.run_path` exactly when every step after the registration of a new one
succeeds and no other package has its path. -/
theorem runPath_keeps_iff (cfg : RunConfig) (o : PathOutcome) (d : Daemon) (pathIn : CStr) (args : List CStr) :
    PathKeeps d (Run.runPath cfg o d pathIn args) ↔ PathClean cfg o d (absolutePath o.currentDir pathIn) args := by
  unfold Run.runPath PathClean
  generalize absolutePath o.currentDir pathIn = path
  have hc := registerPath_cases cfg.toDBPConfig d o.env o.device path o.mountPoint
  generalize hr : packageRegisterPath cfg.toDBPConfig d o.env o.device path o.mountPoint = r at hc ⊢
  cases hc with
  | refused err id herr =>
    exact iff_of_true (runAbsolute_refused cfg o path args herr hr) fun _ h0 => absurd herr (by omega)
  | added ret id d' e hret hpath hid he =>
    by_cases hm : o.registerPath = .unreached
    · refine iff_of_true ?_ fun hm' => absurd hm hm'
      unfold runAbsolute
      rw [hm]
      exact ClientRun.early_path_keeps .nil rfl _
    · rw [runAbsolute_added cfg o path args hret hpath hid he hr hm]
      simp [hm, hret]

/-- **Clients give back what they take**, in every state of the daemon and for every outcome of the steps, exactly in the
calls whose steps after taking something all succeed. -/
theorem client_gives_back (cfg : RunConfig) (icons desktops execs : Dir) (ops : List DaemonOp) :
    let d := (Daemon.init icons desktops execs).run cfg.toDBPConfig ops
    (∀ o a, RunKeeps d (Run.run cfg o d a) ↔ RunClean cfg o d a) ∧
      ∀ o pathIn args, PathKeeps d (Run.runPath cfg o d pathIn args) ↔
        PathClean cfg o d (absolutePath o.currentDir pathIn) args :=
  ⟨fun o a => run_keeps_iff (counterOk_run _ (counterOk_init icons desktops execs) ops) cfg o a,
    fun o pathIn args => runPath_keeps_iff cfg o _ pathIn args⟩

/-- A configuration with no architectures and no script. -/
def clientConfig : RunConfig where
  toLoopConfig := demoLoopConfig
  arch := []
  runScript := none
  df := ⟨[]⟩
  dbpoutDirectory := lit "/tmp"
  dbpoutPrefix := lit "dbp"
  dbpoutSuffix := lit ".log"

/-- A run of a program that cannot be started, where all calls of the daemon are answered. -/
def clientOutcome : RunOutcome where
  env := demoEnv [(lit "/m/a.dbp", [demoMeta (lit "a")])]
  stdin := none
  currentDir := lit "/"
  userName := lit "alice"
  isDir _ := true
  db := ⟨fun _ => [], fun _ => [], none⟩
  dialog _ _ := .abort
  spawn _ := none
  pathFromId := .answered
  mountPointGet := .answered
  mount := .answered
  ret := 3
  umount := .answered
  now := 0

/-- The daemon with the package registered. -/
def clientDaemon : Daemon := (Daemon.init [] [] []).run clientConfig.toDBPConfig
  [.registerPath clientOutcome.env (lit "/dev/sda1") (lit "/m/a.dbp") (lit "/m")]

def clientArgs : RunArgs := ⟨some (lit "a"), lit "game", [], false, false, false⟩

/-- The package stays mounted if its program cannot be started. -/
theorem client_gives_back_spawn :
    ¬ RunKeeps clientDaemon (Run.run clientConfig clientOutcome clientDaemon clientArgs) := fun h => by
  have hcalls : (Run.run clientConfig clientOutcome clientDaemon clientArgs).calls = [.mount 0] := by decide +kernel
  have hb := hcalls ▸ RunKeeps.calls h
  cases (givenBack_singleton _).mp hb

end Dbp
