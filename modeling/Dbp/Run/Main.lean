/-
# `dbp-run` and `dbp-run-path`

The programs around `Run.run` and `Run.run_path`: they let GTK take its
arguments, read the configuration, take their own options, connect to the
daemon, and show the error that is thrown, with the path and the id of the
package as far as they are known.

A configuration without one of its keys ends them. With all of them, what the
wrapper script of an executable passes to `dbp-run`, and GTK leaves, is taken
for the package, the executable and its arguments whatever these are, even if
they look like options; but an id that begins with `--` is taken for an
option (`dbpRun_runs_iff`). Without a display an error is printed as a format, so a
path or an id with `%` in it is not printed as it is
(`displayError_printed_iff`).

Key definitions: `MainEnv`, `MainRun`, `mainInit`, `runOption`, `dbpRunMain`, `dbpRunPathMain`, `displayError`, `printFormat`.
Key theorems: `asks_iff`, `asks_wrapper`, `dbpRun_runs_iff`, `printFormat_eq_iff`, `displayError_printed_iff`.
-/
import Dbp.Lib.Options
import Dbp.Mgr.Server
import Dbp.Run.ConfigFile

namespace Dbp

open CLib Options

/-! ### Errors -/

/-- `ErrorLog.errormessage`. -/
def errormessage : List CStr :=
  [lit "The DBP System Daemon is not responding. Make sure it's running",
    lit "An unknown internal error has occured. This is only supposed to be a placeholder. "
      ++ lit "You should examine the DBP System daemon log-file for further information.",
    lit "The system has ran out of loopback device nodes. Try closing some applications and try again.",
    lit "The system has ran out of loopback device nodes. Try closing some applications and try again.",
    lit "The DBP System Daemon was unable to assign the package file to a device node. ioctl failed.",
    lit "The package file could not be opened. Make sure it's still accessable.",
    lit "Unable to allocate system resources. You're probably out of RAM. Close some programs and try again.",
    lit "You've attempted to launch a program from a package that could not be found in the local database. "
      ++ lit "This is likely a bug.",
    lit "Unable to access the package filesystem. This DBP-file is likely corrupt.",
    lit "The meta-data in this package is malformed: Illegal character(s) was found in a generated mountpoint.",
    lit "Unable to set up AuFS union. This is likely a bug. This may temporarily be worked around by rebooting.",
    lit "Your user doesn't have the permissions needed to create the application data directory on the SD-card "
      ++ lit "that this application is installed on.",
    lit "No default.desktop was found in the meta-data for this package.",
    lit "The package with this ID is already registered! This is not an error, and you shouldn't see this message.",
    lit "An unhandled error has occured. This is just a placehoder that you shouldn't see.",
    lit "Unable to read meta-data from package. The package file is likely corrupt. Try re-downloading it.",
    lit "This package lacks a default executable, and therefore cannot be executed directly.",
    lit "The program was killed by a signal",
    lit "The program has crashed from a segmentation fault. This likely a bug in the program.",
    lit "The program exited abnormally for an unknown reason."]

/-- What `printf` makes of a format and arguments that are strings: nothing is known of it if it asks for others. -/
def printFormat : List CStr → CStr → Option CStr
  | _, [] => some []
  | args, '%' :: '%' :: s => (printFormat args s).map ('%' :: ·)
  | arg :: args, '%' :: 's' :: s => (printFormat args s).map (arg ++ ·)
  | _, '%' :: _ => none
  | args, c :: s => (printFormat args s).map (c :: ·)

/-- The text of an error. -/
def errorMsg (path id : Option CStr) (message : CStr) : CStr :=
  lit "Error: " ++ message ++ lit "\n\n" ++ lit "Path: " ++ path.getD (lit "Unknown") ++ lit "\n" ++ lit "Package ID: " ++
    id.getD (lit "Unknown")

/-- Where an error is shown, and its text as far as it is known. -/
inductive ErrorShown
  | printed (text : Option CStr)
  | dialog (text : Option CStr)
deriving Repr, DecidableEq

/-- `ErrorLog.display`; a message that is a negative number stands for one of the table. -/
def displayError (useGui : Bool) (path id : Option CStr) (message : CStr) : Option ErrorShown :=
  let dialog := fun message => ErrorShown.dialog (printFormat [message] (errorMsg path id message))
  if useGui then
    if atoi message < 0 then
      let number := atoi message * -1 - 1000
      if number < 0 then none else errormessage[number.toNat]?.map dialog
    else some (dialog message)
  else some (.printed (printFormat [] (errorMsg path id message)))

/-- The message of an exception, where `spawnMessage` is GLib's about a program that cannot be started. -/
def RunError.message (spawnMessage : CStr) : RunError → CStr
  | .launch (.server err) => dbpmgrErrorLookup err
  | .launch (.appdata dir) => lit "Unable to create appdata directory" ++ lit " " ++ dir ++ lit "\n" ++
      lit "Make sure you have the file system permissions to create this directory"
  | .arch pkgarch => lit "This package is not supported on your system architecture" ++ lit "\n" ++
      lit "Package is for" ++ lit " " ++ pkgarch
  | .install => lit "Automatic installation of dependencies is currently not supported\n"
  | .noExec => lit "Unable to extract exec from package meta data"
  | .spawn => spawnMessage

/-! ### The programs -/

/-- What the programs find besides what `Run` looks at. -/
structure MainEnv where
  /-- What `usage` prints. -/
  usage : CStr
  /-- `Gtk.init_check`: whether there is a display, and the arguments it leaves. -/
  gtk : List CStr → Bool × List CStr
  /-- The text of the configuration file, which can be opened. -/
  config : CStr
  bufs : ParseBufs
  /-- The system bus is there. -/
  bus : Bool
  connect : ServerEnv
  spawnMessage : CStr

/-- How a program ends: its status, what it prints but for errors, the error it shows, the call of `Run` it has made,
and the daemon. -/
structure MainRun (A : Type) where
  exit : ℤ
  stdout : CStr
  stderr : CStr
  error : Option ErrorShown
  call : Option (A × ClientRun)
  daemon : Daemon

/-- What ends the programs at an option. -/
inductive OptionEnd
  | help
  | unknown (s : CStr)
deriving Repr, DecidableEq

/-- Whether an argument is taken for an option. -/
def isDashed (s : CStr) : Bool := (lit "--").isPrefixOf s

section Main

variable {A : Type} (x : MainEnv) (d : Daemon)

/-- `usage` and an exit status. -/
def mainUsage (exit : ℤ) (stderr : CStr) : MainRun A := ⟨exit, x.usage, stderr, none, none, d⟩

/-- The end at an option. -/
def mainOption : OptionEnd → MainRun A
  | .help => mainUsage x d 0 []
  | .unknown s => mainUsage x d 1 (lit "Error: unknown option '" ++ s ++ lit "'\n")

/-- The end after a call of `Run`, with what it prints, and the path and the id it leaves for an error. -/
def mainCall (useGui : Bool) (stdout stderr : CStr) (path id : Option CStr) (a : A) (r : ClientRun) : MainRun A :=
  match r.result with
  | .ok () => ⟨0, stdout, stderr, none, some (a, r), r.daemon⟩
  | .error e => ⟨1, stdout, stderr, displayError useGui path id (e.message x.spawnMessage), some (a, r), r.daemon⟩

/-- `DBP.Config.init`, and what follows it: the program ends if a key is missing. -/
def mainInit (next : RunConfig → MainRun A) : MainRun A :=
  match configRead (dbpDesktopParse (cString x.config) x.bufs) with
  | .error key => ⟨-1, [], DBP_CONFIG_FILE_PATH ++ lit ": key " ++ key ++ lit " is missing\n", none, none, d⟩
  | .ok c => next c.toRunConfig

/-- The connection to the daemon, and what follows it. -/
def mainConnect (cfg : DBPConfig) (useGui : Bool) (next : Daemon → MainRun A) : MainRun A :=
  let con := dbpmgrServerConnect cfg x.connect d x.bus
  if con.ret < 0 then ⟨1, [], con.stderr, displayError useGui none none (dbpmgrErrorLookup con.ret), none, con.daemon⟩
  else
    let r := next con.daemon
    { r with stderr := con.stderr ++ r.stderr }

end Main

/-! ### `dbp-run` -/

/-- The options of `dbp-run`. -/
structure RunOptions where
  guiErrors : Bool
  logOutput : Bool
  chdir : Bool
deriving Repr, DecidableEq

/-- The `switch` of `dbp-run`. -/
def runOption (config : RunOptions) (s : CStr) : Except OptionEnd RunOptions :=
  if s = lit "--gui-errors" then .ok { config with guiErrors := true }
  else if s = lit "--log-output" then .ok { config with logOutput := true }
  else if s = lit "--chdir" then .ok { config with chdir := true }
  else if s = lit "--help" then .error .help
  else .error (.unknown s)

section Run

variable (cfg : RunConfig) (x : MainEnv) (o : RunOutcome) (d : Daemon)

/-- A list of missing packages. -/
def missingText (title : String) (missing : List CStr) : CStr :=
  if missing = [] then [] else lit title ++ (lit ", ").intercalate missing ++ lit "\n\n"

/-- What `dependency_ok` prints. -/
def dependencyText (pkgId : CStr) (pkg : Option DesktopFile) (guiErrors : Bool) : CStr :=
  let deplist := (pkg.map (dbpmgrDependCheck o.db)).getD ⟨[], [], [], [], []⟩
  let sysmissing := deplist.sysonly ++ deplist.syspref
  let dbpmissing := deplist.dbponly ++ deplist.dbppref ++ deplist.whatevs
  match dependencyOk cfg o.toClientEnv pkg guiErrors with
  | .ok true =>
    if guiErrors || (sysmissing ++ dbpmissing).isEmpty then []
    else lit "Package '" ++ pkgId ++ lit "' is missing some of its dependencies\n\n" ++
      missingText "Removable packages: " dbpmissing ++ missingText "System packages: " sysmissing ++
      lit "The application may or may not work at all without these. It is recommended that you use a package manager " ++
      lit "to install the missing dependencies." ++ lit "\n"
  | _ => []

/-- `Run.package_path` after `path_from_id`. -/
def runPackagePath (pkgId : CStr) : Option CStr :=
  let r := serverPathFromId o.pathFromId d.p pkgId
  if r.1 < 0 then none else r.2

/-- `main` of `dbp-run`, after the configuration is read. -/
def dbpRunConfigured (gtk : Bool × List CStr) : MainRun RunArgs :=
  match loop isDashed runOption true ⟨false, false, false⟩ [] gtk.2.tail with
  | .stopped e => mainOption x d e
  | .done config argv =>
    mainConnect x d cfg.toDBPConfig gtk.1 fun d =>
      match argv with
      | pkgId :: exec :: rest =>
        let a : RunArgs := ⟨some pkgId, exec, rest, config.logOutput, config.chdir, config.guiErrors⟩
        let path := runPackagePath o d pkgId
        let text := if path.isNone then [] else dependencyText cfg o pkgId (o.packageOpen path) config.guiErrors
        mainCall x gtk.1 text [] path (some pkgId) a (Run.run cfg o d a)
      | _ => mainUsage x d 1 []

/-- `main` of `dbp-run`. -/
def dbpRunMain (args : List CStr) : MainRun RunArgs :=
  let gtk := x.gtk args
  mainInit x d fun cfg => dbpRunConfigured cfg x o d gtk

end Run

/-! ### `dbp-run-path` -/

/-- The `switch` of `dbp-run-path`. -/
def runPathOption (_ : Bool) (s : CStr) : Except OptionEnd Bool :=
  if s = lit "--gui-errors" then .ok true
  else if s = lit "--help" then .error .help
  else .error (.unknown s)

section RunPath

variable (cfg : RunConfig) (x : MainEnv) (o : PathOutcome) (d : Daemon)

/-- `Run.package_path` and `Run.package_id` as `Run.run_path` leaves them. -/
def runPathKnown (pathIn : CStr) : Option CStr × Option CStr :=
  let path := absolutePath o.currentDir pathIn
  let r := packageRegisterPath cfg.toDBPConfig d o.env o.device path o.mountPoint
  let m := sendMessage o.registerPath (DBP_ERROR_NO_REPLY, none) d ((r.1, some r.2.1), r.2.2)
  if m.1.1 < 0 ∧ m.1.1 ≠ DBP_ERROR_PKG_REG then (some pathIn, none)
  else ((serverPathFromId o.pathFromId m.2.p (m.1.2.getD [])).2, m.1.2)

/-- `main` of `dbp-run-path`, after the configuration is read. -/
def dbpRunPathConfigured (gtk : Bool × List CStr) : MainRun (CStr × List CStr) :=
  mainConnect x d cfg.toDBPConfig gtk.1 fun d =>
    match loop isDashed runPathOption true false [] gtk.2.tail with
    | .stopped e => mainOption x d e
    | .done _ argv =>
      match argv with
      | pathIn :: rest =>
        let known := runPathKnown cfg o d pathIn
        mainCall x gtk.1 [] [] known.1 known.2 (pathIn, rest) (Run.runPath cfg o d pathIn rest)
      | [] => mainUsage x d 1 []

/-- `main` of `dbp-run-path`. -/
def dbpRunPathMain (args : List CStr) : MainRun (CStr × List CStr) :=
  let gtk := x.gtk args
  mainInit x d fun cfg => dbpRunPathConfigured cfg x o d gtk

end RunPath

/-! ### What the programs are asked for -/

/-- The options of `dbp-run` that do not end it. -/
def runOptionNames : List CStr := [lit "--gui-errors", lit "--log-output", lit "--chdir"]

/-- The settings after options. -/
def RunOptions.after (c : RunOptions) (opts : List CStr) : RunOptions :=
  ⟨c.guiErrors || opts.contains (lit "--gui-errors"), c.logOutput || opts.contains (lit "--log-output"),
    c.chdir || opts.contains (lit "--chdir")⟩

theorem runOption_ok {c c' : RunOptions} {s : CStr} : runOption c s = .ok c' ↔ s ∈ runOptionNames ∧ c' = c.after [s] := by
  have hnames : lit "--gui-errors" ≠ lit "--log-output" ∧ lit "--gui-errors" ≠ lit "--chdir" ∧
      lit "--log-output" ≠ lit "--chdir" := by decide
  obtain ⟨h₁, h₂, h₃⟩ := hnames
  unfold runOption runOptionNames RunOptions.after
  split_ifs with hg hl hc hh
  · subst hg
    simp [h₁, h₂, h₁.symm, h₂.symm, eq_comm]
  · subst hl
    simp [h₁, h₃, h₁.symm, h₃.symm, eq_comm]
  · subst hc
    simp [h₂, h₃, h₂.symm, h₃.symm, eq_comm]
  · simp [hg, hl, hc]
  · simp [hg, hl, hc]

/-- Options one after the other. -/
theorem runOptions_iff {c' : RunOptions} : ∀ (opts : List CStr) (c : RunOptions),
    opts.foldlM runOption c = .ok c' ↔ (∀ s ∈ opts, s ∈ runOptionNames) ∧ c' = c.after opts
  | [], c => by
    obtain ⟨g, l, d⟩ := c
    simp [RunOptions.after, pure, Except.pure, eq_comm]
  | s :: opts, c => by
    have hstep : (s :: opts).foldlM runOption c = .ok c' ↔
        ∃ c₁, runOption c s = .ok c₁ ∧ opts.foldlM runOption c₁ = .ok c' := by
      rw [List.foldlM_cons]
      cases runOption c s <;> simp [bind, Except.bind]
    have hafter : (c.after [s]).after opts = c.after (s :: opts) := by
      simp [RunOptions.after, Bool.or_assoc]
    simp only [hstep, runOption_ok, runOptions_iff opts, List.forall_mem_cons]
    constructor
    · rintro ⟨_, ⟨hs, rfl⟩, hopts, rfl⟩
      exact ⟨⟨hs, hopts⟩, hafter⟩
    · rintro ⟨⟨hs, hopts⟩, rfl⟩
      exact ⟨_, ⟨hs, rfl⟩, hopts, hafter.symm⟩

theorem isDashed_of_name {s : CStr} (h : s ∈ runOptionNames) : isDashed s = true := by
  have hall : ∀ s ∈ runOptionNames, isDashed s = true := by decide
  exact hall s h

section Calls

variable (cfg : RunConfig) (x : MainEnv) (o : RunOutcome) (d : Daemon)

/-- The call that `main` makes once it has read the configuration. -/
theorem mainInit_call {A : Type} (next : RunConfig → MainRun A) (call : A × ClientRun) :
    (mainInit x d next).call = some call ↔
      ∃ c : ConfigFile, dbpConfigInit (some x.config) x.bufs = .ok (some c) ∧ (next c.toRunConfig).call = some call := by
  have hread : dbpConfigInit (some x.config) x.bufs =
    (configRead (dbpDesktopParse (cString x.config) x.bufs)).map some := rfl
  rw [hread, mainInit]
  cases configRead (dbpDesktopParse (cString x.config) x.bufs) with
  | error key => simp [Except.map]
  | ok c => simp [Except.map]

/-- The call that `main` makes once it is connected. -/
theorem mainConnect_call {A : Type} (cfg : DBPConfig) (useGui : Bool) (next : Daemon → MainRun A) :
    (mainConnect x d cfg useGui next).call = if x.bus = true ∧ x.connect.reply = .answered then (next d).call else none := by
  unfold mainConnect
  have hret := serverConnect_ret cfg x.connect d x.bus
  dsimp only
  by_cases hcon : x.bus = true ∧ x.connect.reply = .answered
  · rw [if_neg fun h => hret.mp h hcon, if_pos hcon, serverConnect_daemon]
  · rw [if_pos (hret.mpr hcon), if_neg hcon]

theorem mainCall_call {A : Type} (useGui : Bool) (stdout stderr : CStr) (path id : Option CStr) (a : A) (r : ClientRun) :
    (mainCall x useGui stdout stderr path id a r).call = some (a, r) := by
  unfold mainCall
  cases r.result <;> rfl

/-- What `dbp-run` asks for: the options, the package, the executable and its arguments. -/
def Asks (args : List CStr) (a : RunArgs) : Prop :=
  ∃ name opts pkgId exec rest, args = name :: (opts ++ pkgId :: exec :: rest) ∧ (∀ s ∈ opts, s ∈ runOptionNames) ∧
    isDashed pkgId = false ∧ a = ⟨some pkgId, exec, rest, opts.contains (lit "--log-output"), opts.contains (lit "--chdir"),
      opts.contains (lit "--gui-errors")⟩

/-- The settings and operands that the loop over the arguments comes to. -/
theorem asks_iff (args : List CStr) (a : RunArgs) : Asks args a ↔ ∃ config pkgId exec rest,
    loop isDashed runOption true ⟨false, false, false⟩ [] args.tail = .done config (pkgId :: exec :: rest) ∧
      a = ⟨some pkgId, exec, rest, config.logOutput, config.chdir, config.guiErrors⟩ := by
  constructor
  · rintro ⟨name, opts, pkgId, exec, rest, rfl, hopts, hid, rfl⟩
    refine ⟨RunOptions.after ⟨false, false, false⟩ opts, pkgId, exec, rest, ?_, by simp [RunOptions.after]⟩
    refine (loop_done_iff isDashed runOption _ _).mpr ⟨opts, rfl, fun s hs => isDashed_of_name (hopts s hs), ?_, ?_⟩
    · exact (runOptions_iff opts _).mpr ⟨hopts, rfl⟩
    · intro s hs
      obtain rfl := Option.some.inj hs
      exact hid
  · rintro ⟨config, pkgId, exec, rest, hloop, rfl⟩
    obtain ⟨opts, htail, -, hfold, hhead⟩ := (loop_done_iff isDashed runOption _ _).mp hloop
    obtain ⟨hopts, rfl⟩ := (runOptions_iff opts _).mp hfold
    cases args with
    | nil => simp at htail
    | cons name args =>
      refine ⟨name, opts, pkgId, exec, rest, congrArg (name :: ·) htail, hopts, hhead pkgId rfl, ?_⟩
      simp [RunOptions.after]

/-- The call of `Run.run` that `main` makes with a configuration. -/
theorem dbpRunConfigured_call (gtk : Bool × List CStr) (a : RunArgs) (r : ClientRun) :
    (dbpRunConfigured cfg x o d gtk).call = some (a, r) ↔
      (x.bus = true ∧ x.connect.reply = .answered) ∧ Asks gtk.2 a ∧ r = Run.run cfg o d a := by
  rw [asks_iff]
  unfold dbpRunConfigured
  cases loop isDashed runOption true ⟨false, false, false⟩ [] gtk.2.tail with
  | stopped e => cases e <;> simp [mainOption, mainUsage]
  | done config argv =>
    dsimp only
    rw [mainConnect_call]
    by_cases hcon : x.bus = true ∧ x.connect.reply = .answered
    · rw [if_pos hcon]
      rcases argv with _ | ⟨pkgId, _ | ⟨exec, rest⟩⟩
      · simp [mainUsage]
      · simp [mainUsage]
      · dsimp only
        rw [mainCall_call]
        simp only [Option.some.injEq, Prod.mk.injEq, Parsed.done.injEq, List.cons.injEq]
        constructor
        · rintro ⟨rfl, rfl⟩
          exact ⟨hcon, ⟨config, pkgId, exec, rest, ⟨rfl, rfl, rfl, rfl⟩, rfl⟩, rfl⟩
        · rintro ⟨-, ⟨_, _, _, _, ⟨rfl, rfl, rfl, rfl⟩, rfl⟩, rfl⟩
          exact ⟨rfl, rfl⟩
    · simp [hcon]

theorem dbpRunMain_call (args : List CStr) (a : RunArgs) (r : ClientRun) :
    (dbpRunMain x o d args).call = some (a, r) ↔ ∃ c : ConfigFile, dbpConfigInit (some x.config) x.bufs = .ok (some c) ∧
      (x.bus = true ∧ x.connect.reply = .answered) ∧ Asks (x.gtk args).2 a ∧ r = Run.run c.toRunConfig o d a := by
  simp only [dbpRunMain, mainInit_call, dbpRunConfigured_call]

/-- The arguments that the wrapper script of an executable passes to `dbp-run`, with its environment and without. -/
def wrapperArgs (environment : Bool) (pkgId exec : CStr) (args : List CStr) : List CStr :=
  lit "dbp-run" :: ((if environment then runOptionNames else []) ++ pkgId :: exec :: args)

/-- They ask for the executable and its arguments, unless the id begins like an option. -/
theorem asks_wrapper (environment : Bool) (pkgId exec : CStr) (args : List CStr) :
    Asks (wrapperArgs environment pkgId exec args) ⟨some pkgId, exec, args, environment, environment, environment⟩ ↔
      isDashed pkgId = false := by
  constructor
  · rintro ⟨_, _, pkgId', _, _, -, -, hid, ha⟩
    obtain rfl : pkgId = pkgId' := Option.some.inj (RunArgs.mk.inj ha).1
    exact hid
  · intro hid
    cases environment with
    | true =>
      have hcontains : ∀ s ∈ runOptionNames, runOptionNames.contains s = true := by decide
      refine ⟨_, runOptionNames, pkgId, exec, args, rfl, fun s hs => hs, hid, ?_⟩
      rw [hcontains _ (by decide), hcontains _ (by decide), hcontains _ (by decide)]
    | false => exact ⟨_, [], pkgId, exec, args, rfl, fun s hs => (nomatch hs), hid, rfl⟩

end Calls

/-- A desktop where GTK takes no arguments. -/
def demoMainEnv : MainEnv where
  usage := lit "Usage: dbp-run [options] <package> <exec> [args]\n"
  gtk args := (true, args)
  config := dbpDesktopWrite (configDesktop demoConfigFile)
  bufs := ⟨[], []⟩
  bus := true
  connect := ⟨.answered, [], ⟨0, 0, clientOutcome.env, ([], [])⟩⟩
  spawnMessage := []

section PathCalls

variable (cfg : RunConfig) (x : MainEnv) (o : PathOutcome) (d : Daemon)

/-- Its option does not end `dbp-run-path`. -/
theorem runPathOptions_iff {c' : Bool} : ∀ (opts : List CStr) (c : Bool), opts.foldlM runPathOption c = .ok c' ↔
    (∀ s ∈ opts, s = lit "--gui-errors") ∧ c' = (c || !opts.isEmpty)
  | [], c => by simp [pure, Except.pure, eq_comm]
  | s :: opts, c => by
    rw [List.foldlM_cons, runPathOption]
    split_ifs with hg hh
    · have ih := @runPathOptions_iff c' opts true
      simpa [bind, Except.bind, hg] using ih
    · simp [bind, Except.bind, hg]
    · simp [bind, Except.bind, hg]

/-- What `dbp-run-path` asks for: the package file, and the arguments of its program. -/
def AsksPath (args : List CStr) (pathIn : CStr) (rest : List CStr) : Prop :=
  ∃ name opts, args = name :: (opts ++ pathIn :: rest) ∧ (∀ s ∈ opts, s = lit "--gui-errors") ∧ isDashed pathIn = false

theorem asksPath_iff (args : List CStr) (pathIn : CStr) (rest : List CStr) : AsksPath args pathIn rest ↔
    ∃ config, loop isDashed runPathOption true false [] args.tail = .done config (pathIn :: rest) := by
  constructor
  · rintro ⟨name, opts, rfl, hopts, hpath⟩
    refine ⟨_, (loop_done_iff isDashed runPathOption _ _).mpr
      ⟨opts, rfl, fun s hs => ?_, (runPathOptions_iff opts false).mpr ⟨hopts, rfl⟩, fun s hs => ?_⟩⟩
    · rw [hopts s hs]
      decide
    · obtain rfl := Option.some.inj hs
      exact hpath
  · rintro ⟨config, hloop⟩
    obtain ⟨opts, htail, -, hfold, hhead⟩ := (loop_done_iff isDashed runPathOption _ _).mp hloop
    cases args with
    | nil => simp at htail
    | cons name args =>
      exact ⟨name, opts, congrArg (name :: ·) htail, ((runPathOptions_iff opts false).mp hfold).1, hhead pathIn rfl⟩

theorem dbpRunPathConfigured_call (gtk : Bool × List CStr) (a : CStr × List CStr) (r : ClientRun) :
    (dbpRunPathConfigured cfg x o d gtk).call = some (a, r) ↔
      (x.bus = true ∧ x.connect.reply = .answered) ∧ AsksPath gtk.2 a.1 a.2 ∧ r = Run.runPath cfg o d a.1 a.2 := by
  rw [asksPath_iff]
  unfold dbpRunPathConfigured
  rw [mainConnect_call]
  by_cases hcon : x.bus = true ∧ x.connect.reply = .answered
  · rw [if_pos hcon]
    cases loop isDashed runPathOption true false [] gtk.2.tail with
    | stopped e => cases e <;> simp [mainOption, mainUsage]
    | done config argv =>
      cases argv with
      | nil => simp [mainUsage]
      | cons pathIn rest =>
        dsimp only
        rw [mainCall_call]
        simp only [Option.some.injEq, Prod.mk.injEq, Parsed.done.injEq, List.cons.injEq]
        constructor
        · rintro ⟨rfl, rfl⟩
          exact ⟨hcon, ⟨config, rfl, rfl, rfl⟩, rfl⟩
        · rintro ⟨-, ⟨_, -, hpath, hrest⟩, rfl⟩
          exact ⟨Prod.ext hpath hrest, by rw [hpath, hrest]⟩
  · simp [hcon]

/-- `dbp-run-path` calls `Run.run_path` exactly with what its arguments ask for, if the configuration has every key and
the daemon answers. -/
theorem dbpRunPathMain_call (args : List CStr) (a : CStr × List CStr) (r : ClientRun) :
    (dbpRunPathMain x o d args).call = some (a, r) ↔
      ∃ c : ConfigFile, dbpConfigInit (some x.config) x.bufs = .ok (some c) ∧
        (x.bus = true ∧ x.connect.reply = .answered) ∧ AsksPath (x.gtk args).2 a.1 a.2 ∧
          r = Run.runPath c.toRunConfig o d a.1 a.2 := by
  simp only [dbpRunPathMain, mainInit_call, dbpRunPathConfigured_call]

end PathCalls

/-! ### Errors as formats -/

/-- A character that begins no conversion. -/
theorem printFormat_cons (args : List CStr) {c : Char} (hc : c ≠ '%') (s : CStr) :
    printFormat args (c :: s) = (printFormat args s).map (c :: ·) := by
  rw [printFormat] <;> intros <;> simp_all

/-- A text without `%` is printed as it is. -/
theorem printFormat_plain (args : List CStr) {s : CStr} (h : '%' ∉ s) : printFormat args s = some s := by
  induction s with
  | nil => rw [printFormat]
  | cons c s ih =>
    rw [printFormat_cons args fun hc => h (hc ▸ List.mem_cons_self), ih fun hs => h (List.mem_cons_of_mem c hs)]
    rfl

/-- Without arguments, every `%%` that is printed leaves one character out. -/
theorem length_printFormat {s t : CStr} (h : printFormat [] s = some t) :
    2 * t.length + s.count '%' = 2 * s.length := by
  generalize hargs : ([] : List CStr) = args at h
  fun_induction printFormat args s generalizing t with
  | case1 args => simp_all
  | case2 args s ih =>
    obtain ⟨t', ht', rfl⟩ := Option.map_eq_some_iff.mp h
    have := ih hargs ht'
    simp only [List.length_cons, List.count_cons_self]
    omega
  | case3 arg args s ih => simp at hargs
  | case4 args s => cases h
  | case5 args c s _ _ hc ih =>
    obtain ⟨t', ht', rfl⟩ := Option.map_eq_some_iff.mp h
    have := ih hargs ht'
    rw [List.count_cons_of_ne hc]
    simp only [List.length_cons]
    omega

theorem printFormat_eq_iff (s : CStr) : printFormat [] s = some s ↔ '%' ∉ s := by
  refine ⟨fun h => ?_, printFormat_plain []⟩
  have hlen := length_printFormat h
  exact List.count_eq_zero.mp (by omega)

/-- A character that no label has. -/
theorem mem_labelled {x : Char} {l₁ l₂ l₃ l₄ l₅ a b c : CStr} (h₁ : x ∉ l₁) (h₂ : x ∉ l₂) (h₃ : x ∉ l₃) (h₄ : x ∉ l₄)
    (h₅ : x ∉ l₅) : x ∈ l₁ ++ a ++ l₂ ++ l₃ ++ b ++ l₄ ++ l₅ ++ c ↔ x ∈ a ∨ x ∈ b ∨ x ∈ c := by
  simp only [List.mem_append, h₁, h₂, h₃, h₄, h₅, false_or, or_false, or_assoc]

/-- **An error that is printed** is printed as it is exactly if there is no `%` in its message, nor in the path and the
id of the package as far as they are known. -/
theorem displayError_printed_iff (path id : Option CStr) (message : CStr) :
    displayError false path id message = some (.printed (some (errorMsg path id message))) ↔
      '%' ∉ message ∧ '%' ∉ path.getD [] ∧ '%' ∉ id.getD [] := by
  have hunknown : ∀ name : Option CStr, '%' ∈ name.getD (lit "Unknown") ↔ '%' ∈ name.getD [] := by
    intro name
    cases name with
    | none => exact iff_of_false (by decide) (by decide)
    | some name => rfl
  have hmem : '%' ∈ errorMsg path id message ↔ '%' ∈ message ∨ '%' ∈ path.getD [] ∨ '%' ∈ id.getD [] :=
    (mem_labelled (by decide) (by decide) (by decide) (by decide) (by decide)).trans
      (or_congr_right (or_congr (hunknown path) (hunknown id)))
  simp only [displayError, Bool.false_eq_true, if_false, Option.some.injEq, ErrorShown.printed.injEq]
  rw [printFormat_eq_iff, hmem, not_or, not_or]

end Dbp
