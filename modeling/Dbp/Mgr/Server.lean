/-
# The client library

`libdbpmgr/dbpd-dbus-client.c`: each call of the daemon sends one message and
takes its result, and maybe a string, from the answer; a call that fails says
so and comes to `DBP_ERROR_NO_REPLY`. The list of packages is built from
the front, so it is in the reverse of the daemon's order, and the row for no
package is left out of it. `error.c` has a text for each code of `dbp.h`.

A package whose id is `!` is left out of the list like the row for no package;
ids are distinct, so that is one package at most, and every other one is in
the list once, with the path that its id leads to (`packageList_faithful`).

Key definitions: `ServerEnv`, `ServerCall`, `sendCall`, `dbpmgrServerPackageList`, `dbpmgrErrorLookup`.
Key theorems: `serverCall_explained`, `packageList_eq`, `nodup_ids_run`, `packageList_faithful`.
-/
import Dbp.Daemon.Comm
import Dbp.Mgr.DependState

namespace Dbp

open CLib Sweep Find Runs

/-! ### Texts of errors -/

/-- The texts of `dbpmgr_error_lookup`. -/
def errorTexts : List (ℤ × CStr) :=
  [(DBP_ERROR_NO_REPLY, lit "The DBP System Daemon is not responding. Make sure it's running"),
    (DBP_ERROR_INTERNAL_MSG, lit "An unknown internal error has occured. This is only supposed to be a placeholder. "
      ++ lit "You should examine the DBP System daemon log-file for further information."),
    (DBP_ERROR_NO_LOOP, lit "The system has ran out of loopback device nodes. "
      ++ lit "Try closing some applications and try again."),
    (DBP_ERROR_SET_LOOP, lit "The system has ran out of loopback device nodes. "
      ++ lit "Try closing some applications and try again."),
    (DBP_ERROR_SET_LOOP2, lit "The DBP System Daemon was unable to assign the package file to a device node. "
      ++ lit "ioctl failed."),
    (DBP_ERROR_NO_PKG_ACCESS, lit "The package file could not be opened. Make sure it's still accessable."),
    (DBP_ERROR_NO_MEMORY, lit "Unable to allocate system resources. You're probably out of RAM. "
      ++ lit "Close some programs and try again."),
    (DBP_ERROR_BAD_PKG_ID, lit "You've attempted to launch a program from a package that could not be found in the "
      ++ lit "local database. This is likely a bug."),
    (DBP_ERROR_BAD_FSIMG, lit "Unable to access the package filesystem. This DBP-file is likely corrupt."),
    (DBP_ERROR_ILL_DIRNAME, lit "The meta-data in this package is malformed: Illegal character(s) were found in a "
      ++ lit "generated mountpoint."),
    (DBP_ERROR_UNION_FAILED, lit "Unable to set up AuFS union. This is likely a bug. "
      ++ lit "This may temporarily be worked around by rebooting."),
    (DBP_ERROR_APPD_NOPERM, lit "Your user doesn't have the permissions needed to create the application data "
      ++ lit "directory on the SD-card that this application is installed on."),
    (DBP_ERROR_NO_DEFAULTD, lit "No default.desktop was found in the meta-data for this package."),
    (DBP_ERROR_PKG_REG, lit "The package with this ID is already registered! "
      ++ lit "This is not an error, and you shouldn't see this message."),
    (DBP_ERROR_UNHANDLED, lit "An unhandled error has occured. This is just a placehoder that you shouldn't see."),
    (DBP_ERROR_BAD_META, lit "Unable to read meta-data from package. The package file is likely corrupt. "
      ++ lit "Try re-downloading it."),
    (DBP_ERROR_NO_DEFAULTH, lit "This package lacks a default executable, and therefore cannot be executed directly."),
    (DBP_ERROR_SIGEXIT, lit "The program was killed by a signal"),
    (DBP_ERROR_SIGSEGV, lit "The program has crashed from a segmentation fault. This likely a bug in the program."),
    (DBP_ERROR_MYSTKILL, lit "The program exited abnormally for an unknown reason."),
    (DBP_ERROR_NOTFOUND, lit "Could not find one or more resource specified in the given parameter(s)."),
    (DBP_ERROR_NOTVALID, lit "One or more parameters contains malformed data that can not be processed."),
    (DBP_ERROR_BADEXT, lit "The given file does not have a recognized file extension."),
    (DBP_ERROR_MUTILATED, lit "Instances of this program are still running after an unclean media removal, and it is "
      ++ lit "not safe to spawn new instances. Close the old instances of this program before trying again.")]

/-- What `dbpmgr_error_lookup` prints. -/
def decodingLine (error : ℤ) : CStr := lit "Decoding " ++ formatInt error ++ lit "\n"

/-- `dbpmgr_error_lookup`, in a locale without translations. -/
def dbpmgrErrorLookup (error : ℤ) : CStr := (errorTexts.lookup error).getD (lit "An unknown error occured.")

/-- An error with a text. -/
def Explained (error : ℤ) : Prop := (error, dbpmgrErrorLookup error) ∈ errorTexts

theorem explained_of_code {error : ℤ} (h : error ∈ errorTexts.map (·.1)) : Explained error := by
  have hsome : (errorTexts.lookup error).isSome := by
    rw [Option.isSome_iff_ne_none]
    intro hn
    obtain ⟨x, hx, rfl⟩ := List.mem_map.mp h
    exact absurd (List.lookup_eq_none_iff.mp hn x hx) (by simp)
  obtain ⟨text, ht⟩ := Option.isSome_iff_exists.mp hsome
  obtain ⟨l₁, l₂, he, -⟩ := List.lookup_eq_some_iff.mp ht
  have hmem : (error, text) ∈ errorTexts := by rw [he]; simp
  rwa [Explained, dbpmgrErrorLookup, ht]

theorem explained_noReply : Explained DBP_ERROR_NO_REPLY := explained_of_code (by decide)

/-- The daemon's errors have texts. -/
theorem explained_of_answer {ret : ℤ} (h : Answer ret) (hneg : ret < 0) : Explained ret := by
  have hall : ∀ e ∈ daemonErrors, e ∈ errorTexts.map (·.1) := by decide
  rcases h with h | h
  · omega
  · exact explained_of_code (hall ret h)

/-! ### Calls -/

/-- What a call finds on the way to the daemon, and there. -/
structure ServerEnv where
  reply : Reply
  /-- The message of GLib's error if the call fails. -/
  message : CStr
  outcome : CommOutcome

/-- What a call comes to: its result, the string it hands back, what it prints on stderr, and the daemon. -/
structure ServerCall where
  ret : ℤ
  str : Option CStr
  stderr : CStr
  daemon : Daemon

/-- The string of an answer of the type `(is)`. -/
def MethodReply.str : MethodReply → Option CStr
  | .intStr _ s => some s
  | .int _ | .rows _ => none

section Calls

variable (cfg : DBPConfig) (s : ServerEnv) (d : Daemon)

/-- `SEND_MESSAGE`: the answer, or none after a message; and the daemon. -/
def sendCall (c : MethodCall) : Option MethodReply × CStr × Daemon :=
  let r := vtabMethodCall cfg s.outcome d c
  let m := sendMessage s.reply none d (some r.1, r.2)
  (m.1, if m.1.isNone then lit "Unable to access dbpd: " ++ s.message ++ lit "\n" else [], m.2)

/-- A function that sends a message and takes the result and the string from the answer. -/
def serverCall (c : MethodCall) : ServerCall :=
  let m := sendCall cfg s d c
  match m.1 with
  | none => ⟨DBP_ERROR_NO_REPLY, none, m.2.1, m.2.2⟩
  | some r => ⟨r.ret, r.str, m.2.1, m.2.2⟩

/-- `dbpmgr_server_ping`. -/
def dbpmgrServerPing : ServerCall := serverCall cfg s d .ping

/-- `dbpmgr_server_mount`. -/
def dbpmgrServerMount (pkgId user : CStr) : ServerCall := serverCall cfg s d (.mount pkgId user)

/-- `dbpmgr_server_umount`. -/
def dbpmgrServerUmount (mountRef : ℤ) : ServerCall := serverCall cfg s d (.umount mountRef)

/-- `dbpmgr_server_mountpoint_get`. -/
def dbpmgrServerMountpointGet (pkgId : CStr) : ServerCall := serverCall cfg s d (.mountPointGet pkgId)

/-- `dbpmgr_server_register_path`. -/
def dbpmgrServerRegisterPath (path : CStr) : ServerCall := serverCall cfg s d (.registerPath path)

/-- `dbpmgr_server_unregister_path`. -/
def dbpmgrServerUnregisterPath (pkgId : CStr) : ServerCall := serverCall cfg s d (.unregisterPath pkgId)

/-- `dbpmgr_server_id_from_path`. -/
def dbpmgrServerIdFromPath (path : CStr) : ServerCall := serverCall cfg s d (.idFromPath path)

/-- `dbpmgr_server_path_from_id`. -/
def dbpmgrServerPathFromId (pkgId : CStr) : ServerCall := serverCall cfg s d (.pathFromId pkgId)

/-- `dbpmgr_server_connect`; the bus may not be there. -/
def dbpmgrServerConnect (bus : Bool) : ServerCall :=
  if bus then dbpmgrServerPing cfg s d
  else ⟨DBP_ERROR_NO_REPLY, none, lit "Unable to connect to DBus system bus: " ++ s.message ++ lit "\n", d⟩

/-- `struct DBPList`, with the path, which the dependency check does not read. -/
structure ListedPackage extends DBPList where
  path : CStr
deriving Repr, DecidableEq

/-- What is kept of a row. -/
def PackageRow.listed (r : PackageRow) : ListedPackage := ⟨⟨r.id, r.version, r.desktop == lit "desk"⟩, r.path⟩

/-- The loop over the rows, each in front of the ones before. -/
def listRows : List ListedPackage → List PackageRow → List ListedPackage
  | prev, [] => prev
  | prev, r :: rs => listRows (if r.id = lit "!" then prev else r.listed :: prev) rs

/-- `dbpmgr_server_package_list`: the list, empty if there is no answer, and what is printed on stderr. -/
def dbpmgrServerPackageList : List ListedPackage × CStr :=
  let m := sendCall cfg s d .packageList
  match m.1 with
  | some (.rows rows) => (listRows [] rows, m.2.1)
  | _ => ([], m.2.1)

/-! ### What a call comes to -/

/-- An answered call. -/
theorem serverCall_answered (h : s.reply = .answered) (c : MethodCall) :
    serverCall cfg s d c = ⟨(vtabMethodCall cfg s.outcome d c).1.ret, (vtabMethodCall cfg s.outcome d c).1.str, [],
      (vtabMethodCall cfg s.outcome d c).2⟩ := by
  simp [serverCall, sendCall, sendMessage, h]

/-- A call without an answer. -/
theorem serverCall_noReply (h : s.reply ≠ .answered) (c : MethodCall) :
    (serverCall cfg s d c).ret = DBP_ERROR_NO_REPLY ∧ (serverCall cfg s d c).str = none := by
  cases hr : s.reply with
  | answered => exact absurd hr h
  | unreached => simp [serverCall, sendCall, sendMessage, hr]
  | unanswered => simp [serverCall, sendCall, sendMessage, hr]

/-- A call does to the daemon what the method does, or nothing. -/
theorem serverCall_daemon (c : MethodCall) : (serverCall cfg s d c).daemon =
    if s.reply = .unreached then d else (vtabMethodCall cfg s.outcome d c).2 := by
  cases hr : s.reply <;> simp [serverCall, sendCall, sendMessage, hr]

/-- A result is the daemon's, or there is an error with a text. -/
theorem serverCall_explained (h : CounterOk d) (ho : Answer s.outcome.loopMount) (c : MethodCall) :
    (serverCall cfg s d c).ret < 0 → Explained (serverCall cfg s d c).ret := by
  intro hneg
  by_cases hr : s.reply = .answered
  · rw [serverCall_answered cfg s d hr] at hneg ⊢
    exact explained_of_answer (vtabMethodCall_answer cfg s.outcome h ho c) hneg
  · rw [(serverCall_noReply cfg s d hr c).1]
    exact explained_noReply

/-- `dbpmgr_server_path_from_id` is what `Run.run` calls. -/
theorem dbpmgrServerPathFromId_eq (pkgId : CStr) :
    ((dbpmgrServerPathFromId cfg s d pkgId).ret, (dbpmgrServerPathFromId cfg s d pkgId).str) =
      serverPathFromId s.reply d.p pkgId := by
  unfold dbpmgrServerPathFromId serverPathFromId
  cases hr : s.reply with
  | unreached => simp [serverCall, sendCall, sendMessage, hr]
  | unanswered => simp [serverCall, sendCall, sendMessage, hr]
  | answered =>
    rw [serverCall_answered cfg s d hr, vtabMethodCall]
    cases packagePathFromId d.p pkgId <;> rfl

/-- The connection leaves the daemon as it is. -/
theorem serverConnect_daemon (bus : Bool) : (dbpmgrServerConnect cfg s d bus).daemon = d := by
  unfold dbpmgrServerConnect
  split_ifs
  · rw [dbpmgrServerPing, serverCall_daemon]
    split_ifs <;> rfl
  · rfl

/-- It fails without a bus or an answer. -/
theorem serverConnect_ret (bus : Bool) : (dbpmgrServerConnect cfg s d bus).ret < 0 ↔
    ¬ (bus = true ∧ s.reply = .answered) := by
  unfold dbpmgrServerConnect
  split_ifs with hb
  · rw [dbpmgrServerPing]
    by_cases hr : s.reply = .answered
    · rw [serverCall_answered cfg s d hr]
      simp [hb, hr, vtabMethodCall, MethodReply.ret]
    · rw [(serverCall_noReply cfg s d hr _).1]
      simp [hr]
      decide
  · simp [hb]
    decide

/-! ### The list of packages -/

theorem listRows_eq : ∀ (prev : List ListedPackage) (rows : List PackageRow),
    listRows prev rows = ((rows.filter (·.id ≠ lit "!")).map PackageRow.listed).reverse ++ prev
  | prev, [] => rfl
  | prev, r :: rs => by
    rw [listRows, listRows_eq]
    by_cases hr : r.id = lit "!" <;> simp [hr]

/-- The row for no package is not listed. -/
theorem filter_packageRows (p : Package) :
    (packageRows p).filter (·.id ≠ lit "!") = (p.entry.filter (·.id ≠ lit "!")).map PackageEntry.row := by
  unfold packageRows
  split_ifs with he
  · rw [he]
    decide
  · rw [List.filter_map]
    rfl

/-- The list of an answered call. -/
theorem packageList_eq (h : s.reply = .answered) : (dbpmgrServerPackageList cfg s d).1 =
    ((d.p.entry.filter (·.id ≠ lit "!")).map (·.row.listed)).reverse := by
  simp only [dbpmgrServerPackageList, sendCall, sendMessage, h, vtabMethodCall]
  rw [listRows_eq, filter_packageRows, List.map_map, List.append_nil]
  rfl

/-! ### Every run of the daemon -/

theorem nodup_ids_register {d : Daemon} (h : d.ids.Nodup) (e : Env) (path device mount : CStr) :
    (packageRegister cfg d e path device mount).2.2.ids.Nodup := by
  rw [ids_register]
  cases readId e path with
  | none => exact h
  | some id =>
    dsimp only
    split_ifs with hc
    · exact List.nodup_append_comm.mp (List.nodup_cons.mpr ⟨(packageAddCheck_none.mp hc).1, h⟩)
    · exact h

theorem SameRegistry.nodup_ids {d d' : Daemon} (hs : SameRegistry d d') (h : d.ids.Nodup) : d'.ids.Nodup := by
  rw [Daemon.ids, hs.entry]
  exact h

/-- Ids stay distinct, legal or not. -/
theorem nodup_ids_step {d : Daemon} (h : d.ids.Nodup) (op : DaemonOp) : (d.step cfg op).ids.Nodup := by
  cases op with
  | registerPath e device path mount =>
    show (packageRegisterPath cfg d e device path mount).2.2.ids.Nodup
    rw [packageRegisterPath_state]
    split_ifs
    · exact nodup_ids_register cfg h e path device mount
    · exact h
  | crawlMount e device path =>
    show (packageCrawlMount cfg d e device path).ids.Nodup
    rw [packageCrawlMount_eq]
    exact List.foldlRecOn (motive := fun t : Daemon => t.ids.Nodup) _ _ h
      fun t ht f _ => nodup_ids_register cfg ht e f device path
  | releasePath path => exact h.sublist (ids_releasePath cfg d path)
  | releaseMount device => exact h.sublist (ids_releaseMount cfg d device)
  | run ret id user => exact (sameRegistry_run d ret id user).nodup_ids h
  | stop now runId => exact (sameRegistry_stop d now runId).nodup_ids h
  | purgatoryCheck out => exact (sameRegistry_purgatoryCheck d out).nodup_ids h

theorem nodup_ids_run {d : Daemon} (h : d.ids.Nodup) (ops : List DaemonOp) : (d.run cfg ops).ids.Nodup :=
  List.foldlRecOn (motive := fun t : Daemon => t.ids.Nodup) ops _ h fun _ ht op _ => nodup_ids_step cfg ht op

/-- With distinct ids, an id leads to the path of its package. -/
theorem packagePathFromId_of_mem {d : Daemon} (h : d.ids.Nodup) {x : PackageEntry} (hx : x ∈ d.p.entry) :
    packagePathFromId d.p x.id = some x.path := by
  obtain ⟨pre, post, hes⟩ := List.append_of_mem hx
  have hpre : ∀ y ∈ pre, (y.id == x.id) = false := by
    intro y hy
    rw [Daemon.ids, hes, List.map_append, List.map_cons] at h
    simpa using fun he => List.disjoint_of_nodup_append h (List.mem_map_of_mem hy) (by rw [he]; simp)
  have hfind : packageFind d.p x.id = some pre.length := by
    rw [packageFind, hes]
    exact findIdx?_middle hpre (by simp)
  simp [packagePathFromId, hfind, hes]

end Calls

/-- **The list of packages** is right in every state of the daemon: every package is in it once, but one of id `!`, and
the id of each leads to the path it is listed with. -/
theorem packageList_faithful (cfg : DBPConfig) (icons desktops execs : Dir) (ops : List DaemonOp) (s : ServerEnv)
    (h : s.reply = .answered) :
    let d := (Daemon.init icons desktops execs).run cfg ops
    let list := (dbpmgrServerPackageList cfg s d).1
    list.reverse = (d.p.entry.filter (·.id ≠ lit "!")).map (·.row.listed) ∧ d.p.entry.length ≤ list.length + 1 ∧
      ∀ x ∈ list, (dbpmgrServerPathFromId cfg s d x.id).ret = 1 ∧
        (dbpmgrServerPathFromId cfg s d x.id).str = some x.path := by
  intro d list
  have hstart : (Daemon.init icons desktops execs).ids.Nodup := List.nodup_nil
  have hnd : d.ids.Nodup := nodup_ids_run cfg hstart ops
  have hlist : list = ((d.p.entry.filter (·.id ≠ lit "!")).map (·.row.listed)).reverse := packageList_eq cfg s d h
  refine ⟨by rw [hlist, List.reverse_reverse], ?_, ?_⟩
  · have hcount : d.p.entry.countP (fun x => x.id == lit "!") ≤ 1 := by
      have hle := List.nodup_iff_count_le_one.mp hnd (lit "!")
      rwa [List.count_eq_countP, List.countP_map] at hle
    have hsplit : d.p.entry.length = d.p.entry.countP (fun x => x.id == lit "!") +
        d.p.entry.countP fun x => ¬ x.id == lit "!" := List.length_eq_countP_add_countP _
    have hlen : list.length = d.p.entry.countP fun x => ¬ x.id == lit "!" := by
      rw [hlist, List.length_reverse, List.length_map, ← List.countP_eq_length_filter]
      simp
    omega
  · intro x hx
    rw [hlist, List.mem_reverse, List.mem_map] at hx
    obtain ⟨e, he, rfl⟩ := hx
    have hpath : packagePathFromId d.p e.row.listed.id = some e.path :=
      packagePathFromId_of_mem hnd (List.mem_of_mem_filter he)
    rw [dbpmgrServerPathFromId, serverCall_answered cfg s d h, vtabMethodCall, hpath]
    exact ⟨rfl, rfl⟩

/-- The list of a package on a card. -/
theorem packageList_faithful_demo :
    let env := demoEnv [(lit "/m/a.dbp", [demoMeta (lit "a")])]
    let d := (Daemon.init [] [] []).run demoConfig [.registerPath env (lit "/dev/sda1") (lit "/m/a.dbp") (lit "/m")]
    let s : ServerEnv := ⟨.answered, [], ⟨0, 0, env, ([], [])⟩⟩
    (dbpmgrServerPackageList demoConfig s d).1.map (·.path) = [lit "/m/a.dbp"] ∧
      ∀ x ∈ (dbpmgrServerPackageList demoConfig s d).1, (dbpmgrServerPathFromId demoConfig s d x.id).ret = 1 := by
  intro env d s
  obtain ⟨-, -, hpath⟩ := packageList_faithful demoConfig [] [] []
    [.registerPath env (lit "/dev/sda1") (lit "/m/a.dbp") (lit "/m")] s rfl
  exact ⟨by decide +kernel, fun x hx => (hpath x hx).1⟩

end Dbp
