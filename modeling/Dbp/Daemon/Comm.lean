/-
# Method calls on the bus

`vtab_method_call` of `dbpd/comm.c`: a method call takes its arguments from
the message, makes at most one call on the package state, and answers with
what that returns. The list of packages is sent as rows of strings; an array
may not be empty, so a row of an impossible package stands for no package
(its id is not so impossible: see `Dbp.Mgr.Server`).

Key definitions: `MethodCall`, `MethodReply`, `CommOutcome`, `vtabMethodCall`, `MethodCall.op`, `daemonErrors`.
Key theorems: `vtabMethodCall_daemon`, `packageRun_answer`, `packageRegisterPath_answer`, `vtabMethodCall_answer`.
-/
import Dbp.Base.LoopMount
import Dbp.Daemon.RegisterPath
import Dbp.Daemon.RunIdentity
import Dbp.Run.Client

namespace Dbp

open CLib Sweep Find Runs

/-! ### The call -/

inductive MethodCall
  | mount (pkgId user : CStr)
  | umount (mountRef : ℤ)
  | mountPointGet (pkgId : CStr)
  | registerPath (path : CStr)
  | unregisterPath (path : CStr)
  | idFromPath (path : CStr)
  | pathFromId (pkgId : CStr)
  | ping
  | packageList
deriving Repr, DecidableEq

/-- A row of the type `(ssss)`. -/
structure PackageRow where
  path : CStr
  id : CStr
  desktop : CStr
  version : CStr
deriving Repr, DecidableEq

/-- An answer of the type `(i)`, `(is)` or `(a(ssss))`. -/
inductive MethodReply
  | int (ret : ℤ)
  | intStr (ret : ℤ) (s : CStr)
  | rows (rows : List PackageRow)
deriving Repr, DecidableEq

/-- What a method call finds outside of the daemon. -/
structure CommOutcome where
  /-- What `dbp_loop_mount` returns if it is called. -/
  loopMount : ℤ
  now : ℤ
  env : Env
  /-- The mount point and the device that `util_lookup_mount` finds. -/
  medium : CStr × CStr

/-- What a lookup answers: a result, or that there is none. -/
def lookupReply : Option CStr → MethodReply
  | some s => .intStr 1 s
  | none => .intStr DBP_ERROR_NOTFOUND (lit "!")

/-- The row of an entry. -/
def PackageEntry.row (x : PackageEntry) : PackageRow := ⟨x.path, x.id, x.desktop, x.version⟩

/-- The row for no package. -/
def emptyRow : PackageRow := ⟨lit "/dev/null", lit "!", lit "nodesk", []⟩

/-- `PackageList`. -/
def packageRows (p : Package) : List PackageRow := if p.entry = [] then [emptyRow] else p.entry.map PackageEntry.row

variable (cfg : DBPConfig) (o : CommOutcome)

/-- `vtab_method_call`. -/
def vtabMethodCall (d : Daemon) : MethodCall → MethodReply × Daemon
  | .mount pkgId user =>
    let r := packageRun d o.loopMount pkgId user
    (.int r.1, r.2)
  | .umount mountRef =>
    let r := packageStop d o.now mountRef
    (.int r.1, r.2)
  | .mountPointGet pkgId => (lookupReply (packageMountGet d.p pkgId), d)
  | .registerPath path =>
    let r := packageRegisterPath cfg d o.env o.medium.2 path o.medium.1
    (.intStr r.1 r.2.1, r.2.2)
  | .unregisterPath path =>
    let r := packageReleasePath cfg d path
    (.int r.1, r.2)
  | .idFromPath path => (lookupReply (packageIdFromPath d.p path), d)
  | .pathFromId pkgId => (lookupReply (packagePathFromId d.p pkgId), d)
  | .ping => (.int 1, d)
  | .packageList => (.rows (packageRows d.p), d)

/-- The call on the package state. -/
def MethodCall.op : MethodCall → Option DaemonOp
  | .mount pkgId user => some (.run o.loopMount pkgId user)
  | .umount mountRef => some (.stop o.now mountRef)
  | .registerPath path => some (.registerPath o.env o.medium.2 path o.medium.1)
  | .unregisterPath path => some (.releasePath path)
  | .mountPointGet _ | .idFromPath _ | .pathFromId _ | .ping | .packageList => none

/-- **A method call is a step** of the daemon, or none. -/
theorem vtabMethodCall_daemon (d : Daemon) (c : MethodCall) : (vtabMethodCall cfg o d c).2 = d.run cfg (c.op o).toList := by
  cases c <;> rfl

/-! ### The answers -/

/-- The errors the daemon answers with. -/
def daemonErrors : List ℤ :=
  [DBP_ERROR_INTERNAL_MSG, DBP_ERROR_NO_LOOP, DBP_ERROR_SET_LOOP2, DBP_ERROR_NO_PKG_ACCESS, DBP_ERROR_BAD_PKG_ID,
    DBP_ERROR_BAD_FSIMG, DBP_ERROR_ILL_DIRNAME, DBP_ERROR_UNION_FAILED, DBP_ERROR_NO_DEFAULTD, DBP_ERROR_PKG_REG,
    DBP_ERROR_BAD_META, DBP_ERROR_NOTFOUND, DBP_ERROR_BADEXT, DBP_ERROR_MUTILATED]

/-- A result, or an error that the daemon answers with. -/
def Answer (ret : ℤ) : Prop := 0 ≤ ret ∨ ret ∈ daemonErrors

instance (ret : ℤ) : Decidable (Answer ret) := inferInstanceAs (Decidable (_ ∨ _))

theorem Answer.one : Answer 1 := .inl Int.one_nonneg

theorem answer_notFound : Answer DBP_ERROR_NOTFOUND := by decide

/-- The mount of a package has a loop device, nothing to free, or an error. -/
theorem dbpLoopMount_answer (cfg : LoopConfig) (m : MountOutcome) (k : LoopKernel) (image id user srcMount appdata : CStr) :
    Answer (dbpLoopMount cfg m k image id user srcMount appdata).1 := by
  unfold dbpLoopMount
  by_cases huser : 63 < user.length
  · rw [if_pos huser]
    dsimp only
    decide
  rw [if_neg huser]
  by_cases hn : loopAvailableGet m k < 0
  · simp only [if_pos hn]
    decide
  have hn' : Answer (loopAvailableGet m k) := .inl (by omega)
  generalize loopAvailableGet m k = n at hn hn' ⊢
  have hfail : ∀ (k : LoopKernel) {ret : ℤ}, Answer ret → Answer (mountFail m k n ret).1 := fun _ _ h => h
  have hsetup : Answer (loopSetup m k image n).1 := by
    unfold loopSetup
    split_ifs <;> dsimp only <;> decide
  simp only [if_neg hn]
  split_ifs with hs
  · exact hfail _ hsetup
  · unfold loopMountImg
    split_ifs
    · exact hfail _ (.inl le_rfl)
    · exact hfail _ (.inl le_rfl)
    · unfold loopMountUnion
      simp only
      split_ifs
      · exact hfail _ (.inl le_rfl)
      · exact hfail _ (.inl le_rfl)
      · exact hfail _ (by decide)
      · exact hfail _ (.inl le_rfl)
      · exact hfail _ (by decide)
      · exact hfail _ (by decide)
      · exact hn'
    · exact hfail _ (by decide)

theorem runCnt_revive (p : Package) (id : CStr) : (packagePurgatoryRevive p id).2.runCnt = p.runCnt := by
  have hc := packagePurgatoryRevive_cases p id
  generalize packagePurgatoryRevive p id = r at hc ⊢
  cases hc <;> rfl

/-- An instance has a run id. -/
theorem CounterOk.mounted_nonneg {d : Daemon} (h : CounterOk d) {p : Package} (hp : p.runCnt = d.p.runCnt) (id : CStr)
    (loop : ℤ) : 0 ≤ (packageRunMounted p id loop).1 := by
  rw [packageRunMounted_eq (hp ▸ h.cnt_nonneg) (hp ▸ h.cnt_lt)]
  exact hp ▸ h.cnt_nonneg

theorem packageRun_answer {d : Daemon} (h : CounterOk d) {ret : ℤ} (hret : Answer ret) (id user : CStr) :
    Answer (packageRun d ret id user).1 := by
  have hmounted : ∀ {p : Package} (loop : ℤ), p.runCnt = d.p.runCnt → Answer (packageRunMounted p id loop).1 :=
    fun loop hp => .inl (h.mounted_nonneg hp id loop)
  have hrev := runCnt_revive d.p id
  have hbad : Answer DBP_ERROR_BAD_PKG_ID := by decide
  have hmutilated : Answer DBP_ERROR_MUTILATED := by decide
  have hfresh : Answer (packageRunMount { d with p := (packagePurgatoryRevive d.p id).2 } ret id user).1 := by
    unfold packageRunMount
    split
    · exact hbad
    · dsimp only
      split_ifs
      · exact hret
      · dsimp only
        exact hmounted ret hrev
  unfold packageRun
  split <;> dsimp only
  · next i _ => exact hmounted i.loop (Eq.refl d.p.runCnt)
  · split_ifs
    · exact hmutilated
    · dsimp only
      exact hmounted _ hrev
    · exact hfresh

theorem packageAddCheck_answer {id : CStr} : ∀ {es : List PackageEntry} {errid : ℤ},
    packageAddCheck id es = some errid → errid ∈ daemonErrors
  | [], _, h => by simp [packageAddCheck] at h
  | e :: es, errid, h => by
    unfold packageAddCheck at h
    split_ifs at h
    · cases h
      decide
    · cases h
      decide
    · exact packageAddCheck_answer h

theorem packageRegister_answer (cfg : DBPConfig) (d : Daemon) (e : Env) (path device mount : CStr) :
    Answer (packageRegister cfg d e path device mount).1 := by
  have hc := packageRegister_cases cfg d e path device mount
  generalize packageRegister cfg d e path device mount = r at hc ⊢
  cases hc with
  | unreadable errid ho =>
    unfold dbpMetaPackageOpen at ho
    split at ho
    · obtain rfl := Sum.inl.inj ho
      dsimp only
      split_ifs <;> decide
    · split at ho
      · obtain rfl := Sum.inl.inj ho
        dsimp only
        decide
      · cases ho
  | noId df ho hid =>
    dsimp only
    decide
  | rejected df id errid coll ho hid hadd => exact .inr (packageAddCheck_answer hadd)
  | added df id ho hid hadd => exact .inl (Int.natCast_nonneg _)

theorem packageRegisterPath_answer (cfg : DBPConfig) (d : Daemon) (e : Env) (device path mount : CStr) :
    Answer (packageRegisterPath cfg d e device path mount).1 := by
  unfold packageRegisterPath
  split_ifs
  · dsimp only
    decide
  · dsimp only
    split_ifs <;> exact packageRegister_answer cfg d e path device mount

theorem packageStop_ret (d : Daemon) (now runId : ℤ) : (packageStop d now runId).1 = 1 := by
  unfold packageStop
  split
  · rfl
  · split <;> rfl

/-- The result an answer begins with. -/
def MethodReply.ret : MethodReply → ℤ
  | .int ret => ret
  | .intStr ret _ => ret
  | .rows _ => 1

theorem lookupReply_answer (r : Option CStr) : Answer (lookupReply r).ret := by
  cases r with
  | none => exact answer_notFound
  | some s => exact .one

/-- **The daemon answers** with a result or one of its errors. -/
theorem vtabMethodCall_answer {d : Daemon} (h : CounterOk d) (ho : Answer o.loopMount) (c : MethodCall) :
    Answer (vtabMethodCall cfg o d c).1.ret := by
  cases c with
  | mount pkgId user => exact packageRun_answer h ho pkgId user
  | umount mountRef =>
    show Answer (packageStop d o.now mountRef).1
    rw [packageStop_ret]
    exact .one
  | mountPointGet pkgId => exact lookupReply_answer _
  | registerPath path => exact packageRegisterPath_answer cfg d o.env o.medium.2 path o.medium.1
  | unregisterPath path =>
    show Answer (packageReleasePath cfg d path).1
    unfold packageReleasePath
    split
    · exact answer_notFound
    · exact .one
  | idFromPath path => exact lookupReply_answer _
  | pathFromId pkgId => exact lookupReply_answer _
  | ping => exact .one
  | packageList => exact .one

/-! ### A call that fails -/

/-- A mount that fails leaves the packages as they are; it may have been tried. -/
theorem packageRunMount_failed {d : Daemon} (h : CounterOk d) (ret : ℤ) (id user : CStr)
    (hneg : (packageRunMount d ret id user).1 < 0) :
    ∃ evs, (packageRunMount d ret id user).2 = { d with loops := d.loops ++ evs } := by
  unfold packageRunMount at hneg ⊢
  split at hneg
  · exact ⟨[], by simp⟩
  · next e he =>
    dsimp only at hneg ⊢
    split_ifs at hneg ⊢
    · exact ⟨_, rfl⟩
    · dsimp only at hneg
      have hpos := h.mounted_nonneg rfl id ret
      omega

/-- A run that fails, too. -/
theorem packageRun_failed {d : Daemon} (h : CounterOk d) (ret : ℤ) (id user : CStr)
    (hneg : (packageRun d ret id user).1 < 0) :
    ∃ evs, (packageRun d ret id user).2 = { d with loops := d.loops ++ evs } := by
  cases placeCase d.p id with
  | running i hi hid hfind =>
    rw [packageRun_shared ret user hfind] at hneg
    have hpos := h.mounted_nonneg rfl id i.loop
    dsimp only at hneg
    omega
  | away hinst hpurg hfind =>
    rw [packageRun_unmounted ret user hinst hpurg] at hneg ⊢
    exact packageRunMount_failed h ret id user hneg
  | parked pre post q hinst hq hid hpre hfind =>
    have hloop := h.loops.purgatory q (by rw [hq]; simp)
    rw [packageRun_parked ret user hinst hq hid hpre hloop] at hneg ⊢
    split_ifs at hneg ⊢
    · exact ⟨[], by simp⟩
    · dsimp only at hneg
      refine absurd hneg (not_lt.mpr (h.mounted_nonneg ?_ id q.loopNumber))
      exact Eq.refl d.p.runCnt

/-- A method call that fails leaves the daemon as it is; it may have tried to mount a package. -/
theorem vtabMethodCall_failed {d : Daemon} (h : CounterOk d) (c : MethodCall)
    (hneg : (vtabMethodCall cfg o d c).1.ret < 0) :
    ∃ evs, (vtabMethodCall cfg o d c).2 = { d with loops := d.loops ++ evs } := by
  have hsame : ∃ evs, d = { d with loops := d.loops ++ evs } := ⟨[], by simp⟩
  cases c with
  | mount pkgId user => exact packageRun_failed h o.loopMount pkgId user hneg
  | umount mountRef =>
    have hret : (packageStop d o.now mountRef).1 < 0 := hneg
    rw [packageStop_ret] at hret
    omega
  | registerPath path =>
    have hc := registerPath_cases cfg d o.env o.medium.2 path o.medium.1
    simp only [vtabMethodCall, MethodReply.ret] at hneg ⊢
    generalize packageRegisterPath cfg d o.env o.medium.2 path o.medium.1 = r at hc hneg ⊢
    cases hc with
    | refused err id herr => exact hsame
    | added ret id d' e hret hpath hid he => exact absurd hneg (by dsimp only; omega)
  | unregisterPath path =>
    simp only [vtabMethodCall, MethodReply.ret] at hneg ⊢
    unfold packageReleasePath at hneg ⊢
    split at hneg
    · exact hsame
    · dsimp only at hneg
      omega
  | mountPointGet pkgId => exact hsame
  | idFromPath path => exact hsame
  | pathFromId pkgId => exact hsame
  | ping => exact hsame
  | packageList => exact hsame

end Dbp
