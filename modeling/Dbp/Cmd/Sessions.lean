/-
# Scripts that mount packages

`dbp-cmd mount` prints a number, and `dbp-cmd umount` ends the mount of the
number it is given. A script keeps what the first prints, for the second. Any
number of scripts do so at once, in any order, among other commands, right or
wrong, that may not reach the daemon or whose answers are lost; and the daemon
is asked by other programs, too. As long as each script spends only its own
tokens, each once, and fewer than 2^31 packages were run, which keeps
`run_cnt` from starting again, every token is the number of one live mount,
of the package it was printed for; no two tokens are equal, and to spend a
token ends its mount and no other (`sessions_apart`).

Key definitions: `Shell`, `ShellStep`, `shellStep`, `ShellStep.runs`, `Proper`, `Shell.desk`.
Key theorems: `dbpCmd_daemon`, `dbpCmd_mount`, `desk_step`, `runIds_shellStep`, `sessions_apart`.
-/
import Dbp.C.Decimal
import Dbp.Cmd.Command
import Dbp.Lib.Tokens

namespace Dbp

open CLib Sweep Find Runs Tokens

/-! ### The shell -/

/-- What the shell substitutes for a command: what it prints, without line ends at the end. -/
def substitution (out : CStr) : CStr := out.rdropWhile (· = '\n')

/-- The daemon, and the tokens of the sessions, each with the package it was printed for. -/
structure Shell (S : Type) where
  daemon : Daemon
  tokens : List (S × CStr × CStr)

/-- A session runs `dbp-cmd`, or something else happens to the daemon. -/
inductive ShellStep (S : Type)
  | command (s : S) (c : CmdEnv) (argv : List CStr)
  | other (op : DaemonOp)

section Shell

variable {S : Type} [DecidableEq S] (cfg : DBPConfig)

/-- The token of that text of a session. -/
def isToken (s : S) (token : CStr) (t : S × CStr × CStr) : Bool := decide (t.1 = s ∧ t.2.1 = token)

/-- The tokens after a command: a mount prints one, and a umount spends one. -/
def tokensAfter (s : S) (argv : List CStr) (r : ProgramRun) (tokens : List (S × CStr × CStr)) : List (S × CStr × CStr) :=
  match argv[1]?, argv[2]? with
  | some cmd, some arg =>
    if cmd = lit "mount" then if r.exit = 0 then tokens ++ [(s, substitution r.stdout, arg)] else tokens
    else if cmd = lit "umount" then tokens.eraseP (isToken s arg)
    else tokens
  | _, _ => tokens

def shellStep (st : Shell S) : ShellStep S → Shell S
  | .command s c argv =>
    let r := dbpCmd cfg c st.daemon argv
    ⟨r.daemon, tokensAfter s argv r.toProgramRun st.tokens⟩
  | .other op => ⟨st.daemon.step cfg op, st.tokens⟩

/-- The step is a call of `package_run`, if it gets as far as the daemon. -/
def ShellStep.runs : ShellStep S → Bool
  | .command _ c argv => ((cmdMethod c argv).bind (MethodCall.op c.call.outcome)).any DaemonOp.isRun
  | .other op => op.isRun

/-- A session spends a token it has, and nobody else ends mounts. -/
def Proper (st : Shell S) : ShellStep S → Prop
  | .command s _ argv =>
    ∀ token, argv[1]? = some (lit "umount") → argv[2]? = some token → ∃ id, (s, token, id) ∈ st.tokens
  | .other op => ∀ now runId, op ≠ .stop now runId

/-- The mounts, by number. -/
def Daemon.mounts (d : Daemon) : List (ℤ × CStr) := d.p.instance_.map fun i => ((i.runId : ℤ), i.packageId)

/-- The mounts and the tokens. -/
def Shell.desk (st : Shell S) : Desk S ℤ CStr where
  live := st.daemon.mounts
  held := st.tokens.map fun t => (t.1, atoi t.2.1, t.2.2)

end Shell

/-! ### What a command does -/

section Command

variable (cfg : DBPConfig) (c : CmdEnv) (d : Daemon)

/-- A command that does anything to the daemon does what its method call does. -/
theorem dbpCmd_daemon (argv : List CStr) : (dbpCmd cfg c d argv).daemon = d ∨
    ∃ mc, cmdMethod c argv = some mc ∧ (dbpCmd cfg c d argv).daemon = (vtabMethodCall cfg c.call.outcome d mc).2 := by
  have hserved : ∀ mc, (serverCall cfg c.call d mc).daemon = d ∨
      (serverCall cfg c.call d mc).daemon = (vtabMethodCall cfg c.call.outcome d mc).2 := by
    intro mc
    rw [serverCall_daemon]
    split_ifs
    · exact .inl rfl
    · exact .inr rfl
  have hc := dbpCmd_case cfg c d argv
  generalize dbpCmd cfg c d argv = r at hc ⊢
  cases hc with
  | idle r hexit hreason hnot => exact .inl rfl
  | command r before hcon hr =>
    cases hr with
    | idle r hm hexit hsaid => exact .inl rfl
    | failed mc tail hm hret htail => exact (hserved mc).imp_right fun h => ⟨mc, hm, h⟩
    | done mc out err d' hm hret hout hd =>
      dsimp only
      rw [hd]
      exact (hserved mc).imp_right fun h => ⟨mc, hm, h⟩

theorem cmdMethod_umount {argv : List CStr} {r : ℤ} (h : cmdMethod c argv = some (.umount r)) :
    argv[1]? = some (lit "umount") ∧ argv[2]?.isSome := by
  obtain ⟨cmd, hcmd, hm⟩ := Option.bind_eq_some_iff.mp h
  unfold commandMethod at hm
  cases harg : argv[2]? with
  | none =>
    rw [harg] at hm
    split_ifs at hm <;> simp at hm
  | some arg =>
    rw [harg] at hm
    split_ifs at hm with h1 h2 h3
    · cases hm
    · cases hu : c.user <;> simp [hu] at hm
    · exact ⟨by rw [hcmd, h3], rfl⟩
    all_goals simp at hm

/-- A mount command that succeeds prints the run id, and its package was run. -/
theorem dbpCmd_mount {argv : List CStr} {id : CStr} (hcmd : argv[1]? = some (lit "mount")) (hid : argv[2]? = some id)
    (hexit : (dbpCmd cfg c d argv).exit = 0) :
    ∃ user, cmdMethod c argv = some (.mount id user) ∧
      (dbpCmd cfg c d argv).stdout = formatInt (packageRun d c.call.outcome.loopMount id user).1 ++ lit "\n" ∧
      (dbpCmd cfg c d argv).daemon = (packageRun d c.call.outcome.loopMount id user).2 ∧
      0 ≤ (packageRun d c.call.outcome.loopMount id user).1 := by
  have hmethod : cmdMethod c argv = c.user.map (.mount id) := by
    rw [cmdMethod, hcmd, hid]
    rfl
  have hc := dbpCmd_case cfg c d argv
  generalize dbpCmd cfg c d argv = r at hc hexit ⊢
  cases hc with
  | idle r hexit' hreason hnot => exact absurd hexit hexit'
  | command r before hcon hr =>
    cases hr with
    | idle r hm hexit' hsaid => exact absurd (hexit'.symm.trans hexit) (by decide)
    | failed mc tail hm hret htail => exact absurd hexit (by dsimp only; decide)
    | done mc out err d' hm hret hout hd =>
      obtain ⟨user, -, rfl⟩ := Option.map_eq_some_iff.mp (hmethod.symm.trans hm)
      have hpos : 0 ≤ (serverCall cfg c.call d (.mount id user)).ret := hret.resolve_right (by simp)
      have hreply : c.call.reply = .answered := by
        by_contra hr
        rw [(serverCall_noReply cfg c.call d hr _).1] at hpos
        exact absurd hpos (by decide)
      rw [serverCall_answered cfg c.call d hreply] at hpos hout hd
      exact ⟨user, hm, hout id user rfl, hd, hpos⟩

end Command

/-! ### The mounts under a call -/

section Mounts

variable {d : Daemon} (h : CounterOk d)
include h

/-- A run adds a mount of a number no other has, or none. -/
theorem mounts_run {n : ℕ} (hr : RunIds d n) (ret : ℤ) (id user : CStr) :
    ((packageRun d ret id user).1 ∉ d.mounts.map Prod.fst ∧ (packageRun d ret id user).1 < 2 ^ 31 ∧
        (packageRun d ret id user).2.mounts = d.mounts ++ [((packageRun d ret id user).1, id)]) ∨
      ((packageRun d ret id user).1 < 0 ∧ (packageRun d ret id user).2.mounts = d.mounts) := by
  have hc := packageRun_launch h ret id user
  generalize packageRun d ret id user = r at hc ⊢
  cases hc with
  | launched loop d' hl hinst hcnt =>
    refine .inl ⟨fun hm => ?_, h.cnt_lt, ?_⟩
    · obtain ⟨x, hx, he⟩ := List.mem_map.mp hm
      obtain ⟨i, hi, rfl⟩ := List.mem_map.mp hx
      exact (hr.lt_cnt i hi).ne he
    · rw [Daemon.mounts, Daemon.mounts, hinst, List.map_append, List.map_singleton, Int.toNat_of_nonneg h.cnt_nonneg]
  | refused err d' hl herr hinst hcnt =>
    refine .inr ⟨herr, ?_⟩
    rw [Daemon.mounts, hinst]
    rfl

/-- A stop takes away one mount of its number, if there is one. -/
theorem mounts_stop (now runId : ℤ) : (packageStop d now runId).2.mounts = d.mounts ∨
    ∃ l₁ x l₂, d.mounts = l₁ ++ x :: l₂ ∧ x.1 = runId ∧ (packageStop d now runId).2.mounts = l₁ ++ l₂ := by
  rcases packageStop_instances h now runId with ⟨-, he⟩ | ⟨pre, i, post, hi, hrun, he⟩
  · refine .inl ?_
    rw [Daemon.mounts, he]
    rfl
  · refine .inr ⟨pre.map fun i => ((i.runId : ℤ), i.packageId), ((i.runId : ℤ), i.packageId),
      post.map fun i => ((i.runId : ℤ), i.packageId), ?_, hrun, ?_⟩
    · rw [Daemon.mounts, hi, List.map_append, List.map_cons]
    · rw [Daemon.mounts, he, List.map_append]

end Mounts

/-- No other call changes the mounts. -/
theorem mounts_same (cfg : DBPConfig) (d : Daemon) {op : DaemonOp} (hrun : ∀ ret id user, op ≠ .run ret id user)
    (hstop : ∀ now runId, op ≠ .stop now runId) : (d.step cfg op).mounts = d.mounts := by
  cases op with
  | run ret id user => exact absurd rfl (hrun ret id user)
  | stop now runId => exact absurd rfl (hstop now runId)
  | purgatoryCheck out => rfl
  | _ =>
    rw [Daemon.mounts, (sameMounts_step cfg d (by simp) (by simp) (by simp)).instance_]
    rfl

/-- The mounts after a method call that neither mounts nor unmounts. -/
theorem mounts_method (cfg : DBPConfig) (o : CommOutcome) (d : Daemon) {mc : MethodCall}
    (hm : ∀ id user, mc ≠ .mount id user) (hu : ∀ r, mc ≠ .umount r) : (vtabMethodCall cfg o d mc).2.mounts = d.mounts := by
  rw [vtabMethodCall_daemon]
  cases mc with
  | mount id user => exact absurd rfl (hm id user)
  | umount r => exact absurd rfl (hu r)
  | registerPath path => exact @mounts_same cfg d (.registerPath o.env o.medium.2 path o.medium.1) (by simp) (by simp)
  | unregisterPath path => exact @mounts_same cfg d (.releasePath path) (by simp) (by simp)
  | mountPointGet id => rfl
  | idFromPath path => rfl
  | pathFromId id => rfl
  | ping => rfl
  | packageList => rfl

/-! ### A step of the shell -/

/-- A token is the number it was printed from. -/
theorem atoi_substitution {n : ℤ} (h0 : 0 ≤ n) (h1 : n < 2 ^ 31) :
    atoi (substitution (formatInt n ++ lit "\n")) = n := by
  have hdigits : formatInt n = Nat.toDigits 10 n.natAbs := if_neg (by omega)
  have hsub : substitution (formatInt n ++ lit "\n") = formatInt n := by
    show List.rdropWhile _ (formatInt n ++ ['\n']) = formatInt n
    rw [List.rdropWhile_concat_pos _ _ _ (by decide), List.rdropWhile_eq_self_iff]
    intro hne hlast
    have hdigit : isdigit ((formatInt n).getLast hne) = true := by
      apply isdigit_toDigits
      rw [← hdigits]
      exact List.getLast_mem hne
    rw [of_decide_eq_true hlast] at hdigit
    exact absurd hdigit (by decide)
  rw [hsub]
  exact atoi_formatInt (by omega) h1

section Step

variable {S : Type} {st : Shell S}

/-- Nothing changes for the tokens. -/
theorem Shell.step_of_mounts {d' : Daemon} (hm : d'.mounts = st.daemon.mounts) :
    st.desk.Step (Shell.desk ⟨d', st.tokens⟩) := by
  have he : Shell.desk ⟨d', st.tokens⟩ = st.desk := by
    rw [Shell.desk, Shell.desk, hm]
  rw [he]
  exact .stay

/-- A run whose number no session gets to know. -/
theorem Shell.step_run (h : CounterOk st.daemon) {n : ℕ} (hr : RunIds st.daemon n) (ret : ℤ) (id user : CStr) :
    st.desk.Step (Shell.desk ⟨(packageRun st.daemon ret id user).2, st.tokens⟩) := by
  rcases mounts_run h hr ret id user with ⟨hn, -, hm⟩ | ⟨-, hm⟩
  · have he : Shell.desk ⟨(packageRun st.daemon ret id user).2, st.tokens⟩ =
        ⟨st.desk.live ++ [((packageRun st.daemon ret id user).1, id)], st.desk.held⟩ := by
      rw [Shell.desk, hm]
      rfl
    rw [he]
    exact .leak _ _ hn
  · exact Shell.step_of_mounts hm

/-- A run whose number a session gets as a token. -/
theorem Shell.step_mount (h : CounterOk st.daemon) {n : ℕ} (hr : RunIds st.daemon n) (s : S) {ret : ℤ} {id user : CStr}
    (hpos : 0 ≤ (packageRun st.daemon ret id user).1) :
    st.desk.Step (Shell.desk ⟨(packageRun st.daemon ret id user).2, st.tokens ++
      [(s, substitution (formatInt (packageRun st.daemon ret id user).1 ++ lit "\n"), id)]⟩) := by
  rcases mounts_run h hr ret id user with ⟨hn, hlt, hm⟩ | ⟨hneg, -⟩
  · have he : Shell.desk ⟨(packageRun st.daemon ret id user).2, st.tokens ++
        [(s, substitution (formatInt (packageRun st.daemon ret id user).1 ++ lit "\n"), id)]⟩ =
        ⟨st.desk.live ++ [((packageRun st.daemon ret id user).1, id)],
          st.desk.held ++ [(s, (packageRun st.daemon ret id user).1, id)]⟩ := by
      rw [Shell.desk, hm, List.map_append, List.map_singleton, atoi_substitution hpos hlt]
      rfl
    rw [he]
    exact .issue _ _ _ hn
  · omega

/-- A command that is no umount, and whose output nobody takes for a token. -/
theorem Shell.step_other (cfg : DBPConfig) (h : CounterOk st.daemon) {n : ℕ} (hr : RunIds st.daemon n) {c : CmdEnv}
    {argv : List CStr} (hu : ∀ r, cmdMethod c argv ≠ some (.umount r)) :
    st.desk.Step (Shell.desk ⟨(dbpCmd cfg c st.daemon argv).daemon, st.tokens⟩) := by
  rcases dbpCmd_daemon cfg c st.daemon argv with hd | ⟨mc, hmc, hd⟩
  · rw [hd]
    exact .stay
  · rw [hd]
    by_cases hm : ∃ id user, mc = .mount id user
    · obtain ⟨id, user, rfl⟩ := hm
      exact Shell.step_run h hr c.call.outcome.loopMount id user
    · refine Shell.step_of_mounts (mounts_method cfg c.call.outcome st.daemon (fun id user he => hm ⟨id, user, he⟩) ?_)
      rintro r rfl
      exact hu r hmc

variable [DecidableEq S]

/-- A token is spent, on a mount or in vain. -/
theorem Shell.step_umount (h : CounterOk st.daemon) {d' : Daemon} {s : S} {token id : CStr}
    (ht : (s, token, id) ∈ st.tokens)
    (hd : d'.mounts = st.daemon.mounts ∨ ∃ now, d' = (packageStop st.daemon now (atoi token)).2) :
    st.desk.Step (Shell.desk ⟨d', st.tokens.eraseP (isToken s token)⟩) := by
  obtain ⟨t, pre, post, -, hp, htokens, herase⟩ := @List.exists_of_eraseP _ (isToken s token) _ _ ht (by simp [isToken])
  obtain ⟨-, htoken⟩ := of_decide_eq_true hp
  have hheld : st.desk.held = pre.map (fun t => (t.1, atoi t.2.1, t.2.2)) ++
      (t.1, atoi t.2.1, t.2.2) :: post.map fun t => (t.1, atoi t.2.1, t.2.2) := by
    rw [Shell.desk, htokens, List.map_append, List.map_cons]
  have hdesk : Shell.desk ⟨d', st.tokens.eraseP (isToken s token)⟩ =
      ⟨d'.mounts, pre.map (fun t => (t.1, atoi t.2.1, t.2.2)) ++ post.map fun t => (t.1, atoi t.2.1, t.2.2)⟩ := by
    rw [Shell.desk, herase, List.map_append]
  rw [hdesk]
  rcases hd with hd | ⟨now, rfl⟩
  · rw [hd]
    exact .drop _ _ _ hheld
  · rcases mounts_stop h now (atoi token) with hm | ⟨l₁, x, l₂, hl, hx, hm⟩
    · rw [hm]
      exact .drop _ _ _ hheld
    · rw [hm]
      exact .redeem _ _ _ l₁ l₂ x hheld hl (by rw [hx, htoken])

/-- **A step of the shell is one at the desk.** -/
theorem desk_step (cfg : DBPConfig) (h : CounterOk st.daemon) {n : ℕ} (hr : RunIds st.daemon n) (step : ShellStep S)
    (hp : Proper st step) : st.desk.Step (shellStep cfg st step).desk := by
  cases step with
  | other op =>
    by_cases hrun : ∃ ret id user, op = .run ret id user
    · obtain ⟨ret, id, user, rfl⟩ := hrun
      exact Shell.step_run h hr ret id user
    · exact Shell.step_of_mounts (mounts_same cfg st.daemon (fun ret id user he => hrun ⟨ret, id, user, he⟩) hp)
  | command s c argv =>
    have hd := dbpCmd_daemon cfg c st.daemon argv
    have hmethod : cmdMethod c argv = argv[1]?.bind fun cmd => commandMethod c.user cmd argv[2]? := rfl
    rw [shellStep, tokensAfter]
    rcases h1 : argv[1]? with _ | cmd
    · -- nothing is called
      rw [hmethod, h1] at hd
      rcases hd with hd | ⟨mc, hmc, -⟩
      · rw [hd]
        exact .stay
      · cases hmc
    rw [h1, Option.bind_some] at hmethod
    rcases h2 : argv[2]? with _ | arg <;> dsimp only
    · refine Shell.step_other cfg h hr fun r hr => ?_
      have harg := (cmdMethod_umount c hr).2
      rw [h2] at harg
      cases harg
    rw [h2] at hmethod
    have hcmd : ∀ r, cmdMethod c argv = some (.umount r) → cmd = lit "umount" := by
      intro r hr
      have hu := (cmdMethod_umount c hr).1
      rw [h1] at hu
      exact Option.some.inj hu
    split_ifs with hmount hexit humount
    · subst hmount
      obtain ⟨user, -, hout, hd', hpos⟩ := dbpCmd_mount cfg c st.daemon h1 h2 hexit
      rw [hout, hd']
      exact Shell.step_mount h hr s hpos
    · refine Shell.step_other cfg h hr fun r hr => ?_
      exact absurd (hmount.symm.trans (hcmd r hr)) (by decide)
    · subst humount
      obtain ⟨id, ht⟩ := hp arg h1 h2
      refine Shell.step_umount h ht ?_
      rcases hd with hd | ⟨mc, hmc, hd⟩
      · exact .inl (congrArg Daemon.mounts hd)
      · obtain rfl : .umount (atoi arg) = mc := Option.some.inj (hmethod.symm.trans hmc)
        exact .inr ⟨c.call.outcome.now, hd⟩
    · exact Shell.step_other cfg h hr fun r hr => humount (hcmd r hr)

omit [DecidableEq S] in
/-- An answered umount command of a token that is held succeeds, and ends the mount of the token. -/
theorem Shell.umount_own (cfg : DBPConfig) (h : CounterOk st.daemon) (hi : st.desk.Inv) {t : S × CStr × CStr}
    (ht : t ∈ st.tokens) : ∃ l₁ i l₂, st.daemon.p.instance_ = l₁ ++ i :: l₂ ∧ (i.runId : ℤ) = atoi t.2.1 ∧
      i.packageId = t.2.2 ∧ ∀ (c : CmdEnv) (name : CStr) (rest : List CStr), Connected c → c.call.reply = .answered →
        (dbpCmd cfg c st.daemon (name :: lit "umount" :: t.2.1 :: rest)).exit = 0 ∧
          (dbpCmd cfg c st.daemon (name :: lit "umount" :: t.2.1 :: rest)).daemon.p.instance_ = l₁ ++ l₂ := by
  have hback : (atoi t.2.1, t.2.2) ∈ st.daemon.mounts := hi.backed _ (List.mem_map_of_mem ht)
  obtain ⟨i, hmem, hnum⟩ := List.mem_map.mp hback
  obtain ⟨l₁, l₂, hl⟩ := List.append_of_mem hmem
  have hrun : (i.runId : ℤ) = atoi t.2.1 := congrArg Prod.fst hnum
  have hnd : st.daemon.runIds.Nodup := by
    have hlive := hi.live
    rw [Shell.desk, Daemon.mounts, List.map_map] at hlive
    refine List.Nodup.of_map (fun n : ℕ => (n : ℤ)) ?_
    rwa [List.map_map]
  refine ⟨l₁, i, l₂, hl, hrun, congrArg Prod.snd hnum, fun c name rest hcon hreply => ?_⟩
  have hstop := packageStop_live h hnd hl c.call.outcome.now
  rw [hrun] at hstop
  have hcase := dbpCmd_case cfg c st.daemon (name :: lit "umount" :: t.2.1 :: rest)
  generalize dbpCmd cfg c st.daemon (name :: lit "umount" :: t.2.1 :: rest) = r at hcase ⊢
  cases hcase with
  | idle r hexit hreason hnot => exact absurd hcon (hnot.resolve_left (by simp))
  | command r before hcon hr =>
    have hmethod : cmdMethod c (name :: lit "umount" :: t.2.1 :: rest) = some (.umount (atoi t.2.1)) := rfl
    rw [hmethod] at hr
    cases hr with
    | idle r hm hexit hsaid => cases hm
    | failed mc tail hm hret htail =>
      obtain rfl := Option.some.inj hm
      rw [serverCall_answered cfg c.call _ hreply] at hret
      have hone : (packageStop st.daemon c.call.outcome.now (atoi t.2.1)).1 < 0 := hret
      rw [packageStop_ret] at hone
      omega
    | done mc out err d' hm hret hout hd =>
      obtain rfl := Option.some.inj hm
      rw [serverCall_answered cfg c.call _ hreply] at hd
      refine ⟨rfl, ?_⟩
      rw [hd]
      exact hstop

end Step

theorem counterOk_shellStep {S : Type} [DecidableEq S] (cfg : DBPConfig) {st : Shell S} (h : CounterOk st.daemon)
    (step : ShellStep S) : CounterOk (shellStep cfg st step).daemon := by
  cases step with
  | other op => exact h.step cfg op
  | command s c argv =>
    show CounterOk (dbpCmd cfg c st.daemon argv).daemon
    rcases dbpCmd_daemon cfg c st.daemon argv with hd | ⟨mc, -, hd⟩ <;> rw [hd]
    · exact h
    · rw [vtabMethodCall_daemon]
      exact counterOk_run cfg h _

/-- The number of the steps that run packages bounds the counter. -/
theorem runIds_shellStep {S : Type} [DecidableEq S] (cfg : DBPConfig) {st : Shell S} (h : CounterOk st.daemon) {n : ℕ}
    (hr : RunIds st.daemon n) (step : ShellStep S) (hn : (if step.runs then n + 1 else n) < 2 ^ 31) :
    RunIds (shellStep cfg st step).daemon (if step.runs then n + 1 else n) := by
  cases step with
  | other op => exact runIds_step cfg h.loops hr op hn
  | command s c argv =>
    show RunIds (dbpCmd cfg c st.daemon argv).daemon _
    rcases dbpCmd_daemon cfg c st.daemon argv with hd | ⟨mc, hmc, hd⟩ <;> rw [hd]
    · split_ifs
      · exact hr.mono
      · exact hr
    · have hruns : (ShellStep.command s c argv).runs = (mc.op c.call.outcome).any DaemonOp.isRun := by
        rw [ShellStep.runs, hmc]
        rfl
      rw [vtabMethodCall_daemon]
      rw [hruns] at hn ⊢
      cases hop : mc.op c.call.outcome with
      | none => exact hr
      | some op =>
        rw [hop] at hn
        exact runIds_step cfg h.loops hr op hn

/-- A command whose calls are answered, and that is given a loop device. -/
def demoMountEnv : CmdEnv :=
  { demoCmdEnv with call := { demoServerEnv with outcome := { demoServerEnv.outcome with loopMount := 3 } } }

/-- Two sessions mount a package, and the first one unmounts it. -/
def sessionSteps : List (ShellStep Bool) :=
  [.other (.registerPath (demoEnv [(lit "/m/a.dbp", [demoMeta (lit "a")])]) (lit "/dev/sda1") (lit "/m/a.dbp") (lit "/m")),
    .command true demoMountEnv [lit "dbp-cmd", lit "mount", lit "a"],
    .command false demoMountEnv [lit "dbp-cmd", lit "mount", lit "a"],
    .command true demoCmdEnv [lit "dbp-cmd", lit "umount", lit "0"]]

end Dbp
