/-
# Where a package's data is

`dbp-run` makes the directory for a package's writable data before it asks
the daemon to mount the package, and the daemon mounts that package with a
directory for its writable data that it works out on its own. The launcher
puts the user's name into the directory and takes the meta data's `Appdata`
as it is; the daemon is given the empty user name, and falls back on the
package's id where `Appdata` is not a valid one. So the two directories are
one exactly when the user's name adds nothing and a refused `Appdata` leads
to where the id does (`appdata_directory`).

Key definitions: `MountPoint`, `resolveAppdata`, `appdataCreate`, `launch`, `unionBranch`, `PackageUnion`,
`AppdataAgrees`.
Key theorems: `mem_dbpLoopMount`, `launch_spec`, `sameDirectory_iff`, `appdata_directory`.
-/
import Dbp.C.Path
import Dbp.Base.LoopMount
import Dbp.Daemon.Registry

namespace Dbp

open CLib Find

/-- A mount point, as the kernel's mount table has it: an absolute file name. -/
structure MountPoint where
  path : CStr
  absolute : path.head? = some '/'

/-! ### The launcher -/

/-- `resolve_appdata`. -/
def resolveAppdata (pkgId : CStr) (df : DesktopFile) : CStr := (metaLookup df (lit "Appdata")).getD pkgId

/-- The directories `appdata_create` makes. -/
structure AppdataDirs where
  appdata : CStr
  rodata : CStr
deriving Repr, DecidableEq

/-- The directories of a package on `mountpoint`, for the user `userName`. -/
def appdataDirs (cfg : LoopConfig) (mountpoint userName appdataName : CStr) : AppdataDirs :=
  let dir := fun data : CStr =>
    let data := if cfg.perUserAppdata then data ++ lit "_" ++ userName else data
    if cfg.perPackageAppdata then buildFilename [mountpoint, data, appdataName] else buildFilename [mountpoint, data]
  ⟨dir cfg.dataDirectory, dir cfg.rodataDirectory⟩

/-- What stops a launch before the mount: an error of the daemon, or a directory that could not be made. -/
inductive LaunchError
  | server (err : ℤ)
  | appdata (dir : CStr)
deriving Repr, DecidableEq

/-- `package_mount_get`. -/
def packageMountGet (p : Package) (pkgId : CStr) : Option CStr :=
  ((packageFind p pkgId).bind (p.entry[·]?)).map (·.mount)

/-- `appdata_create`, where `isDir` tells what is a directory once it was to be made. The directory for the
read-only data is made as well if `create_rodata` says so, and never checked. -/
def appdataCreate (cfg : LoopConfig) (isDir : CStr → Bool) (p : Package) (pkgId userName appdataName : CStr) :
    Except LaunchError AppdataDirs :=
  match packageMountGet p pkgId with
  | none => .error (.server DBP_ERROR_NOTFOUND)
  | some mountpoint =>
    let dirs := appdataDirs cfg mountpoint userName appdataName
    if isDir dirs.appdata then .ok dirs else .error (.appdata dirs.appdata)

/-- The user name `Run.run` passes to `Mount`. -/
def mountUser : CStr := []

/-- `Run.run` from the meta data to the mount: the directories, and what the daemon does. -/
def launch (cfg : LoopConfig) (isDir : CStr → Bool) (d : Daemon) (ret : ℤ) (df : DesktopFile) (pkgId userName : CStr) :
    Except LaunchError (AppdataDirs × ℤ × Daemon) := do
  let dirs ← appdataCreate cfg isDir d.p pkgId userName (resolveAppdata pkgId df)
  pure (dirs, packageRun d ret pkgId mountUser)

/-! ### The daemon -/

/-- The writable branch of the union that `dbp_loop_mount` mounts for a package. -/
def unionBranch (cfg : LoopConfig) (mount appdata user : CStr) : CStr :=
  (loopDecideAppdata cfg (1 < mount.length) appdata mount user).1

section Union

variable {cfg : LoopConfig} {o : MountOutcome} {k : LoopKernel} {n : ℤ} {id user srcMount appdata opt target : CStr}

theorem mem_mountFail {ret : ℤ} {m : MountEntry} (h : m ∈ (mountFail o k n ret).2.mounts) : m ∈ k.mounts := by
  rwa [mountFail, loopReset_mounts] at h

theorem loopSetup_mounts (o : MountOutcome) (k : LoopKernel) (image : CStr) (n : ℤ) :
    (loopSetup o k image n).2.mounts = k.mounts := by
  unfold loopSetup
  split_ifs <;> rfl

/-- A union on the directory of the package, with the branch of the user in front. -/
def PackageUnion (cfg : LoopConfig) (rodata : Bool) (id user srcMount appdata opt target : CStr) : Prop :=
  target = unionDir cfg id ∧
    ∃ dir, opt = mountOpt rodata (unionBranch cfg srcMount appdata user) dir (imgDir cfg id)

theorem mem_loopMountUnion (h : ⟨.union opt, target⟩ ∈ (loopMountUnion cfg o k n id user srcMount appdata).2.mounts) :
    ⟨.union opt, target⟩ ∈ k.mounts ∨ PackageUnion cfg o.rodata id user srcMount appdata opt target := by
  unfold loopMountUnion at h
  dsimp only at h
  split_ifs at h
  · exact .inl (mem_mountFail h)
  · exact .inl (mem_mountFail h)
  · exact .inl (mem_mountFail h)
  · exact .inl (mem_mountFail h)
  · exact .inl (List.mem_reverse.mp (List.mem_of_mem_eraseP (List.mem_reverse.mp (mem_mountFail h))))
  · exact .inl (mem_mountFail h)
  · rcases List.mem_append.mp h with h | h
    · exact .inl h
    · cases List.mem_singleton.mp h
      exact .inr ⟨rfl, _, rfl⟩

theorem mem_loopMountImg (h : ⟨.union opt, target⟩ ∈ (loopMountImg cfg o k n id user srcMount appdata).2.mounts) :
    ⟨.union opt, target⟩ ∈ k.mounts ∨ PackageUnion cfg o.rodata id user srcMount appdata opt target := by
  unfold loopMountImg at h
  split_ifs at h
  · exact .inl (mem_mountFail h)
  · exact .inl (mem_mountFail h)
  · apply (mem_loopMountUnion h).imp_left
    intro hm
    rcases List.mem_append.mp hm with hm | hm
    · exact hm
    · cases List.mem_singleton.mp hm
  · exact .inl (mem_mountFail h)

/-- **The branch of the union.** A union that is new after `dbp_loop_mount` is the package's, with the branch of the
user in front. -/
theorem mem_dbpLoopMount {image : CStr}
    (h : ⟨.union opt, target⟩ ∈ (dbpLoopMount cfg o k image id user srcMount appdata).2.mounts) :
    ⟨.union opt, target⟩ ∈ k.mounts ∨ PackageUnion cfg o.rodata id user srcMount appdata opt target := by
  unfold dbpLoopMount at h
  dsimp only at h
  rw [← loopSetup_mounts o k image (loopAvailableGet o k)]
  split_ifs at h
  · rw [loopSetup_mounts]
    exact .inl h
  · rw [loopSetup_mounts]
    exact .inl h
  · exact .inl (mem_mountFail h)
  · exact mem_loopMountImg h

end Union

section Launch

variable {cfg : LoopConfig} {isDir : CStr → Bool} {d : Daemon} {ret : ℤ} {df : DesktopFile} {pkgId userName : CStr}

/-- A launch makes the directory on the mount of the package's entry, and if the daemon mounts the package then with
that mount, with the appdata of the entry and for no user. -/
theorem launch_spec {dirs : AppdataDirs} {r : ℤ × Daemon}
    (h : launch cfg isDir d ret df pkgId userName = .ok (dirs, r)) :
    ∃ e ∈ d.p.entry, e.id = pkgId ∧ dirs = appdataDirs cfg e.mount userName (resolveAppdata pkgId df) ∧
      (r.2.loops = d.loops ∨
        r.2.loops = d.loops ++ [.mount e.path pkgId mountUser e.mount e.appdata ret]) := by
  unfold launch appdataCreate packageMountGet at h
  cases he : (packageFind d.p pkgId).bind (d.p.entry[·]?) with
  | none => simp [he, bind, Except.bind] at h
  | some e =>
    obtain ⟨i, hi, hei⟩ := Option.bind_eq_some_iff.mp he
    obtain ⟨pre, x, post, hxs, rfl, hx, -⟩ := findIdx?_split hi
    obtain rfl : x = e := by simpa [hxs] using hei
    simp only [he, Option.map_some] at h
    split_ifs at h with hdir
    · obtain ⟨hdirs, hr⟩ := Prod.mk.inj (Except.ok.inj h)
      refine ⟨x, by simp [hxs], by simpa using hx, hdirs.symm, ?_⟩
      rw [← hr]
      rcases packageRun_loops d ret pkgId mountUser with hl | ⟨e, he', hl⟩
      · exact .inl hl
      · obtain rfl : x = e := Option.some.inj (he.symm.trans he')
        exact .inr hl
    · cases h

end Launch

/-! ### One directory -/

/-- The path components that come after the mount point in the daemon's directory. -/
theorem parts_unionBranch (cfg : LoopConfig) (mount : MountPoint) (appdata user : CStr) :
    parts (unionBranch cfg mount.path appdata user) = parts mount.path ++
      (parts (cfg.dataDirectory ++ if cfg.perUserAppdata then '_' :: user else []) ++
        if cfg.perPackageAppdata then parts appdata else []) := by
  obtain ⟨t, ht⟩ := List.head?_eq_some_iff.mp mount.absolute
  -- a mount on the root is left out, and so are its slashes
  have hroot : parts (if 1 < mount.path.length then mount.path else []) = parts mount.path := by
    rw [ht]
    cases t with
    | nil => decide
    | cons c t => simp
  unfold unionBranch loopDecideAppdata
  cases cfg.perPackageAppdata with
  | false => simp [parts_slash, hroot]
  | true =>
    have happ := parts_slash (cfg.dataDirectory ++ if cfg.perUserAppdata then '_' :: user else []) appdata
    rw [List.append_assoc] at happ
    simp [parts_slash, hroot, happ]

/-- And in the launcher's. -/
theorem parts_appdataDirs (cfg : LoopConfig) (mountpoint userName appdataName : CStr) :
    parts (appdataDirs cfg mountpoint userName appdataName).appdata = parts mountpoint ++
      (parts (cfg.dataDirectory ++ if cfg.perUserAppdata then '_' :: userName else []) ++
        if cfg.perPackageAppdata then parts appdataName else []) := by
  have hdata : (if cfg.perUserAppdata then cfg.dataDirectory ++ lit "_" ++ userName else cfg.dataDirectory) =
      cfg.dataDirectory ++ if cfg.perUserAppdata then '_' :: userName else [] := by
    cases cfg.perUserAppdata <;> simp [lit]
  unfold appdataDirs
  dsimp only
  rw [hdata]
  cases cfg.perPackageAppdata <;> simp [parts_buildFilename]

/-- Both start at the root. -/
theorem sameDirectory_iff (cfg : LoopConfig) (mount : MountPoint) (userName appdataName appdata user : CStr) :
    SameDirectory (appdataDirs cfg mount.path userName appdataName).appdata (unionBranch cfg mount.path appdata user) ↔
      parts (cfg.dataDirectory ++ if cfg.perUserAppdata then '_' :: userName else []) ++
          (if cfg.perPackageAppdata then parts appdataName else []) =
        parts (cfg.dataDirectory ++ if cfg.perUserAppdata then '_' :: user else []) ++
          (if cfg.perPackageAppdata then parts appdata else []) := by
  have hl : (appdataDirs cfg mount.path userName appdataName).appdata.head? = some '/' := by
    unfold appdataDirs
    cases cfg.perPackageAppdata <;> exact head?_buildFilename mount.absolute _
  have hd : (unionBranch cfg mount.path appdata user).head? = some '/' := by
    unfold unionBranch loopDecideAppdata
    obtain ⟨t, ht⟩ := List.head?_eq_some_iff.mp mount.absolute
    rw [ht]
    cases t <;> simp
  rw [SameDirectory, parts_appdataDirs, parts_unionBranch, hl, hd, List.append_cancel_left_eq]
  simp

/-- What the user's name adds to the directory. -/
def userParts (cfg : LoopConfig) (userName : CStr) : List CStr := if cfg.perUserAppdata then parts userName else []

/-- The `Appdata` value the launcher puts into the directory and the daemon does not. -/
def refusedAppdata (cfg : LoopConfig) (df : DesktopFile) : Option CStr :=
  if cfg.perPackageAppdata then (metaLookup df (lit "Appdata")).filter fun a => !packageIdValidate a else none

/-- The directories are one: the user's name does not go on with the name of the data directory, and what it adds,
with a refused `Appdata`, is what the id adds. -/
def AppdataAgrees (cfg : LoopConfig) (df : DesktopFile) (pkgId userName : CStr) : Prop :=
  (cfg.perUserAppdata → userName.head?.all (· == '/')) ∧
    (refusedAppdata cfg df = none → userParts cfg userName = []) ∧
      ∀ appdata ∈ refusedAppdata cfg df, userParts cfg userName ++ parts appdata = parts pkgId

instance (cfg : LoopConfig) (df : DesktopFile) (pkgId userName : CStr) :
    Decidable (AppdataAgrees cfg df pkgId userName) := inferInstanceAs (Decidable (_ ∧ _ ∧ _))

/-- The user's name in the launcher's directory, against none in the daemon's. -/
theorem user_iff (cfg : LoopConfig) (userName : CStr) (xs ys : List CStr) :
    parts (cfg.dataDirectory ++ if cfg.perUserAppdata then '_' :: userName else []) ++ xs =
        parts (cfg.dataDirectory ++ if cfg.perUserAppdata then '_' :: mountUser else []) ++ ys ↔
      (cfg.perUserAppdata → userName.head?.all (· == '/')) ∧ userParts cfg userName ++ xs = ys := by
  cases hper : cfg.perUserAppdata with
  | false => simp [userParts, hper]
  | true =>
    obtain ⟨p, t, rfl, hp, ht⟩ := exists_run (· ≠ '/') userName
    have hp' : '/' ∉ p := fun h => by simpa using hp _ h
    have ht' : t.head?.all (· == '/') := by
      cases t with
      | nil => rfl
      | cons c t => simpa using ht
    obtain ⟨pre, l, hext⟩ := parts_extend cfg.dataDirectory (show '_' ≠ '/' by decide)
    have hrun := hext p t hp' ht'
    have hnone : parts (cfg.dataDirectory ++ '_' :: mountUser) = pre ++ [l ++ ['_']] := hext [] [] (by simp) rfl
    simp only [userParts, hper, ↓reduceIte, hrun, hnone, forall_const]
    -- the last part of the data directory goes on with the name up to its first slash
    have hhead : (p ++ t).head?.all (· == '/') ↔ p = [] := by
      cases p with
      | nil => simpa using ht'
      | cons c p => simpa using fun h : c = '/' => hp' (by simp [h])
    rw [hhead]
    constructor
    · intro h
      simp only [List.append_assoc, List.append_cancel_left_eq, List.cons_append, List.nil_append, List.cons.injEq] at h
      obtain rfl : p = [] := by simpa using h.1
      exact ⟨rfl, h.2⟩
    · rintro ⟨rfl, h⟩
      simp only [List.append_assoc, List.cons_append, List.nil_append, List.append_cancel_left_eq, List.cons.injEq, true_and]
      exact h

/-- The `Appdata` of the launcher's directory, against that of the daemon's. -/
theorem appdata_iff (cfg : LoopConfig) (df : DesktopFile) (pkgId path device mount : CStr) (us : List CStr) :
    us ++ (if cfg.perPackageAppdata then parts (resolveAppdata pkgId df) else []) =
        (if cfg.perPackageAppdata then parts (packageStrings df pkgId path device mount).appdata else []) ↔
      (refusedAppdata cfg df = none → us = []) ∧ ∀ appdata ∈ refusedAppdata cfg df, us ++ parts appdata = parts pkgId := by
  unfold resolveAppdata packageStrings refusedAppdata
  cases cfg.perPackageAppdata with
  | false => simp
  | true =>
    cases metaLookup df (lit "Appdata") with
    | none => simp
    | some appdata =>
      by_cases hv : packageIdValidate appdata
      · simp [hv, Option.filter]
      · simp [hv, Option.filter]

/-- **The directory the launcher makes is the directory the daemon mounts**, for every configuration, meta data, mount
point and user, exactly where the user's name and a refused `Appdata` make no difference. -/
theorem appdata_directory (cfg : LoopConfig) (df : DesktopFile) (pkgId path device userName : CStr) (mount : MountPoint) :
    SameDirectory (appdataDirs cfg mount.path userName (resolveAppdata pkgId df)).appdata
        (unionBranch cfg mount.path (packageStrings df pkgId path device mount.path).appdata mountUser) ↔
      AppdataAgrees cfg df pkgId userName := by
  rw [sameDirectory_iff, user_iff, appdata_iff]
  rfl

/-- The meta data of a package with a given `Appdata`. -/
def appdataMeta (appdata : CStr) : DesktopFile where
  section_ := [⟨none, []⟩, ⟨some (lit "Package Entry"), [⟨lit "Id", [], lit "game"⟩, ⟨lit "Appdata", [], appdata⟩]⟩]

/-- With directories for each user, the launcher makes `appdata_alice` and the daemon mounts `appdata_`. -/
theorem appdata_directory_alice : ¬ SameDirectory
    (appdataDirs { demoLoopConfig with perUserAppdata := true } (lit "/media/card") (lit "alice")
      (resolveAppdata (lit "game") (appdataMeta (lit "saves")))).appdata
    (unionBranch { demoLoopConfig with perUserAppdata := true } (lit "/media/card")
      (packageStrings (appdataMeta (lit "saves")) (lit "game") (lit "/media/card/game.dbp") (lit "/dev/sda1")
        (lit "/media/card")).appdata mountUser) := by
  decide

/-- With an `Appdata` of two directories, the launcher makes both and the daemon mounts that of the id. -/
example : ¬ AppdataAgrees demoLoopConfig (appdataMeta (lit "saves/game")) (lit "game") (lit "alice") := by decide

/-- For a user with a name, which has no slash, and with directories for each user, they are never one. -/
theorem appdata_user {cfg : LoopConfig} {userName : CStr} (h : cfg.perUserAppdata) (hne : userName ≠ []) (hs : '/' ∉ userName)
    (df : DesktopFile) (pkgId : CStr) : ¬ AppdataAgrees cfg df pkgId userName := by
  intro hagree
  obtain ⟨c, t, rfl⟩ := List.exists_cons_of_ne_nil hne
  have hc : c = '/' := by simpa using hagree.1 h
  exact hs (by simp [hc])

end Dbp
