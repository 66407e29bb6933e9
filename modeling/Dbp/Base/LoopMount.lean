/-
# Mounting a package

`dbp_loop_mount` of `libdbpbase/loop.c`: a free loop device is bound to the
image, the image is mounted, and over it a union with the directory for the
user's data. Any open, ioctl, mount, umount or allocation may fail
(`MountOutcome`), and then the label `fail` undoes what was done. It does not
undo all of it, and an allocation that fails leaves the result at 0, which is
the number of a loop device: the call is all or nothing exactly in the cases
of `CleanFailure` (`loop_mount_atomic`).

Key definitions: `LoopKernel`, `MountOutcome`, `loopDecideAppdata`, `dbpLoopMount`,
`Carries`, `AllOrNothing`, `MountFailure`, `mountFailure`, `CleanFailure`.
Key theorems: `loopReset_unused`, `loopReset_used`, `loop_mount_atomic`.
-/
import Dbp.Base.Config
import Dbp.C.Scanf
import Mathlib.Logic.Function.Basic

namespace Dbp

open CLib

/-! ### Devices and mounts -/

/-- What is mounted: a loop device, or a union with its options. -/
inductive MountSource
  | loop (n : ℤ)
  | union (opt : CStr)
deriving Repr, DecidableEq

structure MountEntry where
  source : MountSource
  target : CStr
deriving Repr, DecidableEq

/-- Loop devices and mounts, the latest last: `size` is the size of a device that is bound to a file.
A device that is mounted is bound to a file that is not empty. -/
@[ext]
structure LoopKernel where
  size : CStr → ℕ
  bound : ℤ → Option CStr
  mounts : List MountEntry
  used : ∀ m ∈ mounts, ∀ n, m.source = .loop n → 0 < ((bound n).map size).getD 0

namespace LoopKernel

variable (k : LoopKernel)

/-- `ioctl(BLKGETSIZE64)`. -/
def deviceSize (n : ℤ) : ℕ := ((k.bound n).map k.size).getD 0

/-- A mount of the device. -/
def InUse (n : ℤ) : Prop := ∃ m ∈ k.mounts, m.source = .loop n

instance (n : ℤ) : Decidable (k.InUse n) := inferInstanceAs (Decidable (∃ m ∈ k.mounts, _))

theorem not_inUse {n : ℤ} (h : k.deviceSize n = 0) : ¬ k.InUse n := fun ⟨m, hm, hs⟩ => by
  have hpos : 0 < k.deviceSize n := k.used m hm n hs
  omega

/-- `ioctl(LOOP_SET_FD)`, on a device that is not bound. -/
def setFd (n : ℤ) (image : CStr) (h : k.bound n = none) : LoopKernel where
  size := k.size
  bound := Function.update k.bound n (some image)
  mounts := k.mounts
  used m hm n' hs := by
    have hpos := k.used m hm n' hs
    have hne : n' ≠ n := by
      rintro rfl
      simp [h] at hpos
    rwa [Function.update_of_ne hne]

/-- `ioctl(LOOP_CLR_FD)`, on a device no mount uses. -/
def clrFd (n : ℤ) (h : ¬ k.InUse n) : LoopKernel where
  size := k.size
  bound := Function.update k.bound n none
  mounts := k.mounts
  used m hm n' hs := by
    have hne : n' ≠ n := by
      rintro rfl
      exact h ⟨m, hm, hs⟩
    rw [Function.update_of_ne hne]
    exact k.used m hm n' hs

/-- `mount` of a device with something on it. -/
def mountLoop (n : ℤ) (target : CStr) (h : 0 < k.deviceSize n) : LoopKernel where
  size := k.size
  bound := k.bound
  mounts := k.mounts ++ [⟨.loop n, target⟩]
  used m hm n' hs := by
    rcases List.mem_append.mp hm with hm | hm
    · exact k.used m hm n' hs
    · rw [List.mem_singleton.mp hm] at hs
      cases hs
      exact h

/-- `mount` of a union. -/
def mountUnion (opt target : CStr) : LoopKernel where
  size := k.size
  bound := k.bound
  mounts := k.mounts ++ [⟨.union opt, target⟩]
  used m hm n hs := by
    rcases List.mem_append.mp hm with hm | hm
    · exact k.used m hm n hs
    · rw [List.mem_singleton.mp hm] at hs
      cases hs

/-- `umount`: the latest mount on the directory goes away, if there is one. -/
def umount (target : CStr) : LoopKernel where
  size := k.size
  bound := k.bound
  mounts := (k.mounts.reverse.eraseP (·.target == target)).reverse
  used m hm := k.used m (List.mem_reverse.mp (List.mem_of_mem_eraseP (List.mem_reverse.mp hm)))

/-- A mount that goes away again. -/
theorem umount_mountLoop {n : ℤ} {target : CStr} (h : 0 < k.deviceSize n) :
    (k.mountLoop n target h).umount target = k := by
  refine LoopKernel.ext rfl rfl ?_
  change ((k.mounts ++ [(⟨.loop n, target⟩ : MountEntry)]).reverse.eraseP (·.target == target)).reverse = k.mounts
  rw [List.reverse_append, List.reverse_singleton, List.singleton_append, List.eraseP_cons_of_pos (by simp),
    List.reverse_reverse]

theorem inUse_mountLoop {n : ℤ} {target : CStr} (h : 0 < k.deviceSize n) : (k.mountLoop n target h).InUse n :=
  ⟨⟨.loop n, target⟩, List.mem_append_right _ (List.mem_singleton.mpr rfl), rfl⟩

theorem deviceSize_setFd {n : ℤ} {image : CStr} (h : k.bound n = none) :
    (k.setFd n image h).deviceSize n = k.size image := by
  simp [deviceSize, setFd]

end LoopKernel

/-! ### The steps -/

/-- Which steps of `dbp_loop_mount` go through, if they are attempted; `dev` are the names in `/dev`, if
it can be read, and `rodata` is whether there is a directory for read-only data. -/
structure MountOutcome where
  dev : Option (List CStr)
  check : ℤ → Bool
  openImage : Bool
  setupString : Bool
  setupOpen : Bool
  setFd : Bool
  imgString : Bool
  loopString : Bool
  mountImg : Bool
  unionString : Bool
  userString : Bool
  rodataString : Bool
  rodata : Bool
  optString : Bool
  mountUnion : Bool
  umountImg : Bool
  resetString : Bool
  resetOpen : Bool
  clrFd : Bool

section Steps

variable (o : MountOutcome)

/-- `loop_available_check`. -/
def loopAvailableCheck (k : LoopKernel) (n : ℤ) : Bool := o.check n && k.deviceSize n == 0

/-- The number in the name of a loop device. -/
def loopNumberOf (name : CStr) : ℤ :=
  if (lit "loop").isPrefixOf name then (scanInt (name.drop 4)).getD (-1) else -1

/-- `loop_available_get`. -/
def loopAvailableGet (k : LoopKernel) : ℤ :=
  match o.dev with
  | none => -1
  | some names =>
    ((names.map loopNumberOf).find? fun n => decide (0 ≤ n) && loopAvailableCheck o k n).getD (-1)

/-- `loop_setup`. -/
def loopSetup (k : LoopKernel) (image : CStr) (n : ℤ) : ℤ × LoopKernel :=
  if !o.openImage then (DBP_ERROR_NO_PKG_ACCESS, k)
  else if !o.setupString then (0, k)
  else if !o.setupOpen then (0, k)
  else if h : o.setFd ∧ k.bound n = none then (1, k.setFd n image h.2)
  else (DBP_ERROR_SET_LOOP2, k)

/-- `loop_reset`. -/
def loopReset (k : LoopKernel) (n : ℤ) : LoopKernel :=
  if !o.resetString then k
  else if !o.resetOpen then k
  else if h : o.clrFd ∧ k.bound n ≠ none ∧ ¬ k.InUse n then k.clrFd n h.2.2
  else k

/-- The label `fail` of `dbp_loop_mount`, with a loop device. -/
def mountFail (k : LoopKernel) (n ret : ℤ) : ℤ × LoopKernel := (ret, loopReset o k n)

end Steps

/-! ### The call -/

section Call

variable (cfg : LoopConfig)

/-- The directory the image of a package is mounted on. -/
def imgDir (id : CStr) : CStr := cfg.imgMount ++ '/' :: id

/-- The directory the union of a package is mounted on. -/
def unionDir (id : CStr) : CStr := cfg.unionMount ++ '/' :: id

/-- `loop_decide_appdata`: the directories for the user's data and the read-only data. -/
def loopDecideAppdata (fs : Bool) (appdata fsPath user : CStr) : CStr × CStr :=
  let root := if fs then fsPath else []
  let dir := fun data : CStr =>
    root ++ '/' :: data ++ (if cfg.perUserAppdata then '_' :: user else []) ++
      (if cfg.perPackageAppdata then '/' :: appdata else [])
  (dir cfg.dataDirectory, dir cfg.rodataDirectory)

/-- A character that the options of a union cannot have in a directory. -/
def IllegalDirname (dir : CStr) : Prop := ':' ∈ dir ∨ '=' ∈ dir ∨ ',' ∈ dir

instance (dir : CStr) : Decidable (IllegalDirname dir) := inferInstanceAs (Decidable (_ ∨ _))

/-- The options of the union. -/
def mountOpt (rodata : Bool) (userDir rodataDir imgDir : CStr) : CStr :=
  lit "noplink,br=" ++ userDir ++ lit "=rw+nolwh:" ++ (if rodata then rodataDir ++ lit "=ro+nolwh:" else []) ++ imgDir ++
    lit "=ro"

variable (o : MountOutcome)

/-- `dbp_loop_mount` from the allocation of the path of the union on, with device `n` mounted. -/
def loopMountUnion (k : LoopKernel) (n : ℤ) (id user srcMount appdata : CStr) : ℤ × LoopKernel :=
  if !o.unionString then mountFail o k n 0
  else
    -- a mount point is never the empty string, so `src_mount[1]` is there
    let dirs := loopDecideAppdata cfg (1 < srcMount.length) appdata srcMount user
    if !o.userString || !o.rodataString then mountFail o k n 0
    else if IllegalDirname dirs.1 ∨ IllegalDirname (imgDir cfg id) ∨ IllegalDirname dirs.2 then
      mountFail o k n DBP_ERROR_ILL_DIRNAME
    else if !o.optString then mountFail o k n 0
    else if !o.mountUnion then
      mountFail o (if o.umountImg then k.umount (imgDir cfg id) else k) n DBP_ERROR_UNION_FAILED
    else (n, k.mountUnion (mountOpt o.rodata dirs.1 dirs.2 (imgDir cfg id)) (unionDir cfg id))

/-- `dbp_loop_mount` from the allocation of the path of the image on, with device `n` set up. -/
def loopMountImg (k : LoopKernel) (n : ℤ) (id user srcMount appdata : CStr) : ℤ × LoopKernel :=
  if !o.imgString then mountFail o k n 0
  else if !o.loopString then mountFail o k n 0
  else if h : o.mountImg ∧ 0 < k.deviceSize n then
    loopMountUnion cfg o (k.mountLoop n (imgDir cfg id) h.2) n id user srcMount appdata
  else mountFail o k n DBP_ERROR_BAD_FSIMG

/-- `dbp_loop_mount`. -/
def dbpLoopMount (k : LoopKernel) (image id user srcMount appdata : CStr) : ℤ × LoopKernel :=
  if 63 < user.length then (DBP_ERROR_INTERNAL_MSG, k)
  else
    let n := loopAvailableGet o k
    if n < 0 then (DBP_ERROR_NO_LOOP, k)
    else
      let s := loopSetup o k image n
      if s.1 < 0 then mountFail o s.2 n s.1
      else loopMountImg cfg o s.2 n id user srcMount appdata

end Call

/-! ### All or nothing -/

section Reset

variable {o : MountOutcome} {k : LoopKernel} {n : ℤ}

theorem loopReset_mounts (o : MountOutcome) (k : LoopKernel) (n : ℤ) : (loopReset o k n).mounts = k.mounts := by
  unfold loopReset
  split_ifs <;> rfl

theorem loopReset_bound_ne (o : MountOutcome) (k : LoopKernel) {n m : ℤ} (h : m ≠ n) :
    (loopReset o k n).bound m = k.bound m := by
  unfold loopReset
  split_ifs
  · rfl
  · rfl
  · exact Function.update_of_ne h _ _
  · rfl

/-- A device that is mounted is not reset. -/
theorem loopReset_used (o : MountOutcome) (h : k.InUse n) : loopReset o k n = k := by
  unfold loopReset
  split_ifs with h1 h2 h3
  · rfl
  · rfl
  · exact absurd h h3.2.2
  · rfl

/-- The steps of `loop_reset` go through. -/
def MountOutcome.Resets (o : MountOutcome) : Prop := o.resetString ∧ o.resetOpen ∧ o.clrFd

instance (o : MountOutcome) : Decidable o.Resets := inferInstanceAs (Decidable (_ ∧ _))

/-- A device that is not mounted. -/
theorem loopReset_unused (o : MountOutcome) (h : ¬ k.InUse n) :
    (loopReset o k n).bound n = if o.Resets then none else k.bound n := by
  by_cases hr : o.Resets
  · rw [if_pos hr]
    obtain ⟨h1, h2, h3⟩ := hr
    unfold loopReset
    rw [if_neg (by simp [h1]), if_neg (by simp [h2])]
    split_ifs with hb
    · exact Function.update_self ..
    · by_contra hn
      exact hb ⟨h3, hn, h⟩
  · rw [if_neg hr]
    unfold loopReset
    split_ifs with h1 h2 h3
    · rfl
    · rfl
    · exact absurd ⟨by simpa using h1, by simpa using h2, h3.1⟩ hr
    · rfl

end Reset

/-- The image is bound to device `n` and mounted, and the union is. -/
structure Carries (cfg : LoopConfig) (id image : CStr) (k : LoopKernel) (n : ℤ) : Prop where
  bound : k.bound n = some image
  img : ⟨.loop n, imgDir cfg id⟩ ∈ k.mounts
  union : ∃ opt, ⟨.union opt, unionDir cfg id⟩ ∈ k.mounts

/-- A result that is no error comes with everything in place, and an error with nothing changed. -/
structure AllOrNothing (cfg : LoopConfig) (id image : CStr) (k : LoopKernel) (r : ℤ × LoopKernel) : Prop where
  all : 0 ≤ r.1 → Carries cfg id image r.2 r.1
  nothing : r.1 < 0 → r.2.mounts = k.mounts ∧ r.2.bound = k.bound

section Fail

variable (cfg : LoopConfig) (o : MountOutcome) {id image : CStr} {k : LoopKernel} {n : ℤ}

theorem fail_error (k' : LoopKernel) {ret : ℤ} (h : ret < 0) : AllOrNothing cfg id image k (mountFail o k' n ret) ↔
    k'.mounts = k.mounts ∧ (loopReset o k' n).bound = k.bound := by
  rw [← loopReset_mounts o k' n]
  have hret : ¬ 0 ≤ ret := by omega
  exact ⟨fun ha => ha.nothing h, fun ha => ⟨fun h0 => absurd h0 hret, fun _ => ha⟩⟩

theorem fail_zero (k' : LoopKernel) : AllOrNothing cfg id image k (mountFail o k' n 0) ↔
    Carries cfg id image (loopReset o k' n) 0 :=
  ⟨fun ha => ha.all (Int.le_refl 0), fun ha => ⟨fun _ => ha, fun h => absurd h (show ¬ (0 : ℤ) < 0 by decide)⟩⟩

/-- A device that is not mounted does not matter to what another one carries. -/
theorem carries_congr {k k' : LoopKernel} (hu : ¬ k.InUse n) (hm : k'.mounts = k.mounts)
    (hb : ∀ m ≠ n, k'.bound m = k.bound m) (m : ℤ) : Carries cfg id image k' m ↔ Carries cfg id image k m := by
  have hne : ∀ {k' : LoopKernel}, k'.mounts = k.mounts → ⟨.loop m, imgDir cfg id⟩ ∈ k'.mounts → m ≠ n := by
    rintro k' hm' hmem rfl
    exact hu ⟨_, hm' ▸ hmem, rfl⟩
  constructor
  · intro h
    exact ⟨hb m (hne hm h.img) ▸ h.bound, hm ▸ h.img, hm ▸ h.union⟩
  · intro h
    exact ⟨(hb m (hne rfl h.img)).trans h.bound, hm ▸ h.img, hm ▸ h.union⟩

/-- An error while the device is as it was. -/
theorem fail_untouched (hu : ¬ k.InUse n) {ret : ℤ} (h : ret < 0) :
    AllOrNothing cfg id image k (mountFail o k n ret) ↔ k.bound n = none ∨ ¬ o.Resets := by
  rw [fail_error cfg o k h, and_iff_right rfl]
  have hn := loopReset_unused o hu
  constructor
  · intro he
    rw [he] at hn
    split_ifs at hn with hr
    · exact .inl hn
    · exact .inr hr
  · intro hc
    funext m
    by_cases hm : m = n
    · rw [hm, hn]
      split_ifs with hr
      · exact (hc.resolve_right (not_not.mpr hr)).symm
      · rfl
    · exact loopReset_bound_ne o k hm

/-- An error once the image is bound. -/
theorem fail_bound (hb : k.bound n = none) (hu : ¬ k.InUse n) {ret : ℤ} (h : ret < 0) :
    AllOrNothing cfg id image k (mountFail o (k.setFd n image hb) n ret) ↔ o.Resets := by
  rw [fail_error cfg o _ h, and_iff_right (show (k.setFd n image hb).mounts = k.mounts from rfl)]
  have hn := @loopReset_unused (k.setFd n image hb) n o hu
  constructor
  · intro he
    by_contra hr
    rw [he, hb, if_neg hr] at hn
    simp [LoopKernel.setFd] at hn
  · intro hr
    funext m
    by_cases hm : m = n
    · rw [hm, hn, if_pos hr, hb]
    · rw [loopReset_bound_ne o _ hm]
      exact Function.update_of_ne hm _ _

end Fail

/-- What a mount on a device fails at: the device does not get bound, memory before the image is mounted, the
mount of the image, memory after it, a character in a directory, the mount of the union. -/
inductive MountFailure
  | setup
  | earlyString
  | image
  | lateString
  | dirname
  | union
deriving Repr, DecidableEq

section Failure

variable (cfg : LoopConfig) (o : MountOutcome) (k : LoopKernel) (n : ℤ) (image id user srcMount appdata : CStr)

/-- The directories of the union have no illegal character. -/
def LegalDirnames : Prop :=
  let dirs := loopDecideAppdata cfg (1 < srcMount.length) appdata srcMount user
  ¬ (IllegalDirname dirs.1 ∨ IllegalDirname (imgDir cfg id) ∨ IllegalDirname dirs.2)

instance : Decidable (LegalDirnames cfg id user srcMount appdata) := inferInstanceAs (Decidable (¬ _))

/-- The first step that fails once the image is mounted. -/
def unionFailure : Option MountFailure :=
  if ¬ (o.unionString ∧ o.userString ∧ o.rodataString) then some .lateString
  else if ¬ LegalDirnames cfg id user srcMount appdata then some .dirname
  else if ¬ o.optString then some .lateString
  else if ¬ o.mountUnion then some .union
  else none

/-- The first step that fails. Where `loop_setup` has no memory or cannot open the device it returns 0, and the
image is mounted next, which finds nothing there. -/
def mountFailure : Option MountFailure :=
  if ¬ (o.openImage ∧ (o.setupString → o.setupOpen → o.setFd ∧ k.bound n = none)) then some .setup
  else if ¬ (o.imgString ∧ o.loopString) then some .earlyString
  else if ¬ (o.setupString ∧ o.setupOpen) then some .setup
  else if ¬ (o.mountImg ∧ 0 < k.size image) then some .image
  else unionFailure cfg o id user srcMount appdata

/-- The failures that `dbp_loop_mount` cleans up after. Without memory it returns 0, so device 0 must carry the
package by itself. -/
def CleanFailure : Option MountFailure → Prop
  | none => True
  | some .setup => k.bound n = none ∨ ¬ o.Resets
  | some .earlyString => Carries cfg id image k 0
  | some .image => o.Resets
  | some .lateString =>
    if n = 0 then ∃ opt, ⟨.union opt, unionDir cfg id⟩ ∈ k.mounts else Carries cfg id image k 0
  | some .dirname => False
  | some .union => o.umountImg ∧ o.Resets

end Failure

/-- The device `loop_available_get` finds is not in use. -/
theorem deviceSize_available {o : MountOutcome} {k : LoopKernel} (h : 0 ≤ loopAvailableGet o k) :
    k.deviceSize (loopAvailableGet o k) = 0 := by
  unfold loopAvailableGet at h ⊢
  cases hdev : o.dev with
  | none => simp [hdev] at h
  | some names =>
    simp only [hdev] at h ⊢
    cases hfind : (names.map loopNumberOf).find? fun n => decide (0 ≤ n) && loopAvailableCheck o k n with
    | none => simp [hfind] at h
    | some n =>
      have hn := List.find?_some hfind
      simp only [loopAvailableCheck, Bool.and_eq_true, beq_iff_eq] at hn
      exact hn.2.2

section Parts

variable (cfg : LoopConfig) (o : MountOutcome) {k : LoopKernel} {n : ℤ} {image : CStr} (id user srcMount appdata : CStr)

/-- What is left of a mount that has lost its memory with the image mounted. -/
theorem carries_late (hb : k.bound n = none) (h : 0 < (k.setFd n image hb).deviceSize n) :
    Carries cfg id image ((k.setFd n image hb).mountLoop n (imgDir cfg id) h) 0 ↔
      if n = 0 then ∃ opt, ⟨.union opt, unionDir cfg id⟩ ∈ k.mounts else Carries cfg id image k 0 := by
  have hunion : (∃ opt, ⟨.union opt, unionDir cfg id⟩ ∈ k.mounts ++ [(⟨.loop n, imgDir cfg id⟩ : MountEntry)]) ↔
      ∃ opt, ⟨.union opt, unionDir cfg id⟩ ∈ k.mounts := by
    simp
  split_ifs with hn
  · subst hn
    have hbound : (k.setFd 0 image hb).bound 0 = some image := by simp [LoopKernel.setFd]
    refine ⟨fun hc => hunion.mp hc.union, fun hc => ⟨hbound, ?_, hunion.mpr hc⟩⟩
    exact List.mem_append_right _ (List.mem_singleton.mpr rfl)
  · have himg : ⟨.loop 0, imgDir cfg id⟩ ∈ k.mounts ++ [(⟨.loop n, imgDir cfg id⟩ : MountEntry)] ↔
        ⟨.loop 0, imgDir cfg id⟩ ∈ k.mounts := by
      simp [Ne.symm hn]
    have hbound : (k.setFd n image hb).bound 0 = k.bound 0 := Function.update_of_ne (Ne.symm hn) _ _
    exact ⟨fun hc => ⟨hbound ▸ hc.bound, himg.mp hc.img, hunion.mp hc.union⟩,
      fun hc => ⟨hbound.trans hc.bound, himg.mpr hc.img, hunion.mpr hc.union⟩⟩

/-- A mount that gets through has everything in place. -/
theorem mounted_atomic (hb : k.bound n = none) (hn : 0 ≤ n) (h : 0 < (k.setFd n image hb).deviceSize n) (opt : CStr) :
    AllOrNothing cfg id image k
      (n, ((k.setFd n image hb).mountLoop n (imgDir cfg id) h).mountUnion opt (unionDir cfg id)) := by
  refine ⟨fun _ => ⟨?_, ?_, ?_⟩, fun hneg => absurd hn (Int.not_le.mpr hneg)⟩
  · simp [LoopKernel.mountUnion, LoopKernel.mountLoop, LoopKernel.setFd]
  · exact List.mem_append_left _ (List.mem_append_right _ (List.mem_singleton.mpr rfl))
  · exact ⟨_, List.mem_append_right _ (List.mem_singleton.mpr rfl)⟩

/-- An error with the image still mounted is not nothing. -/
theorem fail_mounted (hb : k.bound n = none) (h : 0 < (k.setFd n image hb).deviceSize n) {ret : ℤ} (hret : ret < 0) :
    ¬ AllOrNothing cfg id image k (mountFail o ((k.setFd n image hb).mountLoop n (imgDir cfg id) h) n ret) := by
  intro hc
  have hm : k.mounts ++ [(⟨.loop n, imgDir cfg id⟩ : MountEntry)] = k.mounts := ((fail_error cfg o _ hret).mp hc).1
  simp at hm

/-- What a lack of memory with the image mounted leaves behind. -/
theorem fail_late (hb : k.bound n = none) (h : 0 < (k.setFd n image hb).deviceSize n) :
    AllOrNothing cfg id image k (mountFail o ((k.setFd n image hb).mountLoop n (imgDir cfg id) h) n 0) ↔
      CleanFailure cfg o k n image id (some .lateString) := by
  rw [fail_zero, loopReset_used o ((k.setFd n image hb).inUse_mountLoop h), carries_late cfg id hb h]
  rfl

/-- From the mounted image on. -/
theorem loopMountUnion_atomic (hb : k.bound n = none) (hn : 0 ≤ n) (hu : ¬ k.InUse n)
    (h : 0 < (k.setFd n image hb).deviceSize n) :
    AllOrNothing cfg id image k (loopMountUnion cfg o ((k.setFd n image hb).mountLoop n (imgDir cfg id) h) n id user
      srcMount appdata) ↔ CleanFailure cfg o k n image id (unionFailure cfg o id user srcMount appdata) := by
  have hlate := fail_late cfg o id hb h
  have hdirty : ∀ {ret : ℤ}, ret < 0 → ¬ AllOrNothing cfg id image k
      (mountFail o ((k.setFd n image hb).mountLoop n (imgDir cfg id) h) n ret) := fail_mounted cfg o id hb h
  unfold loopMountUnion unionFailure
  by_cases hs : o.unionString = true ∧ o.userString = true ∧ o.rodataString = true
  · obtain ⟨h1, h2, h3⟩ := hs
    rw [if_neg (by simp [h1]), if_neg (by simp [h2, h3]), if_neg (not_not.mpr ⟨h1, h2, h3⟩)]
    by_cases hlegal : LegalDirnames cfg id user srcMount appdata
    · rw [if_neg hlegal, if_neg (not_not.mpr hlegal)]
      by_cases h4 : o.optString = true
      · rw [if_neg (by simp [h4]), if_neg (not_not.mpr h4)]
        by_cases h5 : o.mountUnion = true
        · rw [if_neg (by simp [h5]), if_neg (not_not.mpr h5)]
          exact ⟨fun _ => trivial, fun _ => mounted_atomic cfg id hb hn h _⟩
        · rw [if_pos (by simpa using h5), if_pos h5]
          by_cases h6 : o.umountImg = true
          · rw [if_pos h6, LoopKernel.umount_mountLoop, fail_bound cfg o hb hu (by decide)]
            exact ⟨fun hr => ⟨h6, hr⟩, fun hr => hr.2⟩
          · rw [if_neg h6]
            exact ⟨fun hc => absurd hc (hdirty (by decide)), fun hc => absurd hc.1 h6⟩
      · rw [if_pos (by simpa using h4), if_pos h4]
        exact hlate
    · rw [if_pos (not_not.mp hlegal), if_pos hlegal]
      exact ⟨fun hc => absurd hc (hdirty (by decide)), fun hc => hc.elim⟩
  · rw [if_pos hs]
    by_cases h1 : o.unionString = true
    · have h2 : (!o.userString || !o.rodataString) = true := by
        by_contra h2
        simp only [Bool.or_eq_true, Bool.not_eq_true', not_or, Bool.not_eq_false] at h2
        exact hs ⟨h1, h2⟩
      rw [if_neg (by simp [h1]), if_pos h2]
      exact hlate
    · rw [if_pos (by simpa using h1)]
      exact hlate

/-- What strings there is no memory for leave behind, before the image is mounted. -/
theorem fail_early {k' : LoopKernel} (hu : ¬ k.InUse n) (hm : k'.mounts = k.mounts) (hb : ∀ m ≠ n, k'.bound m = k.bound m) :
    AllOrNothing cfg id image k (mountFail o k' n 0) ↔ Carries cfg id image k 0 := by
  rw [fail_zero]
  refine carries_congr cfg hu ((loopReset_mounts o k' n).trans hm) (fun m hmn => ?_) 0
  rw [loopReset_bound_ne o k' hmn, hb m hmn]

/-- Strings there is no memory for end it. -/
theorem loopMountImg_strings (k : LoopKernel) (hs : ¬ (o.imgString = true ∧ o.loopString = true)) :
    loopMountImg cfg o k n id user srcMount appdata = mountFail o k n 0 := by
  unfold loopMountImg
  by_cases h1 : o.imgString = true
  · have h2 : ¬ o.loopString = true := fun h2 => hs ⟨h1, h2⟩
    rw [if_neg (by simp [h1]), if_pos (by simpa using h2)]
  · rw [if_pos (by simpa using h1)]

/-- From a device that is bound on. -/
theorem loopMountImg_atomic (hb : k.bound n = none) (hn : 0 ≤ n) (hu : ¬ k.InUse n) (hopen : o.openImage = true)
    (hset : o.setupString = true ∧ o.setupOpen = true ∧ o.setFd = true) :
    AllOrNothing cfg id image k (loopMountImg cfg o (k.setFd n image hb) n id user srcMount appdata) ↔
      CleanFailure cfg o k n image id (mountFailure cfg o k n image id user srcMount appdata) := by
  have hearly := @fail_early cfg o k n image id (k.setFd n image hb) hu rfl fun m hm => Function.update_of_ne hm _ _
  unfold mountFailure
  rw [if_neg (not_not.mpr ⟨hopen, fun _ _ => ⟨hset.2.2, hb⟩⟩)]
  by_cases hs : o.imgString = true ∧ o.loopString = true
  · unfold loopMountImg
    rw [if_neg (by simp [hs]), if_neg (by simp [hs]), if_neg (not_not.mpr hs), if_neg (not_not.mpr ⟨hset.1, hset.2.1⟩)]
    by_cases himg : o.mountImg = true ∧ 0 < k.size image
    · have himg' : o.mountImg = true ∧ 0 < (k.setFd n image hb).deviceSize n := by
        rwa [LoopKernel.deviceSize_setFd]
      rw [dif_pos himg', if_neg (not_not.mpr himg)]
      exact loopMountUnion_atomic cfg o id user srcMount appdata hb hn hu himg'.2
    · have himg' : ¬ (o.mountImg = true ∧ 0 < (k.setFd n image hb).deviceSize n) := by
        rwa [LoopKernel.deviceSize_setFd]
      rw [dif_neg himg', if_pos himg]
      exact fail_bound cfg o hb hu (by decide)
  · rw [if_pos hs, loopMountImg_strings cfg o id user srcMount appdata _ hs]
    exact hearly

/-- From a device on that `loop_setup` has not bound although it returned no error. -/
theorem loopMountImg_unbound (hsize : k.deviceSize n = 0) (hopen : o.openImage = true)
    (hset : ¬ (o.setupString = true ∧ o.setupOpen = true)) :
    AllOrNothing cfg id image k (loopMountImg cfg o k n id user srcMount appdata) ↔
      CleanFailure cfg o k n image id (mountFailure cfg o k n image id user srcMount appdata) := by
  have hu := k.not_inUse hsize
  have hearly := @fail_early cfg o k n image id k hu rfl fun _ _ => rfl
  have himg : ¬ (o.mountImg = true ∧ 0 < k.deviceSize n) := fun h => by omega
  unfold mountFailure
  rw [if_neg (not_not.mpr ⟨hopen, fun h1 h2 => absurd ⟨h1, h2⟩ hset⟩)]
  by_cases hs : o.imgString = true ∧ o.loopString = true
  · unfold loopMountImg
    rw [if_neg (by simp [hs]), if_neg (by simp [hs]), dif_neg himg, if_neg (not_not.mpr hs), if_pos hset]
    exact fail_untouched cfg o hu (by decide)
  · rw [if_pos hs, loopMountImg_strings cfg o id user srcMount appdata _ hs]
    exact hearly

end Parts

/-- What `loop_setup` does. -/
inductive SetupCase (o : MountOutcome) (k : LoopKernel) (image : CStr) (n : ℤ) : ℤ × LoopKernel → Prop
  | error (ret : ℤ) (hret : ret < 0)
    (h : ¬ (o.openImage = true ∧ (o.setupString = true → o.setupOpen = true → o.setFd = true ∧ k.bound n = none))) :
    SetupCase o k image n (ret, k)
  | unbound (hopen : o.openImage = true) (h : ¬ (o.setupString = true ∧ o.setupOpen = true)) :
    SetupCase o k image n (0, k)
  | bound (hopen : o.openImage = true) (h : o.setupString = true ∧ o.setupOpen = true ∧ o.setFd = true)
    (hb : k.bound n = none) : SetupCase o k image n (1, k.setFd n image hb)

theorem loopSetup_cases (o : MountOutcome) (k : LoopKernel) (image : CStr) (n : ℤ) :
    SetupCase o k image n (loopSetup o k image n) := by
  unfold loopSetup
  split_ifs with h1 h2 h3 h4
  · exact .error _ (by decide) fun h => by simp [h.1] at h1
  · exact .unbound (by simpa using h1) fun h => by simp [h.1] at h2
  · exact .unbound (by simpa using h1) fun h => by simp [h.2] at h3
  · exact .bound (by simpa using h1) ⟨by simpa using h2, by simpa using h3, h4.1⟩ h4.2
  · exact .error _ (by decide) fun h => h4 (h.2 (by simpa using h2) (by simpa using h3))

/-- **All or nothing.** A mount has everything in place or an error with nothing changed exactly when it gets no
device to begin with, or cleans up after what it fails at. -/
theorem loop_mount_atomic (cfg : LoopConfig) (o : MountOutcome) (k : LoopKernel) (image id user srcMount appdata : CStr) :
    AllOrNothing cfg id image k (dbpLoopMount cfg o k image id user srcMount appdata) ↔
      (user.length ≤ 63 → 0 ≤ loopAvailableGet o k → CleanFailure cfg o k (loopAvailableGet o k) image id
        (mountFailure cfg o k (loopAvailableGet o k) image id user srcMount appdata)) := by
  have hsame : ∀ {ret : ℤ}, ret < 0 → AllOrNothing cfg id image k (ret, k) := fun hret =>
    ⟨fun h => absurd hret (Int.not_lt.mpr h), fun _ => ⟨rfl, rfl⟩⟩
  unfold dbpLoopMount
  by_cases huser : 63 < user.length
  · rw [if_pos huser]
    exact ⟨fun _ h => by omega, fun _ => hsame (by decide)⟩
  · rw [if_neg huser, imp_iff_right (by omega : user.length ≤ 63)]
    by_cases hn : loopAvailableGet o k < 0
    · simp only [if_pos hn]
      exact ⟨fun _ h => by omega, fun _ => hsame (by decide)⟩
    · have hn' : 0 ≤ loopAvailableGet o k := by omega
      have hsize := deviceSize_available hn'
      have hu := k.not_inUse hsize
      have hc := loopSetup_cases o k image (loopAvailableGet o k)
      simp only [if_neg hn, imp_iff_right hn']
      generalize loopSetup o k image (loopAvailableGet o k) = s at hc ⊢
      generalize loopAvailableGet o k = n at hn' hsize hu hc ⊢
      cases hc with
      | error ret hret h =>
        rw [if_pos hret, fail_untouched cfg o hu hret, mountFailure, if_pos h]
        rfl
      | unbound hopen h => exact loopMountImg_unbound cfg o id user srcMount appdata hsize hopen h
      | bound hopen h hb => exact loopMountImg_atomic cfg o id user srcMount appdata hb hn' hu hopen h

/-- One free loop device, and every step goes through. -/
def demoOutcome : MountOutcome where
  dev := some [lit "loop-control", lit "loop0"]
  check _ := true
  openImage := true
  setupString := true
  setupOpen := true
  setFd := true
  imgString := true
  loopString := true
  mountImg := true
  unionString := true
  userString := true
  rodataString := true
  rodata := false
  optString := true
  mountUnion := true
  umountImg := true
  resetString := true
  resetOpen := true
  clrFd := true

/-- No device is bound and nothing is mounted; images have a size. -/
def demoKernel : LoopKernel := ⟨fun _ => 1, fun _ => none, [], by simp⟩

def demoLoopConfig : LoopConfig where
  fileExtension := [lit ".dbp"]
  searchDir := [lit "."]
  dataDirectory := lit "appdata"
  iconDirectory := lit "/icons"
  execDirectory := lit "/games"
  desktopDirectory := lit "/applications"
  execTemplate := lit "/etc/dbp/dbp_exec"
  imgMount := lit "/mnt/img"
  unionMount := lit "/mnt/union"
  rodataDirectory := lit "rodata"
  perUserAppdata := false
  perPackageAppdata := true

/-- On a medium with a comma in its mount point, the image stays mounted and the device bound. -/
theorem loop_mount_comma : ¬ AllOrNothing demoLoopConfig (lit "a") (lit "/m,1/a.dbp") demoKernel
    (dbpLoopMount demoLoopConfig demoOutcome demoKernel (lit "/m,1/a.dbp") (lit "a") (lit "u") (lit "/m,1") (lit "a")) :=
  fun h => absurd (h.nothing (by decide)).1 (by decide)

end Dbp
