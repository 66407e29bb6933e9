/-
# What the kernel answers

The daemon's calls on loop devices and mounts are recorded as events; here
they meet a kernel (`Answers`). A mount is `dbp_loop_mount` with its steps, a
step of a teardown goes through if the kernel has something to take away. A
mount that fails is one that cleans up, with memory for its strings
(`CleanMount`): it leaves the kernel as it was, and one that gets through adds
a device, an image and a union (`dbpLoopMount_clean`).

What the kernel holds for the packages is a map from ids to stages, a loop
device and the number of teardown steps done. `KernelHolds k₀ k σ` says that `k` is
the kernel `k₀` that was there before, with the mounts and devices of `σ` and
no others on top. Each answer moves one package by one stage.

Key definitions: `CleanMount`, `MountResult`, `Answers`, `AnswersAll`, `Separate`, `KernelHolds`.
Key theorems: `dbpLoopMount_clean`, `KernelHolds.mount`, `KernelHolds.umountUnion`, `KernelHolds.umountImg`, `KernelHolds.loopReset`, `KernelHolds.eq_base`.
-/
import Dbp.Base.Loop
import Dbp.Base.LoopMount
import Dbp.Lib.Find

namespace Dbp

open CLib Find

/-! ### Mounts that clean up -/

/-- There is memory for every string. -/
def MountOutcome.Memory (o : MountOutcome) : Prop :=
  o.setupString ∧ o.imgString ∧ o.loopString ∧ o.unionString ∧ o.userString ∧ o.rodataString ∧ o.optString

instance (o : MountOutcome) : Decidable o.Memory := inferInstanceAs (Decidable (_ ∧ _))

section Mount

variable (cfg : LoopConfig) (o : MountOutcome) (k : LoopKernel) (image id user srcMount appdata : CStr)

/-- A mount with memory, that cleans up if it fails. -/
def CleanMount : Prop :=
  user.length ≤ 63 → 0 ≤ loopAvailableGet o k → o.Memory ∧ CleanFailure cfg o k (loopAvailableGet o k) image id
    (mountFailure cfg o k (loopAvailableGet o k) image id user srcMount appdata)

/-- The kernel with a package mounted on device `n`. -/
def LoopKernel.withPackage (n : ℤ) (hb : k.bound n = none) (hs : 0 < (k.setFd n image hb).deviceSize n) (opt : CStr) :
    LoopKernel :=
  ((k.setFd n image hb).mountLoop n (imgDir cfg id) hs).mountUnion opt (unionDir cfg id)

/-- A mount: an error that leaves the kernel as it was, or a device that nothing was bound to. -/
inductive MountResult : ℤ × LoopKernel → Prop
  | failed (ret : ℤ) (hret : ret < 0) : MountResult (ret, k)
  | mounted (n : ℤ) (hn : 0 ≤ n) (hb : k.bound n = none) (hs : 0 < (k.setFd n image hb).deviceSize n) (opt : CStr) :
    MountResult (n, k.withPackage cfg image id n hb hs opt)

variable {cfg o k image id user srcMount appdata}

theorem loopReset_size (o : MountOutcome) (k : LoopKernel) (n : ℤ) : (loopReset o k n).size = k.size := by
  unfold loopReset
  split_ifs <;> rfl

/-- A device that nothing was bound to is as it was, and so is one that cannot be reset. -/
theorem loopReset_untouched {n : ℤ} (hu : ¬ k.InUse n) (h : k.bound n = none ∨ ¬ o.Resets) : loopReset o k n = k := by
  have hn := loopReset_unused o hu
  refine LoopKernel.ext (loopReset_size o k n) (funext fun m => ?_) (loopReset_mounts o k n)
  by_cases hm : m = n
  · rw [hm, hn]
    split_ifs with hr
    · exact (h.resolve_right (not_not.mpr hr)).symm
    · rfl
  · exact loopReset_bound_ne o k hm

/-- A device that was bound is free again. -/
theorem loopReset_setFd {n : ℤ} (hb : k.bound n = none) (hu : ¬ k.InUse n) (h : o.Resets) :
    loopReset o (k.setFd n image hb) n = k := by
  have hn := @loopReset_unused (k.setFd n image hb) n o hu
  refine LoopKernel.ext (loopReset_size o _ n) (funext fun m => ?_) (loopReset_mounts o _ n)
  by_cases hm : m = n
  · rw [hm, hn, if_pos h, hb]
  · rw [loopReset_bound_ne o _ hm]
    exact Function.update_of_ne hm _ _

/-- From the mounted image on. -/
theorem loopMountUnion_clean {n : ℤ} (hm : o.Memory) (hn : 0 ≤ n) (hb : k.bound n = none) (hu : ¬ k.InUse n)
    (hs : 0 < (k.setFd n image hb).deviceSize n)
    (hc : CleanFailure cfg o k n image id (unionFailure cfg o id user srcMount appdata)) :
    MountResult cfg k image id
      (loopMountUnion cfg o ((k.setFd n image hb).mountLoop n (imgDir cfg id) hs) n id user srcMount appdata) := by
  obtain ⟨-, -, -, h1, h2, h3, h4⟩ := hm
  unfold unionFailure at hc
  rw [if_neg (not_not.mpr ⟨h1, h2, h3⟩)] at hc
  unfold loopMountUnion
  rw [if_neg (by simp [h1]), if_neg (by simp [h2, h3])]
  by_cases hlegal : LegalDirnames cfg id user srcMount appdata
  · rw [if_neg hlegal, if_neg (by simp [h4])]
    rw [if_neg (not_not.mpr hlegal), if_neg (not_not.mpr h4)] at hc
    by_cases h5 : o.mountUnion = true
    · rw [if_neg (by simp [h5])]
      exact .mounted n hn hb hs _
    · rw [if_pos h5] at hc
      rw [if_pos (by simpa using h5), if_pos hc.1, LoopKernel.umount_mountLoop, mountFail, loopReset_setFd hb hu hc.2]
      exact .failed _ (by decide)
  · rw [if_pos hlegal] at hc
    exact hc.elim

/-- **A mount that cleans up.** -/
theorem dbpLoopMount_clean (h : CleanMount cfg o k image id user srcMount appdata) :
    MountResult cfg k image id (dbpLoopMount cfg o k image id user srcMount appdata) := by
  unfold dbpLoopMount
  by_cases huser : 63 < user.length
  · rw [if_pos huser]
    exact .failed _ (by decide)
  rw [if_neg huser]
  by_cases hn : loopAvailableGet o k < 0
  · simp only [if_pos hn]
    exact .failed _ (by decide)
  have hn' : 0 ≤ loopAvailableGet o k := by omega
  obtain ⟨hm, hc⟩ := h (by omega) hn'
  have hsize := deviceSize_available hn'
  have hu := k.not_inUse hsize
  have hset := loopSetup_cases o k image (loopAvailableGet o k)
  simp only [if_neg hn]
  generalize loopSetup o k image (loopAvailableGet o k) = s at hset ⊢
  generalize loopAvailableGet o k = n at hn' hsize hu hset hc ⊢
  have hstrings : o.imgString = true ∧ o.loopString = true := ⟨hm.2.1, hm.2.2.1⟩
  unfold mountFailure at hc
  cases hset with
  | error ret hret hno =>
    rw [if_pos hno] at hc
    rw [if_pos hret, mountFail, loopReset_untouched hu hc]
    exact .failed _ hret
  | unbound hopen hno =>
    have hsetup : o.openImage = true ∧ (o.setupString = true → o.setupOpen = true → o.setFd = true ∧ k.bound n = none) :=
      ⟨hopen, fun h1 h2 => absurd ⟨h1, h2⟩ hno⟩
    rw [if_neg (not_not.mpr hsetup), if_neg (not_not.mpr hstrings), if_pos hno] at hc
    simp only [lt_irrefl, ↓reduceIte, loopMountImg]
    rw [if_neg (by simp [hstrings.1]), if_neg (by simp [hstrings.2]), dif_neg (by omega), mountFail,
      loopReset_untouched hu hc]
    exact .failed _ (by decide)
  | bound hopen hset hb =>
    rw [if_neg (not_not.mpr ⟨hopen, fun _ _ => ⟨hset.2.2, hb⟩⟩), if_neg (not_not.mpr hstrings),
      if_neg (not_not.mpr ⟨hset.1, hset.2.1⟩)] at hc
    rw [if_neg (show ¬ (1 : ℤ) < 0 by decide)]
    unfold loopMountImg
    rw [if_neg (by simp [hstrings.1]), if_neg (by simp [hstrings.2])]
    by_cases himg : o.mountImg = true ∧ 0 < k.size image
    · rw [if_neg (not_not.mpr himg)] at hc
      rw [dif_pos (by rwa [LoopKernel.deviceSize_setFd])]
      exact loopMountUnion_clean hm hn' hb hu _ hc
    · rw [if_pos himg] at hc
      rw [dif_neg (by rwa [LoopKernel.deviceSize_setFd]), mountFail, loopReset_setFd hb hu hc]
      exact .failed _ (by decide)

end Mount

/-! ### Answers -/

/-- Something is mounted on a directory. -/
def LoopKernel.MountedOn (k : LoopKernel) (target : CStr) : Prop := ∃ m ∈ k.mounts, m.target = target

/-- What the kernel can answer to a call, and what it is then. A step of a teardown may fail at any time, and goes
through if there is something to take away. -/
inductive Answers (cfg : LoopConfig) (k : LoopKernel) : LoopEvent → LoopKernel → Prop
  | mount (o : MountOutcome) (image id user srcMount appdata : CStr) (h : CleanMount cfg o k image id user srcMount appdata) :
    Answers cfg k (.mount image id user srcMount appdata (dbpLoopMount cfg o k image id user srcMount appdata).1)
      (dbpLoopMount cfg o k image id user srcMount appdata).2
  | busyUnion (id : CStr) : Answers cfg k (.umountUnion id false) k
  | busyImg (id : CStr) : Answers cfg k (.umountImg id false) k
  | busyLoop (id : CStr) (n : ℤ) : Answers cfg k (.loopReset id n false) k
  | umountUnion (id : CStr) (h : k.MountedOn (unionDir cfg id)) :
    Answers cfg k (.umountUnion id true) (k.umount (unionDir cfg id))
  | umountImg (id : CStr) (h : k.MountedOn (imgDir cfg id)) : Answers cfg k (.umountImg id true) (k.umount (imgDir cfg id))
  | loopReset (id : CStr) (n : ℤ) (hb : k.bound n ≠ none) (hu : ¬ k.InUse n) :
    Answers cfg k (.loopReset id n true) (k.clrFd n hu)

theorem Answers.mount_inv {cfg : LoopConfig} {k k' : LoopKernel} {image id user srcMount appdata : CStr} {ret : ℤ}
    (h : Answers cfg k (.mount image id user srcMount appdata ret) k') : MountResult cfg k image id (ret, k') := by
  cases h with
  | mount o _ _ _ _ _ hclean => exact dbpLoopMount_clean hclean

/-- The answers to calls one after the other. -/
def AnswersAll (cfg : LoopConfig) : LoopKernel → List LoopEvent → LoopKernel → Prop
  | k, [], k' => k' = k
  | k, ev :: evs, k' => ∃ k₁, Answers cfg k ev k₁ ∧ AnswersAll cfg k₁ evs k'

theorem answersAll_append {cfg : LoopConfig} : ∀ {evs evs' : List LoopEvent} {k k' : LoopKernel},
    AnswersAll cfg k (evs ++ evs') k' ↔ ∃ k₁, AnswersAll cfg k evs k₁ ∧ AnswersAll cfg k₁ evs' k'
  | [], evs', k, k' => by simp [AnswersAll]
  | ev :: evs, evs', k, k' => by
    simp only [List.cons_append, AnswersAll, answersAll_append]
    constructor
    · rintro ⟨k₁, h1, k₂, h2, h3⟩
      exact ⟨k₂, ⟨k₁, h1, h2⟩, h3⟩
    · rintro ⟨k₂, ⟨k₁, h1, h2⟩, h3⟩
      exact ⟨k₁, h1, k₂, h2, h3⟩

theorem answersAll_singleton {cfg : LoopConfig} {ev : LoopEvent} {k k' : LoopKernel} :
    AnswersAll cfg k [ev] k' ↔ Answers cfg k ev k' := by
  simp [AnswersAll]

/-! ### What the kernel holds -/

/-- Neither of the directories for the mounts is inside the other. -/
def Separate (cfg : LoopConfig) : Prop :=
  ¬ cfg.imgMount ++ ['/'] <+: cfg.unionMount ++ ['/'] ∧ ¬ cfg.unionMount ++ ['/'] <+: cfg.imgMount ++ ['/']

instance (cfg : LoopConfig) : Decidable (Separate cfg) := inferInstanceAs (Decidable (_ ∧ _))

theorem Separate.ne {cfg : LoopConfig} (h : Separate cfg) (id id' : CStr) : imgDir cfg id ≠ unionDir cfg id' := by
  intro he
  have himg : cfg.imgMount ++ ['/'] <+: imgDir cfg id := ⟨id, by simp [imgDir]⟩
  have hunion : cfg.unionMount ++ ['/'] <+: imgDir cfg id := ⟨id', by simp [he, unionDir]⟩
  exact (List.prefix_or_prefix_of_prefix himg hunion).elim h.1 h.2

theorem imgDir_inj {cfg : LoopConfig} {id id' : CStr} : imgDir cfg id = imgDir cfg id' ↔ id = id' := by
  simp [imgDir]

theorem unionDir_inj {cfg : LoopConfig} {id id' : CStr} : unionDir cfg id = unionDir cfg id' ↔ id = id' := by
  simp [unionDir]

/-- How far each package is: its loop device, and how many steps of its teardown are done. -/
abbrev Stages := CStr → Option (ℤ × ℕ)

/-- A mount of a package in its stage: the union until the first step, the image until the second. -/
def Stages.Mounted (cfg : LoopConfig) (σ : Stages) (m : MountEntry) : Prop :=
  ∃ id n j, σ id = some (n, j) ∧ ((j < 2 ∧ m = ⟨.loop n, imgDir cfg id⟩) ∨ (j < 1 ∧ ∃ opt, m = ⟨.union opt, unionDir cfg id⟩))

/-- These are the mounts of the packages, each on a directory of its own. -/
structure MountsOf (cfg : LoopConfig) (σ : Stages) (top : List MountEntry) : Prop where
  nodup : (top.map (·.target)).Nodup
  only : ∀ m ∈ top, σ.Mounted cfg m
  img : ∀ {id : CStr} {n : ℤ} {j : ℕ}, σ id = some (n, j) → j < 2 → ⟨.loop n, imgDir cfg id⟩ ∈ top
  union : ∀ {id : CStr} {n : ℤ} {j : ℕ}, σ id = some (n, j) → j < 1 → ∃ opt, ⟨.union opt, unionDir cfg id⟩ ∈ top

/-- The devices of the packages are bound and were free, each package has its own, and the others are as they were. -/
structure DevicesOf (k₀ k : LoopKernel) (σ : Stages) : Prop where
  bound : ∀ {id : CStr} {n : ℤ} {j : ℕ}, σ id = some (n, j) → k₀.bound n = none ∧ k.bound n ≠ none
  excl : ∀ {id id' : CStr} {n : ℤ} {j j' : ℕ}, σ id = some (n, j) → σ id' = some (n, j') → id = id'
  others : ∀ n, (∀ id j, σ id ≠ some (n, j)) → k.bound n = k₀.bound n

/-- The kernel `k₀` with the packages of `σ` on top and nothing else. -/
structure KernelHolds (cfg : LoopConfig) (k₀ k : LoopKernel) (σ : Stages) : Prop where
  size : k.size = k₀.size
  mounts : ∃ top, k.mounts = k₀.mounts ++ top ∧ MountsOf cfg σ top
  devices : DevicesOf k₀ k σ

/-- An umount of a directory on top. -/
theorem mounts_umount {k : LoopKernel} {base top : List MountEntry} (hk : k.mounts = base ++ top)
    (hnd : (top.map (·.target)).Nodup) {m : MountEntry} (hm : m ∈ top) :
    ∃ top', (k.umount m.target).mounts = base ++ top' ∧ (top'.map (·.target)).Nodup ∧
      ∀ x, x ∈ top' ↔ x ∈ top ∧ x.target ≠ m.target := by
  obtain ⟨pre, post, rfl⟩ := List.append_of_mem hm
  rw [List.map_append, List.map_cons] at hnd
  have hne : ∀ x ∈ pre ++ post, x.target ≠ m.target := by
    intro x hx he
    have hnot := (List.nodup_cons.mp (List.nodup_middle.mp hnd)).1
    rw [← List.map_append] at hnot
    exact hnot (he ▸ List.mem_map_of_mem hx)
  refine ⟨pre ++ post, ?_, ?_, fun x => ?_⟩
  · show (k.mounts.reverse.eraseP (·.target == m.target)).reverse = base ++ (pre ++ post)
    have hpost : ∀ x ∈ post.reverse, ¬ (x.target == m.target) = true := fun x hx => by
      simpa using hne x (List.mem_append_right _ (List.mem_reverse.mp hx))
    rw [hk, List.reverse_append, List.reverse_append, List.reverse_cons, List.append_assoc, List.append_assoc,
      List.eraseP_append_right _ hpost, List.singleton_append, List.eraseP_cons_of_pos (by simp)]
    simp
  · rw [List.map_append]
    exact (List.nodup_cons.mp (List.nodup_middle.mp hnd)).2
  · constructor
    · exact fun hx => ⟨mem_of_rest rfl hx, hne x hx⟩
    · rintro ⟨hx, hxm⟩
      rcases List.mem_append.mp hx with hx | hx
      · exact List.mem_append_left _ hx
      · rcases List.mem_cons.mp hx with rfl | hx
        · exact absurd rfl hxm
        · exact List.mem_append_right _ hx

section Steps

variable {cfg : LoopConfig} {k₀ k : LoopKernel} {σ : Stages} {id : CStr} {n : ℤ}

namespace DevicesOf

/-- Another stage on the same device. -/
theorem move (h : DevicesOf k₀ k σ) {j : ℕ} (hid : σ id = some (n, j)) (j' : ℕ) {k' : LoopKernel}
    (hk : k'.bound = k.bound) : DevicesOf k₀ k' (Function.update σ id (some (n, j'))) := by
  have hback : ∀ {id' : CStr} {m : ℤ} {i : ℕ}, Function.update σ id (some (n, j')) id' = some (m, i) →
      ∃ i', σ id' = some (m, i') := by
    intro id' m i hm
    rw [Function.update_apply] at hm
    split_ifs at hm with he
    · rw [Option.some.injEq, Prod.mk.injEq] at hm
      exact ⟨j, he ▸ hm.1 ▸ hid⟩
    · exact ⟨i, hm⟩
  refine ⟨fun hm => ?_, fun hm hm' => ?_, fun m hno => ?_⟩
  · obtain ⟨i', hi'⟩ := hback hm
    exact hk ▸ h.bound hi'
  · obtain ⟨i, hi⟩ := hback hm
    obtain ⟨i', hi'⟩ := hback hm'
    exact h.excl hi hi'
  · rw [hk]
    refine h.others m fun id' i hm => ?_
    by_cases he : id' = id
    · rw [he, hid, Option.some.injEq, Prod.mk.injEq] at hm
      exact hno id j' (by rw [Function.update_self, hm.1])
    · exact hno id' i (by rwa [Function.update_of_ne he])

/-- A device that is bound. -/
theorem acquire (h : DevicesOf k₀ k σ) (hid : σ id = none) (hb : k.bound n = none) {k' : LoopKernel} {image : CStr}
    (hk : k'.bound = Function.update k.bound n (some image)) :
    DevicesOf k₀ k' (Function.update σ id (some (n, 0))) := by
  have hfree : ∀ {id' : CStr} {j : ℕ}, σ id' ≠ some (n, j) := fun hm => (h.bound hm).2 hb
  have hback : ∀ {id' : CStr} {m : ℤ} {j : ℕ}, Function.update σ id (some (n, 0)) id' = some (m, j) →
      (id' = id ∧ m = n) ∨ (m ≠ n ∧ σ id' = some (m, j)) := by
    intro id' m j hm
    rw [Function.update_apply] at hm
    split_ifs at hm with he
    · rw [Option.some.injEq, Prod.mk.injEq] at hm
      exact .inl ⟨he, hm.1.symm⟩
    · exact .inr ⟨fun hmn => hfree (hmn ▸ hm), hm⟩
  refine ⟨fun hm => ?_, fun hm hm' => ?_, fun m hno => ?_⟩
  · rcases hback hm with ⟨-, rfl⟩ | ⟨hne, hm⟩
    · exact ⟨(h.others _ fun _ _ => hfree).symm.trans hb, by simp [hk]⟩
    · rw [hk, Function.update_of_ne hne]
      exact h.bound hm
  · rcases hback hm with ⟨rfl, rfl⟩ | ⟨hne, hm⟩
    · rcases hback hm' with ⟨rfl, -⟩ | ⟨hne, -⟩
      · rfl
      · exact absurd rfl hne
    · rcases hback hm' with ⟨-, rfl⟩ | ⟨-, hm'⟩
      · exact absurd rfl hne
      · exact h.excl hm hm'
  · have hne : m ≠ n := by
      rintro rfl
      exact hno id 0 (Function.update_self ..)
    rw [hk, Function.update_of_ne hne]
    refine h.others m fun id' j hm => hno id' j ?_
    rw [Function.update_of_ne, hm]
    rintro rfl
    rw [hid] at hm
    cases hm

/-- A device that is free again. -/
theorem release (h : DevicesOf k₀ k σ) {j : ℕ} (hid : σ id = some (n, j)) {k' : LoopKernel}
    (hk : k'.bound = Function.update k.bound n none) : DevicesOf k₀ k' (Function.update σ id none) := by
  have hback : ∀ {id' : CStr} {m : ℤ} {i : ℕ}, Function.update σ id none id' = some (m, i) → m ≠ n ∧ σ id' = some (m, i) := by
    intro id' m i hm
    rw [Function.update_apply] at hm
    split_ifs at hm with he
    exact ⟨fun hmn => he (h.excl (hmn ▸ hm) hid), hm⟩
  refine ⟨fun hm => ?_, fun hm hm' => h.excl (hback hm).2 (hback hm').2, fun m hno => ?_⟩
  · obtain ⟨hne, hm⟩ := hback hm
    rw [hk, Function.update_of_ne hne]
    exact h.bound hm
  · by_cases hne : m = n
    · rw [hk, hne, Function.update_self, (h.bound hid).1]
    · rw [hk, Function.update_of_ne hne]
      refine h.others m fun id' i hm => hno id' i ?_
      rw [Function.update_of_ne, hm]
      rintro rfl
      rw [hid, Option.some.injEq, Prod.mk.injEq] at hm
      exact hne hm.1.symm

end DevicesOf

/-- A mount on the directory of an image is that package's. -/
theorem Stages.Mounted.of_img (hcfg : Separate cfg) {m : MountEntry} (h : σ.Mounted cfg m)
    (hm : m.target = imgDir cfg id) : ∃ n j, σ id = some (n, j) ∧ j < 2 := by
  obtain ⟨id', n, j, hσ, ⟨hj, rfl⟩ | ⟨hj, opt, rfl⟩⟩ := h
  · exact ⟨n, j, imgDir_inj.mp hm ▸ hσ, hj⟩
  · exact absurd hm.symm (hcfg.ne _ _)

/-- A mount on the directory of a union is that package's. -/
theorem Stages.Mounted.of_union (hcfg : Separate cfg) {m : MountEntry} (h : σ.Mounted cfg m)
    (hm : m.target = unionDir cfg id) : ∃ n j, σ id = some (n, j) ∧ j < 1 := by
  obtain ⟨id', n, j, hσ, ⟨hj, rfl⟩ | ⟨hj, opt, rfl⟩⟩ := h
  · exact absurd hm (hcfg.ne _ _)
  · exact ⟨n, j, unionDir_inj.mp hm ▸ hσ, hj⟩

namespace MountsOf

variable {top top' : List MountEntry}

/-- A package that is mounted. -/
theorem mount (hcfg : Separate cfg) (h : MountsOf cfg σ top) (hid : σ id = none) (n : ℤ) (opt : CStr) :
    MountsOf cfg (Function.update σ id (some (n, 0)))
      (top ++ [⟨.loop n, imgDir cfg id⟩, ⟨.union opt, unionDir cfg id⟩]) := by
  have hnone : ∀ {m : ℤ} {j : ℕ}, σ id ≠ some (m, j) := by simp [hid]
  refine ⟨?_, fun m hm => ?_, fun {id' m j} hm hj => ?_, fun {id' m j} hm hj => ?_⟩
  · rw [List.map_append, List.nodup_append]
    refine ⟨h.nodup, by simp [hcfg.ne], fun t ht t' ht' he => ?_⟩
    obtain ⟨m, hm, rfl⟩ := List.mem_map.mp ht
    simp only [List.map_cons, List.map_nil, List.mem_cons, List.not_mem_nil, or_false] at ht'
    rcases ht' with rfl | rfl
    · obtain ⟨n, j, hσ, -⟩ := (h.only m hm).of_img hcfg he
      exact hnone hσ
    · obtain ⟨n, j, hσ, -⟩ := (h.only m hm).of_union hcfg he
      exact hnone hσ
  · have hself : Function.update σ id (some (n, 0)) id = some (n, 0) := Function.update_self ..
    simp only [List.mem_append, List.mem_cons, List.not_mem_nil, or_false] at hm
    rcases hm with hm | rfl | rfl
    · obtain ⟨id', n', j, hσ, hcase⟩ := h.only m hm
      have hne : id' ≠ id := fun he => hnone (he ▸ hσ)
      exact ⟨id', n', j, by rwa [Function.update_of_ne hne], hcase⟩
    · exact ⟨id, n, 0, hself, .inl ⟨by decide, rfl⟩⟩
    · exact ⟨id, n, 0, hself, .inr ⟨by decide, opt, rfl⟩⟩
  · rw [Function.update_apply] at hm
    split_ifs at hm with he
    · simp only [Option.some.injEq, Prod.mk.injEq] at hm
      simp [he, hm.1]
    · exact List.mem_append_left _ (h.img hm hj)
  · rw [Function.update_apply] at hm
    split_ifs at hm with he
    · exact ⟨opt, by simp [he]⟩
    · obtain ⟨opt', hopt⟩ := h.union hm hj
      exact ⟨opt', List.mem_append_left _ hopt⟩

/-- The union is gone. -/
theorem umountUnion (hcfg : Separate cfg) (h : MountsOf cfg σ top) (hid : σ id = some (n, 0))
    (hnd : (top'.map (·.target)).Nodup) (hmem : ∀ x, x ∈ top' ↔ x ∈ top ∧ x.target ≠ unionDir cfg id) :
    MountsOf cfg (Function.update σ id (some (n, 1))) top' := by
  have hself : Function.update σ id (some (n, 1)) id = some (n, 1) := Function.update_self ..
  refine ⟨hnd, fun m hm => ?_, fun {id' m j} hm hj => ?_, fun {id' m j} hm hj => ?_⟩
  · obtain ⟨hm, hne⟩ := (hmem m).mp hm
    obtain ⟨id', n', j, hσ, hcase⟩ := h.only m hm
    by_cases he : id' = id
    · subst he
      rw [hid, Option.some.injEq, Prod.mk.injEq] at hσ
      obtain ⟨rfl, rfl⟩ := hσ
      rcases hcase with ⟨-, rfl⟩ | ⟨-, opt, rfl⟩
      · exact ⟨id', n, 1, hself, .inl ⟨by decide, rfl⟩⟩
      · exact absurd rfl hne
    · exact ⟨id', n', j, by rwa [Function.update_of_ne he], hcase⟩
  · refine (hmem _).mpr ⟨?_, hcfg.ne _ _⟩
    rw [Function.update_apply] at hm
    split_ifs at hm with he
    · simp only [Option.some.injEq, Prod.mk.injEq] at hm
      exact he ▸ hm.1 ▸ h.img hid (by decide)
    · exact h.img hm hj
  · rw [Function.update_apply] at hm
    split_ifs at hm with he
    · simp only [Option.some.injEq, Prod.mk.injEq] at hm
      omega
    · obtain ⟨opt, hopt⟩ := h.union hm hj
      exact ⟨opt, (hmem _).mpr ⟨hopt, fun ht => he (unionDir_inj.mp ht)⟩⟩

/-- The image is gone. -/
theorem umountImg (hcfg : Separate cfg) (h : MountsOf cfg σ top) (hid : σ id = some (n, 1))
    (hnd : (top'.map (·.target)).Nodup) (hmem : ∀ x, x ∈ top' ↔ x ∈ top ∧ x.target ≠ imgDir cfg id) :
    MountsOf cfg (Function.update σ id (some (n, 2))) top' := by
  refine ⟨hnd, fun m hm => ?_, fun {id' m j} hm hj => ?_, fun {id' m j} hm hj => ?_⟩
  · obtain ⟨hm, hne⟩ := (hmem m).mp hm
    obtain ⟨id', n', j, hσ, hcase⟩ := h.only m hm
    have he : id' ≠ id := by
      rintro rfl
      rw [hid, Option.some.injEq, Prod.mk.injEq] at hσ
      rcases hcase with ⟨-, rfl⟩ | ⟨hj, -⟩
      · exact hne rfl
      · omega
    exact ⟨id', n', j, by rwa [Function.update_of_ne he], hcase⟩
  · rw [Function.update_apply] at hm
    split_ifs at hm with he
    · simp only [Option.some.injEq, Prod.mk.injEq] at hm
      omega
    · exact (hmem _).mpr ⟨h.img hm hj, fun ht => he (imgDir_inj.mp ht)⟩
  · rw [Function.update_apply] at hm
    split_ifs at hm with he
    · simp only [Option.some.injEq, Prod.mk.injEq] at hm
      omega
    · obtain ⟨opt, hopt⟩ := h.union hm hj
      exact ⟨opt, (hmem _).mpr ⟨hopt, (hcfg.ne _ _).symm⟩⟩

/-- A package with nothing mounted is gone. -/
theorem drop (h : MountsOf cfg σ top) (hid : σ id = some (n, 2)) : MountsOf cfg (Function.update σ id none) top := by
  refine ⟨h.nodup, fun m hm => ?_, fun {id' m j} hm hj => ?_, fun {id' m j} hm hj => ?_⟩
  · obtain ⟨id', n', j, hσ, hcase⟩ := h.only m hm
    have he : id' ≠ id := by
      rintro rfl
      rw [hid, Option.some.injEq, Prod.mk.injEq] at hσ
      omega
    exact ⟨id', n', j, by rwa [Function.update_of_ne he], hcase⟩
  all_goals
    rw [Function.update_apply] at hm
    split_ifs at hm
  · exact h.img hm hj
  · exact h.union hm hj

end MountsOf

namespace KernelHolds

/-- Nothing is held to begin with. -/
theorem base (cfg : LoopConfig) (k : LoopKernel) : KernelHolds cfg k k fun _ => none :=
  ⟨rfl, ⟨[], by simp, ⟨by simp, by simp, by simp, by simp⟩⟩, ⟨by simp, by simp, by simp⟩⟩

/-- Where nothing is held, the kernel is as it was. -/
theorem eq_base (h : KernelHolds cfg k₀ k σ) (hσ : ∀ id, σ id = none) : k = k₀ := by
  obtain ⟨top, hk, htop⟩ := h.mounts
  have hnil : top = [] := by
    refine List.eq_nil_iff_forall_not_mem.mpr fun m hm => ?_
    obtain ⟨id, n, j, hid, -⟩ := htop.only m hm
    simp [hσ id] at hid
  refine LoopKernel.ext h.size (funext fun n => h.devices.others n fun id j hid => ?_) (by rw [hk, hnil, List.append_nil])
  simp [hσ id] at hid

/-- A mount. -/
theorem mount (hcfg : Separate cfg) (h : KernelHolds cfg k₀ k σ) (hid : σ id = none) {image : CStr} (hb : k.bound n = none)
    (hs : 0 < (k.setFd n image hb).deviceSize n) (opt : CStr) :
    KernelHolds cfg k₀ (k.withPackage cfg image id n hb hs opt) (Function.update σ id (some (n, 0))) := by
  obtain ⟨top, hk, htop⟩ := h.mounts
  refine ⟨h.size, ⟨_, ?_, htop.mount hcfg hid n opt⟩, h.devices.acquire hid hb rfl⟩
  show k.mounts ++ [_] ++ [_] = _
  rw [hk]
  simp

/-- The first step of a teardown. -/
theorem umountUnion (hcfg : Separate cfg) (h : KernelHolds cfg k₀ k σ) (hid : σ id = some (n, 0)) :
    KernelHolds cfg k₀ (k.umount (unionDir cfg id)) (Function.update σ id (some (n, 1))) := by
  obtain ⟨top, hk, htop⟩ := h.mounts
  obtain ⟨opt, hopt⟩ := htop.union hid (by decide)
  obtain ⟨top', hk', hnd, hmem⟩ := mounts_umount hk htop.nodup hopt
  exact ⟨h.size, ⟨top', hk', htop.umountUnion hcfg hid hnd hmem⟩, h.devices.move hid 1 rfl⟩

/-- The second step. -/
theorem umountImg (hcfg : Separate cfg) (h : KernelHolds cfg k₀ k σ) (hid : σ id = some (n, 1)) :
    KernelHolds cfg k₀ (k.umount (imgDir cfg id)) (Function.update σ id (some (n, 2))) := by
  obtain ⟨top, hk, htop⟩ := h.mounts
  obtain ⟨top', hk', hnd, hmem⟩ := mounts_umount hk htop.nodup (htop.img hid (by decide))
  exact ⟨h.size, ⟨top', hk', htop.umountImg hcfg hid hnd hmem⟩, h.devices.move hid 2 rfl⟩

/-- The last step. -/
theorem loopReset (h : KernelHolds cfg k₀ k σ) (hid : σ id = some (n, 2)) (hu : ¬ k.InUse n) :
    KernelHolds cfg k₀ (k.clrFd n hu) (Function.update σ id none) := by
  obtain ⟨top, hk, htop⟩ := h.mounts
  exact ⟨h.size, ⟨top, hk, htop.drop hid⟩, h.devices.release hid rfl⟩

/-- A package that is not torn down has its image and its union, on a device bound to something. -/
theorem in_place (h : KernelHolds cfg k₀ k σ) (hid : σ id = some (n, 0)) : k.bound n ≠ none ∧
    ⟨.loop n, imgDir cfg id⟩ ∈ k.mounts ∧ ∃ opt, ⟨.union opt, unionDir cfg id⟩ ∈ k.mounts := by
  obtain ⟨top, hk, htop⟩ := h.mounts
  obtain ⟨opt, hopt⟩ := htop.union hid (by decide)
  rw [hk]
  exact ⟨(h.devices.bound hid).2, List.mem_append_right _ (htop.img hid (by decide)), opt, List.mem_append_right _ hopt⟩

/-- A device whose image is gone is not in use. -/
theorem not_inUse (h : KernelHolds cfg k₀ k σ) (hid : σ id = some (n, 2)) : ¬ k.InUse n := by
  rintro ⟨m, hm, hsource⟩
  obtain ⟨top, hk, htop⟩ := h.mounts
  rw [hk] at hm
  rcases List.mem_append.mp hm with hm | hm
  · have hfree := k₀.used m hm n hsource
    rw [(h.devices.bound hid).1] at hfree
    exact absurd hfree (by simp)
  · obtain ⟨id', n', j, hid', ⟨hj, rfl⟩ | ⟨-, opt, rfl⟩⟩ := htop.only m hm
    · obtain rfl : n' = n := by simpa using hsource
      obtain rfl := h.devices.excl hid' hid
      rw [hid, Option.some.injEq, Prod.mk.injEq] at hid'
      omega
    · cases hsource

/-- A step of a teardown that is due has something to take away. -/
theorem mountedOn (h : KernelHolds cfg k₀ k σ) {j : ℕ} (hid : σ id = some (n, j)) :
    (j < 1 → k.MountedOn (unionDir cfg id)) ∧ (j < 2 → k.MountedOn (imgDir cfg id)) := by
  obtain ⟨top, hk, htop⟩ := h.mounts
  refine ⟨fun hj => ?_, fun hj => ⟨_, hk ▸ List.mem_append_right _ (htop.img hid hj), rfl⟩⟩
  obtain ⟨opt, hopt⟩ := htop.union hid hj
  exact ⟨_, hk ▸ List.mem_append_right _ hopt, rfl⟩

end KernelHolds

end Steps

end Dbp
