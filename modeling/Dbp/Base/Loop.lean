/-
# Loop devices and mounts

`libdbpbase/loop.c`, as far as the daemon's bookkeeping depends on it.
`dbpLoopUmount` is the teardown of a package in three steps (umount of the
union, umount of the image, reset of the loop device), resumed where the
last attempt failed: small negative numbers are at once its result and the
point to resume from. The outcome of each step is the kernel's
(`TeardownOutcome`), and every attempt is recorded as a `LoopEvent`, as is
every `dbp_loop_mount`.

Key definitions: `LoopEvent`, `dbpLoopUmount`, `dbpLoopDesktopDirectory`.
Key theorems: `teardownOf_umount`.
-/
import Dbp.C.String

namespace Dbp

open CLib

/-- What the daemon asked of the kernel's loop devices and mounts. -/
inductive LoopEvent
  /-- `dbp_loop_mount` of an image returned the loop number, or an error. -/
  | mount (image id user srcMount appdata : CStr) (ret : ℤ)
  /-- An `umount` of the union of a package. -/
  | umountUnion (id : CStr) (ok : Bool)
  /-- An `umount` of the image of a package. -/
  | umountImg (id : CStr) (ok : Bool)
  /-- A `loop_reset` of a package's loop device. -/
  | loopReset (id : CStr) (loop : ℤ) (ok : Bool)
deriving Repr, DecidableEq

/-- Which of the three teardown steps succeed, if attempted. -/
structure TeardownOutcome where
  union : Bool
  img : Bool
  reset : Bool
deriving Repr, DecidableEq

/-- `dbp_loop_umount` from the label `loop` on. -/
def loopUmountLoop (o : TeardownOutcome) (pkgId : CStr) (loop : ℤ) : ℤ × List LoopEvent :=
  (if o.reset then 0 else -3, [.loopReset pkgId loop o.reset])

/-- `dbp_loop_umount` from the label `img_path` on. -/
def loopUmountImg (o : TeardownOutcome) (pkgId : CStr) (loop prevState : ℤ) : ℤ × List LoopEvent :=
  if prevState < -2 then loopUmountLoop o pkgId loop
  else if o.img then
    ((loopUmountLoop o pkgId loop).1, .umountImg pkgId true :: (loopUmountLoop o pkgId loop).2)
  else (-2, [.umountImg pkgId false])

/-- `dbp_loop_umount`: the new state of the teardown, 0 when it is complete,
and the attempts made. -/
def dbpLoopUmount (o : TeardownOutcome) (pkgId : CStr) (loop prevState : ℤ) : ℤ × List LoopEvent :=
  if prevState < -1 then loopUmountImg o pkgId loop prevState
  else
    let prevState := if prevState < 0 then prevState else 1
    if o.union then
      ((loopUmountImg o pkgId loop prevState).1,
        .umountUnion pkgId true :: (loopUmountImg o pkgId loop prevState).2)
    else (prevState, [.umountUnion pkgId false])

/-- The package whose teardown an event belongs to. -/
def LoopEvent.teardownOf : LoopEvent → Option CStr
  | .mount .. => none
  | .umountUnion id _ => some id
  | .umountImg id _ => some id
  | .loopReset id _ _ => some id

/-- A teardown touches its own package only. -/
theorem teardownOf_umount (o : TeardownOutcome) (pkgId : CStr) (loop prevState : ℤ) :
    ∀ ev ∈ (dbpLoopUmount o pkgId loop prevState).2, ev.teardownOf = some pkgId := by
  have hl : ∀ ev ∈ (loopUmountLoop o pkgId loop).2, ev.teardownOf = some pkgId := by
    simp [loopUmountLoop, LoopEvent.teardownOf]
  have hi : ∀ prev, ∀ ev ∈ (loopUmountImg o pkgId loop prev).2, ev.teardownOf = some pkgId := by
    intro prev
    unfold loopUmountImg
    split_ifs
    · exact hl
    · exact List.forall_mem_cons.mpr ⟨rfl, hl⟩
    · simp [LoopEvent.teardownOf]
  unfold dbpLoopUmount
  by_cases hp : prevState < -1
  · simp only [hp, ↓reduceIte]
    exact hi _
  · simp only [hp, ↓reduceIte]
    cases o.union
    · simp [LoopEvent.teardownOf]
    · exact List.forall_mem_cons.mpr ⟨rfl, hi _⟩

/-- `dbp_loop_desktop_directory`: nothing after the first `desktop/` is a `/`. -/
def dbpLoopDesktopDirectory (path : CStr) : Bool :=
  match strstr (lit "desktop/") path with
  | none => false
  | some s => '/' ∉ s.drop (lit "desktop/").length

end Dbp
