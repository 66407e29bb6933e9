/-
# Releasing a device

`package_release_mount` deletes from the array it goes over, and steps back
after each deletion; an entry whose id is at the address of the one before is
passed over as unkillable. With the ids at addresses of their own none is: the
call keeps the entries of the other devices, as they are and in their order,
and announces the removal of each of the others once, in order
(`releaseMount_filter`).

Key definitions: `Signal.removedId`.
Key theorems: `packageKillFiles_removes`, `foldl_kills_removes`, `releaseMount_filter`.
-/
import Dbp.Daemon.MainLoop

namespace Dbp

open CLib Sweep

/-- The package that a signal announces the removal of. -/
def Signal.removedId : Signal → Option CStr
  | .removePackage id => some id
  | _ => none

/-- Killing a package announces its removal once, besides those of its launchers. -/
theorem packageKillFiles_removes (cfg : DBPConfig) (d : Daemon) (p : PackageEntry) : ∃ emitted,
    (packageKillFiles cfg d p).signals = d.signals ++ emitted ∧ emitted.filterMap (·.removedId) = [p.id] := by
  refine ⟨_, List.append_assoc .., ?_⟩
  rw [List.filterMap_append]
  split_ifs
  · rw [List.filterMap_map]
    have hnone : Signal.removedId ∘ (fun name => Signal.removeMeta (cfg.desktopDirectory ++ lit "/" ++ name)) =
        fun _ => none := rfl
    rw [hnone, List.filterMap_none]
    rfl
  · rfl

/-- Killing packages one after the other announces their removals in order. -/
theorem foldl_kills_removes (cfg : DBPConfig) : ∀ (ps : List PackageEntry) (d : Daemon), ∃ emitted,
    (ps.foldl (packageKillFiles cfg) d).signals = d.signals ++ emitted ∧
      emitted.filterMap (·.removedId) = ps.map (·.id)
  | [], d => ⟨[], (List.append_nil _).symm, rfl⟩
  | p :: ps, d => by
    obtain ⟨first, hfirst, hid⟩ := packageKillFiles_removes cfg d p
    obtain ⟨rest, hrest, hids⟩ := foldl_kills_removes cfg ps (packageKillFiles cfg d p)
    refine ⟨first ++ rest, ?_, ?_⟩
    · rw [List.foldl_cons, hrest, hfirst, List.append_assoc]
    · rw [List.filterMap_append, hid, hids]
      rfl

/-- **Releasing a device.** The call filters the registry, and announces the removal of each package it takes out. -/
theorem releaseMount_filter (cfg : DBPConfig) {d : Daemon} (h : PtrsNodup d) (device : CStr) :
    (packageReleaseMount cfg d device).p.entry = d.p.entry.filter (·.device ≠ device) ∧
      ∃ emitted, (packageReleaseMount cfg d device).signals = d.signals ++ emitted ∧
        emitted.filterMap (·.removedId) = (d.p.entry.filter (·.device = device)).map (·.id) := by
  refine ⟨entries_releaseMount cfg h device, ?_⟩
  have hstate := (releaseVisit_split cfg device d.p.entry none d h fun _ _ => by simp).1
  have hsignals : (packageReleaseMount cfg d device).signals =
      (mapKeep (releaseVisit cfg device) (none, d) d.p.entry).1.2.signals := by rw [packageReleaseMount_eq]
  rw [hsignals, hstate]
  exact foldl_kills_removes cfg _ d

/-- Two packages of a device, one after the other. -/
theorem releaseMount_filter_two :
    let d : Daemon := { Daemon.init [] [] [] with
      p := { packageInit with entry :=
        [⟨lit "/m/a.dbp", lit "a", 1, lit "desk", lit "/dev/sda1", lit "/m", lit "a", [], [], [], []⟩,
          ⟨lit "/m/b.dbp", lit "b", 2, lit "nodesk", lit "/dev/sda1", lit "/m", lit "b", [], [], [], []⟩,
          ⟨lit "/n/c.dbp", lit "c", 3, lit "nodesk", lit "/dev/sdb1", lit "/n", lit "c", [], [], [], []⟩] } }
    (packageReleaseMount demoConfig d (lit "/dev/sda1")).p.entry = d.p.entry.filter (·.device ≠ lit "/dev/sda1") ∧
      ∃ emitted, (packageReleaseMount demoConfig d (lit "/dev/sda1")).signals = d.signals ++ emitted ∧
        emitted.filterMap (·.removedId) = (d.p.entry.filter (·.device = lit "/dev/sda1")).map (·.id) :=
  releaseMount_filter demoConfig (by unfold PtrsNodup; decide) (lit "/dev/sda1")

end Dbp
