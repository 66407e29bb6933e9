/-
# Mount tracking

The entries of the mount watch against the mount table, as pairs of a mount
point and a device. A line of the table marks the entries that share its
mount point or its device, so an entry whose pair is gone stays when it
shares one with a line, unless the line's own pair comes before it
(`diff_tracks_iff`). Over a run, the entries are the pairs of the latest
table, and the changes returned are the difference to the one before,
exactly when this never happens and no two mounts of an unchanged table
share a mount point or a device (`mount_tracking`).

Key definitions: `MountPair`, `Shares`, `Trackable`, `Tracks`, `Watched`.
Key theorems: `diffLines`, `mountwatchDiff_snapshot`, `diff_tracks_iff`, `mount_tracking`.
-/
import Dbp.Daemon.Mountwatch
import Dbp.Lib.Tracker
import Dbp.Lib.Run

namespace Dbp

open CLib Sweep Tracker Runs

/-! ### Pairs -/

/-- A mount point and a device. -/
structure MountPair where
  mount : CStr
  device : CStr
deriving DecidableEq, Repr

/-- Pairs with the same mount point or the same device. -/
def Shares (a b : MountPair) : Prop := a.mount = b.mount ∨ a.device = b.device

instance : DecidableRel Shares := fun a b => inferInstanceAs (Decidable (a.mount = b.mount ∨ _))

/-- The pair of an entry. -/
def MountwatchEntry.pair (e : MountwatchEntry) : MountPair := ⟨e.mount, e.device⟩

/-- The pair of a line. -/
def MountLine.pair (line : MountLine) : MountPair := ⟨line.mount, line.device⟩

/-- The pairs of the eligible lines. -/
def eligiblePairs (lines : List MountLine) : List MountPair := (lines.filter (·.eligible)).map (·.pair)

/-- The tracked pairs. -/
def Mountwatch.pairs (w : Mountwatch) : List MountPair := w.entry.map (·.pair)

/-- The pairs in the changes of one kind. -/
def changesOf (tag : MountwatchTag) (change : List MountwatchChange) : List MountPair :=
  (change.filter (·.tag = tag)).map fun c => ⟨c.mount, c.device⟩

/-- The changes that are about mounts, not about package files. -/
def mountChanges (change : List MountwatchChange) : List MountwatchChange :=
  change.filter fun c => c.tag = .removed ∨ c.tag = .added ∨ c.tag = .changed

@[simp] theorem changesOf_append (tag : MountwatchTag) (cs ds : List MountwatchChange) :
    changesOf tag (cs ++ ds) = changesOf tag cs ++ changesOf tag ds := by
  simp [changesOf]

theorem changesOf_eq_nil {tag : MountwatchTag} {cs : List MountwatchChange} (h : ∀ c ∈ cs, c.tag ≠ tag) :
    changesOf tag cs = [] := by
  rw [changesOf, List.map_eq_nil_iff, List.filter_eq_nil_iff]
  intro c hc
  simp [h c hc]

@[simp] theorem mountChanges_append (cs ds : List MountwatchChange) :
    mountChanges (cs ++ ds) = mountChanges cs ++ mountChanges ds := by
  simp [mountChanges]

theorem mem_inotifyTags {mask : ℕ} {tag : MountwatchTag} (h : tag ∈ inotifyTags mask) :
    tag = .pkgAdded ∨ tag = .pkgRemoved := by
  simp only [inotifyTags, List.mem_append] at h
  rcases h with (h | h) | h
  · split_ifs at h
    · simpa [or_comm] using h
    · cases h
  · split_ifs at h
    · exact .inr (by simpa using h)
    · cases h
  · split_ifs at h
    · exact .inl (by simpa using h)
    · cases h

/-- What a change of a directory event says. -/
theorem mem_inotifyHandle {ientry : List MountwatchInotify} {events : List InotifyEvent} {c : MountwatchChange}
    (h : c ∈ mountwatchInotifyHandle ientry events) : ∃ ie ∈ events, ∃ i ∈ ientry, ∃ tag ∈ inotifyTags ie.mask,
      c = ⟨i.mount, i.device, i.path ++ '/' :: ie.name, tag⟩ := by
  obtain ⟨ie, hie, hc⟩ := List.mem_flatMap.mp h
  unfold inotifyChanges at hc
  split_ifs at hc with hname
  · cases hc
  · cases hi : ientry.find? (·.handle == ie.wd) with
    | none => simp [hi] at hc
    | some i =>
      obtain ⟨tag, htag, rfl⟩ : ∃ tag ∈ inotifyTags ie.mask, _ = c := by simpa [hi] using hc
      exact ⟨ie, hie, i, List.mem_of_find?_eq_some hi, tag, htag, rfl⟩

/-- Directory events are about package files. -/
theorem inotify_tags (ientry : List MountwatchInotify) (events : List InotifyEvent) :
    ∀ c ∈ mountwatchInotifyHandle ientry events, c.tag = .pkgAdded ∨ c.tag = .pkgRemoved := by
  intro c hc
  obtain ⟨ie, -, i, -, tag, htag, rfl⟩ := mem_inotifyHandle hc
  exact mem_inotifyTags htag

/-! ### A line -/

section Config

variable (cfg : DBPConfig) (addWatch : CStr → ℤ)

/-- The entries as items with marks. -/
def marks (es : List MountwatchEntry) : List (MountPair × Bool) := es.map fun e => (e.pair, e.tag)

theorem marks_fst (es : List MountwatchEntry) : (marks es).map Prod.fst = es.map (·.pair) := by
  simp [marks]

@[simp] theorem marks_cons (e : MountwatchEntry) (es : List MountwatchEntry) :
    marks (e :: es) = (e.pair, e.tag) :: marks es := rfl

/-- A turn of the loop over the entries. -/
theorem matchEntries_cons (p : MountPair) (s : Diff) (e : MountwatchEntry) (es : List MountwatchEntry) :
    matchEntries cfg addWatch p.mount p.device s (e :: es) =
      if e.pair = p then ({ e with tag := true } :: es, s, true)
      else
        let r := matchEntries cfg addWatch p.mount p.device
          (if Shares e.pair p then s.changed cfg addWatch e p.mount p.device else s) es
        ({ e with tag := e.tag || decide (Shares e.pair p) } :: r.1, r.2) := by
  obtain ⟨mount, device⟩ := p
  obtain ⟨m, d, t⟩ := e
  rw [matchEntries]
  by_cases hm : m = mount <;> by_cases hd : d = device <;>
    simp [MountwatchEntry.pair, Shares, hm, hd]

/-- The loop marks as the search for the pair does, and breaks if it finds it. -/
theorem matchEntries_marks (p : MountPair) (es : List MountwatchEntry) (s : Diff) :
    marks (matchEntries cfg addWatch p.mount p.device s es).1 = mark Shares p (marks es) ∧
      (matchEntries cfg addWatch p.mount p.device s es).2.2 = decide (p ∈ es.map (·.pair)) := by
  induction es generalizing s with
  | nil => exact ⟨rfl, rfl⟩
  | cons e es ih =>
    rw [matchEntries_cons, marks_cons, mark]
    by_cases he : e.pair = p
    · rw [if_pos he, if_pos he]
      exact ⟨rfl, by simp [he]⟩
    · rw [if_neg he, if_neg he]
      obtain ⟨h1, h2⟩ := ih (if Shares e.pair p then s.changed cfg addWatch e p.mount p.device else s)
      exact ⟨congrArg (_ :: ·) h1, h2.trans (by simp [Ne.symm he])⟩

/-- The loop reports a change for every entry near the pair that it passes. -/
theorem matchEntries_change (p : MountPair) (es : List MountwatchEntry) (s : Diff) :
    ∃ cs, (matchEntries cfg addWatch p.mount p.device s es).2.1.change = s.change ++ cs ∧ (∀ c ∈ cs, c.tag = .changed) ∧
      (cs = [] ↔ strays Shares p (es.map (·.pair)) = false) := by
  induction es generalizing s with
  | nil => exact ⟨[], by simp [matchEntries], by simp, by simp [strays]⟩
  | cons e es ih =>
    rw [matchEntries_cons, List.map_cons, strays]
    by_cases he : e.pair = p
    · rw [if_pos he, if_pos he]
      exact ⟨[], by simp, by simp, by simp⟩
    · rw [if_neg he, if_neg he]
      by_cases hs : Shares e.pair p
      · obtain ⟨cs, h1, h2, -⟩ := ih (s.changed cfg addWatch e p.mount p.device)
        refine ⟨⟨p.mount, p.device, [], .changed⟩ :: cs, ?_, ?_, by simp [hs]⟩
        · simpa [hs, Diff.changed] using h1
        · simpa using h2
      · obtain ⟨cs, h1, h2, h3⟩ := ih s
        exact ⟨cs, by simpa [hs] using h1, h2, by simpa [hs] using h3⟩

/-- A line that is not eligible. -/
theorem diffLine_skip (s : List MountwatchEntry × Diff) {line : MountLine} (h : line.eligible = false) :
    diffLine cfg addWatch s line = s := by
  simp [diffLine, h]

/-- What a line does to the entries is what meeting its pair does to the items, and a pair that is new
is reported as added. -/
theorem diffLine_eligible (s : List MountwatchEntry × Diff) {line : MountLine} (h : line.eligible = true) :
    marks (diffLine cfg addWatch s line).1 = note Shares (marks s.1) line.pair ∧
      ∃ cs, (∀ c ∈ cs, c.tag = .changed) ∧ (cs = [] ↔ strays Shares line.pair (s.1.map (·.pair)) = false) ∧
        (diffLine cfg addWatch s line).2.change = s.2.change ++ cs ++
          if line.pair ∈ s.1.map (·.pair) then [] else [⟨line.mount, line.device, [], .added⟩] := by
  obtain ⟨hmarks, hfound⟩ := matchEntries_marks cfg addWatch line.pair s.1 s.2
  obtain ⟨cs, hchange, htags, hquiet⟩ := matchEntries_change cfg addWatch line.pair s.1 s.2
  unfold diffLine
  rw [note, marks_fst]
  by_cases hp : line.pair ∈ s.1.map (·.pair)
  · have hr : (matchEntries cfg addWatch line.mount line.device s.2 s.1).2.2 = true := hfound.trans (by simpa using hp)
    simp only [h, hr, hp, Bool.not_true, Bool.false_eq_true, if_false, if_true, List.append_nil]
    exact ⟨hmarks, cs, htags, hquiet, hchange⟩
  · have hr : (matchEntries cfg addWatch line.mount line.device s.2 s.1).2.2 = false := hfound.trans (by simpa using hp)
    simp only [h, hr, hp, Bool.not_true, Bool.false_eq_true, if_false]
    refine ⟨?_, cs, htags, hquiet, congrArg (· ++ _) hchange⟩
    rw [marks, List.map_append]
    exact congrArg (· ++ _) hmarks

/-! ### The mount table -/

/-- What lines with the pairs `xs` make of the tracked pairs, and what they report. -/
structure Reports (pairs xs pairs' : List MountPair) (cs : List MountwatchChange) : Prop where
  tags : ∀ c ∈ cs, c.tag = .changed ∨ c.tag = .added
  added : pairs' = pairs ++ changesOf .added cs
  known : (∀ p ∈ xs, p ∈ pairs) → pairs' = pairs ∧ (cs = [] ↔ ∀ p ∈ xs, strays Shares p pairs = false)

theorem Reports.trans {pairs pairs₁ pairs₂ xs ys : List MountPair} {cs ds : List MountwatchChange}
    (h : Reports pairs xs pairs₁ cs) (h' : Reports pairs₁ ys pairs₂ ds) :
    Reports pairs (xs ++ ys) pairs₂ (cs ++ ds) where
  tags c hc := (List.mem_append.mp hc).elim (h.tags c) (h'.tags c)
  added := by rw [h'.added, h.added, changesOf_append, List.append_assoc]
  known hk := by
    obtain ⟨h1, h2⟩ := h.known fun p hp => hk p (List.mem_append_left _ hp)
    subst h1
    obtain ⟨h3, h4⟩ := h'.known fun p hp => hk p (List.mem_append_right _ hp)
    refine ⟨h3, ?_⟩
    rw [List.append_eq_nil_iff, h2, h4, List.forall_mem_append]

theorem reports_line (s : List MountwatchEntry × Diff) {line : MountLine} (h : line.eligible = true) :
    ∃ cs, (diffLine cfg addWatch s line).2.change = s.2.change ++ cs ∧
      Reports (s.1.map (·.pair)) [line.pair] ((diffLine cfg addWatch s line).1.map (·.pair)) cs := by
  obtain ⟨hmarks, cs, htags, hquiet, hchange⟩ := diffLine_eligible cfg addWatch s h
  have hpairs := congrArg (List.map Prod.fst) hmarks
  rw [marks_fst, note_fst, marks_fst] at hpairs
  have hnone : changesOf .added cs = [] := changesOf_eq_nil fun c hc => by simp [htags c hc]
  rw [List.append_assoc] at hchange
  refine ⟨_, hchange, ?_⟩
  by_cases hp : line.pair ∈ s.1.map (·.pair)
  · rw [if_pos hp] at hpairs ⊢
    rw [hpairs, List.append_nil]
    refine ⟨fun c hc => .inl (htags c hc), by rw [hnone, List.append_nil], fun _ => ⟨rfl, ?_⟩⟩
    simpa using hquiet
  · rw [if_neg hp] at hpairs ⊢
    rw [hpairs]
    refine ⟨fun c hc => ?_, ?_, fun hk => absurd (hk line.pair (by simp)) hp⟩
    · rcases List.mem_append.mp hc with hc | hc
      · exact .inl (htags c hc)
      · rw [List.mem_singleton.mp hc]
        exact .inr rfl
    · rw [changesOf_append, hnone]
      rfl

/-- The loop over the mount table. -/
theorem diffLines (lines : List MountLine) (s : List MountwatchEntry × Diff) :
    marks (lines.foldl (diffLine cfg addWatch) s).1 = (eligiblePairs lines).foldl (note Shares) (marks s.1) ∧
      ∃ cs, (lines.foldl (diffLine cfg addWatch) s).2.change = s.2.change ++ cs ∧
        Reports (s.1.map (·.pair)) (eligiblePairs lines)
          ((lines.foldl (diffLine cfg addWatch) s).1.map (·.pair)) cs := by
  induction lines generalizing s with
  | nil => exact ⟨rfl, [], by simp, by simp, by simp [changesOf], by simp [eligiblePairs]⟩
  | cons line lines ih =>
    obtain ⟨ih1, ds, ih2, ih3⟩ := ih (diffLine cfg addWatch s line)
    rw [List.foldl_cons]
    by_cases h : line.eligible = true
    · have hel : eligiblePairs (line :: lines) = [line.pair] ++ eligiblePairs lines := by simp [eligiblePairs, h]
      obtain ⟨cs, hcs, hreports⟩ := reports_line cfg addWatch s h
      rw [hel]
      refine ⟨?_, cs ++ ds, by rw [ih2, hcs, List.append_assoc], hreports.trans ih3⟩
      rw [ih1, (diffLine_eligible cfg addWatch s h).1]
      rfl
    · have hel : eligiblePairs (line :: lines) = eligiblePairs lines := by simp [eligiblePairs, h]
      rw [diffLine_skip cfg addWatch s (by simpa using h)] at ih1 ih2 ih3 ⊢
      rw [hel]
      exact ⟨ih1, ds, ih2, ih3⟩

/-! ### The sweep -/

/-- The change for an entry that is removed. -/
def removedChange (e : MountwatchEntry) : MountwatchChange := ⟨e.device, e.device, [], .removed⟩

/-- The sweep keeps the entries with a mark, and reports the others as removed. -/
theorem sweepEntries (es : List MountwatchEntry) (s : Diff) :
    (mapKeep sweepEntry s es).2 = (es.filter (·.tag)).map (fun e => { e with tag := false }) ∧
      (mapKeep sweepEntry s es).1.change = s.change ++ (es.filter (!·.tag)).map removedChange := by
  induction es generalizing s with
  | nil => exact ⟨rfl, by simp [mapKeep]⟩
  | cons e es ih =>
    obtain ⟨h1, h2⟩ := ih (sweepEntry s e).1
    rw [mapKeep, h1, h2]
    cases he : e.tag with
    | true => simp [sweepEntry, he]
    | false => simp [sweepEntry, he, removedChange]

theorem kept_marks (es : List MountwatchEntry) :
    ((es.filter (·.tag)).map fun e => { e with tag := false }).map (·.pair) = kept (marks es) := by
  rw [kept, marks, List.filter_map, List.map_map, List.map_map]
  rfl

theorem tag_removedChanges {es : List MountwatchEntry} {c : MountwatchChange} (h : c ∈ es.map removedChange) :
    c.tag = .removed := by
  obtain ⟨e, -, rfl⟩ := List.mem_map.mp h
  rfl

theorem dropped_marks (es : List MountwatchEntry) :
    changesOf .removed ((es.filter (!·.tag)).map removedChange) = (dropped (marks es)).map fun p => ⟨p.device, p.device⟩ := by
  rw [changesOf, dropped, marks, List.filter_eq_self.mpr fun c hc => by simp [tag_removedChanges hc]]
  simp only [List.filter_map, List.map_map]
  rfl

/-- What is reported after the mount table was read: the entries without a mark, and directory events. -/
theorem diffRest_spec (s : List MountwatchEntry × Diff) (dirChange : Option (List InotifyEvent)) :
    (diffRest s dirChange).1.pairs = kept (marks s.1) ∧ (∀ e ∈ (diffRest s dirChange).1.entry, e.tag = false) ∧
      ∃ ds, (diffRest s dirChange).2 = s.2.change ++ ds ∧ changesOf .added ds = [] ∧
        changesOf .removed ds = (dropped (marks s.1)).map (fun p => ⟨p.device, p.device⟩) ∧
        (dropped (marks s.1) = [] → mountChanges ds = []) := by
  obtain ⟨hkeep, hchange⟩ := sweepEntries s.1 s.2
  simp only [diffRest, sweep_eq, Mountwatch.pairs, hkeep, hchange, kept_marks, List.append_assoc]
  have hevents : ∀ c ∈ (dirChange.map (mountwatchInotifyHandle (mapKeep sweepEntry s.2 s.1).1.ientry)).getD [],
      c.tag = .pkgAdded ∨ c.tag = .pkgRemoved := by
    cases dirChange with
    | none => simp
    | some events => exact inotify_tags _ events
  generalize (dirChange.map (mountwatchInotifyHandle (mapKeep sweepEntry s.2 s.1).1.ientry)).getD [] = events
    at hevents ⊢
  refine ⟨trivial, fun e he => ?_, _, rfl, ?_, ?_, fun hnil => ?_⟩
  · obtain ⟨x, -, rfl⟩ := List.mem_map.mp he
    rfl
  · rw [changesOf_append, changesOf_eq_nil fun c hc => by simp [tag_removedChanges hc],
      changesOf_eq_nil fun c hc => by rcases hevents c hc with h | h <;> simp [h]]
    rfl
  · rw [changesOf_append, dropped_marks,
      changesOf_eq_nil fun c hc => by rcases hevents c hc with h | h <;> simp [h], List.append_nil]
  · have hnone : s.1.filter (!·.tag) = [] := by
      rw [dropped, marks, List.filter_map, List.map_map, List.map_eq_nil_iff] at hnil
      exact hnil
    rw [hnone, List.map_nil, List.nil_append, mountChanges, List.filter_eq_nil_iff]
    intro c hc
    rcases hevents c hc with h | h <;> simp [h]

end Config

/-! ### Tracking -/

/-- The entries after a call are the pairs of the table it has read, and the changes are the difference
to the pairs before. -/
structure Tracks (before : List MountPair) (lines : List MountLine) (w : Mountwatch)
    (change : List MountwatchChange) : Prop where
  nodup : w.pairs.Nodup
  exact : ∀ p, p ∈ w.pairs ↔ p ∈ eligiblePairs lines
  added : (changesOf .added change).Nodup ∧ ∀ p, p ∈ changesOf .added change ↔ p ∈ eligiblePairs lines ∧ p ∉ before
  removed : (changesOf .removed change).map (·.device) = (before.filter (· ∉ eligiblePairs lines)).map (·.device)
  quiet : (∀ p, p ∈ before ↔ p ∈ eligiblePairs lines) → mountChanges change = []

/-- No tracked pair that is gone comes before a pair of the table that shares its mount point or its
device; and if the table has the tracked pairs, no two of them share one. -/
structure Trackable (before : List MountPair) (lines : List MountLine) : Prop where
  gone : ∀ e ∈ before, e ∉ eligiblePairs lines → ∀ p ∈ eligiblePairs lines, Shares e p →
    before.idxOf p ≤ before.idxOf e
  same : (∀ p, p ∈ before ↔ p ∈ eligiblePairs lines) → before.Pairwise fun a b => ¬ Shares a b

/-- A tracker between two calls: no pair twice, and no marks. -/
structure Settled (w : Mountwatch) : Prop where
  nodup : w.pairs.Nodup
  unmarked : ∀ e ∈ w.entry, e.tag = false

/-- What a call makes of the tracked pairs: what the lines report is `cs`, what the sweep and the
directory events report is `ds`. -/
structure Compared (before xs : List MountPair) (r : Mountwatch × List MountwatchChange)
    (cs ds : List MountwatchChange) : Prop where
  reports : Reports before xs ((noted Shares before xs).map Prod.fst) cs
  pairs : r.1.pairs = track Shares before xs
  unmarked : ∀ e ∈ r.1.entry, e.tag = false
  change : r.2 = cs ++ ds
  added : changesOf .added ds = []
  removed : changesOf .removed ds = (dropped (noted Shares before xs)).map fun p => ⟨p.device, p.device⟩
  quiet : dropped (noted Shares before xs) = [] → mountChanges ds = []

section Compared

variable {before xs : List MountPair} {r : Mountwatch × List MountwatchChange} {cs ds : List MountwatchChange}
  (hc : Compared before xs r cs ds)
include hc

/-- What the lines report is about mounts. -/
theorem Compared.mountChanges_eq : mountChanges r.2 = cs ++ mountChanges ds := by
  rw [hc.change, mountChanges_append, mountChanges, List.filter_eq_self.mpr fun c hmem => ?_]
  rcases hc.reports.tags c hmem with ht | ht <;> simp [ht]

theorem Compared.added_eq : changesOf .added r.2 = changesOf .added cs := by
  rw [hc.change, changesOf_append, hc.added, List.append_nil]

theorem Compared.removed_eq : changesOf .removed r.2 =
    (dropped (noted Shares before xs)).map fun p => ⟨p.device, p.device⟩ := by
  have hnone : changesOf .removed cs = [] := changesOf_eq_nil fun c hmem => by
    rcases hc.reports.tags c hmem with h | h <;> simp [h]
  rw [hc.change, changesOf_append, hc.removed, hnone, List.nil_append]

variable (hnd : before.Nodup)
include hnd

/-- The pairs that are reported as added are the new ones of the table. -/
theorem Compared.added_iff : (changesOf .added r.2).Nodup ∧
    ∀ p, p ∈ changesOf .added r.2 ↔ p ∈ xs ∧ p ∉ before := by
  have hn := @noted_spec _ _ Shares _ _ hnd xs
  have hnd' := hn.nodup
  rw [hc.reports.added, List.nodup_append] at hnd'
  rw [hc.added_eq]
  refine ⟨hnd'.2.1, fun p => ?_⟩
  have hmem := hn.mem p
  rw [hc.reports.added, List.mem_append] at hmem
  have hdisj : p ∈ changesOf .added cs → p ∉ before := fun h1 h2 => hnd'.2.2 _ h2 _ h1 rfl
  exact ⟨fun hp => ⟨(hmem.mp (.inr hp)).resolve_left (hdisj hp), hdisj hp⟩,
    fun hp => (hmem.mpr (.inr hp.1)).resolve_left hp.2⟩

/-- If the entries are right in the end, the pairs without a mark are those that are gone. -/
theorem Compared.dropped_eq (hexact : ∀ p, p ∈ r.1.pairs ↔ p ∈ xs) :
    dropped (noted Shares before xs) = before.filter (· ∉ xs) := by
  rw [(@noted_spec _ _ Shares _ _ hnd xs).dropped_eq]
  apply List.filter_congr
  intro p _
  have := hexact p
  rw [hc.pairs, track] at this
  simp [this]

/-- If the table has the tracked pairs, its lines report nothing exactly when no two share something. -/
theorem Compared.quiet_iff (hsame : ∀ p, p ∈ before ↔ p ∈ xs) :
    cs = [] ↔ before.Pairwise fun a b => ¬ Shares a b := by
  rw [(hc.reports.known fun p hp => (hsame p).mpr hp).2, ← Tracker.quiet_iff hnd]
  exact forall_congr' fun p => by rw [hsame p]

end Compared

section Config

variable (cfg : DBPConfig) (addWatch : CStr → ℤ)

theorem marks_settled {w : Mountwatch} (h : Settled w) : marks w.entry = w.pairs.map (·, false) := by
  rw [marks, Mountwatch.pairs, List.map_map]
  exact List.map_congr_left fun e he => by simp [h.unmarked e he]

theorem mountwatchDiff_snapshot {w : Mountwatch} (h : Settled w) (lines : List MountLine)
    (dirChange : Option (List InotifyEvent)) : ∃ cs ds, Compared w.pairs (eligiblePairs lines)
      (mountwatchDiff cfg addWatch w (.snapshot lines dirChange)) cs ds := by
  obtain ⟨hmarks, cs, hcs, hreports⟩ := diffLines cfg addWatch lines (w.entry, ⟨w.ientry, []⟩)
  have hnoted : marks (lines.foldl (diffLine cfg addWatch) (w.entry, ⟨w.ientry, []⟩)).1 =
      noted Shares w.pairs (eligiblePairs lines) := by
    rw [hmarks, marks_settled h]
    rfl
  obtain ⟨hpairs, hunmarked, ds, hds, hadded, hremoved, hquiet⟩ :=
    diffRest_spec (lines.foldl (diffLine cfg addWatch) (w.entry, ⟨w.ientry, []⟩)) dirChange
  rw [hnoted] at hpairs hremoved hquiet
  refine ⟨cs, ds, ?_, hpairs, hunmarked, ?_, hadded, hremoved, hquiet⟩
  · rw [← hnoted, marks_fst]
    exact hreports
  · rw [mountwatchDiff, hds, hcs]
    rfl

/-- **Tracking, one call.** -/
theorem diff_tracks_iff {w : Mountwatch} (h : Settled w) (lines : List MountLine)
    (dirChange : Option (List InotifyEvent)) :
    Tracks w.pairs lines (mountwatchDiff cfg addWatch w (.snapshot lines dirChange)).1
      (mountwatchDiff cfg addWatch w (.snapshot lines dirChange)).2 ↔ Trackable w.pairs lines := by
  obtain ⟨cs, ds, hc⟩ := mountwatchDiff_snapshot cfg addWatch h lines dirChange
  generalize mountwatchDiff cfg addWatch w (.snapshot lines dirChange) = r at hc ⊢
  constructor
  · intro ht
    refine ⟨(track_iff h.nodup).mp (hc.pairs ▸ ht.exact), fun hs => (hc.quiet_iff h.nodup hs).mp ?_⟩
    have hquiet := ht.quiet hs
    rw [hc.mountChanges_eq] at hquiet
    exact (List.append_eq_nil_iff.mp hquiet).1
  · intro ht
    have hexact : ∀ p, p ∈ r.1.pairs ↔ p ∈ eligiblePairs lines := by
      rw [hc.pairs]
      exact (track_iff h.nodup).mpr ht.gone
    have hdropped := hc.dropped_eq h.nodup hexact
    refine ⟨hc.pairs ▸ track_nodup h.nodup _, hexact, hc.added_iff h.nodup, ?_, fun hs => ?_⟩
    · rw [hc.removed_eq, hdropped, List.map_map]
      rfl
    · rw [hc.mountChanges_eq, (hc.quiet_iff h.nodup hs).mpr (ht.same hs), List.nil_append]
      refine hc.quiet ?_
      rw [hdropped, List.filter_eq_nil_iff]
      intro p hp
      simpa using (hs p).mp hp

/-- Entries stay settled whatever the call. -/
theorem settled_diff {w : Mountwatch} (h : Settled w) (poll : Poll) :
    Settled (mountwatchDiff cfg addWatch w poll).1 := by
  cases poll with
  | timeout => exact h
  | unreadable => exact h
  | snapshot lines dirChange =>
    obtain ⟨cs, ds, hc⟩ := mountwatchDiff_snapshot cfg addWatch h lines dirChange
    exact ⟨hc.pairs ▸ track_nodup h.nodup _, hc.unmarked⟩

end Config

/-! ### Runs -/

/-- The mount watch with the latest mount table it has read, the tracked pairs before the latest call,
and what that call returned. -/
structure Watched where
  w : Mountwatch
  lines : List MountLine
  before : List MountPair
  change : List MountwatchChange
deriving DecidableEq, Repr

/-- The latest mount table after a call. -/
def Poll.table (lines : List MountLine) : Poll → List MountLine
  | .snapshot lines' _ => lines'
  | _ => lines

namespace Watched

/-- After `mountwatch_init`. -/
def init : Watched := ⟨⟨[], []⟩, [], [], []⟩

/-- A call of `mountwatch_diff`. -/
def call (cfg : DBPConfig) (addWatch : CStr → ℤ) (r : Watched) (poll : Poll) : Watched where
  w := (mountwatchDiff cfg addWatch r.w poll).1
  lines := poll.table r.lines
  before := r.w.pairs
  change := (mountwatchDiff cfg addWatch r.w poll).2

/-- The entries and the changes are right. -/
def Correct (r : Watched) : Prop := Tracks r.before r.lines r.w r.change

/-- A mount table that is read is trackable. -/
def PollOk (r : Watched) : Poll → Prop
  | .snapshot lines _ => Trackable r.w.pairs lines
  | _ => True

variable (cfg : DBPConfig) (addWatch : CStr → ℤ)

/-- A call without a mount table changes nothing. -/
theorem correct_idle {r : Watched} (h : Correct r) : Tracks r.w.pairs r.lines r.w [] where
  nodup := h.nodup
  exact := h.exact
  added := ⟨List.nodup_nil, fun p => by simp [changesOf, h.exact p]⟩
  removed := by
    rw [List.filter_eq_nil_iff.mpr fun p hp => by simpa using (h.exact p).mp hp]
    rfl
  quiet _ := rfl

theorem correct_call {r : Watched} (hs : Settled r.w) (h : Correct r) (poll : Poll) :
    Correct (r.call cfg addWatch poll) ↔ PollOk r poll := by
  cases poll with
  | timeout => exact ⟨fun _ => trivial, fun _ => correct_idle h⟩
  | unreadable => exact ⟨fun _ => trivial, fun _ => correct_idle h⟩
  | snapshot lines dirChange => exact diff_tracks_iff cfg addWatch hs lines dirChange

theorem settled_run (polls : List Poll) : Settled (polls.foldl (call cfg addWatch) init).w := by
  induction polls using List.reverseRecOn with
  | nil => exact ⟨List.nodup_nil, fun _ h => absurd h List.not_mem_nil⟩
  | append_singleton polls poll ih =>
    rw [List.foldl_append]
    exact settled_diff cfg addWatch ih poll

theorem correct_init : Correct init where
  nodup := List.nodup_nil
  exact _ := Iff.rfl
  added := ⟨List.nodup_nil, fun p => by simp [init, changesOf, eligiblePairs]⟩
  removed := rfl
  quiet _ := rfl

end Watched

/-- **Mount tracking.** After every call of a run the entries and the changes are right, exactly when every
mount table that is read is trackable. -/
theorem mount_tracking (cfg : DBPConfig) (addWatch : CStr → ℤ) (polls : List Poll) :
    (∀ pre, pre <+: polls → (pre.foldl (Watched.call cfg addWatch) Watched.init).Correct) ↔
      Admissible (Watched.call cfg addWatch) Watched.PollOk Watched.init polls := by
  have hiff := @run_iff _ _ (Watched.call cfg addWatch) Watched.PollOk (fun r => Settled r.w ∧ r.Correct) polls
    Watched.init (fun r poll _ ⟨hs, hc⟩ => ?_) ⟨Watched.settled_run cfg addWatch [], Watched.correct_init⟩
  · rw [← hiff]
    exact forall₂_congr fun pre _ => ⟨fun h => ⟨Watched.settled_run cfg addWatch pre, h⟩, fun h => h.2⟩
  · rw [← Watched.correct_call cfg addWatch hs hc poll]
    exact ⟨fun h => h.2, fun h => ⟨settled_diff cfg addWatch hs poll, h⟩⟩

/-- Tables in which no two mounts share a mount point or a device, also with the tracked ones, are trackable. -/
theorem trackable_of_unshared {before : List MountPair} {lines : List MountLine} (hnd : before.Nodup)
    (h : ∀ a ∈ before ++ eligiblePairs lines, ∀ b ∈ before ++ eligiblePairs lines, Shares a b → a = b) :
    Trackable before lines where
  gone e he hout p hp hs := by
    have := h e (List.mem_append_left _ he) p (List.mem_append_right _ hp) hs
    exact absurd (this ▸ hp) hout
  same _ := by
    refine hnd.imp_of_mem fun ha hb hne hs => hne ?_
    exact h _ (List.mem_append_left _ ha) _ (List.mem_append_left _ hb) hs

/-- Another device at a mount point between two polls: the old one is tracked on. -/
theorem mount_tracking_replaced :
    let cfg : DBPConfig := ⟨[], [lit "apps"], [], [], [], [], []⟩
    let polls := [Poll.snapshot [⟨lit "/dev/sda1", lit "/media/usb", lit "vfat"⟩] none,
      .snapshot [⟨lit "/dev/sdb1", lit "/media/usb", lit "vfat"⟩] none]
    ¬ ∀ pre, pre <+: polls → (pre.foldl (Watched.call cfg fun _ => 1) Watched.init).Correct := fun h =>
  absurd (((h _ List.prefix_rfl).exact ⟨lit "/media/usb", lit "/dev/sda1"⟩).mp (by decide)) (by decide)

end Dbp
