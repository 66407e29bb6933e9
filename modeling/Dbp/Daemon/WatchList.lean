/-
# The watch list

The directory watches against the mount table: for each pair of a mount
point and a device that the table has, one watch on each search directory.
`mountwatch_diff` adds watches for a line that is new, and removes those of
an entry that is gone, by its mount point. A line that passes an entry with
its mount point or its device, but not both, first removes that entry's
watches and adds its own, and goes on: as the loop does not end there, a new
line adds its own once more. So the watches are right as long as no line
passes such an entry, that is, no two of the tracked pairs and the table's
share a mount point or a device; and where every table lists a pair once and
there are search directories, only then (`watch_list`).

Key definitions: `searchPlaces`, `WatchRun`, `WatchRun.Right`, `PairsApart`, `WatchRun.Unmixed`.
Key theorems: `diffLine_quiet`, `diffLine_stray`, `inv_snapshot`, `watch_list`.
-/
import Dbp.Daemon.MountTracking
import Mathlib.Data.List.Perm.Basic
import Mathlib.Data.List.Dedup

namespace Dbp

open CLib Sweep Tracker Runs

open scoped List

/-! ### Watches of a pair -/

/-- A watch without its handle: mount point, device and path. -/
def MountwatchInotify.place (i : MountwatchInotify) : CStr × CStr × CStr := (i.mount, i.device, i.path)

/-- The watches a pair has: one for each search directory. -/
def searchPlaces (cfg : DBPConfig) (p : MountPair) : List (CStr × CStr × CStr) :=
  cfg.searchDir.map fun dir => (p.mount, p.device, p.mount ++ '/' :: dir)

/-- The watches of a mount in the list. -/
def watchesOf (p : MountPair) (ientry : List MountwatchInotify) : List MountwatchInotify :=
  ientry.filter fun i => i.mount = p.mount ∧ i.device = p.device

/-! ### Runs -/

/-- A run: the mount watch before and after the latest call, what that woke up to, and the latest table it has read. -/
structure WatchRun where
  before : Mountwatch
  poll : Poll
  lines : List MountLine
  w : Mountwatch

namespace WatchRun

variable (cfg : DBPConfig)

/-- After `mountwatch_init`. -/
def init : WatchRun := ⟨⟨[], []⟩, .timeout, [], ⟨[], []⟩⟩

/-- A call of `mountwatch_diff`, with the handles that `inotify_add_watch` returns. -/
def call (r : WatchRun) (c : Poll × (CStr → ℤ)) : WatchRun where
  before := r.w
  poll := c.1
  lines := c.1.table r.lines
  w := (mountwatchDiff cfg c.2 r.w c.1).1

/-- The watches are right: one for each eligible pair of the table and each search directory, and no others. And no line
of the table has dropped a watch of another pair that is in it. -/
structure Right (r : WatchRun) : Prop where
  watches : r.w.ientry.map (·.place) ~ (eligiblePairs r.lines).dedup.flatMap (searchPlaces cfg)
  keeps : ∀ pre line suf dirChange, r.poll = .snapshot (pre ++ line :: suf) dirChange → ∀ addWatch : CStr → ℤ,
    ∀ q ∈ eligiblePairs (pre ++ line :: suf), q ≠ line.pair →
      watchesOf q (pre.foldl (diffLine cfg addWatch) (r.before.entry, ⟨r.before.ientry, []⟩)).2.ientry <+
        watchesOf q (diffLine cfg addWatch (pre.foldl (diffLine cfg addWatch) (r.before.entry, ⟨r.before.ientry, []⟩)) line).2.ientry

end WatchRun

/-- No two pairs of these share a mount point or a device. -/
def PairsApart (pairs : List MountPair) : Prop := ∀ a ∈ pairs, ∀ b ∈ pairs, Shares a b → a = b

namespace WatchRun

/-- No two of the tracked pairs and those of the table share a mount point or a device. -/
def Unmixed (r : WatchRun) (c : Poll × (CStr → ℤ)) : Prop :=
  match c.1 with
  | .snapshot lines _ => PairsApart (r.w.pairs ++ eligiblePairs lines)
  | _ => True

/-- The table lists no pair twice. -/
def Plain : Poll → Prop
  | .snapshot lines _ => (eligiblePairs lines).Nodup
  | _ => True

end WatchRun

/-! ### A line -/

section Config

variable (cfg : DBPConfig) (addWatch : CStr → ℤ)

theorem inotifyAdd_places (ientry : List MountwatchInotify) (p : MountPair) :
    (mountwatchInotifyAdd cfg addWatch ientry p.mount p.device).map (·.place) = ientry.map (·.place) ++ searchPlaces cfg p := by
  simp [mountwatchInotifyAdd, searchPlaces, MountwatchInotify.place]

/-- The loop over the entries that passes none near the pair leaves the watches alone. -/
theorem matchEntries_quiet (p : MountPair) : ∀ (es : List MountwatchEntry) (s : Diff),
    strays Shares p (es.map (·.pair)) = false → (matchEntries cfg addWatch p.mount p.device s es).2.1 = s
  | [], _, _ => rfl
  | e :: es, s, h => by
    rw [List.map_cons, strays] at h
    rw [matchEntries_cons]
    by_cases he : e.pair = p
    · rw [if_pos he]
    · rw [if_neg he, Bool.or_eq_false_iff, decide_eq_false_iff_not] at h
      rw [if_neg he, if_neg h.1]
      exact matchEntries_quiet p es s h.2

/-- One that does has added the pair's watches in the end. -/
theorem matchEntries_stray (p : MountPair) : ∀ (es : List MountwatchEntry) (s : Diff),
    strays Shares p (es.map (·.pair)) = true → ∃ ientry,
      (matchEntries cfg addWatch p.mount p.device s es).2.1.ientry = mountwatchInotifyAdd cfg addWatch ientry p.mount p.device
  | [], _, h => by cases h
  | e :: es, s, h => by
    rw [List.map_cons, strays] at h
    rw [matchEntries_cons]
    by_cases he : e.pair = p
    · rw [if_pos he] at h
      cases h
    · rw [if_neg he, Bool.or_eq_true, decide_eq_true_eq] at h
      rw [if_neg he]
      cases hrest : strays Shares p (es.map (·.pair)) with
      | true => exact matchEntries_stray p es _ hrest
      | false =>
        have hs := h.resolve_right (by simp [hrest])
        rw [if_pos hs]
        exact ⟨_, congrArg Diff.ientry (matchEntries_quiet cfg addWatch p es _ hrest)⟩

variable (s : List MountwatchEntry × Diff) {line : MountLine}

/-- A line that passes no entry near it: its watches are added if it is new. -/
theorem diffLine_quiet (h : line.eligible = true) (hq : strays Shares line.pair (s.1.map (·.pair)) = false) :
    (diffLine cfg addWatch s line).2.ientry = if line.pair ∈ s.1.map (·.pair) then s.2.ientry
      else mountwatchInotifyAdd cfg addWatch s.2.ientry line.mount line.device := by
  have hfound := (matchEntries_marks cfg addWatch line.pair s.1 s.2).2
  have hquiet := matchEntries_quiet cfg addWatch line.pair s.1 s.2 hq
  unfold diffLine
  by_cases hp : line.pair ∈ s.1.map (·.pair)
  · have hr : (matchEntries cfg addWatch line.mount line.device s.2 s.1).2.2 = true := hfound.trans (by simpa using hp)
    simp only [h, hr, hp, Bool.not_true, Bool.false_eq_true, if_false, if_true]
    exact congrArg Diff.ientry hquiet
  · have hr : (matchEntries cfg addWatch line.mount line.device s.2 s.1).2.2 = false := hfound.trans (by simpa using hp)
    simp only [h, hr, hp, Bool.not_true, Bool.false_eq_true, if_false]
    exact congrArg (fun s : Diff => mountwatchInotifyAdd cfg addWatch s.ientry line.mount line.device) hquiet

/-- A new line that does pass one has its watches twice. -/
theorem diffLine_stray (h : line.eligible = true) (hq : strays Shares line.pair (s.1.map (·.pair)) = true)
    (hnew : line.pair ∉ s.1.map (·.pair)) : ∃ ientry, (diffLine cfg addWatch s line).2.ientry =
      mountwatchInotifyAdd cfg addWatch (mountwatchInotifyAdd cfg addWatch ientry line.mount line.device) line.mount line.device := by
  have hfound := (matchEntries_marks cfg addWatch line.pair s.1 s.2).2
  obtain ⟨ientry, hientry⟩ := matchEntries_stray cfg addWatch line.pair s.1 s.2 hq
  have hr : (matchEntries cfg addWatch line.mount line.device s.2 s.1).2.2 = false := hfound.trans (by simpa using hnew)
  refine ⟨ientry, ?_⟩
  unfold diffLine
  simp only [h, hr, Bool.not_true, Bool.false_eq_true, if_false]
  exact congrArg (mountwatchInotifyAdd cfg addWatch · line.mount line.device) hientry

/-- What a line does to the pairs of the entries. -/
theorem diffLine_pairs (h : line.eligible = true) : (diffLine cfg addWatch s line).1.map (·.pair) =
    if line.pair ∈ s.1.map (·.pair) then s.1.map (·.pair) else s.1.map (·.pair) ++ [line.pair] := by
  have hpairs := congrArg (List.map Prod.fst) (diffLine_eligible cfg addWatch s h).1
  rwa [marks_fst, note_fst, marks_fst] at hpairs

end Config

/-- Among pairs that are apart, no entry near a line is passed. -/
theorem strays_of_apart {pairs all : List MountPair} {p : MountPair} (h : PairsApart all) (hsub : ∀ a ∈ pairs, a ∈ all) (hp : p ∈ all) :
    strays Shares p pairs = false := by
  rw [← Bool.not_eq_true, strays_iff]
  rintro ⟨a, ha, hn, hlt⟩
  rw [h a (hsub a ha) p hp hn] at hlt
  exact Nat.lt_irrefl _ hlt

/-! ### A call -/

section Call

variable (cfg : DBPConfig) (addWatch : CStr → ℤ)

/-- A table of pairs that are apart, also from the tracked ones: the watches of the new pairs are added. -/
theorem diffLines_apart : ∀ (lines : List MountLine) (s : List MountwatchEntry × Diff),
    PairsApart (s.1.map (·.pair) ++ eligiblePairs lines) → ∃ new, (∀ p ∈ new, p ∈ eligiblePairs lines) ∧
      (lines.foldl (diffLine cfg addWatch) s).1.map (·.pair) = s.1.map (·.pair) ++ new ∧
      (lines.foldl (diffLine cfg addWatch) s).2.ientry.map (·.place) = s.2.ientry.map (·.place) ++ new.flatMap (searchPlaces cfg)
  | [], _, _ => ⟨[], nofun, by simp, by simp⟩
  | line :: lines, s, h => by
    rw [List.foldl_cons]
    by_cases hel : line.eligible = true
    · have hxs : eligiblePairs (line :: lines) = line.pair :: eligiblePairs lines := by simp [eligiblePairs, hel]
      rw [hxs] at h ⊢
      have hq : strays Shares line.pair (s.1.map (·.pair)) = false :=
        strays_of_apart h (fun a ha => List.mem_append_left _ ha) (by simp)
      have hpairs := diffLine_pairs cfg addWatch s hel
      have hientry := diffLine_quiet cfg addWatch s hel hq
      have hsub : ∀ a ∈ (diffLine cfg addWatch s line).1.map (·.pair) ++ eligiblePairs lines,
          a ∈ s.1.map (·.pair) ++ line.pair :: eligiblePairs lines := by
        intro a ha
        rw [hpairs] at ha
        split_ifs at ha
        · exact (List.mem_append.mp ha).elim (fun ha => List.mem_append_left _ ha) fun ha => by simp [ha]
        · simpa using ha
      obtain ⟨new, hnew, hp, hi⟩ := diffLines_apart lines (diffLine cfg addWatch s line) fun a ha b hb => h a (hsub a ha) b (hsub b hb)
      by_cases hmem : line.pair ∈ s.1.map (·.pair)
      · rw [if_pos hmem] at hpairs hientry
        exact ⟨new, fun p hp => List.mem_cons_of_mem _ (hnew p hp), by rw [hp, hpairs], by rw [hi, hientry]⟩
      · rw [if_neg hmem] at hpairs hientry
        have hplaces := inotifyAdd_places cfg addWatch s.2.ientry line.pair
        refine ⟨line.pair :: new, ?_, by rw [hp, hpairs]; simp, ?_⟩
        · intro p hp
          rcases List.mem_cons.mp hp with rfl | hp
          · exact List.mem_cons_self
          · exact List.mem_cons_of_mem _ (hnew p hp)
        · rw [hi, hientry, List.flatMap_cons, ← List.append_assoc, ← hplaces]
          rfl
    · have hxs : eligiblePairs (line :: lines) = eligiblePairs lines := by simp [eligiblePairs, hel]
      rw [diffLine_skip cfg addWatch s (by simpa using hel)]
      rw [hxs] at h ⊢
      exact diffLines_apart lines s h

/-- The sweep removes the watches of the entries without a mark, by their mount points. -/
theorem sweep_ientry : ∀ (es : List MountwatchEntry) (s : Diff), (mapKeep sweepEntry s es).1.ientry =
    s.ientry.filter fun i => i.mount ∉ (es.filter (!·.tag)).map (·.mount)
  | [], s => by simp [mapKeep]
  | e :: es, s => by
    rw [mapKeep, sweep_ientry es]
    cases he : e.tag with
    | true => simp [sweepEntry, he]
    | false =>
      rw [List.filter_cons_of_pos (by simp [he]), List.map_cons]
      simp only [sweepEntry, he, Bool.not_false, if_true, mountwatchInotifyRemove]
      rw [List.filter_filter]
      apply List.filter_congr
      intro i _
      rw [Bool.eq_iff_iff]
      simp only [Bool.and_eq_true, decide_eq_true_eq, List.mem_cons, not_or]
      exact and_comm

/-- Among marked pairs that are apart, those that share no mount point with one without a mark are the ones with one. -/
theorem filter_mount_kept {l : List (MountPair × Bool)} (hnd : (l.map Prod.fst).Nodup) (h : PairsApart (l.map Prod.fst)) :
    (l.map Prod.fst).filter (fun p => p.mount ∉ (dropped l).map (·.mount)) = kept l := by
  rw [kept, List.filter_map]
  congr 1
  apply List.filter_congr
  intro x hx
  obtain ⟨p, b⟩ := x
  cases b with
  | true =>
    apply decide_eq_true
    intro hmem
    obtain ⟨q, hq, hmount⟩ := List.mem_map.mp hmem
    have hql : (q, false) ∈ l := by simpa [dropped] using hq
    obtain rfl := h q (List.mem_map_of_mem hql) p (List.mem_map_of_mem hx) (.inl hmount)
    have := List.inj_on_of_nodup_map hnd hx hql rfl
    cases this
  | false =>
    apply decide_eq_false
    rw [not_not]
    exact List.mem_map_of_mem (by simpa [dropped] using hx)

theorem filter_searchPlaces (D : List CStr) : ∀ l : List MountPair, (l.flatMap (searchPlaces cfg)).filter (fun x => x.1 ∉ D) =
    (l.filter fun p => p.mount ∉ D).flatMap (searchPlaces cfg)
  | [] => rfl
  | p :: l => by
    rw [List.flatMap_cons, List.filter_append, filter_searchPlaces D l]
    by_cases hp : p.mount ∈ D
    · have hnone : (searchPlaces cfg p).filter (fun x => x.1 ∉ D) = [] := by simp [searchPlaces, hp]
      rw [hnone, List.filter_cons_of_neg (by simpa using hp), List.nil_append]
    · have hall : (searchPlaces cfg p).filter (fun x => x.1 ∉ D) = searchPlaces cfg p := by simp [searchPlaces, hp]
      rw [hall, List.filter_cons_of_pos (by simpa using hp), List.flatMap_cons]

/-- The watches that the sweep leaves. -/
theorem diffRest_places (t : List MountwatchEntry × Diff) (dirChange : Option (List InotifyEvent)) :
    (diffRest t dirChange).1.ientry.map (·.place) =
      (t.2.ientry.map (·.place)).filter fun x => x.1 ∉ (dropped (marks t.1)).map (·.mount) := by
  have hmounts : (t.1.filter (!·.tag)).map (·.mount) = (dropped (marks t.1)).map (·.mount) := by
    rw [dropped, marks, List.filter_map, List.map_map, List.map_map]
    rfl
  have hientry : (diffRest t dirChange).1.ientry = t.2.ientry.filter fun i => i.mount ∉ (dropped (marks t.1)).map (·.mount) := by
    rw [← hmounts, ← sweep_ientry]
    simp only [diffRest, sweep_eq]
  rw [hientry, List.filter_map]
  rfl

/-- They are those of the entries with a mark. -/
theorem diffRest_watches {t : List MountwatchEntry × Diff} (hnd : (t.1.map (·.pair)).Nodup) (h : PairsApart (t.1.map (·.pair)))
    (hw : t.2.ientry.map (·.place) ~ (t.1.map (·.pair)).flatMap (searchPlaces cfg)) (dirChange : Option (List InotifyEvent)) :
    (diffRest t dirChange).1.ientry.map (·.place) ~ (diffRest t dirChange).1.pairs.flatMap (searchPlaces cfg) := by
  rw [← marks_fst] at hnd h hw
  rw [(diffRest_spec t dirChange).1, diffRest_places, ← filter_mount_kept hnd h, ← filter_searchPlaces]
  exact hw.filter _

end Call

namespace WatchRun

variable {cfg : DBPConfig} {r : WatchRun}

/-- Between calls of a run whose pairs never mix: the entries are the pairs of the table, apart from each other, and
each has its watches. -/
structure Inv (cfg : DBPConfig) (r : WatchRun) : Prop where
  settled : Settled r.w
  apart : PairsApart r.w.pairs
  exact : ∀ p, p ∈ r.w.pairs ↔ p ∈ eligiblePairs r.lines
  watches : r.w.ientry.map (·.place) ~ r.w.pairs.flatMap (searchPlaces cfg)

theorem inv_init : Inv cfg init := ⟨⟨List.nodup_nil, nofun⟩, nofun, fun _ => .rfl, .refl _⟩

/-- The watches are those of the table. -/
theorem Inv.right_watches (h : Inv cfg r) :
    r.w.ientry.map (·.place) ~ (eligiblePairs r.lines).dedup.flatMap (searchPlaces cfg) := by
  have hpairs : r.w.pairs ~ (eligiblePairs r.lines).dedup := by
    rw [List.perm_ext_iff_of_nodup h.settled.nodup (List.nodup_dedup _)]
    intro p
    rw [h.exact, List.mem_dedup]
  exact h.watches.trans (hpairs.flatMap_right _)

/-- A table that does not mix with the tracked pairs keeps the invariant. -/
theorem inv_snapshot (h : Inv cfg r) {lines : List MountLine} (hc : PairsApart (r.w.pairs ++ eligiblePairs lines))
    (dirChange : Option (List InotifyEvent)) (addWatch : CStr → ℤ) : Inv cfg (r.call cfg (.snapshot lines dirChange, addWatch)) := by
  have htracks := (diff_tracks_iff cfg addWatch h.settled lines dirChange).mpr (trackable_of_unshared h.settled.nodup hc)
  obtain ⟨new, hnew, hpairs, hplaces⟩ := diffLines_apart cfg addWatch lines (r.w.entry, ⟨r.w.ientry, []⟩) hc
  have hmarks := (diffLines cfg addWatch lines (r.w.entry, ⟨r.w.ientry, []⟩)).1
  rw [marks_settled h.settled] at hmarks
  have hnd : ((lines.foldl (diffLine cfg addWatch) (r.w.entry, ⟨r.w.ientry, []⟩)).1.map (·.pair)).Nodup := by
    rw [← marks_fst, hmarks]
    exact (noted_spec h.settled.nodup (eligiblePairs lines)).nodup
  have hsub : ∀ a ∈ (lines.foldl (diffLine cfg addWatch) (r.w.entry, ⟨r.w.ientry, []⟩)).1.map (·.pair),
      a ∈ r.w.pairs ++ eligiblePairs lines := by
    intro a ha
    rw [hpairs] at ha
    exact (List.mem_append.mp ha).elim (fun ha => List.mem_append_left _ ha) fun ha => List.mem_append_right _ (hnew a ha)
  have hwatches : (lines.foldl (diffLine cfg addWatch) (r.w.entry, ⟨r.w.ientry, []⟩)).2.ientry.map (·.place) ~
      ((lines.foldl (diffLine cfg addWatch) (r.w.entry, ⟨r.w.ientry, []⟩)).1.map (·.pair)).flatMap (searchPlaces cfg) := by
    rw [hplaces, hpairs, List.flatMap_append]
    exact h.watches.append_right _
  exact {
    settled := settled_diff cfg addWatch h.settled (.snapshot lines dirChange)
    apart := fun a ha b hb => hc a (List.mem_append_right _ ((htracks.exact a).mp ha)) b (List.mem_append_right _ ((htracks.exact b).mp hb))
    exact := htracks.exact
    watches := diffRest_watches cfg hnd (fun a ha b hb => hc a (hsub a ha) b (hsub b hb)) hwatches dirChange }

/-- No line of such a table drops a watch. -/
theorem line_keeps (addWatch : CStr → ℤ) {w : Mountwatch} {pre suf : List MountLine} {line : MountLine}
    (h : PairsApart (w.pairs ++ eligiblePairs (pre ++ line :: suf))) (q : MountPair) :
    watchesOf q (pre.foldl (diffLine cfg addWatch) (w.entry, ⟨w.ientry, []⟩)).2.ientry <+
      watchesOf q (diffLine cfg addWatch (pre.foldl (diffLine cfg addWatch) (w.entry, ⟨w.ientry, []⟩)) line).2.ientry := by
  by_cases hel : line.eligible = true
  · have hxs : eligiblePairs (pre ++ line :: suf) = eligiblePairs pre ++ line.pair :: eligiblePairs suf := by
      simp [eligiblePairs, hel]
    rw [hxs] at h
    have hpre : PairsApart (w.pairs ++ eligiblePairs pre) := by
      have hsub : ∀ a ∈ w.pairs ++ eligiblePairs pre, a ∈ w.pairs ++ (eligiblePairs pre ++ line.pair :: eligiblePairs suf) := by
        intro a ha
        rw [← List.append_assoc]
        exact List.mem_append_left _ ha
      exact fun a ha b hb => h a (hsub a ha) b (hsub b hb)
    obtain ⟨new, hnew, hpairs, -⟩ := diffLines_apart cfg addWatch pre (w.entry, ⟨w.ientry, []⟩) hpre
    have hq := diffLine_quiet cfg addWatch (pre.foldl (diffLine cfg addWatch) (w.entry, ⟨w.ientry, []⟩)) hel
      (strays_of_apart h (fun a ha => ?_) (by simp))
    · rw [hq]
      split_ifs
      · exact .refl _
      · rw [watchesOf, watchesOf, mountwatchInotifyAdd, List.filter_append]
        exact List.sublist_append_left _ _
    · rw [hpairs] at ha
      rcases List.mem_append.mp ha with ha | ha
      · exact List.mem_append_left _ ha
      · exact List.mem_append_right _ (List.mem_append_left _ (hnew a ha))
  · rw [diffLine_skip cfg addWatch _ (by simpa using hel)]

/-- A call with a table that does not mix with the tracked pairs. -/
theorem Inv.call (h : Inv cfg r) {c : Poll × (CStr → ℤ)} (hc : r.Unmixed c) : Inv cfg (r.call cfg c) ∧ Right cfg (r.call cfg c) := by
  obtain ⟨poll, addWatch⟩ := c
  cases poll with
  | timeout => exact ⟨⟨h.settled, h.apart, h.exact, h.watches⟩, h.right_watches, nofun⟩
  | unreadable => exact ⟨⟨h.settled, h.apart, h.exact, h.watches⟩, h.right_watches, nofun⟩
  | snapshot lines dirChange =>
    have hinv := inv_snapshot h hc dirChange addWatch
    refine ⟨hinv, hinv.right_watches, fun pre line suf dir hpoll addWatch' q _ _ => ?_⟩
    obtain rfl : lines = pre ++ line :: suf := (Poll.snapshot.inj hpoll).1
    exact line_keeps addWatch' hc q

/-! ### Pairs that mix -/

/-- A pair whose watches are there twice, where no entry without a mark has its mount point. -/
def Twice (cfg : DBPConfig) (t : List MountwatchEntry × Diff) (p : MountPair) : Prop :=
  searchPlaces cfg p ++ searchPlaces cfg p <+ t.2.ientry.map (·.place) ∧ ∀ a, (a, false) ∈ marks t.1 → a.mount ≠ p.mount

/-- The watches of one pair in those of different pairs. -/
theorem count_searchPlaces {x : CStr × CStr × CStr} {p : MountPair} (hx : x ∈ searchPlaces cfg p) :
    ∀ {l : List MountPair}, l.Nodup → (l.flatMap (searchPlaces cfg)).count x ≤ (searchPlaces cfg p).count x
  | [], _ => Nat.zero_le _
  | q :: l, h => by
    obtain ⟨hq, hl⟩ := List.nodup_cons.mp h
    -- a watch tells its pair
    have hpair : ∀ {q}, x ∈ searchPlaces cfg q → q = p := by
      intro q hxq
      obtain ⟨dir, -, rfl⟩ := List.mem_map.mp hxq
      obtain ⟨dir', -, heq⟩ := List.mem_map.mp hx
      obtain ⟨m, d⟩ := q
      obtain ⟨m', d'⟩ := p
      simp only [Prod.mk.injEq] at heq
      rw [heq.1, heq.2.1]
    rw [List.flatMap_cons, List.count_append]
    by_cases hqp : q = p
    · have hnone : (l.flatMap (searchPlaces cfg)).count x = 0 := by
        apply List.count_eq_zero_of_not_mem
        intro hmem
        obtain ⟨q', hq', hxq'⟩ := List.mem_flatMap.mp hmem
        rw [hqp, ← hpair hxq'] at hq
        exact hq hq'
      rw [hnone, hqp, Nat.add_zero]
    · have hnone : (searchPlaces cfg q).count x = 0 := List.count_eq_zero_of_not_mem fun hmem => hqp (hpair hmem)
      rw [hnone, Nat.zero_add]
      exact count_searchPlaces hx hl

/-- Watches that are there twice are not right. -/
theorem not_right_of_twice {t : List MountwatchEntry × Diff} {p : MountPair} (h : Twice cfg t p) (hdir : cfg.searchDir ≠ [])
    (dirChange : Option (List InotifyEvent)) {l : List MountPair} (hl : l.Nodup) :
    ¬ (diffRest t dirChange).1.ientry.map (·.place) ~ l.flatMap (searchPlaces cfg) := by
  obtain ⟨dir, hdir⟩ := List.exists_mem_of_ne_nil _ hdir
  have hx : (p.mount, p.device, p.mount ++ '/' :: dir) ∈ searchPlaces cfg p := List.mem_map_of_mem hdir
  -- the sweep leaves them
  have hleft : ∀ x ∈ searchPlaces cfg p ++ searchPlaces cfg p, x.1 ∉ (dropped (marks t.1)).map (·.mount) := by
    intro x hxp hmem
    obtain ⟨a, ha, hmount⟩ := List.mem_map.mp hmem
    have hx1 : x.1 = p.mount := by
      obtain ⟨dir', -, rfl⟩ := List.mem_map.mp ((List.mem_append.mp hxp).elim id id)
      rfl
    exact h.2 a (by simpa [dropped] using ha) (hmount.trans hx1)
  have hsub := h.1.filter fun x => x.1 ∉ (dropped (marks t.1)).map (·.mount)
  rw [List.filter_eq_self.mpr fun x hxp => decide_eq_true (hleft x hxp), ← diffRest_places t dirChange] at hsub
  intro hperm
  have hle : (searchPlaces cfg p ++ searchPlaces cfg p).count _ ≤ (searchPlaces cfg p).count _ :=
    calc (searchPlaces cfg p ++ searchPlaces cfg p).count (p.mount, p.device, p.mount ++ '/' :: dir)
        ≤ ((diffRest t dirChange).1.ientry.map (·.place)).count _ := hsub.count_le _
      _ = (l.flatMap (searchPlaces cfg)).count _ := hperm.count_eq _
      _ ≤ (searchPlaces cfg p).count _ := count_searchPlaces hx hl
  have hpos := List.count_pos_iff.mpr hx
  rw [List.count_append] at hle
  omega

section Line

variable {addWatch : CStr → ℤ} {before xs : List MountPair} {t : List MountwatchEntry × Diff} {line : MountLine}
  (hn : Noted Shares before xs (marks t.1))
include hn

/-- A line that passes an entry near it is new, as the tracked pairs come first and are apart. -/
theorem fresh_of_strays (hnew : line.pair ∉ xs) (hbefore : PairsApart before)
    (hs : strays Shares line.pair (t.1.map (·.pair)) = true) : line.pair ∉ t.1.map (·.pair) := by
  intro hmem
  obtain ⟨a, ha, hnear, hlt⟩ := strays_iff.mp hs
  have hgrows := hn.grows
  have hpair := hn.mem line.pair
  rw [marks_fst] at hgrows hpair
  have hold : line.pair ∈ before := (hpair.mp hmem).resolve_right hnew
  obtain ⟨rest, hrest⟩ := hgrows
  rw [← hrest, List.idxOf_append_of_mem hold] at hlt
  have hlen := List.idxOf_lt_length_iff.mpr hold
  by_cases haold : a ∈ before
  · rw [List.idxOf_append_of_mem haold, hbefore a haold _ hold hnear] at hlt
    exact Nat.lt_irrefl _ hlt
  · rw [List.idxOf_append_of_notMem haold] at hlt
    omega

/-- What is without a mark after the line was without one before, and is not the line's pair. -/
theorem unmarked_line (hel : line.eligible = true) {a : MountPair} (ha : (a, false) ∈ marks (diffLine cfg addWatch t line).1) :
    (a, false) ∈ marks t.1 ∧ ((a, true) ∉ note Shares (marks t.1) line.pair) := by
  have hn' := hn.note line.pair
  rw [(diffLine_eligible cfg addWatch t hel).1] at ha
  have hnot : (a, true) ∉ note Shares (marks t.1) line.pair := by
    intro ht
    have := List.inj_on_of_nodup_map hn'.nodup ht ha rfl
    cases this
  refine ⟨?_, hnot⟩
  have hmem : a ∈ (note Shares (marks t.1) line.pair).map Prod.fst := List.mem_map_of_mem ha
  rw [note_fst] at hmem
  have hold : a ∈ (marks t.1).map Prod.fst := by
    split_ifs at hmem with hp
    · exact hmem
    · rcases List.mem_append.mp hmem with hmem | hmem
      · exact hmem
      · exact absurd (mem_note.mpr (.inr (.inl (List.mem_singleton.mp hmem)))) hnot
  obtain ⟨⟨a', b⟩, hab, rfl⟩ := List.mem_map.mp hold
  cases b with
  | false => exact hab
  | true => exact absurd (mem_note.mpr (.inl hab)) hnot

/-- A line that passes an entry that is only near it has its watches there twice. -/
theorem twice_stray (hnew : line.pair ∉ xs) (hbefore : PairsApart before) (hel : line.eligible = true)
    (hs : strays Shares line.pair (t.1.map (·.pair)) = true) : Twice cfg (diffLine cfg addWatch t line) line.pair := by
  have hfresh := fresh_of_strays hn hnew hbefore hs
  obtain ⟨ientry, hientry⟩ := diffLine_stray cfg addWatch t hel hs hfresh
  refine ⟨?_, fun a ha hmount => ?_⟩
  · have hplaces : (diffLine cfg addWatch t line).2.ientry.map (·.place) =
        ientry.map (·.place) ++ searchPlaces cfg line.pair ++ searchPlaces cfg line.pair := by
      rw [hientry]
      exact (inotifyAdd_places cfg addWatch _ line.pair).trans (congrArg (· ++ _) (inotifyAdd_places cfg addWatch _ line.pair))
    rw [hplaces, List.append_assoc]
    exact List.sublist_append_right _ _
  · -- an entry with its mount point was passed
    obtain ⟨hold, hnot⟩ := unmarked_line hn hel ha
    have hmem : a ∈ (marks t.1).map Prod.fst := List.mem_map_of_mem hold
    apply hnot
    refine mem_note.mpr (.inr (.inr ⟨hmem, .inl hmount, ?_⟩))
    rw [List.idxOf_of_notMem (show line.pair ∉ (marks t.1).map Prod.fst by rwa [marks_fst])]
    exact List.idxOf_lt_length_iff.mpr hmem

/-- A line that passes no such entry is near none of the pairs, if they are apart. -/
theorem far_of_quiet (h : PairsApart (before ++ xs)) (hs : strays Shares line.pair (t.1.map (·.pair)) = false)
    {a : MountPair} (ha : a ∈ before ++ xs) (hnear : Shares a line.pair) : a = line.pair := by
  by_cases hmem : line.pair ∈ t.1.map (·.pair)
  · rw [← marks_fst, hn.mem, ← List.mem_append] at hmem
    exact h a ha _ hmem hnear
  · have hin : a ∈ t.1.map (·.pair) := by
      rw [← marks_fst, hn.mem, ← List.mem_append]
      exact ha
    have hlt : (t.1.map (·.pair)).idxOf a < (t.1.map (·.pair)).idxOf line.pair := by
      rw [List.idxOf_of_notMem hmem]
      exact List.idxOf_lt_length_iff.mpr hin
    rw [strays_iff.mpr ⟨a, hin, hnear, hlt⟩] at hs
    cases hs

/-- What is there twice before such a line is there twice after it. -/
theorem twice_quiet (hel : line.eligible = true) (hs : strays Shares line.pair (t.1.map (·.pair)) = false) {p : MountPair}
    (hp : Twice cfg t p) : Twice cfg (diffLine cfg addWatch t line) p := by
  refine ⟨?_, fun a ha => hp.2 a (unmarked_line hn hel ha).1⟩
  rw [diffLine_quiet cfg addWatch t hel hs]
  split_ifs
  · exact hp.1
  · have hplaces : (mountwatchInotifyAdd cfg addWatch t.2.ientry line.mount line.device).map (·.place) =
        t.2.ientry.map (·.place) ++ searchPlaces cfg line.pair := inotifyAdd_places cfg addWatch t.2.ientry line.pair
    rw [hplaces]
    exact hp.1.trans (List.sublist_append_left _ _)

/-- One line more: the pairs are still apart, or the watches of one are there twice. -/
theorem twice_line (hnew : line.pair ∉ xs) (hbefore : PairsApart before) (hel : line.eligible = true)
    (h : PairsApart (before ++ xs) ∨ ∃ p, Twice cfg t p) :
    PairsApart (before ++ (xs ++ [line.pair])) ∨ ∃ p, Twice cfg (diffLine cfg addWatch t line) p := by
  cases hs : strays Shares line.pair (t.1.map (·.pair)) with
  | true => exact .inr ⟨line.pair, twice_stray hn hnew hbefore hel hs⟩
  | false =>
    rcases h with h | ⟨p, hp⟩
    · left
      rw [← List.append_assoc]
      intro a ha b hb hab
      rcases List.mem_append.mp ha with ha | ha <;> rcases List.mem_append.mp hb with hb | hb
      · exact h a ha b hb hab
      · rw [List.mem_singleton.mp hb] at hab ⊢
        exact far_of_quiet hn h hs ha hab
      · rw [List.mem_singleton.mp ha] at hab ⊢
        exact (far_of_quiet hn h hs hb (hab.imp Eq.symm Eq.symm)).symm
      · rw [List.mem_singleton.mp ha, List.mem_singleton.mp hb]
    · exact .inr ⟨p, twice_quiet hn hel hs hp⟩

end Line

/-- After the lines of a table that lists no pair twice, the pairs are apart, or the watches of one are there twice. -/
theorem twice_lines (h : Inv cfg r) (addWatch : CStr → ℤ) (lines : List MountLine) (hnd : (eligiblePairs lines).Nodup) :
    PairsApart (r.w.pairs ++ eligiblePairs lines) ∨
      ∃ p, Twice cfg (lines.foldl (diffLine cfg addWatch) (r.w.entry, ⟨r.w.ientry, []⟩)) p := by
  induction lines using List.reverseRecOn with
  | nil =>
    left
    rw [eligiblePairs, List.filter_nil, List.map_nil, List.append_nil]
    exact h.apart
  | append_singleton lines line ih =>
    have hmarks := (diffLines cfg addWatch lines (r.w.entry, ⟨r.w.ientry, []⟩)).1
    rw [marks_settled h.settled] at hmarks
    have hn : Noted Shares r.w.pairs (eligiblePairs lines)
        (marks (lines.foldl (diffLine cfg addWatch) (r.w.entry, ⟨r.w.ientry, []⟩)).1) := by
      rw [hmarks]
      exact noted_spec h.settled.nodup (eligiblePairs lines)
    rw [List.foldl_append, List.foldl_cons, List.foldl_nil]
    by_cases hel : line.eligible = true
    · have hxs : eligiblePairs (lines ++ [line]) = eligiblePairs lines ++ [line.pair] := by simp [eligiblePairs, hel]
      rw [hxs] at hnd ⊢
      have hnew : line.pair ∉ eligiblePairs lines := fun hmem => (List.nodup_append.mp hnd).2.2 _ hmem _ (by simp) rfl
      exact twice_line hn hnew h.apart hel (ih (List.nodup_append.mp hnd).1)
    · have hxs : eligiblePairs (lines ++ [line]) = eligiblePairs lines := by simp [eligiblePairs, hel]
      rw [hxs] at hnd ⊢
      rw [diffLine_skip cfg addWatch _ (by simpa using hel)]
      exact ih hnd

/-- Where the watches are right, the pairs have not mixed. -/
theorem unmixed_of_right (h : Inv cfg r) (hdir : cfg.searchDir ≠ []) {c : Poll × (CStr → ℤ)} (hplain : Plain c.1)
    (hr : Right cfg (r.call cfg c)) : r.Unmixed c := by
  obtain ⟨poll, addWatch⟩ := c
  cases poll with
  | timeout => trivial
  | unreadable => trivial
  | snapshot lines dirChange =>
    apply (twice_lines h addWatch lines hplain).resolve_right
    rintro ⟨p, hp⟩
    exact not_right_of_twice hp hdir dirChange (List.nodup_dedup _) hr.watches

end WatchRun

/-- **The watch list matches the mount list** after every call of a run in which no table mixes with the tracked pairs;
and where there are search directories and no table lists a pair twice, in these runs only. -/
theorem watch_list (cfg : DBPConfig) (calls : List (Poll × (CStr → ℤ))) :
    (Admissible (WatchRun.call cfg) WatchRun.Unmixed WatchRun.init calls →
      ∀ pre, pre <+: calls → WatchRun.Right cfg (pre.foldl (WatchRun.call cfg) WatchRun.init)) ∧
    (cfg.searchDir ≠ [] → (∀ c ∈ calls, WatchRun.Plain c.1) →
      (∀ pre, pre <+: calls → WatchRun.Right cfg (pre.foldl (WatchRun.call cfg) WatchRun.init)) →
      Admissible (WatchRun.call cfg) WatchRun.Unmixed WatchRun.init calls) := by
  have hinit : WatchRun.Inv cfg WatchRun.init ∧ WatchRun.Right cfg WatchRun.init :=
    ⟨WatchRun.inv_init, WatchRun.inv_init.right_watches, nofun⟩
  constructor
  · rintro h pre ⟨suf, rfl⟩
    have hpre := ((admissible_append _ _ _).mp h).1
    have hrun := run_history (I := fun _ r => WatchRun.Inv cfg r ∧ WatchRun.Right cfg r) hinit
      (fun _ c r hr hc => hr.1.call hc) pre hpre
    exact hrun.2
  · intro hdir hplain
    exact (run_iff_of (I := WatchRun.Inv cfg) calls WatchRun.init
      (fun r c hmem hr => ⟨WatchRun.unmixed_of_right hr hdir (hplain c hmem), fun hc => (hr.call hc).2⟩)
      (fun r c _ hr hc => (hr.call hc).1) hinit.1 hinit.2).mp

/-- A device that is mounted twice: the watches of its first mount are gone. -/
theorem watch_list_mounted_twice :
    ¬ WatchRun.Right ⟨[], [lit "apps"], [], [], [], [], []⟩ (WatchRun.call ⟨[], [lit "apps"], [], [], [], [], []⟩ WatchRun.init
      (.snapshot [⟨lit "/dev/sda1", lit "/media/a", lit "vfat"⟩, ⟨lit "/dev/sda1", lit "/media/b", lit "vfat"⟩] none, fun _ => 1)) := by
  intro h
  have hmem := h.watches.mem_iff (a := (lit "/media/a", lit "/dev/sda1", lit "/media/a/apps"))
  exact absurd (hmem.mpr (by decide)) (by decide)

end Dbp
