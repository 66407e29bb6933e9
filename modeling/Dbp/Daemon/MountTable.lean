/-
# Reading the mount table

`mountwatch_diff` reads `/proc/mounts` three words at a time, without regard
to line ends: a line of six fields is two turns of the loop, and the second
one reads its options, which are no device. A word longer than its width
(256, 256 and 128 characters) is cut, and what is left of it is the next
word, so that the turns no longer begin where the lines do; and the arrays
have room for as many characters only, so that the NUL of a word that is as
long as its width is stored behind them. The mounts considered are the first
three fields of the lines that begin with `/`, and all is stored inside the
arrays, exactly if the fields of all lines are shorter than the widths,
no options look like a device and no device begins with an escaped `/`
(`readRight_iff`).

Key definitions: `scanMount`, `readMounts`, `considered`, `mountRows`, `StoresInside`, `ReadRight`, `FitsWidths`, `PlainRows`.
Key theorems: `mountwatchDiff_considered`, `readIn_turn`, `readIn_rows`, `readIn_overflow`, `readRight_iff`.
-/
import Dbp.Daemon.MountEscape
import Dbp.Daemon.Mountwatch
import Dbp.C.Scanf
import Mathlib.Data.List.Forall2

namespace Dbp

open CLib

/-- Device, mount point and file system, as they are read. -/
abbrev MountWords := CStr × CStr × CStr

/-- `fscanf(fp, "%256s %256s %128s\n", device, mount, fstype)`, over strings set to be empty: the characters
it stores and what is left of the text. -/
def scanMount (s : CStr) : MountWords × CStr :=
  let device := scanWord 256 s
  let mount := scanWord 256 device.2
  let fstype := scanWord 128 mount.2
  ((device.1, mount.1, fstype.1), fstype.2.dropWhile isspace)

/-- The reading loop of `mountwatch_diff`: at most `n` turns, until the end of the file was met. -/
def readMounts : ℕ → CStr → List MountWords
  | 0, _ => []
  | n + 1, s => (scanMount s).1 :: if (scanMount s).2 = [] then [] else readMounts n (scanMount s).2

/-- Not a special file system: the decoded device begins with `/`. -/
def IsDevice (device : CStr) : Prop := (charEscapePath device).head? = some '/'

instance (device : CStr) : Decidable (IsDevice device) := inferInstanceAs (Decidable (_ = _))

/-- The mounts that are considered; a turn takes a character at least. -/
def considered (text : CStr) : List MountWords := (readMounts (text.length + 1) text).filter (IsDevice ·.1)

/-- What the rest of the loop has of a mount. -/
def decodeMount (t : MountWords) : MountLine := ⟨charEscapePath t.1, charEscapePath t.2.1, t.2.2⟩

/-- The others do not matter to the comparison. -/
theorem mountwatchDiff_considered (cfg : DBPConfig) (addWatch : CStr → ℤ) (w : Mountwatch) (text : CStr)
    (dirChange : Option (List InotifyEvent)) :
    mountwatchDiff cfg addWatch w (.snapshot ((readMounts (text.length + 1) text).map decodeMount) dirChange) =
      mountwatchDiff cfg addWatch w (.snapshot ((considered text).map decodeMount) dirChange) := by
  have hskip : ∀ (ts : List MountWords) (s : List MountwatchEntry × Diff),
      (ts.map decodeMount).foldl (diffLine cfg addWatch) s =
        ((ts.filter (IsDevice ·.1)).map decodeMount).foldl (diffLine cfg addWatch) s := by
    intro ts
    induction ts with
    | nil => exact fun _ => rfl
    | cons t ts ih =>
      intro s
      by_cases ht : IsDevice t.1
      · rw [List.filter_cons_of_pos (by simpa using ht)]
        exact ih _
      · have hline : diffLine cfg addWatch s (decodeMount t) = s := by
          have hno : (decodeMount t).eligible = false := by
            have hhead : ((charEscapePath t.1).head? == some '/') = false := by simpa [IsDevice] using ht
            simp [MountLine.eligible, decodeMount, hhead]
          simp [diffLine, hno]
        rw [List.filter_cons_of_neg (by simpa using ht), List.map_cons, List.foldl_cons, hline]
        exact ih s
  rw [mountwatchDiff, hskip]
  rfl

/-! ### The lines of the table -/

/-- The fields of the lines; empty lines have none. -/
def mountRows (text : CStr) : List (List CStr) := ((text.splitOn '\n').map words).filter (· ≠ [])

/-- The first three fields of a line, and the last three. -/
def firstFields (row : List CStr) : MountWords := (row.getD 0 [], row.getD 1 [], row.getD 2 [])

def lastFields (row : List CStr) : MountWords := (row.getD 3 [], row.getD 4 [], row.getD 5 [])

/-- The first three fields of the lines that begin with `/`. -/
def deviceMounts (rows : List (List CStr)) : List MountWords := (rows.map firstFields).filter (·.1.head? = some '/')

/-- `device[256]`, `mount[256]` and `fstype[128]` have room for what a turn stores, with the NUL. -/
def StoresInside (t : MountWords) : Prop := t.1.length < 256 ∧ t.2.1.length < 256 ∧ t.2.2.length < 128

instance (t : MountWords) : Decidable (StoresInside t) := inferInstanceAs (Decidable (_ ∧ _))

/-- All that is read is stored inside the arrays, and the mounts that are considered are the right ones. -/
structure ReadRight (text : CStr) : Prop where
  inside : ∀ t ∈ readMounts (text.length + 1) text, StoresInside t
  right : considered text = deviceMounts (mountRows text)

/-- The lengths of the fields. -/
def fieldLengths (text : CStr) : List (List ℕ) := (mountRows text).map (·.map List.length)

/-- The widths a line's fields are read with, if all are below them. -/
def fieldWidths : List ℕ := [256, 256, 128, 256, 256, 128]

/-- Lines of six fields that are shorter than the widths. -/
def FitsWidths (lengths : List (List ℕ)) : Prop := ∀ ns ∈ lengths, List.Forall₂ (· < ·) ns fieldWidths

/-- No line's options look like a device, and no device begins with an escaped `/`. -/
def PlainRows (text : CStr) : Prop := ∀ row ∈ mountRows text,
  ¬ IsDevice (row.getD 3 []) ∧ (IsDevice (row.getD 0 []) → (row.getD 0 []).head? = some '/')

theorem isDevice_of_head {s : CStr} (h : s.head? = some '/') : IsDevice s := by
  obtain ⟨s', rfl⟩ := List.head?_eq_some_iff.mp h
  exact charEscapePath_head (by decide) (by decide) s'

/-! ### Turns of the loop -/

/-- What a turn takes from the words. -/
def takeMount (ws : List CStr) : MountWords × List CStr :=
  let device := takeWord 256 ws
  let mount := takeWord 256 device.2
  let fstype := takeWord 128 mount.2
  ((device.1, mount.1, fstype.1), fstype.2)

theorem scanMount_words (s : CStr) :
    (scanMount s).1 = (takeMount (words s)).1 ∧ words (scanMount s).2 = (takeMount (words s)).2 := by
  simp only [scanMount, takeMount, words_dropWhile]
  simp only [← scanWord_words, and_self]

theorem scanMount_rest (s : CStr) : (scanMount s).2 = [] ↔ words (scanMount s).2 = [] := by
  refine ⟨fun h => by rw [h]; rfl, fun h => ?_⟩
  simp only [scanMount, words_dropWhile] at h ⊢
  rcases words_cases (scanWord 128 (scanWord 256 (scanWord 256 s).2).2).2 with ⟨-, hnil⟩ | ⟨w, u, -, -, -, -, hne⟩
  · exact hnil
  · simp [hne] at h

theorem scanMount_shorter {s : CStr} (h : words s ≠ []) : (scanMount s).2.length < s.length := by
  have hword : 0 < (scanWord 256 s).1.length := by
    have h1 := congrArg Prod.fst (scanWord_words 256 s)
    obtain ⟨w, ws, hws⟩ := List.exists_cons_of_ne_nil h
    have hne : w ≠ [] := ne_nil_of_mem_words (s := s) (by rw [hws]; exact List.mem_cons_self)
    have hpos := List.length_pos_of_ne_nil hne
    rw [hws] at h1
    simp only [takeWord] at h1
    rw [h1, List.length_take]
    omega
  have h1 := (scanWord_length 256 s).2
  have h2 := (scanWord_length 256 (scanWord 256 s).2).2
  have h3 := (scanWord_length 128 (scanWord 256 (scanWord 256 s).2).2).2
  have h4 := (List.dropWhile_suffix isspace (l := (scanWord 128 (scanWord 256 (scanWord 256 s).2).2).2)).length_le
  simp only [scanMount]
  omega

section Turns

variable {p : MountWords → Bool} (hp : p ([], [], []) = false)

/-- Among the mounts read in at most `n` turns, those of which `p` holds. -/
abbrev readIn (p : MountWords → Bool) (n : ℕ) (s : CStr) : List MountWords := (readMounts n s).filter p

include hp

theorem readIn_nil {n : ℕ} {s : CStr} (h : words s = []) : readIn p n s = [] := by
  cases n with
  | zero => rfl
  | succ n =>
    obtain ⟨hline, hrest⟩ := scanMount_words s
    rw [h] at hline hrest
    have hempty : takeMount [] = (([], [], []), []) := rfl
    rw [hempty] at hline hrest
    have hread : readMounts (n + 1) s = [(([], [], []) : MountWords)] := by
      rw [readMounts, hline, if_pos ((scanMount_rest s).mpr hrest)]
    rw [readIn, hread, List.filter_cons_of_neg (by simp [hp]), List.filter_nil]

/-- A turn of the loop. -/
theorem readIn_turn {n : ℕ} {s : CStr} (hn : s.length < n) (h : words s ≠ []) : ∃ n' s', s'.length < n' ∧
    words s' = (takeMount (words s)).2 ∧ readIn p n s = [(takeMount (words s)).1].filter p ++ readIn p n' s' := by
  obtain ⟨n, rfl⟩ := Nat.exists_eq_add_of_lt hn
  obtain ⟨hline, hrest⟩ := scanMount_words s
  have hshort := scanMount_shorter h
  refine ⟨s.length + n, (scanMount s).2, by omega, hrest, ?_⟩
  rw [readIn, readMounts, ← List.singleton_append, List.filter_append, hline]
  split_ifs with hend
  · rw [readIn_nil hp ((scanMount_rest s).mp hend)]
    rfl
  · rfl

end Turns

/-! ### Lines within the widths -/

theorem takeWord_fits {width : ℕ} {w : CStr} (h : w.length < width) (ws : List CStr) :
    takeWord width (w :: ws) = (w, ws) := by
  rw [takeWord, if_pos h.le, List.take_of_length_le h.le]

theorem takeMount_fits {a b c : CStr} (ha : a.length < 256) (hb : b.length < 256) (hc : c.length < 128) (ws : List CStr) :
    takeMount (a :: b :: c :: ws) = ((a, b, c), ws) := by
  simp only [takeMount, takeWord_fits ha, takeWord_fits hb, takeWord_fits hc]

/-- The two turns of a line within the widths, as far as `p` holds of them. -/
def rowTurns (p : MountWords → Bool) (row : List CStr) : List MountWords := [firstFields row, lastFields row].filter p

/-- The fields of a line of six. -/
theorem exists_fields {row : List CStr} (h : row.length = 6) : ∃ a b c d e f, row = [a, b, c, d, e, f] := by
  match row, h with
  | [a, b, c, d, e, f], _ => exact ⟨a, b, c, d, e, f, rfl⟩

/-- Lines within the widths are read in two turns each. -/
theorem readIn_rows {p : MountWords → Bool} (hp : p ([], [], []) = false) : ∀ (rows : List (List CStr)),
    FitsWidths (rows.map (·.map List.length)) → ∀ {ws : List CStr} {n : ℕ} {s : CStr}, words s = rows.flatten ++ ws →
      s.length < n → ∃ n' s', s'.length < n' ∧ words s' = ws ∧ readIn p n s = rows.flatMap (rowTurns p) ++ readIn p n' s'
  | [], _, ws, n, s, hs, hn => ⟨n, s, hn, hs, rfl⟩
  | row :: rows, hfits, ws, n, s, hs, hn => by
    obtain ⟨hrow, hrows⟩ := List.forall_mem_cons.mp hfits
    obtain ⟨a, b, c, d, e, f, rfl⟩ := exists_fields (by simpa [fieldWidths] using hrow.length_eq)
    simp only [fieldWidths, List.map_cons, List.map_nil, List.forall₂_cons, List.Forall₂.nil, and_true] at hrow
    obtain ⟨ha, hb, hc, hd, he, hf⟩ := hrow
    have hs1 : words s = a :: b :: c :: (d :: e :: f :: (rows.flatten ++ ws)) := by simp [hs]
    obtain ⟨n1, s1, hn1, hw1, hc1⟩ := readIn_turn hp hn (by simp [hs1])
    rw [hs1, takeMount_fits ha hb hc] at hw1 hc1
    obtain ⟨n2, s2, hn2, hw2, hc2⟩ := readIn_turn hp hn1 (by simp [hw1])
    rw [hw1, takeMount_fits hd he hf] at hw2 hc2
    obtain ⟨n', s', hn', hw', hc'⟩ := readIn_rows hp rows hrows hw2 hn2
    refine ⟨n', s', hn', hw', ?_⟩
    have hturns : rowTurns p [a, b, c, d, e, f] = [(a, b, c)].filter p ++ [(d, e, f)].filter p := by
      rw [← List.filter_append]
      rfl
    rw [hc1, hc2, hc', List.flatMap_cons, hturns, List.append_assoc, List.append_assoc]

/-- The words of a table are its fields. -/
theorem words_mountRows (text : CStr) : words text = (mountRows text).flatten := by
  have hjoin : words ((lit "\n").intercalate (text.splitOn '\n')) = ((text.splitOn '\n').map words).flatten :=
    words_intercalate (by decide) _
  have hempty : ∀ ls : List (List CStr), (ls.filter (· ≠ [])).flatten = ls.flatten := by
    intro ls
    induction ls with
    | nil => rfl
    | cons l ls ih => cases l <;> simp_all
  rw [mountRows, hempty, ← hjoin]
  exact congrArg words (List.intercalate_splitOn '\n').symm

theorem considered_fits {text : CStr} (h : FitsWidths (fieldLengths text)) :
    considered text = (mountRows text).flatMap (rowTurns (IsDevice ·.1)) := by
  have hwords : words text = (mountRows text).flatten ++ [] := by rw [List.append_nil, words_mountRows]
  have hempty : decide (IsDevice ([] : CStr)) = false := by decide
  obtain ⟨n', s', -, hs', hread⟩ :=
    readIn_rows (p := fun t => IsDevice t.1) hempty (mountRows text) h hwords (Nat.lt_succ_self _)
  exact hread.trans (by rw [readIn_nil (p := fun t => IsDevice t.1) hempty hs', List.append_nil])

theorem deviceMounts_cons (row : List CStr) (rows : List (List CStr)) :
    deviceMounts (row :: rows) = deviceMounts [row] ++ deviceMounts rows := by
  rw [deviceMounts, List.map_cons, ← List.singleton_append, List.filter_append]
  rfl

/-- No line is considered less often than it should be, and only plain ones exactly as often. -/
theorem rowTurns_length (row : List CStr) :
    (deviceMounts [row]).length ≤ (rowTurns (IsDevice ·.1) row).length ∧
      ((rowTurns (IsDevice ·.1) row).length ≤ (deviceMounts [row]).length ↔
        ¬ IsDevice (row.getD 3 []) ∧ (IsDevice (row.getD 0 []) → (row.getD 0 []).head? = some '/')) := by
  simp only [rowTurns, deviceMounts, firstFields, lastFields, List.map_cons, List.map_nil, List.filter_cons,
    List.filter_nil]
  generalize row.getD 0 [] = a, row.getD 3 [] = d
  by_cases h0 : a.head? = some '/'
  · have hd0 := isDevice_of_head h0
    by_cases h3 : IsDevice d <;> simp [h0, hd0, h3]
  · by_cases hd0 : IsDevice a <;> by_cases h3 : IsDevice d <;> simp [h0, hd0, h3]

theorem flatMap_rowTurns_iff : ∀ rows : List (List CStr), rows.flatMap (rowTurns (IsDevice ·.1)) = deviceMounts rows ↔
    ∀ row ∈ rows, ¬ IsDevice (row.getD 3 []) ∧ (IsDevice (row.getD 0 []) → (row.getD 0 []).head? = some '/')
  | [] => by simp [deviceMounts]
  | row :: rows => by
    have hle : ∀ rows : List (List CStr), (deviceMounts rows).length ≤ (rows.flatMap (rowTurns (IsDevice ·.1))).length := by
      intro rows
      induction rows with
      | nil => exact le_rfl
      | cons row rows ih =>
        have hrow := (rowTurns_length row).1
        rw [deviceMounts_cons, List.flatMap_cons, List.length_append, List.length_append]
        omega
    have hplain := (rowTurns_length row).2
    rw [deviceMounts_cons, List.flatMap_cons, List.forall_mem_cons, ← flatMap_rowTurns_iff rows, ← hplain]
    constructor
    · intro h
      have hlen := congrArg List.length h
      rw [List.length_append, List.length_append] at hlen
      have hrest := hle rows
      exact ⟨by omega, List.append_inj_right h (by have := (rowTurns_length row).1; omega)⟩
    · rintro ⟨hone, hrest⟩
      obtain ⟨h3, h0⟩ := hplain.mp hone
      have hiff : IsDevice (row.getD 0 []) ↔ (row.getD 0 []).head? = some '/' := ⟨h0, isDevice_of_head⟩
      have hrow : rowTurns (IsDevice ·.1) row = deviceMounts [row] := by
        simp only [rowTurns, deviceMounts, firstFields, lastFields, List.map_cons, List.map_nil, List.filter_cons, h3,
          decide_false, hiff, List.filter_nil, Bool.false_eq_true, ↓reduceIte]
      rw [hrest, hrow]

/-! ### Words that fill their arrays -/

/-- A turn that reads a word which is not shorter than its width. -/
theorem not_inside_takeMount {a b c : CStr} (h : ¬ (a.length < 256 ∧ b.length < 256 ∧ c.length < 128)) (ws : List CStr) :
    ¬ StoresInside (takeMount (a :: b :: c :: ws)).1 := by
  have hfull : ∀ {width : ℕ} {w : CStr} (ws : List CStr), ¬ w.length < width →
      (takeWord width (w :: ws)).1.length = width := by
    intro width w ws hw
    rw [takeWord, List.length_take]
    omega
  rintro ⟨hdevice, hmount, hfstype⟩
  by_cases ha : a.length < 256
  · by_cases hb : b.length < 256
    · have hc : ¬ c.length < 128 := fun hc => h ⟨ha, hb, hc⟩
      simp only [takeMount, takeWord_fits ha, takeWord_fits hb, hfull ws hc] at hfstype
      omega
    · simp only [takeMount, takeWord_fits ha, hfull (c :: ws) hb] at hmount
      omega
  · simp only [takeMount, hfull (b :: c :: ws) ha] at hdevice
    omega

/-- The first line with a field that is too long. -/
theorem exists_unfit : ∀ {rows : List (List CStr)}, ¬ FitsWidths (rows.map (·.map List.length)) →
    ∃ pre row post, rows = pre ++ row :: post ∧ FitsWidths (pre.map (·.map List.length)) ∧
      ¬ List.Forall₂ (· < ·) (row.map List.length) fieldWidths
  | [], h => absurd (fun _ hns => absurd hns List.not_mem_nil) h
  | row :: rows, h => by
    by_cases hrow : List.Forall₂ (· < ·) (row.map List.length) fieldWidths
    · have hrows : ¬ FitsWidths (rows.map (·.map List.length)) := fun hrows => h (List.forall_mem_cons.mpr ⟨hrow, hrows⟩)
      obtain ⟨pre, row', post, rfl, hpre, hrow'⟩ := exists_unfit hrows
      exact ⟨row :: pre, row', post, rfl, List.forall_mem_cons.mpr ⟨hrow, hpre⟩, hrow'⟩
    · exact ⟨[], row, rows, rfl, fun _ hns => absurd hns List.not_mem_nil, hrow⟩

/-- Not stored inside the arrays. -/
def overflows (t : MountWords) : Bool := !decide (StoresInside t)

theorem overflows_eq_true {t : MountWords} : overflows t = true ↔ ¬ StoresInside t := by simp [overflows]

theorem overflows_empty : overflows ([], [], []) = false := by decide

theorem inside_iff (text : CStr) : (∀ t ∈ readMounts (text.length + 1) text, StoresInside t) ↔
    readIn overflows (text.length + 1) text = [] := by
  simp only [readIn, List.filter_eq_nil_iff, overflows_eq_true, not_not]

/-- The two turns of a line store inside the arrays exactly if its fields are shorter than the widths. -/
theorem readIn_overflow {row : List CStr} (hlen : row.length = 6) (h : ¬ List.Forall₂ (· < ·) (row.map List.length) fieldWidths)
    {ws : List CStr} {n : ℕ} {s : CStr} (hs : words s = row ++ ws) (hn : s.length < n) : readIn overflows n s ≠ [] := by
  obtain ⟨a, b, c, d, e, f, rfl⟩ := exists_fields hlen
  simp only [fieldWidths, List.map_cons, List.map_nil, List.forall₂_cons, List.Forall₂.nil, and_true] at h
  have hs1 : words s = a :: b :: c :: (d :: e :: f :: ws) := hs
  obtain ⟨n1, s1, hn1, hw1, hc1⟩ := readIn_turn overflows_empty hn (by simp [hs1])
  rw [hs1] at hw1 hc1
  by_cases habc : a.length < 256 ∧ b.length < 256 ∧ c.length < 128
  · rw [takeMount_fits habc.1 habc.2.1 habc.2.2] at hw1
    obtain ⟨n2, s2, -, -, hc2⟩ := readIn_turn overflows_empty hn1 (by simp [hw1])
    have hdef : ¬ (d.length < 256 ∧ e.length < 256 ∧ f.length < 128) := fun hdef => h ⟨habc.1, habc.2.1, habc.2.2, hdef⟩
    rw [hc1, hc2, hw1, List.filter_cons_of_pos (overflows_eq_true.mpr (not_inside_takeMount hdef ws))]
    simp
  · rw [hc1, List.filter_cons_of_pos (overflows_eq_true.mpr (not_inside_takeMount habc _))]
    simp

/-- All is stored inside the arrays exactly if all fields are shorter than the widths. -/
theorem inside_iff_fits {text : CStr} (h : ∀ row ∈ mountRows text, row.length = 6) :
    (∀ t ∈ readMounts (text.length + 1) text, StoresInside t) ↔ FitsWidths (fieldLengths text) := by
  rw [inside_iff]
  constructor
  · intro hin
    by_contra hfit
    obtain ⟨pre, row, post, hrows, hpre, hrow⟩ := exists_unfit hfit
    have hwords : words text = pre.flatten ++ (row ++ post.flatten) := by
      rw [words_mountRows, hrows, List.flatten_append, List.flatten_cons]
    obtain ⟨n, s, hn, hs, hread⟩ := readIn_rows overflows_empty pre hpre hwords (Nat.lt_succ_self _)
    rw [hread, List.append_eq_nil_iff] at hin
    exact readIn_overflow (h row (hrows ▸ List.mem_append_right _ List.mem_cons_self)) hrow hs hn hin.2
  · intro hfit
    have hwords : words text = (mountRows text).flatten ++ [] := by rw [List.append_nil, words_mountRows]
    obtain ⟨n', s', -, hs', hread⟩ := readIn_rows overflows_empty (mountRows text) hfit hwords (Nat.lt_succ_self _)
    rw [hread, readIn_nil overflows_empty hs', List.append_nil, List.flatMap_eq_nil_iff]
    intro row hrow
    have hlt := hfit _ (List.mem_map_of_mem hrow)
    obtain ⟨a, b, c, d, e, f, rfl⟩ := exists_fields (h row hrow)
    simp only [fieldWidths, List.map_cons, List.map_nil, List.forall₂_cons, List.Forall₂.nil, and_true] at hlt
    obtain ⟨ha, hb, hc, hd, he, hf⟩ := hlt
    simp [rowTurns, firstFields, lastFields, overflows, StoresInside, ha, hb, hc, hd, he, hf]

/-- **Mount table.** All is stored inside the arrays and the mounts considered are the first three fields of the lines of
devices, exactly if the fields of all lines are shorter than the widths and the lines are plain. -/
theorem readRight_iff (text : CStr) (h : ∀ row ∈ mountRows text, row.length = 6) :
    ReadRight text ↔ FitsWidths (fieldLengths text) ∧ PlainRows text := by
  have hplain : FitsWidths (fieldLengths text) → (considered text = deviceMounts (mountRows text) ↔ PlainRows text) := by
    intro hfit
    rw [considered_fits hfit]
    exact flatMap_rowTurns_iff _
  constructor
  · intro hright
    have hfit := (inside_iff_fits h).mp hright.inside
    exact ⟨hfit, (hplain hfit).mp hright.right⟩
  · rintro ⟨hfit, hrows⟩
    exact ⟨(inside_iff_fits h).mpr hfit, (hplain hfit).mpr hrows⟩

/-- Two lines, one of them of a device. -/
theorem readRight_iff_short : ReadRight (lit "proc /proc proc rw 0 0\n/dev/sda1 / ext4 rw 0 0\n") ↔
    FitsWidths (fieldLengths (lit "proc /proc proc rw 0 0\n/dev/sda1 / ext4 rw 0 0\n")) ∧
      PlainRows (lit "proc /proc proc rw 0 0\n/dev/sda1 / ext4 rw 0 0\n") :=
  readRight_iff (lit "proc /proc proc rw 0 0\n/dev/sda1 / ext4 rw 0 0\n") (by decide +kernel)

/-- After options of 300 characters the next line is not read as one, wherever the NUL behind `device` goes. -/
theorem readRight_long_options : ¬ ReadRight (lit "/dev/sda1 / ext4 " ++ List.replicate 300 'x' ++
    lit " 0 0\n/dev/sdb1 /media/usb vfat rw 0 0\n") := by
  intro h
  have hmount : (lit "/dev/sdb1", lit "/media/usb", lit "vfat") ∈ deviceMounts (mountRows (lit "/dev/sda1 / ext4 " ++
      List.replicate 300 'x' ++ lit " 0 0\n/dev/sdb1 /media/usb vfat rw 0 0\n")) := by decide +kernel
  rw [← h.right] at hmount
  exact absurd (List.mem_filter.mp hmount).1 (by decide +kernel)

end Dbp
