/-
# Which medium a path is on

`util_lookup_mount` of `dbpd/util.c` takes the device and mount point of a
package that is registered by its path from `/proc/mounts`: of the mount
points that are a prefix of the path as strings, the longest, as it is
written there. `mountwatch_diff`, whose mounts are crawled and released,
decodes what it reads. So the two agree, and the package is released with
its medium, exactly if the longest mount point that contains the path is in
the table as it is decoded, device included, and no mount point that only
begins like the path is longer (`onMedium_iff`).

Key definitions: `fgets`, `utilLookupMount`, `Contains`, `OnMedium`, `tableMounts`, `FirstLongest`.
Key theorems: `lookupLoop_best`, `foldl_keepLonger`, `tableMounts_mountText`, `onMedium_iff`.
-/
import Dbp.Daemon.MountTable
import Dbp.Daemon.MainLoop

namespace Dbp

open CLib Find

def PATH_MAX : ℕ := 4096

/-- `fgets` with room for `n` characters: what it stores, what is left of the file, and whether the end
of the file was met. -/
def fgets : ℕ → CStr → CStr × CStr × Bool
  | 0, s => ([], s, false)
  | _ + 1, [] => ([], [], true)
  | n + 1, c :: s =>
    if c = '\n' then ([c], s, false)
    else
      let r := fgets n s
      (c :: r.1, r.2)

/-- What `util_lookup_mount` holds: `buff`, `buff3` with `buff2`, and `best` with `device`. -/
structure Lookup where
  buff : CStr
  names : CStr × CStr
  best : Option (CStr × CStr)
deriving Repr, DecidableEq

/-- `sscanf(buff, "%s %s", buff2, buff3)`: what is not there keeps its old contents. -/
def scanNames (names : CStr × CStr) (buff : CStr) : CStr × CStr :=
  match words buff with
  | [] => names
  | [device] => (names.1, device)
  | device :: mount :: _ => (mount, device)

/-- A mount point with its device is the new best if the path begins with it and it is longer. -/
def keepLonger (path : CStr) (best : Option (CStr × CStr)) (names : CStr × CStr) : Option (CStr × CStr) :=
  if names.1 <+: path then
    match best with
    | none => some names
    | some b => if b.1.length < names.1.length then some names else some b
  else best

/-- A turn of the loop. -/
def lookupTurn (path : CStr) (s : Lookup) : Lookup :=
  let names := scanNames s.names s.buff
  { s with names := names, best := keepLonger path s.best names }

/-- The loop of `util_lookup_mount`, at most `n` turns; at the end of the file `fgets` leaves the buffer
as it is, and the turn is made once more. -/
def lookupLoop (path : CStr) : ℕ → CStr → Lookup → Lookup
  | 0, _, s => s
  | n + 1, text, s =>
    let r := fgets (PATH_MAX - 1) text
    let s' := lookupTurn path (if r.1 = [] then s else { s with buff := r.1 })
    if r.2.2 then s' else lookupLoop path n r.2.1 s'

/-- `util_lookup_mount`: the mount point and the device, if it finds any, where `mounts` is the text of
`/proc/mounts`, if that can be opened, and `b` and `names` what the stack holds in its buffers. -/
def utilLookupMount (mounts : Option CStr) (b : CStr) (names : CStr × CStr) (path : CStr) : Option (CStr × CStr) :=
  match mounts with
  | none => some (path, lit "/")
  | some text => (lookupLoop path (text.length + 1) text ⟨b, names, none⟩).best

/-- `RegisterPath` of `vtab_method_call`, if a mount was found. -/
def registerPathCall (cfg : DBPConfig) (d : Daemon) (e : Env) (mounts : Option CStr) (b : CStr) (names : CStr × CStr)
    (path : CStr) : Option (ℤ × CStr × Daemon) :=
  (utilLookupMount mounts b names path).map fun r => packageRegisterPath cfg d e r.2 path r.1

/-! ### The medium of a path -/

/-- A mount point contains a path: it is the path, or a prefix of it that ends at a slash. -/
def Contains (mount path : CStr) : Prop :=
  ∃ rest, path = mount ++ rest ∧ (rest = [] ∨ rest.head? = some '/' ∨ mount.getLast? = some '/')

/-- The decoded mount point and device of a line of the table. -/
def IsMount (text : CStr) (names : CStr × CStr) : Prop :=
  ∃ device mount rest, device :: mount :: rest ∈ mountRows text ∧ names = (charEscapePath mount, charEscapePath device)

/-- It is the longest that contains the path. -/
def IsMedium (text path : CStr) (names : CStr × CStr) : Prop :=
  IsMount text names ∧ Contains names.1 path ∧
    ∀ names', IsMount text names' → Contains names'.1 path → names'.1.length ≤ names.1.length

/-- A path is found on its medium: what is looked up is the mount point and device of the medium, a registration by
path does what the crawl of the medium does, and what it registers is released with the medium. -/
def OnMedium (text b : CStr) (names : CStr × CStr) (path : CStr) : Prop :=
  ∃ medium, IsMedium text path medium ∧ utilLookupMount (some text) b names path = some medium ∧
    ∀ (cfg : DBPConfig) (d : Daemon) (e : Env), packageFilenameInteresting cfg path →
      ∃ r, registerPathCall cfg d e (some text) b names path = some r ∧
        r.2.2 = (packageRegister cfg d e path medium.2 medium.1).2.2 ∧
        (PtrsNodup d → FreshPtr e → ∀ x ∈ r.2.2.p.entry, x ∉ d.p.entry →
          x.mount = medium.1 ∧ x.device = medium.2 ∧ x ∉ (packageReleaseMount cfg r.2.2 medium.2).p.entry)

/-! ### The loop -/

theorem fgets_append : ∀ (n : ℕ) (s : CStr), (fgets n s).1 ++ (fgets n s).2.1 = s
  | 0, _ => rfl
  | _ + 1, [] => rfl
  | n + 1, c :: s => by
    unfold fgets
    split_ifs
    · rfl
    · exact congrArg (c :: ·) (fgets_append n s)

theorem fgets_ne_nil (n : ℕ) {s : CStr} (h : s ≠ []) : (fgets (n + 1) s).1 ≠ [] := by
  obtain ⟨c, s, rfl⟩ := List.exists_cons_of_ne_nil h
  unfold fgets
  split_ifs <;> exact List.cons_ne_nil _ _

/-- At the end of the file nothing is left. -/
theorem fgets_end : ∀ (n : ℕ) (s : CStr), (fgets n s).2.2 = true → (fgets n s).2.1 = []
  | 0, _, h => by cases h
  | _ + 1, [], _ => rfl
  | n + 1, c :: s, h => by
    unfold fgets at h ⊢
    split_ifs at h ⊢
    exact fgets_end n s h

theorem fgets_shorter {s : CStr} (h : s ≠ []) : (fgets (PATH_MAX - 1) s).2.1.length < s.length := by
  have hlen := congrArg List.length (fgets_append (PATH_MAX - 1) s)
  have hpos := List.length_pos_of_ne_nil (fgets_ne_nil 4094 h)
  rw [List.length_append] at hlen
  have hsize : PATH_MAX - 1 = 4094 + 1 := rfl
  rw [hsize] at hlen ⊢
  omega

/-- The lines of a text, cut where the buffer is full. -/
def pieces (s : CStr) : List CStr :=
  if h : s = [] then [] else (fgets (PATH_MAX - 1) s).1 :: pieces (fgets (PATH_MAX - 1) s).2.1
termination_by s.length
decreasing_by exact fgets_shorter h

/-- The mount points and devices in pieces. -/
def scanPieces : CStr × CStr → List CStr → List (CStr × CStr)
  | _, [] => []
  | names, buff :: buffs => scanNames names buff :: scanPieces (scanNames names buff) buffs

/-- Mount points and devices as they are written in a table. -/
def tableMounts (text : CStr) (names : CStr × CStr) : List (CStr × CStr) := scanPieces names (pieces text)

theorem scanNames_twice (names : CStr × CStr) (buff : CStr) :
    scanNames (scanNames names buff) buff = scanNames names buff := by
  unfold scanNames
  cases words buff with
  | nil => rfl
  | cons device ws => cases ws <;> rfl

theorem keepLonger_twice (path : CStr) (best : Option (CStr × CStr)) (names : CStr × CStr) :
    keepLonger path (keepLonger path best names) names = keepLonger path best names := by
  unfold keepLonger
  by_cases hp : names.1 <+: path
  · simp only [if_pos hp]
    cases best with
    | none => simp
    | some b =>
      by_cases hlt : b.1.length < names.1.length
      · simp [hlt]
      · simp [hlt]
  · simp only [if_neg hp]

/-- The turn that is made once more changes nothing. -/
theorem lookupTurn_twice (path : CStr) (s : Lookup) : lookupTurn path (lookupTurn path s) = lookupTurn path s := by
  simp only [lookupTurn, scanNames_twice, keepLonger_twice]

theorem lookupLoop_best (path : CStr) : ∀ (n : ℕ) (text : CStr) (s : Lookup), text.length < n →
    text ≠ [] ∨ lookupTurn path s = s →
      (lookupLoop path n text s).best = (tableMounts text s.names).foldl (keepLonger path) s.best
  | 0, _, _, hn, _ => absurd hn (Nat.not_lt_zero _)
  | n + 1, text, s, hn, h => by
    by_cases hnil : text = []
    · have hturn : lookupTurn path s = s := h.resolve_left (not_not.mpr hnil)
      subst hnil
      have hfgets : fgets (PATH_MAX - 1) [] = ([], [], true) := rfl
      rw [tableMounts, pieces, dif_pos rfl, lookupLoop, hfgets]
      simp only [↓reduceIte, hturn]
      rfl
    · have hne : (fgets (PATH_MAX - 1) text).1 ≠ [] := fgets_ne_nil 4094 hnil
      have hshort := fgets_shorter hnil
      have hend := fgets_end (PATH_MAX - 1) text
      rw [tableMounts, pieces, dif_neg hnil, lookupLoop]
      generalize fgets (PATH_MAX - 1) text = r at hne hshort hend ⊢
      obtain ⟨buff, rest, eof⟩ := r
      simp only [if_neg hne, scanPieces, List.foldl_cons]
      have ih := lookupLoop_best path n rest (lookupTurn path { s with buff := buff }) (by simp only at hshort; omega)
        (.inr (lookupTurn_twice path _))
      cases eof with
      | false => exact ih
      | true =>
        have hrest : rest = [] := hend rfl
        rw [hrest, pieces, dif_pos rfl]
        rfl

/-! ### The longest prefix -/

/-- The mount points in the table that the path begins with. -/
def prefixMounts (text : CStr) (names : CStr × CStr) (path : CStr) : List (CStr × CStr) :=
  (tableMounts text names).filter (·.1 <+: path)

/-- The longest mount point, and the first of that length. -/
def FirstLongest (mounts : List (CStr × CStr)) (m : CStr × CStr) : Prop :=
  ∃ pre post, mounts = pre ++ m :: post ∧ (∀ n ∈ pre, n.1.length < m.1.length) ∧ ∀ n ∈ post, n.1.length ≤ m.1.length

theorem foldl_keepLonger (path : CStr) (mounts : List (CStr × CStr)) :
    mounts.foldl (keepLonger path) none = (mounts.filter (·.1 <+: path)).argmax (·.1.length) := by
  have hturn : keepLonger path = fun best names => if decide (names.1 <+: path) then
      List.argAux (fun b c : CStr × CStr => c.1.length < b.1.length) best names else best := by
    funext best names
    simp only [keepLonger, decide_eq_true_eq]
    cases best <;> rfl
  rw [List.argmax, List.foldl_filter, hturn]

/-- What is looked up in a table. -/
theorem utilLookupMount_iff {text : CStr} (h : text ≠ []) (b : CStr) (names : CStr × CStr) (path : CStr) (m : CStr × CStr) :
    utilLookupMount (some text) b names path = some m ↔ FirstLongest (prefixMounts text names path) m := by
  have hloop := lookupLoop_best path (text.length + 1) text ⟨b, names, none⟩ (Nat.lt_succ_self _) (.inl h)
  rw [utilLookupMount, hloop, foldl_keepLonger, argmax_eq_some_iff_split]
  rfl

/-- A line that fits the buffer is read whole. -/
theorem fgets_line : ∀ {n : ℕ} {line : CStr} (rest : CStr), '\n' ∉ line → line.length < n →
    fgets n (line ++ '\n' :: rest) = (line ++ ['\n'], rest, false)
  | 0, _, _, _, h => absurd h (Nat.not_lt_zero _)
  | n + 1, [], rest, _, _ => rfl
  | n + 1, c :: line, rest, hline, hlen => by
    obtain ⟨hc, hline⟩ := not_or.mp (fun hm => hline (List.mem_cons.mpr hm))
    have ih := fgets_line rest hline (Nat.lt_of_succ_lt_succ hlen)
    rw [List.cons_append, fgets, if_neg (Ne.symm hc), ih]
    rfl

/-- A table of these fields, as the kernel writes it. -/
def mountText (rows : List (List CStr)) : CStr := rows.flatMap fun row => [' '].intercalate row ++ ['\n']

/-- Fields are not empty and have no white space in them. -/
def FieldsOk (row : List CStr) : Prop := row ≠ [] ∧ ∀ w ∈ row, w ≠ [] ∧ ∀ c ∈ w, isspace c = false

theorem words_fields : ∀ {row : List CStr}, (∀ w ∈ row, w ≠ [] ∧ ∀ c ∈ w, isspace c = false) → (row.map words).flatten = row
  | [], _ => rfl
  | w :: row, h => by
    obtain ⟨⟨hne, hw⟩, hrow⟩ := List.forall_mem_cons.mp h
    rw [List.map_cons, List.flatten_cons, words_singleton hne hw, words_fields hrow, List.singleton_append]

theorem newline_not_mem {row : List CStr} (h : FieldsOk row) : '\n' ∉ [' '].intercalate row := by
  intro hm
  rcases mem_intercalate hm with heq | ⟨w, hw, hc⟩
  · exact absurd heq (by decide)
  · exact absurd ((h.2 w hw).2 _ hc) (by decide)

/-- Of a table the kernel writes with lines that fit the buffer, the second and first fields are read. -/
theorem tableMounts_mountText : ∀ {rows : List (List CStr)} (names : CStr × CStr),
    (∀ row ∈ rows, FieldsOk row ∧ 2 ≤ row.length ∧ ([' '].intercalate row).length < PATH_MAX - 1) →
      tableMounts (mountText rows) names = rows.map fun row => (row.getD 1 [], row.getD 0 [])
  | [], names, _ => by
    rw [tableMounts, mountText, List.flatMap_nil, pieces, dif_pos rfl]
    rfl
  | row :: rows, names, h => by
    obtain ⟨⟨hrow, hlen, hline⟩, hrows⟩ := List.forall_mem_cons.mp h
    have hnew := newline_not_mem hrow
    have htext : mountText (row :: rows) = [' '].intercalate row ++ '\n' :: mountText rows := by simp [mountText]
    have hne : mountText (row :: rows) ≠ [] := by simp [htext]
    have hwords : words ([' '].intercalate row ++ ['\n']) = row := by
      rw [words_append_space (by decide), words_nil, List.append_nil]
      exact (words_intercalate (by decide) row).trans (words_fields hrow.2)
    obtain ⟨device, ws, rfl⟩ := List.exists_cons_of_ne_nil hrow.1
    obtain ⟨mount, ws, rfl⟩ := List.exists_cons_of_ne_nil (l := ws) (by rintro rfl; simp at hlen)
    have hnames : scanNames names ([' '].intercalate (device :: mount :: ws) ++ ['\n']) = (mount, device) := by
      rw [scanNames, hwords]
    rw [tableMounts, pieces, dif_neg hne, htext, fgets_line _ hnew hline, scanPieces, hnames]
    have ih := tableMounts_mountText (mount, device) hrows
    exact congrArg ((mount, device) :: ·) ih

theorem ne_nil_of_isMount {text : CStr} {names : CStr × CStr} (h : IsMount text names) : text ≠ [] := by
  rintro rfl
  obtain ⟨device, mount, rest, hrow, -⟩ := h
  exact absurd hrow List.not_mem_nil

/-- **Looking up a medium.** A path is found on its medium exactly if the decoded mount point and device of the medium
are in the table so, as the first of the longest mount points that the path begins with. -/
theorem onMedium_iff (text b : CStr) (names : CStr × CStr) (path : CStr) : OnMedium text b names path ↔
    ∃ medium, IsMedium text path medium ∧ FirstLongest (prefixMounts text names path) medium := by
  constructor
  · rintro ⟨medium, hmedium, hlookup, -⟩
    exact ⟨medium, hmedium, (utilLookupMount_iff (ne_nil_of_isMount hmedium.1) b names path medium).mp hlookup⟩
  · rintro ⟨medium, hmedium, hfirst⟩
    have hlookup := (utilLookupMount_iff (ne_nil_of_isMount hmedium.1) b names path medium).mpr hfirst
    refine ⟨medium, hmedium, hlookup, fun cfg d e hpath => ?_⟩
    refine ⟨packageRegisterPath cfg d e medium.2 path medium.1, by rw [registerPathCall, hlookup]; rfl, ?_, ?_⟩
    · rw [packageRegisterPath_state, if_pos hpath]
    · intro hptrs hfresh x hx hnew
      obtain ⟨⟨new, hentry, hpair⟩, hkeep⟩ := registers_registerPath cfg d hfresh medium.2 path medium.1
      rw [hentry] at hx
      have hx := hpair x ((List.mem_append.mp hx).resolve_left hnew)
      have hmount : x.mount = medium.1 := congrArg MountPair.mount hx
      have hdevice : x.device = medium.2 := congrArg MountPair.device hx
      refine ⟨hmount, hdevice, ?_⟩
      rw [entries_releaseMount cfg (hkeep hptrs)]
      simp [hdevice]

/-- The path of a file in a directory that begins like a mount point. -/
theorem onMedium_sibling : ¬ OnMedium (lit "/dev/sda1 / ext4 rw 0 0\n/dev/sdb1 /media/usb vfat rw 0 0\n") [] ([], [])
    (lit "/media/usb2/x.dbp") := by
  rintro ⟨medium, ⟨-, ⟨rest, hrest, hend⟩, -⟩, hlookup, -⟩
  have hfound : utilLookupMount (some (lit "/dev/sda1 / ext4 rw 0 0\n/dev/sdb1 /media/usb vfat rw 0 0\n")) [] ([], [])
      (lit "/media/usb2/x.dbp") = some (lit "/media/usb", lit "/dev/sdb1") := by decide +kernel
  rw [hfound] at hlookup
  obtain rfl := Option.some.inj hlookup
  obtain rfl : rest = lit "2/x.dbp" := List.append_cancel_left hrest.symm
  exact absurd hend (by decide)

end Dbp
