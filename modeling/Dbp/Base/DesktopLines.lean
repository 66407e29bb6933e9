/-
# Lines of a desktop file

What one turn of the parser's loop does, in terms of the line and the text
after it. The key stands in the line (`keyOf`); the value (`valueOf`) is the
rest of the line after `=`, unless that is blank or there is no `=`: then the
white-space directives of the scan go on into the following lines.
`CarryFree` says when the text after the line does not matter, and `FreshKey`
when the buffers of earlier lines do not.

Key definitions: `keyOf`, `valueOf`, `keyStep`, `localCall`, `CarryFree`, `FreshKey`.
Key theorems: `parseLine_eq`, `keyStep_entry`, `lineStarts_cons`, `valueOf_eq_iff`.
-/
import Dbp.Base.DesktopParse
import Mathlib.Data.List.TakeWhile
import Mathlib.Tactic.Common

namespace Dbp

open CLib

/-! ### Lines of a text -/

/-- The text after the first line, with the line end. -/
def afterLine (str : CStr) : CStr := str.dropWhile (· != '\n')

/-- The lines of a text. -/
abbrev textLines (str : CStr) : List CStr := (lineStarts str).map firstLine

theorem firstLine_append_afterLine (str : CStr) : firstLine str ++ afterLine str = str :=
  List.takeWhile_append_dropWhile

theorem not_mem_firstLine (str : CStr) : '\n' ∉ firstLine str := fun h => by
  simpa using List.mem_takeWhile_imp h

theorem head_afterLine (str : CStr) : (afterLine str).head?.all (· == '\n') := by
  unfold afterLine
  induction str with
  | nil => rfl
  | cons c cs ih =>
    by_cases hc : c = '\n'
    · subst hc
      rfl
    · simpa [hc] using ih

theorem firstLine_append {line after : CStr} (hl : '\n' ∉ line) (ha : after.head?.all (· == '\n')) :
    firstLine (line ++ after) = line :=
  takeWhile_append_stop (fun c hc => by simpa using ne_of_mem_of_not_mem hc hl)
    (by cases after <;> simp_all)

theorem firstLine_self {line : CStr} (hl : '\n' ∉ line) : firstLine line = line := by
  simpa using @firstLine_append line [] hl rfl

/-- A line and the lines after it. -/
theorem lineStarts_cons : ∀ {line : CStr} (rest : CStr), '\n' ∉ line →
    lineStarts (line ++ '\n' :: rest) = (line ++ '\n' :: rest) :: lineStarts rest
  | [], _, _ => by simp [lineStarts]
  | c :: cs, rest, h => by
    rw [List.mem_cons, not_or] at h
    rw [List.cons_append, lineStarts, if_neg (Ne.symm h.1), lineStarts_cons rest h.2, List.tail_cons]

/-! ### Key and value -/

/-- The key the scan reads. -/
def keyOf (str : CStr) : CStr := str.takeWhile fun c => c != '\n' && c != '='

/-- The value the scan reads, over line ends. -/
def valueOf (str : CStr) : CStr :=
  match (str.dropWhile fun c => c != '\n' && c != '=').dropWhile isspace with
  | '=' :: s => (s.dropWhile isspace).takeWhile (· != '\n')
  | _ => []

/-- What the parser does with a key and a value. -/
def keyStep (key value : CStr) (b : ParseBufs) : ParseStep :=
  match key with
  | [] => ⟨.none, b, []⟩
  | c :: _ =>
    if c = '[' then parseSection key b []
    else if c = ';' ∨ c = '#' then ⟨.none, b, []⟩
    else parseEntry key value b []

theorem scan_keyValue (str : CStr) : sscanf keyValueFormat str =
    if keyOf str = [] then [] else keyOf str :: if valueOf str = [] then [] else [valueOf str] := by
  have hkey : sscanf keyValueFormat str = if keyOf str = [] then [] else keyOf str ::
      sscanf [.space, .lit '=', .space, restOfLine, .space] (str.dropWhile fun c => c != '\n' && c != '=') := rfl
  rw [hkey]
  unfold valueOf
  rw [sscanf_space]
  congr 2
  split
  next s h =>
    rw [h, sscanf_lit, sscanf_space, restOfLine, sscanf]
    rfl
  next h =>
    rw [sscanf_lit_ne]
    · rfl
    · intro hh
      obtain ⟨t, ht⟩ := List.head?_eq_some_iff.mp hh
      exact h t ht

/-- One turn of the loop. -/
theorem parseLine_eq (str : CStr) (b : ParseBufs) : parseLine str b =
    if bufSize ≤ (firstLine str).length then ⟨.none, b, []⟩
    else
      let r := keyStep (keyOf str) (valueOf str) b
      ⟨r.call, r.bufs, sscanf keyValueFormat str ++ r.stores⟩ := by
  unfold parseLine
  split_ifs with hlen
  · rfl
  · have hk : (sscanf keyValueFormat str).getD 0 [] = keyOf str := by
      rw [scan_keyValue]
      split_ifs with h <;> simp [h]
    simp only [hk]
    cases hkey : keyOf str with
    | nil => simp [keyStep]
    | cons c cs =>
      have hv : (sscanf keyValueFormat str).getD 1 [] = valueOf str := by
        rw [scan_keyValue, hkey]
        by_cases hv : valueOf str = [] <;> simp [hv]
      simp only [hv, keyStep]
      split_ifs
      · unfold parseSection
        split_ifs <;> simp
      · simp
      · unfold parseEntry
        split_ifs <;> simp

/-- A text at the end of its key: the key has no line end and no `=`. -/
structure KeySplit (k t : CStr) : Prop where
  key : ∀ c ∈ k, c ≠ '\n' ∧ c ≠ '='
  stop : t.head?.all fun c => c == '\n' || c == '='

theorem exists_keySplit (str : CStr) : ∃ k t, str = k ++ t ∧ KeySplit k t := by
  obtain ⟨k, t, rfl, hk, ht⟩ := exists_run (fun c => c != '\n' && c != '=') str
  refine ⟨k, t, rfl, fun c hc => by simpa using hk c hc, ?_⟩
  cases t with
  | nil => rfl
  | cons c t => simpa [Decidable.or_iff_not_imp_left] using ht

namespace KeySplit

variable {k t : CStr}

theorem run (h : KeySplit k t) : ∀ c ∈ k, (c != '\n' && c != '=') = true := fun c hc => by
  simpa using h.key c hc

theorem stop' (h : KeySplit k t) : t.head?.all fun c => !(c != '\n' && c != '=') := by
  have := h.stop
  cases t with
  | nil => rfl
  | cons c t => simpa [Decidable.or_iff_not_imp_left] using this

theorem keyOf_eq (h : KeySplit k t) : keyOf (k ++ t) = k := takeWhile_append_stop h.run h.stop'

theorem valueOf_eq (h : KeySplit k t) : valueOf (k ++ t) =
    match t.dropWhile isspace with
    | '=' :: s => (s.dropWhile isspace).takeWhile (· != '\n')
    | _ => [] := by
  rw [valueOf, dropWhile_append_stop h.run h.stop']

end KeySplit

/-- The line read from the first character that is no white space on. -/
theorem takeWhile_line_eq_nil {s : CStr} : (s.dropWhile isspace).takeWhile (· != '\n') = [] ↔ Blank s := by
  refine ⟨fun h => ?_, fun h => by rw [dropWhile_isspace_eq_nil.mpr h]; rfl⟩
  by_contra hb
  obtain ⟨w, c, t, rfl, hw, hc⟩ := exists_of_not_blank hb
  have hne : c ≠ '\n' := fun he => by simp [he, isspace] at hc
  rw [dropWhile_isspace_stop hw hc, List.takeWhile_cons_of_pos (by simpa using hne)] at h
  cases h

/-! ### Lines that stand for themselves -/

/-- The text after a line has no part in the value the line is given: there
is more than white space after its `=`, or only white space after the line;
and a line without `=` is not continued by a line that begins with one. -/
def CarryFree (line after : CStr) : Prop :=
  if '=' ∈ line then ¬ Blank (line.dropWhile (· != '=')).tail ∨ Blank after
  else ∀ w s, after = w ++ '=' :: s → Blank w → Blank s

section Values

variable {k v line after : CStr}

theorem keySplit_eq (hk : '\n' ∉ k) (he : '=' ∉ k) (s : CStr) : KeySplit k ('=' :: s) :=
  ⟨fun _ hc => ⟨ne_of_mem_of_not_mem hc hk, ne_of_mem_of_not_mem hc he⟩, rfl⟩

theorem keySplit_bare (hk : '\n' ∉ k) (he : '=' ∉ k) (ha : after.head?.all (· == '\n')) : KeySplit k after := by
  refine ⟨fun _ hc => ⟨ne_of_mem_of_not_mem hc hk, ne_of_mem_of_not_mem hc he⟩, ?_⟩
  cases after with
  | nil => rfl
  | cons c after => simpa using Or.inl (by simpa using ha)

theorem isspace_eq : isspace '=' = false := rfl

/-- A value on its own line. -/
theorem valueOf_inline (hk : '\n' ∉ k) (he : '=' ∉ k) (hv : '\n' ∉ v) (hb : ¬ Blank v)
    (ha : after.head?.all (· == '\n')) : valueOf (k ++ '=' :: (v ++ after)) = v.dropWhile isspace := by
  rw [(keySplit_eq hk he _).valueOf_eq, List.dropWhile_cons_of_neg (by simp [isspace_eq])]
  obtain ⟨w, c, t, rfl, hw, hc⟩ := exists_of_not_blank hb
  have hct : '\n' ∉ c :: t := fun h => hv (List.mem_append_right _ h)
  simp only [List.append_assoc, List.cons_append, dropWhile_isspace_stop hw hc]
  exact firstLine_append hct ha

/-- A value that the scan looks for on the following lines. -/
theorem valueOf_blank (hk : '\n' ∉ k) (he : '=' ∉ k) (hb : Blank v) :
    valueOf (k ++ '=' :: (v ++ after)) = (after.dropWhile isspace).takeWhile (· != '\n') := by
  rw [(keySplit_eq hk he _).valueOf_eq, List.dropWhile_cons_of_neg (by simp [isspace_eq])]
  simp only [dropWhile_isspace_blank hb]

/-- A line without `=`. -/
theorem valueOf_bare_eq_nil (hk : '\n' ∉ k) (he : '=' ∉ k) (ha : after.head?.all (· == '\n')) :
    valueOf (k ++ after) = [] ↔ ∀ w s, after = w ++ '=' :: s → Blank w → Blank s := by
  rw [(keySplit_bare hk he ha).valueOf_eq]
  refine ⟨fun h w s hs hw => ?_, fun h => ?_⟩
  · rw [hs, dropWhile_isspace_stop hw isspace_eq] at h
    exact takeWhile_line_eq_nil.mp h
  · split
    next s hs =>
      obtain ⟨w, t, rfl, hw, ht⟩ := exists_run isspace after
      rw [dropWhile_append_stop hw ht] at hs
      exact takeWhile_line_eq_nil.mpr (h w s (by rw [hs]) hw)
    next => rfl

theorem valueOf_bare (hk : '\n' ∉ k) (he : '=' ∉ k) : valueOf k = [] := by
  have := @valueOf_bare_eq_nil k [] hk he rfl
  rw [List.append_nil] at this
  exact this.mpr fun w s h => by simp at h

/-- When the text after a line takes no part in its value; else the line by itself has none. -/
theorem valueOf_eq_iff (hl : '\n' ∉ line) (ha : after.head?.all (· == '\n')) :
    valueOf (line ++ after) = valueOf line ↔ CarryFree line after := by
  unfold CarryFree
  split_ifs with heq
  · obtain ⟨k, v, rfl, he⟩ := List.eq_append_cons_of_mem heq
    have hk : '\n' ∉ k := fun h => hl (List.mem_append_left _ h)
    have hv : '\n' ∉ v := fun h => hl (by simp [h])
    have htail : ((k ++ '=' :: v).dropWhile (· != '=')).tail = v := by
      rw [dropWhile_append_stop (fun c hc => by simpa using ne_of_mem_of_not_mem hc he) (by simp)]
      rfl
    have hnil : k ++ '=' :: v = k ++ '=' :: (v ++ []) := by rw [List.append_nil]
    rw [htail, List.append_assoc, List.cons_append]
    by_cases hb : Blank v
    · rw [valueOf_blank hk he hb, hnil, valueOf_blank hk he hb]
      have h0 : (([] : CStr).dropWhile isspace).takeWhile (· != '\n') = [] := rfl
      rw [h0, takeWhile_line_eq_nil]
      exact ⟨.inr, fun h => h.resolve_left (not_not.mpr hb)⟩
    · rw [valueOf_inline hk he hv hb ha, hnil, valueOf_inline hk he hv hb rfl]
      simp [hb]
  · rw [valueOf_bare hl heq]
    exact valueOf_bare_eq_nil hl heq ha

theorem valueOf_of_ne (hl : '\n' ∉ line) (ha : after.head?.all (· == '\n'))
    (h : valueOf (line ++ after) ≠ valueOf line) : valueOf line = [] := by
  by_cases heq : '=' ∈ line
  · obtain ⟨k, v, rfl, he⟩ := List.eq_append_cons_of_mem heq
    have hk : '\n' ∉ k := fun h => hl (List.mem_append_left _ h)
    have hv : '\n' ∉ v := fun h => hl (by simp [h])
    have hnil : k ++ '=' :: v = k ++ '=' :: (v ++ []) := by rw [List.append_nil]
    by_cases hb : Blank v
    · rw [hnil, valueOf_blank hk he hb]
      rfl
    · rw [List.append_assoc, List.cons_append, valueOf_inline hk he hv hb ha, hnil,
        valueOf_inline hk he hv hb rfl] at h
      exact absurd rfl h
  · exact valueOf_bare hl heq

/-- The key of a line is the key of the text from it on. -/
theorem keyOf_append (hl : '\n' ∉ line) (ha : after.head?.all (· == '\n')) : keyOf (line ++ after) = keyOf line := by
  obtain ⟨k, t, rfl, hs⟩ := exists_keySplit line
  rw [hs.keyOf_eq, List.append_assoc]
  refine KeySplit.keyOf_eq ⟨hs.key, ?_⟩
  cases t with
  | nil => cases after <;> simp_all
  | cons c t => simpa using hs.stop

end Values

/-! ### Keys -/

/-- A header: its name is closed by a bracket. -/
def IsHeader (key : CStr) : Prop := key.head? = some '[' ∧ ']' ∈ key

instance (key : CStr) : Decidable (IsHeader key) := inferInstanceAs (Decidable (_ ∧ _))

/-- The name a header's key gives. -/
def headerName (key : CStr) : CStr := (key.takeWhile (· != ']')).tail

/-- A key that makes an entry: no header or comment, and a locale is closed by a bracket. -/
def IsEntry (key : CStr) : Prop :=
  key ≠ [] ∧ key.head? ≠ some '[' ∧ key.head? ≠ some ';' ∧ key.head? ≠ some '#' ∧ ('[' ∈ key → ']' ∈ key)

instance (key : CStr) : Decidable (IsEntry key) := inferInstanceAs (Decidable (_ ∧ _))

/-- If the key has a bracket: none is closed before, and what it encloses is not blank. -/
def FreshKey (key : CStr) : Prop :=
  '[' ∈ key → ']' ∉ key.takeWhile (· != '[') ∧ ¬ Blank ((key.dropWhile (· != '[')).tail.takeWhile (· != ']'))

instance (key : CStr) : Decidable (FreshKey key) := inferInstanceAs (Decidable (_ → _))

theorem freshKey_open {n t : CStr} (hn : '[' ∉ n) :
    FreshKey (n ++ '[' :: t) ↔ ']' ∉ n ∧ ¬ Blank (t.takeWhile (· != ']')) := by
  have hrun : ∀ c ∈ n, (c != '[') = true := fun c h => by simpa using ne_of_mem_of_not_mem h hn
  unfold FreshKey
  rw [takeWhile_append_stop hrun rfl, dropWhile_append_stop hrun rfl, List.tail_cons]
  simp

/-- The strings scanned from the key of a localized entry. -/
def localeScan (key : CStr) : List CStr := sscanf keyLocaleFormat ((key.replace '[' '\n').takeWhile (· != ']'))

theorem scan_restOfLine {s : CStr} (h : '\n' ∉ s) : sscanf [restOfLine] s = if s = [] then [] else [s] := by
  have hs : s.takeWhile (· != '\n') = s := firstLine_self h
  simp only [restOfLine, sscanf, hs]

/-- A key with its brackets in order. -/
theorem localeScan_open {n l r : CStr} (hne : n ≠ []) (hn : '\n' ∉ n) (ho : '[' ∉ n) (hc : ']' ∉ n)
    (hl : ']' ∉ l) (hln : '\n' ∉ l) : localeScan (n ++ '[' :: (l ++ ']' :: r)) =
      n :: if Blank l then [] else [l.dropWhile isspace] := by
  have hcut : ((n ++ '[' :: (l ++ ']' :: r)).replace '[' '\n').takeWhile (· != ']') = n ++ '\n' :: l := by
    rw [List.replace_append_right ho, List.replace_cons_self, ← List.cons_append, ← List.append_assoc]
    refine takeWhile_append_stop (fun c h => ?_) rfl
    have hmem : ']' ∉ n ++ '\n' :: l := by simp [hc, hl]
    simpa using ne_of_mem_of_not_mem h hmem
  have hsp : ('\n' :: l).dropWhile isspace = l.dropWhile isspace := List.dropWhile_cons_of_pos rfl
  have hln' : '\n' ∉ l.dropWhile isspace := fun h => hln ((List.dropWhile_sublist _).subset h)
  unfold localeScan keyLocaleFormat
  rw [hcut, restOfLine, sscanf_scanset_stop _ hne (fun c h => by simpa using ne_of_mem_of_not_mem h hn) rfl,
    sscanf_space, hsp, ← restOfLine, scan_restOfLine hln']
  simp only [dropWhile_isspace_eq_nil]

/-- A key with a closing bracket before the first opening one. -/
theorem localeScan_closed {n t : CStr} (hn : '\n' ∉ n) (ho : '[' ∉ n) (hc : ']' ∈ n) :
    (localeScan (n ++ '[' :: t)).length ≤ 1 := by
  obtain ⟨m, r, rfl, hm⟩ := List.eq_append_cons_of_mem hc
  have hcut : ((m ++ ']' :: r ++ '[' :: t).replace '[' '\n').takeWhile (· != ']') = m := by
    rw [List.replace_append_right ho, List.replace_cons_self, List.append_assoc, List.cons_append]
    exact takeWhile_append_stop (fun c h => by simpa using ne_of_mem_of_not_mem h hm) rfl
  have hmn : '\n' ∉ m := fun h => hn (List.mem_append_left _ h)
  unfold localeScan keyLocaleFormat
  rw [hcut]
  by_cases h0 : m = []
  · subst h0
    simp [restOfLine, sscanf]
  · have hnil : m = m ++ [] := (List.append_nil m).symm
    rw [hnil, restOfLine, sscanf_scanset_stop _ h0 (fun c h => by simpa using ne_of_mem_of_not_mem h hmn) rfl]
    simp [sscanf]

/-- A key yields both strings if it is fresh, and else at most one. -/
theorem localeScan_length {key : CStr} (hk : '\n' ∉ key) (he : IsEntry key) (ho : '[' ∈ key) :
    if FreshKey key then (localeScan key).length = 2 else (localeScan key).length ≤ 1 := by
  obtain ⟨n, t, rfl, hn⟩ := List.eq_append_cons_of_mem ho
  have hne : n ≠ [] := fun h => he.2.1 (by simp [h])
  have hnn : '\n' ∉ n := fun h => hk (List.mem_append_left _ h)
  by_cases hc : ']' ∈ n
  · rw [if_neg fun hf => ((freshKey_open hn).mp hf).1 hc]
    exact localeScan_closed hnn hn hc
  · have hct : ']' ∈ t := by simpa [hc] using he.2.2.2.2 ho
    obtain ⟨l, r, rfl, hl⟩ := List.eq_append_cons_of_mem hct
    have hln : '\n' ∉ l := fun h => hk (by simp [h])
    have hlt : (l ++ ']' :: r).takeWhile (· != ']') = l :=
      takeWhile_append_stop (fun c h => by simpa using ne_of_mem_of_not_mem h hl) rfl
    rw [localeScan_open hne hnn hn hc hl hln]
    by_cases hb : Blank l
    · rw [if_neg fun hf => ((freshKey_open hn).mp hf).2 (by rwa [hlt]), if_pos hb]
      exact Nat.le_refl 1
    · have hf : FreshKey (n ++ '[' :: (l ++ ']' :: r)) := (freshKey_open hn).mpr ⟨hc, by rwa [hlt]⟩
      rw [if_pos hf, if_neg hb]
      rfl

theorem sscanf_ne_nil : ∀ {ds : List Directive} {s x : CStr}, x ∈ sscanf ds s → x ≠ []
  | [], _, _, h => by simp [sscanf] at h
  | .space :: ds, _, _, h => @sscanf_ne_nil ds _ _ h
  | .lit c :: ds, s, _, h => by
    unfold sscanf at h
    split_ifs at h
    · exact sscanf_ne_nil h
    · simp at h
  | .scanset p :: ds, s, x, h => by
    unfold sscanf at h
    split_ifs at h with hs
    · simp at h
    · rcases List.mem_cons.mp h with rfl | h
      · exact hs
      · exact sscanf_ne_nil h

theorem getD_ne_nil {st : List CStr} {d : CStr} (i : ℕ) (hst : ∀ x ∈ st, x ≠ []) (hd : d ≠ []) : st.getD i d ≠ [] := by
  rw [List.getD_eq_getElem?_getD]
  cases hx : st[i]? with
  | none => exact hd
  | some x => exact hst x (List.mem_of_getElem? hx)

/-! ### One key -/

/-- Both buffers hold something. -/
def ParseBufs.Filled (b : ParseBufs) : Prop := b.buff ≠ [] ∧ b.buff2 ≠ []

section KeyStep

variable {key : CStr} (value : CStr) (b : ParseBufs)

theorem keyStep_header (hk : '\n' ∉ key) (h : IsHeader key) :
    (keyStep key value b).call = .sectionNew (if headerName key = [] then b.buff else headerName key) := by
  obtain ⟨s, rfl⟩ := List.head?_eq_some_iff.mp h.1
  have hn : '\n' ∉ headerName ('[' :: s) := fun hm =>
    hk ((List.takeWhile_sublist _).subset (List.mem_of_mem_tail hm))
  simp only [keyStep, ↓reduceIte, parseSection, h.2]
  rw [← headerName, scan_restOfLine hn]
  split_ifs <;> rfl

theorem keyStep_entry (h : IsEntry key) :
    (keyStep key value b).call =
      if '[' ∈ key then
        .entryNew ((localeScan key).getD 0 b.buff) ((localeScan key).getD 1 b.buff2) (desktopEntryUnescape value)
      else .entryNew key [] (desktopEntryUnescape value) := by
  obtain ⟨h0, h1, h2, h3, h4⟩ := h
  cases key with
  | nil => exact absurd rfl h0
  | cons c s =>
    have h1' : c ≠ '[' := fun hc => h1 (by rw [hc]; rfl)
    have h2' : ¬ (c = ';' ∨ c = '#') := fun hc => hc.elim (fun hc => h2 (by rw [hc]; rfl)) fun hc => h3 (by rw [hc]; rfl)
    simp only [keyStep, h1', h2', ↓reduceIte, parseEntry]
    split_ifs with ho hc
    · rfl
    · exact absurd (h4 ho) hc
    · rfl

theorem keyStep_other (hh : ¬ IsHeader key) (he : ¬ IsEntry key) :
    (keyStep key value b).call = .none ∧ (keyStep key value b).bufs = b := by
  unfold keyStep
  split
  next => exact ⟨rfl, rfl⟩
  next c s =>
    split_ifs with h1 h2
    · have hc : ']' ∉ c :: s := fun hc => hh ⟨by rw [h1]; rfl, hc⟩
      simp [parseSection, hc]
    · exact ⟨rfl, rfl⟩
    · rw [not_or] at h2
      have h : '[' ∈ c :: s ∧ ']' ∉ c :: s := by
        by_contra hn
        exact he ⟨by simp, by simpa using h1, by simpa using h2.1, by simpa using h2.2,
          fun ho => by_contra fun hc => hn ⟨ho, hc⟩⟩
      simp [parseEntry, h.1, h.2]

/-- The buffer for keys and names is not emptied again. -/
theorem keyStep_buff_ne_nil (h : b.buff ≠ []) : (keyStep key value b).bufs.buff ≠ [] := by
  unfold keyStep
  split
  next => exact h
  next c s =>
    split_ifs
    · unfold parseSection
      split_ifs
      · exact getD_ne_nil 0 (fun x hx => sscanf_ne_nil hx) h
      · exact h
    · exact h
    · unfold parseEntry
      split_ifs
      · exact getD_ne_nil 0 (fun x hx => sscanf_ne_nil hx) h
      · exact h
      · exact h

theorem keyStep_filled (h : b.Filled) : (keyStep key value b).bufs.Filled := by
  refine ⟨keyStep_buff_ne_nil value b h.1, ?_⟩
  unfold keyStep
  split
  next => exact h.2
  next c s =>
    split_ifs
    · unfold parseSection
      split_ifs <;> exact h.2
    · exact h.2
    · unfold parseEntry
      split_ifs
      · exact getD_ne_nil 1 (fun x hx => sscanf_ne_nil hx) h.2
      · exact h.2
      · exact h.2

end KeyStep

end Dbp
