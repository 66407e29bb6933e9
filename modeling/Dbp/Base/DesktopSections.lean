/-
# Entries and their sections

A parse opens a section at its first header and goes back to it at the
others, but puts every new entry into the last section of the file. Here the
parser runs line by line with the header that was the nearest one before
each line (`Scan`), and what each line adds to the file is recorded with
that header (`placements`). Section names are distinct in every parse. Each
entry is in the section of its header, and no key and locale occur twice in
a named section, exactly if every entry line stands under a header of the
newest section or repeats an entry line of the current section
(`sectionsOk_iff`).

Key definitions: `headerText`, `Scan`, `Placement`, `placements`, `SectionsOk`, `EntryOk`.
Key theorems: `parseLine_header`, `Scan.Good.placed_iff`, `sectionsOk_iff`.
-/
import Dbp.Base.DesktopLines
import Dbp.Base.DesktopPhases

namespace Dbp

open CLib Runs Find

/-! ### Lines and their headers -/

/-- The name in a section header: a line shorter than the parser's buffers that begins with `[` and has a `]`
before any `=`. `str` is the text from the line on. -/
def headerText (str : CStr) : Option CStr :=
  if (firstLine str).length < bufSize ∧ IsHeader (keyOf str) then some (headerName (keyOf str)) else none

/-- What has been read: the calls of the lines, each with the nearest header before its line, the nearest header
now, and the buffers. -/
structure Scan where
  turns : List (Option CStr × ParseCall)
  header : Option CStr
  bufs : ParseBufs

namespace Scan

/-- The calls of the lines. -/
abbrev calls (s : Scan) : List ParseCall := s.turns.map (·.2)

/-- A line is read. -/
def readLine (s : Scan) (str : CStr) : Scan where
  turns := s.turns ++ [(s.header, (parseLine str s.bufs).call)]
  header := (headerText str).or s.header
  bufs := (parseLine str s.bufs).bufs

/-- A text is read, from uninitialised buffers `b`. -/
def read (text : CStr) (b : ParseBufs) : Scan := (lineStarts (crToLf text)).foldl readLine ⟨[], none, b⟩

theorem calls_foldl : ∀ (strs : List CStr) (s : Scan),
    (strs.foldl readLine s).calls = s.calls ++ (parseSteps strs s.bufs).map (·.call)
  | [], s => by simp [parseSteps]
  | str :: strs, s => by
    rw [List.foldl_cons, calls_foldl strs (s.readLine str)]
    simp [calls, readLine, parseSteps]

/-- The calls are the parser's. -/
theorem calls_read (text : CStr) (b : ParseBufs) : (read text b).calls = Dbp.calls text b :=
  calls_foldl _ ⟨[], none, b⟩

end Scan

/-! ### Placements -/

/-- An entry that a line has added to a section, and the nearest header before the line. -/
structure Placement where
  header : Option CStr
  section_ : ℕ
  entry : DesktopEntry
deriving Repr, DecidableEq

/-- The entries that a file has more than another, with their sections. -/
def addedEntries (df df' : DesktopFile) : List (ℕ × DesktopEntry) :=
  df'.section_.zipIdx.flatMap fun s => (s.1.entry.drop (df.sec s.2).entry.length).map fun e => (s.2, e)

/-- What the turns from a state on add to the file. -/
def placements : DesktopFile × ℕ → List (Option CStr × ParseCall) → List Placement
  | _, [] => []
  | st, t :: ts =>
    ((addedEntries st.1 (applyCall st t.2).1).map fun e => ⟨t.1, e.1, e.2⟩) ++ placements (applyCall st t.2) ts

/-- A parse makes well-formed sections: their names are distinct, no named one has two entries of one key and
locale, and every entry of a section was added by a line whose nearest header is the section's name. -/
structure SectionsOk (text : CStr) (b : ParseBufs) : Prop where
  names : ((dbpDesktopParse text b).section_.map (·.name)).Nodup
  keys : ∀ s ∈ (dbpDesktopParse text b).section_, s.name ≠ none → (s.entry.map fun e => (e.key, e.locale)).Nodup
  added : ∀ i, ((dbpDesktopParse text b).sec i).entry =
    ((placements (DesktopFile.empty, 0) (Scan.read text b).turns).filter (·.section_ = i)).map (·.entry)
  headers : ∀ p ∈ placements (DesktopFile.empty, 0) (Scan.read text b).turns,
    ((dbpDesktopParse text b).sec p.section_).name = p.header

/-- The names of sections, in the order they are first opened in. -/
def openedNames (names : List CStr) : List CStr :=
  names.foldl (fun opened name => if name ∈ opened then opened else opened ++ [name]) []

/-- An entry line comes out right: it repeats the key and locale of an earlier one in the current section, which is
not the nameless one, or the nearest header is the name of the newest section. -/
def EntryOk (s : Scan) (str : CStr) : Prop :=
  match (parseLine str s.bufs).call with
  | .entryNew key locale _ =>
    (readSection s.calls none ≠ none ∧
      (readSection s.calls none, key, locale) ∈ (readDefs s.calls none).map (·.1)) ∨
      (openedNames (readHeaders s.calls)).getLast? = s.header
  | _ => True

/-! ### What a line tells -/

/-- The name of a section is left in the buffer. -/
theorem keyStep_buff {key value name : CStr} {b : ParseBufs} (h : (keyStep key value b).call = .sectionNew name) :
    (keyStep key value b).bufs.buff = name := by
  cases key with
  | nil => cases h
  | cons c key =>
    unfold keyStep at h ⊢
    dsimp only at h ⊢
    split_ifs at h ⊢ with h1 h2
    · unfold parseSection at h ⊢
      split_ifs at h ⊢ with hc
      exact ParseCall.sectionNew.inj h
    · unfold parseEntry at h
      split_ifs at h

/-- A line opens a section exactly if it is a header, under the name in it or, if that is empty, what the buffer
still holds; the name is left in the buffer. -/
theorem parseLine_header (str : CStr) (b : ParseBufs) :
    match headerText str with
    | some t => (parseLine str b).call = .sectionNew (if t = [] then b.buff else t)
    | none => ∀ name, (parseLine str b).call ≠ .sectionNew name := by
  rw [parseLine_eq]
  unfold headerText
  by_cases hlen : bufSize ≤ (firstLine str).length
  · simp [hlen, Nat.not_lt.mpr hlen]
  · have hk : '\n' ∉ keyOf str := fun hm => by
      have := List.mem_takeWhile_imp hm
      simp at this
    by_cases hh : IsHeader (keyOf str)
    · simp only [hlen, Nat.not_le.mp hlen, hh, and_self, ↓reduceIte]
      exact keyStep_header _ b hk hh
    · simp only [hlen, hh, and_false, ↓reduceIte]
      intro name
      by_cases he : IsEntry (keyOf str)
      · rw [keyStep_entry _ b he]
        split_ifs <;> exact ParseCall.noConfusion
      · rw [(keyStep_other _ b hh he).1]
        exact ParseCall.noConfusion

theorem parseLine_buff {str name : CStr} {b : ParseBufs} (h : (parseLine str b).call = .sectionNew name) :
    (parseLine str b).bufs.buff = name := by
  rw [parseLine_eq] at h ⊢
  split_ifs at h ⊢
  exact keyStep_buff h

theorem parseLine_buff_ne_nil (str : CStr) {b : ParseBufs} (h : b.buff ≠ []) : (parseLine str b).bufs.buff ≠ [] := by
  rw [parseLine_eq]
  split_ifs
  · exact h
  · exact keyStep_buff_ne_nil _ b h

/-! ### One line -/

/-- The file after the calls read. -/
abbrev Scan.file (s : Scan) : DesktopFile × ℕ := s.calls.foldl applyCall (DesktopFile.empty, 0)

/-- Its table. -/
abbrev Scan.table (s : Scan) : Merge := s.calls.foldl Merge.call ⟨[], none, fun _ => none⟩

theorem Scan.models (s : Scan) : Models s.file s.table := models_calls s.calls models_empty

theorem foldl_call_headers : ∀ (cs : List ParseCall) (M : Merge), (cs.foldl Merge.call M).headers =
    (readHeaders cs).foldl (fun opened name => if name ∈ opened then opened else opened ++ [name]) M.headers
  | [], _ => rfl
  | .none :: cs, M => foldl_call_headers cs M
  | .sectionNew name :: cs, M => foldl_call_headers cs (M.enter name)
  | .entryNew key locale value :: cs, M => by
    rw [List.foldl_cons, foldl_call_headers cs, M.call_entry_headers]
    rfl

theorem foldl_call_cur : ∀ (cs : List ParseCall) (M : Merge), (cs.foldl Merge.call M).cur = readSection cs M.cur
  | [], _ => rfl
  | .none :: cs, M => foldl_call_cur cs M
  | .sectionNew name :: cs, M => foldl_call_cur cs (M.enter name)
  | .entryNew key locale value :: cs, M => by
    rw [List.foldl_cons, foldl_call_cur cs, M.call_entry_cur]
    rfl

theorem Scan.table_last (s : Scan) : (openedNames (readHeaders s.calls)).getLast? = s.table.last := by
  rw [Merge.last, table, foldl_call_headers]
  rfl

theorem Scan.table_cur (s : Scan) : readSection s.calls none = s.table.cur :=
  (foldl_call_cur s.calls ⟨[], none, fun _ => none⟩).symm

/-- Sections that were there have nothing more. -/
theorem zipIdx_nothing_added {df : DesktopFile} {ss : List DesktopSection} (h : ss <+: df.section_) :
    (ss.zipIdx.flatMap fun s => (s.1.entry.drop (df.sec s.2).entry.length).map fun e => (s.2, e)) = [] := by
  rw [List.flatMap_eq_nil_iff]
  rintro ⟨s, i⟩ hs
  have hi : df.section_[i]? = some s := by
    obtain ⟨ss', hss⟩ := h
    have hlt : ss[i]? = some s := List.mk_mem_zipIdx_iff_getElem?.mp hs
    rw [← hss, List.getElem?_append_left (List.getElem?_eq_some_iff.mp hlt).1, hlt]
  have hsec : df.sec i = s := by
    rw [DesktopFile.sec, List.getD_eq_getElem?_getD, hi]
    rfl
  simp [hsec]

theorem addedEntries_self (df : DesktopFile) : addedEntries df df = [] := zipIdx_nothing_added (List.prefix_refl _)

theorem addedEntries_section (df : DesktopFile) (name : Option CStr) :
    addedEntries df (dbpDesktopSectionNew df name).1 = [] := by
  unfold dbpDesktopSectionNew
  split
  · exact addedEntries_self df
  · unfold addedEntries
    rw [List.zipIdx_append, List.flatMap_append, zipIdx_nothing_added (List.prefix_refl _)]
    simp

theorem addedEntries_entry (init : List DesktopSection) (s : DesktopSection) (e : DesktopEntry) :
    addedEntries ⟨init ++ [s]⟩ ⟨init ++ [{ s with entry := s.entry ++ [e] }]⟩ = [(init.length, e)] := by
  have hsec : DesktopFile.sec ⟨init ++ [s]⟩ init.length = s := by simp [DesktopFile.sec]
  unfold addedEntries
  rw [List.zipIdx_append, List.flatMap_append, zipIdx_nothing_added (List.prefix_append init [s])]
  simp [hsec]

/-- Placements of one more turn. -/
theorem placements_concat : ∀ (ts : List (Option CStr × ParseCall)) (st : DesktopFile × ℕ) (t : Option CStr × ParseCall),
    placements st (ts ++ [t]) = placements st ts ++
      (addedEntries ((ts.map (·.2)).foldl applyCall st).1 (applyCall ((ts.map (·.2)).foldl applyCall st) t.2).1).map
        fun e => ⟨t.1, e.1, e.2⟩
  | [], st, t => by simp [placements]
  | u :: ts, st, t => by
    rw [List.cons_append, placements, placements_concat ts, placements, List.append_assoc]
    rfl

/-- The entries added so far. -/
abbrev Scan.placed (s : Scan) : List Placement := placements (DesktopFile.empty, 0) s.turns

theorem sec_append (ss ss' : List DesktopSection) (i : ℕ) : DesktopFile.sec ⟨ss ++ ss'⟩ i =
    if i < ss.length then DesktopFile.sec ⟨ss⟩ i else DesktopFile.sec ⟨ss'⟩ (i - ss.length) := by
  simp only [DesktopFile.sec, List.getD_eq_getElem?_getD, List.getElem?_append]
  split_ifs <;> rfl

theorem sec_singleton (s : DesktopSection) (i : ℕ) : DesktopFile.sec ⟨[s]⟩ i = if i = 0 then s else ⟨none, []⟩ := by
  cases i <;> rfl

theorem sec_out {ss : List DesktopSection} {i : ℕ} (h : ss.length ≤ i) : DesktopFile.sec ⟨ss⟩ i = ⟨none, []⟩ := by
  simp [DesktopFile.sec, h]

/-- A call leaves the sections that are there their names, and adds the entries it adds. -/
theorem applyCall_sec {st : DesktopFile × ℕ} {M : Merge} (h : Models st M) (c : ParseCall) (i : ℕ) :
    (i < st.1.sections → ((applyCall st c).1.sec i).name = (st.1.sec i).name) ∧
      ((applyCall st c).1.sec i).entry =
        (st.1.sec i).entry ++ ((addedEntries st.1 (applyCall st c).1).filter (·.1 = i)).map (·.2) := by
  cases c with
  | none => simp [applyCall, addedEntries_self]
  | sectionNew name =>
    have hadded := addedEntries_section st.1 (some name)
    show (_ → ((dbpDesktopSectionNew st.1 (some name)).1.sec i).name = _) ∧
      ((dbpDesktopSectionNew st.1 (some name)).1.sec i).entry = _ ++
        ((addedEntries st.1 (dbpDesktopSectionNew st.1 (some name)).1).filter (·.1 = i)).map (·.2)
    rw [hadded]
    unfold dbpDesktopSectionNew
    split
    · simp
    · rw [sec_append, sec_singleton]
      split_ifs with hi h0
      · simp
      · rw [sec_out (Nat.le_of_not_lt hi)]
        exact ⟨fun h => absurd h hi, rfl⟩
      · rw [sec_out (Nat.le_of_not_lt hi)]
        exact ⟨fun _ => rfl, rfl⟩
  | entryNew key locale value =>
    rcases entryNew_cases key locale value h with ⟨-, hkeep⟩ | ⟨-, init, s, hdf, hput⟩
    · rw [hkeep]
      simp [addedEntries_self]
    · obtain ⟨df, j⟩ := st
      subst hdf
      rw [hput, addedEntries_entry, sec_append, sec_append, sec_singleton, sec_singleton]
      split_ifs with hi h0
      · simp [Nat.ne_of_gt hi]
      · have heq : init.length = i := by omega
        simp [heq]
      · have hne : init.length ≠ i := by omega
        simp [hne]

/-! ### What every scan keeps -/

theorem Scan.table_readLine (s : Scan) (str : CStr) :
    (s.readLine str).table = s.table.call (parseLine str s.bufs).call := by
  simp [table, calls, readLine]

theorem Scan.file_readLine (s : Scan) (str : CStr) :
    (s.readLine str).file = applyCall s.file (parseLine str s.bufs).call := by
  simp [file, calls, readLine]

theorem Scan.placed_readLine (s : Scan) (str : CStr) : (s.readLine str).placed = s.placed ++
    (addedEntries s.file.1 (s.readLine str).file.1).map fun e => ⟨s.header, e.1, e.2⟩ := by
  rw [placed, file_readLine]
  exact placements_concat s.turns _ _

/-- What the lines read so far have in common: the nearest header is the current section unless it was an empty one
that took its name from the buffer; and a section without a name in its brackets can only be the first. -/
structure Scan.Reads (s : Scan) : Prop where
  header : s.header = s.table.cur ∨ s.header = some [] ∧ ∃ n, n ≠ [] ∧ s.table.cur = some n
  mem : ∀ n, s.table.cur = some n → n ∈ s.table.headers
  buff : s.bufs.buff = [] → ∀ n ∈ s.table.headers, n = []
  first : s.table.last = some [] → ∀ n ∈ s.table.headers, n = []
  added : ∀ i, (s.file.1.sec i).entry = (s.placed.filter (·.section_ = i)).map (·.entry)

namespace Scan.Reads

variable {s : Scan}

/-- The nearest header is the newest section only if it is the current one. -/
theorem cur_eq_last (h : s.Reads) (hl : s.table.last = s.header) : s.table.cur = s.table.last := by
  rcases h.header with hc | ⟨hnil, n, hn, hc⟩
  · rw [hl, hc]
  · exact absurd (h.first (hl.trans hnil) n (h.mem n hc)) hn

theorem added_readLine (h : s.Reads) (str : CStr) (i : ℕ) : ((s.readLine str).file.1.sec i).entry =
    ((s.readLine str).placed.filter (·.section_ = i)).map (·.entry) := by
  rw [placed_readLine, List.filter_append, List.map_append, ← h.added, file_readLine,
    (applyCall_sec s.models _ i).2, List.filter_map, List.map_map]
  rfl

/-- A header opens a section of that name, or one of the name in the buffer. -/
theorem readLine_header (h : s.Reads) {str t : CStr} (ht : headerText str = some t) : (s.readLine str).Reads := by
  have hline := parseLine_header str s.bufs
  have htable := s.table_readLine str
  simp only [ht] at hline
  have hheader : (s.readLine str).header = some t := by simp [Scan.readLine, ht]
  have hbuff : (s.readLine str).bufs.buff = if t = [] then s.bufs.buff else t := parseLine_buff hline
  rw [hline] at htable
  have hempty : (if t = [] then s.bufs.buff else t) = [] → t = [] ∧ s.bufs.buff = [] := by
    by_cases h0 : t = [] <;> simp [h0]
  generalize hname : (if t = [] then s.bufs.buff else t) = name at hbuff htable hempty
  have hold : name = [] → ∀ n ∈ (s.table.enter name).headers, n = [] := by
    intro h0 n hn
    by_cases hin : name ∈ s.table.headers
    · rw [s.table.enter_headers_old hin] at hn
      exact h.buff (hempty h0).2 n hn
    · rw [s.table.enter_headers_new hin, List.mem_append, List.mem_singleton] at hn
      rcases hn with hn | rfl
      · exact h.buff (hempty h0).2 n hn
      · exact h0
  refine ⟨?_, ?_, ?_, ?_, h.added_readLine str⟩ <;> rw [htable, Merge.call]
  · rw [hheader, Merge.enter_cur]
    by_cases h0 : t = []
    · rw [if_pos h0] at hname
      by_cases hb : name = []
      · exact .inl (by rw [h0, hb])
      · exact .inr ⟨by rw [h0], name, hb, rfl⟩
    · rw [if_neg h0] at hname
      exact .inl (by rw [hname])
  · rintro n hn
    obtain rfl := Option.some.inj hn
    by_cases hin : name ∈ s.table.headers
    · rwa [s.table.enter_headers_old hin]
    · rw [s.table.enter_headers_new hin]
      exact List.mem_append_right _ (List.mem_singleton_self name)
  · rw [hbuff]
    exact hold
  · intro hl
    by_cases hin : name ∈ s.table.headers
    · rw [Merge.last, s.table.enter_headers_old hin] at hl
      rw [s.table.enter_headers_old hin]
      exact h.first hl
    · rw [Merge.last, s.table.enter_headers_new hin, List.getLast?_concat] at hl
      exact hold (Option.some.inj hl)

/-- Another line leaves the sections as they are. -/
theorem readLine_other (h : s.Reads) {str : CStr} (ht : headerText str = none) : (s.readLine str).Reads := by
  have hline := parseLine_header str s.bufs
  simp only [ht] at hline
  have hheader : (s.readLine str).header = s.header := by simp [Scan.readLine, ht]
  have hsame : (s.readLine str).table.headers = s.table.headers ∧ (s.readLine str).table.cur = s.table.cur := by
    rw [s.table_readLine str]
    cases hc : (parseLine str s.bufs).call with
    | none => exact ⟨rfl, rfl⟩
    | sectionNew name => exact absurd hc (hline name)
    | entryNew key locale value => exact ⟨Merge.call_entry_headers .., Merge.call_entry_cur ..⟩
  have hbuff : (s.readLine str).bufs.buff = [] → s.bufs.buff = [] := fun hb =>
    by_contra fun hn => parseLine_buff_ne_nil str hn hb
  refine ⟨?_, ?_, ?_, ?_, h.added_readLine str⟩
  · rw [hheader, hsame.2]
    exact h.header
  · rw [hsame.1, hsame.2]
    exact h.mem
  · rw [hsame.1]
    exact fun hb => h.buff (hbuff hb)
  · rw [Merge.last, hsame.1]
    exact h.first

theorem readLine (h : s.Reads) (str : CStr) : (s.readLine str).Reads := by
  cases ht : headerText str with
  | some t => exact h.readLine_header ht
  | none => exact h.readLine_other ht

theorem start (b : ParseBufs) : Reads ⟨[], none, b⟩ where
  header := .inl rfl
  mem n hn := by cases hn
  buff _ n hn := absurd hn List.not_mem_nil
  first hl := by cases hl
  added i := by
    show (DesktopFile.sec ⟨[⟨none, []⟩]⟩ i).entry = []
    rw [sec_singleton]
    split_ifs <;> rfl

end Scan.Reads

/-! ### Scans that come out right -/

/-- Every entry so far is in the section its nearest header names. -/
def Scan.Placed (s : Scan) : Prop := ∀ p ∈ s.placed, (s.file.1.sec p.section_).name = p.header

/-- A line takes no entry out of its section. -/
theorem Scan.Reads.section_name {s : Scan} (h : s.Reads) (str : CStr) {p : Placement} (hp : p ∈ s.placed) :
    ((s.readLine str).file.1.sec p.section_).name = (s.file.1.sec p.section_).name := by
  have hin : p.section_ < s.file.1.sections := by
    by_contra hout
    have hentry : p.entry ∈ (s.file.1.sec p.section_).entry := by
      rw [h.added]
      exact List.mem_map_of_mem (List.mem_filter.mpr ⟨hp, by simp⟩)
    have hsec : s.file.1.sec p.section_ = ⟨none, []⟩ := sec_out (Nat.le_of_not_lt hout)
    rw [hsec] at hentry
    exact absurd hentry List.not_mem_nil
  rw [file_readLine]
  exact (applyCall_sec s.models _ _).1 hin

/-- Entries that are placed were placed before the last lines. -/
theorem Scan.Placed.earlier : ∀ (strs : List CStr) {s : Scan}, s.Reads → (strs.foldl readLine s).Placed → s.Placed
  | [], _, _, hplaced => hplaced
  | str :: strs, s, h, hplaced => by
    have hnext : (s.readLine str).Placed := earlier strs (h.readLine str) hplaced
    intro p hp
    rw [← h.section_name str hp]
    apply hnext
    rw [placed_readLine]
    exact List.mem_append_left _ hp

/-- A scan in which every entry is in its section: a slot of the table is filled if it was read, and no named section
has two entries of one key and locale. -/
structure Scan.Good (s : Scan) : Prop extends s.Reads where
  placed : s.Placed
  filled : ∀ q, (s.table.val q).isSome ↔ q ∈ (readDefs s.calls none).map (·.1)
  keys : ∀ sec ∈ s.file.1.section_, sec.name ≠ none → (sec.entry.map fun e => (e.key, e.locale)).Nodup

namespace Scan.Good

variable {s : Scan}

/-- An entry line comes out right or not. -/
theorem placed_iff (h : s.Good) (str : CStr) : (s.readLine str).Placed ↔ EntryOk s str := by
  have hnew : (s.readLine str).Placed ↔ ∀ e ∈ addedEntries s.file.1 (s.readLine str).file.1,
      ((s.readLine str).file.1.sec e.1).name = s.header := by
    unfold Placed
    have hold : ∀ p ∈ s.placed, ((s.readLine str).file.1.sec p.section_).name = p.header :=
      fun p hp => (h.section_name str hp).trans (h.placed p hp)
    rw [placed_readLine, List.forall_mem_append, and_iff_right hold, List.forall_mem_map]
  rw [hnew, file_readLine, EntryOk, s.table_last, s.table_cur]
  cases hc : (parseLine str s.bufs).call with
  | none => simp [applyCall, addedEntries_self]
  | sectionNew name =>
    have hadded : addedEntries s.file.1 (applyCall s.file (.sectionNew name)).1 = [] := addedEntries_section _ _
    simp [hadded]
  | entryNew key locale value =>
    have htaken : s.table.Taken key locale ↔ s.table.cur ≠ none ∧
        (s.table.cur, key, locale) ∈ (readDefs s.calls none).map (·.1) := by rw [Merge.Taken, h.filled]
    dsimp only
    rw [← htaken]
    have hcases := entryNew_cases key locale value s.models
    have hnamed := s.models.named
    rcases hcases with ⟨ht, hkeep⟩ | ⟨ht, init, sec, hdf, hput⟩
    · rw [hkeep]
      simp [addedEntries_self, ht]
    · rw [hput, hdf, addedEntries_entry, List.forall_mem_singleton, sec_append, sec_singleton]
      rw [hdf] at hnamed
      simp [ht, hnamed.last]

/-- A slot is filled if it is read, where the entry goes to its own slot or finds it filled. -/
theorem filled_readLine (h : s.Good) (str : CStr) (hok : EntryOk s str) (q : Slot) :
    ((s.readLine str).table.val q).isSome ↔ q ∈ (readDefs (s.readLine str).calls none).map (·.1) := by
  have hcalls : (s.readLine str).calls = s.calls ++ [(parseLine str s.bufs).call] := by simp [calls, Scan.readLine]
  rw [table_readLine, hcalls, readDefs_append, List.map_append, List.mem_append, ← h.filled]
  have hplaced := (h.placed_iff str).mpr hok
  unfold EntryOk at hok
  cases hc : (parseLine str s.bufs).call with
  | none => simp [Merge.call, readDefs]
  | sectionNew name => simp [Merge.call, readDefs]
  | entryNew key locale value =>
    simp only [hc, s.table_cur, s.table_last, ← h.filled] at hok
    simp only [readDefs, List.map_cons, List.map_nil, List.mem_singleton, s.table_cur]
    by_cases ht : s.table.Taken key locale
    · rw [Merge.call, if_pos ht]
      refine ⟨.inl, fun hq => hq.elim id ?_⟩
      rintro rfl
      exact ht.2
    · have hlast := h.cur_eq_last (hok.resolve_left ht)
      rw [Merge.call_entry_val _ _ _ _ hlast]
      by_cases hq : q = (s.table.cur, key, locale)
      · simp [hq]
      · simp [hq]

theorem keys_readLine (h : s.Good) (str : CStr) (hok : EntryOk s str) : ∀ sec ∈ (s.readLine str).file.1.section_,
    sec.name ≠ none → (sec.entry.map fun e => (e.key, e.locale)).Nodup := by
  rw [file_readLine]
  unfold EntryOk at hok
  cases hc : (parseLine str s.bufs).call with
  | none => exact h.keys
  | sectionNew name =>
    show ∀ sec ∈ (dbpDesktopSectionNew s.file.1 (some name)).1.section_, _
    unfold dbpDesktopSectionNew
    split
    · exact h.keys
    · intro sec hsec
      rcases List.mem_append.mp hsec with hsec | hsec
      · exact h.keys sec hsec
      · rw [List.mem_singleton.mp hsec]
        exact fun _ => List.nodup_nil
  | entryNew key locale value =>
    simp only [hc, s.table_cur, s.table_last, ← h.filled] at hok
    rcases entryNew_cases key locale value s.models with ⟨ht, hkeep⟩ | ⟨ht, init, sec, hdf, hput⟩
    · rw [hkeep]
      exact h.keys
    · have hlast := h.cur_eq_last (hok.resolve_left ht)
      have hkeys := h.keys
      have hnamed := s.models.named
      have hval := s.models.val (s.table.cur, key, locale)
      rw [hdf] at hkeys hnamed hval
      rw [hput]
      intro x hx hname
      rcases List.mem_append.mp hx with hx | hx
      · exact hkeys x (List.mem_append_left _ hx) hname
      · rw [List.mem_singleton.mp hx] at hname ⊢
        have hsec : sec.name = s.table.cur := hnamed.last.trans hlast.symm
        have hget : sec.get key locale = none := by
          rw [← hsec, lookupSlot_at hnamed (i := init.length) (by simp)] at hval
          rw [hval, ← Option.not_isSome_iff_eq_none]
          exact fun hs => ht ⟨hsec ▸ hname, hsec ▸ hs⟩
        rw [List.map_append, List.map_singleton]
        apply nodup_concat (hkeys sec (by simp) hname)
        rw [List.mem_map]
        rintro ⟨e, he, hkey⟩
        have hfind := Option.map_eq_none_iff.mp hget
        simp only [Prod.mk.injEq] at hkey
        exact absurd (List.find?_eq_none.mp hfind e he) (by simp [hkey])

theorem readLine (h : s.Good) (str : CStr) (hok : EntryOk s str) : (s.readLine str).Good :=
  ⟨h.toReads.readLine str, (h.placed_iff str).mpr hok, h.filled_readLine str hok, h.keys_readLine str hok⟩

theorem start (b : ParseBufs) : Good ⟨[], none, b⟩ where
  toReads := .start b
  placed p hp := absurd hp List.not_mem_nil
  filled q := by simp [table, calls, readDefs]
  keys sec hsec := by
    rw [List.mem_singleton.mp hsec]
    exact fun _ => List.nodup_nil

end Scan.Good

/-- Every scan keeps what scans keep. -/
theorem Scan.reads_foldl (strs : List CStr) {s : Scan} (h : s.Reads) : (strs.foldl readLine s).Reads := by
  induction strs generalizing s with
  | nil => exact h
  | cons str strs ih => exact ih (h.readLine str)

/-- **Sections.** A parse makes well-formed sections exactly if every entry line repeats one of the current section or
stands under a header of the newest section. -/
theorem sectionsOk_iff (text : CStr) (b : ParseBufs) :
    SectionsOk text b ↔ Admissible Scan.readLine EntryOk ⟨[], none, b⟩ (lineStarts (crToLf text)) := by
  have hparse : dbpDesktopParse text b = (Scan.read text b).file.1 := by
    rw [Scan.file, Scan.calls_read]
    rfl
  have hreads : (Scan.read text b).Reads := Scan.reads_foldl _ (.start b)
  constructor
  · intro h
    have hplaced : (Scan.read text b).Placed := fun p hp => hparse ▸ h.headers p hp
    have hstay : (∀ pre, pre <+: lineStarts (crToLf text) → (pre.foldl Scan.readLine ⟨[], none, b⟩).Placed) ↔
        Admissible Scan.readLine EntryOk ⟨[], none, b⟩ (lineStarts (crToLf text)) :=
      run_iff_of (I := Scan.Good) _ _ (fun s str _ hs => hs.placed_iff str) (fun s str _ hs hok => hs.readLine str hok)
        (.start b) (Scan.Good.start b).placed
    rw [← hstay]
    rintro pre ⟨post, hpost⟩
    apply Scan.Placed.earlier post (Scan.reads_foldl pre (.start b))
    rw [← List.foldl_append, hpost]
    exact hplaced
  · intro h
    have hgood : (Scan.read text b).Good := run_history (I := fun _ s => Scan.Good s) (.start b)
      (fun _ str s hs hok => hs.readLine str hok) _ h
    have hnamed := (Scan.read text b).models.named
    constructor <;> rw [hparse]
    · exact hnamed.nodup
    · exact hgood.keys
    · exact hgood.added
    · exact hgood.placed

/-- Goes back to the first section and puts the entry in the second. -/
theorem sectionsOk_back : ¬ SectionsOk (lit "[A]\n[B]\n[A]\nx=1\n") ⟨[], []⟩ := by
  intro h
  exact absurd (h.headers ⟨some (lit "A"), 2, ⟨lit "x", [], lit "1"⟩⟩ (by decide)) (by decide)

end Dbp
