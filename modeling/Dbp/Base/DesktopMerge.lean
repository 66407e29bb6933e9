/-
# A desktop file as a table

What the lookups can tell of a file: the headers in order, and the value of
each slot (section, key, locale). `Merge` is that table with the section the
parser is in. Its calls are the parser's calls: a header opens a section or
goes back to it, and an entry goes to the slot of the last section, not the
current one, unless its own slot is taken; the nameless section never counts
as taken. The file refines the table (`models_step`, `models_calls`).

Key definitions: `Slot`, `lookupSlot`, `Merge`, `Merge.call`, `Models`.
Key theorems: `lookupSlot_eq`, `entryNew_cases`, `models_step`, `models_calls`.
-/
import Dbp.Base.DesktopParse
import Dbp.Lib.Run
import Dbp.Lib.Find
import Mathlib.Data.List.Nodup

namespace Dbp

open CLib Runs Find

/-- A section (none for the nameless one), a key and a locale. -/
abbrev Slot := Option CStr × CStr × CStr

/-- The value of a slot by `dbp_desktop_lookup_section` and `dbp_desktop_lookup_entry`. -/
def lookupSlot (df : DesktopFile) (q : Slot) : Option CStr :=
  (dbpDesktopLookupSection df q.1).bind fun s => (dbpDesktopLookupEntry df q.2.1 q.2.2 s).map (df.value s)

/-- The value of a key and locale in a section. -/
def DesktopSection.get (s : DesktopSection) (key locale : CStr) : Option CStr :=
  (s.entry.find? fun e => e.key == key && e.locale == locale).map (·.value)

/-- The table of a file, and the current section. -/
structure Merge where
  headers : List CStr
  cur : Option CStr
  val : Slot → Option CStr

namespace Merge

/-- The last section. -/
abbrev last (M : Merge) : Option CStr := M.headers.getLast?

/-- A section is opened, or gone back to. -/
def enter (M : Merge) (name : CStr) : Merge :=
  { M with headers := if name ∈ M.headers then M.headers else M.headers ++ [name], cur := some name }

/-- An entry is appended to the last section; a lookup finds the first of its slot. -/
def put (M : Merge) (key locale value : CStr) : Merge :=
  { M with val := Function.update M.val (M.last, key, locale) ((M.val (M.last, key, locale)).or (some value)) }

/-- The slot of an entry counts as taken. -/
def Taken (M : Merge) (key locale : CStr) : Prop := M.cur ≠ none ∧ (M.val (M.cur, key, locale)).isSome

instance (M : Merge) (key locale : CStr) : Decidable (M.Taken key locale) := inferInstanceAs (Decidable (_ ∧ _))

/-- A call of the parser. -/
def call (M : Merge) : ParseCall → Merge
  | .none => M
  | .sectionNew name => M.enter name
  | .entryNew key locale value => if M.Taken key locale then M else M.put key locale value

section Put

variable (M : Merge) (key locale value : CStr)

@[simp] theorem put_cur : (M.put key locale value).cur = M.cur := rfl

theorem put_val_self : (M.put key locale value).val (M.last, key, locale) =
    (M.val (M.last, key, locale)).or (some value) := Function.update_self ..

theorem put_val_ne {q : Slot} (h : q ≠ (M.last, key, locale)) : (M.put key locale value).val q = M.val q :=
  Function.update_of_ne h ..

@[simp] theorem enter_cur (name : CStr) : (M.enter name).cur = some name := rfl

@[simp] theorem enter_val (name : CStr) : (M.enter name).val = M.val := rfl

theorem enter_headers_old {name : CStr} (h : name ∈ M.headers) : (M.enter name).headers = M.headers := if_pos h

theorem enter_headers_new {name : CStr} (h : name ∉ M.headers) : (M.enter name).headers = M.headers ++ [name] :=
  if_neg h

theorem call_entry_headers : (M.call (.entryNew key locale value)).headers = M.headers := by
  rw [call]
  split_ifs <;> rfl

theorem call_entry_cur : (M.call (.entryNew key locale value)).cur = M.cur := by
  rw [call]
  split_ifs <;> rfl

/-- An entry read in the last section fills its own slot. -/
theorem call_entry_val (hlast : M.cur = M.last) (q : Slot) : (M.call (.entryNew key locale value)).val q =
    if q = (M.cur, key, locale) then (M.val q).or (some value) else M.val q := by
  rw [call]
  split_ifs with ht hq hq
  · obtain ⟨v, hv⟩ := Option.isSome_iff_exists.mp ht.2
    rw [hq, hv, Option.some_or]
  · rfl
  · rw [hq, hlast, M.put_val_self]
  · exact M.put_val_ne key locale value (hlast ▸ hq)

end Put

end Merge

/-! ### Lookups in a file with a nameless first section -/

/-- The names of a file: the nameless section and the headers. -/
def Named (df : DesktopFile) (headers : List CStr) : Prop :=
  df.section_.map (·.name) = none :: headers.map some ∧ headers.Nodup

theorem lookupEntry_value (df : DesktopFile) (key locale : CStr) (s : ℕ) :
    (dbpDesktopLookupEntry df key locale s).map (df.value s) = (df.sec s).get key locale := by
  unfold dbpDesktopLookupEntry DesktopFile.value DesktopSection.get
  rw [← find?_eq_findIdx? _ ⟨[], [], []⟩, Option.map_map]
  rfl

/-- A lookup finds the section of that name, and in it the entry. -/
theorem lookupSlot_eq {df : DesktopFile} {headers : List CStr} (h : Named df headers) (q : Slot) :
    lookupSlot df q = (df.section_.find? (·.name == q.1)).bind (·.get q.2.1 q.2.2) := by
  obtain ⟨sections⟩ := df
  obtain ⟨s₀, ss, rfl, hs₀, hss⟩ := List.map_eq_cons_iff.mp h.1
  unfold lookupSlot
  simp only [lookupEntry_value]
  unfold dbpDesktopLookupSection
  cases hq : q.1 with
  | none => simp [hs₀, DesktopFile.sec]
  | some name =>
    have hne : (s₀.name == some name) = false := by rw [hs₀]; rfl
    rw [List.find?_cons, hne, ← find?_eq_findIdx? _ ⟨none, []⟩]
    cases hi : ss.findIdx? fun s => s.name == some name with
    | none => simp [hi]
    | some i => simp [hi, DesktopFile.sec]

/-! ### Refinement -/

/-- The parser's file and section number, and the table. -/
structure Models (st : DesktopFile × ℕ) (M : Merge) : Prop where
  named : Named st.1 M.headers
  cur : (st.1.section_.map (·.name))[st.2]? = some M.cur
  val : ∀ q, lookupSlot st.1 q = M.val q

theorem get_concat (s : DesktopSection) (e : DesktopEntry) (key locale : CStr) :
    DesktopSection.get { s with entry := s.entry ++ [e] } key locale =
      (s.get key locale).or (if e.key = key ∧ e.locale = locale then some e.value else none) := by
  unfold DesktopSection.get
  rw [List.find?_append, Option.map_or]
  congr 1
  by_cases he : e.key = key ∧ e.locale = locale
  · simp [he]
  · rw [if_neg he, List.find?_cons]
    have hf : (e.key == key && e.locale == locale) = false := by
      simpa [Bool.and_eq_false_iff, or_iff_not_imp_left] using he
    rw [hf]
    rfl

theorem getLast?_names (headers : List CStr) : (none :: headers.map some).getLast? = some headers.getLast? := by
  cases headers using List.reverseRecOn with
  | nil => rfl
  | append_singleton hs h =>
    rw [List.map_append, ← List.cons_append, List.map_singleton, List.getLast?_concat, List.getLast?_concat]

theorem Named.nodup {df : DesktopFile} {headers : List CStr} (h : Named df headers) :
    (df.section_.map (·.name)).Nodup := by
  rw [h.1]
  exact List.nodup_cons.mpr ⟨by simp, List.Nodup.map (fun _ _ => Option.some.inj) h.2⟩

theorem Named.mem_iff {df : DesktopFile} {headers : List CStr} (h : Named df headers) {name : CStr} :
    name ∈ headers ↔ some name ∈ df.section_.map (·.name) := by simp [h.1]

/-- A new section takes the end of the file. -/
theorem Named.concat {df : DesktopFile} {headers : List CStr} (h : Named df headers) {name : CStr}
    (hn : name ∉ headers) : Named ⟨df.section_ ++ [⟨some name, []⟩]⟩ (headers ++ [name]) := by
  exact ⟨by rw [List.map_append, h.1]; simp, nodup_concat h.2 hn⟩

/-- It has no entries yet. -/
theorem lookupSlot_new {df : DesktopFile} {headers : List CStr} (h : Named df headers) {name : CStr}
    (hn : name ∉ headers) (q : Slot) : lookupSlot ⟨df.section_ ++ [⟨some name, []⟩]⟩ q = lookupSlot df q := by
  have hempty : DesktopSection.get ⟨some name, []⟩ q.2.1 q.2.2 = none := rfl
  rw [lookupSlot_eq (h.concat hn), lookupSlot_eq h, List.find?_append]
  cases df.section_.find? fun s => s.name == q.1 with
  | some s => rfl
  | none =>
    rw [Option.none_or, List.find?_cons]
    split
    · exact hempty
    · rfl

section Last

variable {init : List DesktopSection} {s : DesktopSection} {headers : List CStr}

theorem Named.last (h : Named ⟨init ++ [s]⟩ headers) : s.name = headers.getLast? := by
  have hl := congrArg List.getLast? h.1
  rw [getLast?_names, List.map_append] at hl
  simpa using hl

/-- What a section's entries are does not matter to the names. -/
theorem Named.entries (h : Named ⟨init ++ [s]⟩ headers) (es : List DesktopEntry) :
    Named ⟨init ++ [{ s with entry := es }]⟩ headers := by
  refine ⟨?_, h.2⟩
  rw [← h.1, List.map_append, List.map_append]
  rfl

theorem lookupSlot_concat (h : Named ⟨init ++ [s]⟩ headers) (q : Slot) :
    lookupSlot ⟨init ++ [s]⟩ q =
      if q.1 = headers.getLast? then s.get q.2.1 q.2.2
      else (init.find? (·.name == q.1)).bind (·.get q.2.1 q.2.2) := by
  have hnd := h.nodup
  rw [List.map_append, List.nodup_append] at hnd
  rw [lookupSlot_eq h, List.find?_append, List.find?_cons, ← h.last]
  split_ifs with hq
  · have hinit : init.find? (·.name == q.1) = none := by
      rw [List.find?_eq_none]
      intro x hx he
      exact hnd.2.2 _ (List.mem_map_of_mem hx) _ (by simp) ((beq_iff_eq.mp he).trans hq)
    have hs : (s.name == q.1) = true := beq_iff_eq.mpr hq.symm
    rw [hinit, hs]
    rfl
  · have hne : (s.name == q.1) = false := beq_eq_false_iff_ne.mpr (Ne.symm hq)
    rw [hne, List.find?_nil, Option.or_none]

/-- An entry appended to the last section. -/
theorem lookupSlot_append (h : Named ⟨init ++ [s]⟩ headers) (e : DesktopEntry) (q : Slot) :
    lookupSlot ⟨init ++ [{ s with entry := s.entry ++ [e] }]⟩ q =
      Function.update (lookupSlot ⟨init ++ [s]⟩) (headers.getLast?, e.key, e.locale)
        ((lookupSlot ⟨init ++ [s]⟩ (headers.getLast?, e.key, e.locale)).or (some e.value)) q := by
  rw [lookupSlot_concat (h.entries _)]
  by_cases hq : q = (headers.getLast?, e.key, e.locale)
  · subst hq
    rw [Function.update_self, lookupSlot_concat h, if_pos rfl, if_pos rfl, get_concat, if_pos ⟨rfl, rfl⟩]
  · rw [Function.update_of_ne hq, lookupSlot_concat h]
    split_ifs with hl
    · rw [get_concat, if_neg fun hk => hq (Prod.ext hl (Prod.ext hk.1.symm hk.2.symm)), Option.or_none]
    · rfl

end Last

theorem lookupSlot_at {df : DesktopFile} {headers : List CStr} {i : ℕ} (h : Named df headers) {s : DesktopSection}
    (hs : df.section_[i]? = some s) (key locale : CStr) : lookupSlot df (s.name, key, locale) = s.get key locale := by
  obtain ⟨pre, post, hsplit⟩ := List.append_of_mem (List.mem_of_getElem? hs)
  have hnd := h.nodup
  rw [hsplit, List.map_append, List.nodup_append] at hnd
  have hpre : pre.find? (·.name == s.name) = none := by
    rw [List.find?_eq_none]
    intro x hx he
    exact hnd.2.2 _ (List.mem_map_of_mem hx) _ (by simp) (beq_iff_eq.mp he)
  rw [lookupSlot_eq h, hsplit, List.find?_append, hpre, List.find?_cons_of_pos (by simp)]
  rfl

/-- Whether an entry's slot counts as taken. -/
theorem collides_iff {df : DesktopFile} {M : Merge} {i : ℕ} (h : Models (df, i) M) (key locale : CStr) :
    (df.sec i).entry.findIdx? ((df.sec i).collides key locale) = none ↔
      ¬ M.Taken key locale := by
  unfold Merge.Taken
  obtain ⟨s, hs, hname⟩ : ∃ s, df.section_[i]? = some s ∧ s.name = M.cur := by
    simpa [List.getElem?_map] using h.cur
  have hsec : df.sec i = s := by
    rw [DesktopFile.sec, List.getD_eq_getElem?_getD, hs]
    rfl
  rw [hsec, ← hname, ← h.val, lookupSlot_at h.named hs, List.findIdx?_eq_none_iff]
  unfold DesktopSection.collides DesktopSection.get
  cases s.name with
  | none => simp
  | some name => simp

theorem models_sectionNew {df : DesktopFile} {i : ℕ} {M : Merge} (name : CStr) (h : Models (df, i) M) :
    Models (dbpDesktopSectionNew df (some name)) (M.call (.sectionNew name)) := by
  unfold dbpDesktopSectionNew Merge.call Merge.enter
  cases hf : df.section_.findIdx? fun s => s.name.isSome && s.name == some name with
  | some j =>
    obtain ⟨pre, s, post, hsplit, rfl, hs, -⟩ := findIdx?_split hf
    have hname : s.name = some name := by
      rw [Bool.and_eq_true, beq_iff_eq] at hs
      exact hs.2
    have hin : name ∈ M.headers := h.named.mem_iff.mpr (by rw [hsplit]; simp [hname])
    simp only [hin, ↓reduceIte]
    exact ⟨h.named, by simp [hsplit, hname], h.val⟩
  | none =>
    have hout : name ∉ M.headers := fun hin => by
      obtain ⟨s, hs, hname⟩ := List.mem_map.mp (h.named.mem_iff.mp hin)
      have := findIdx?_none hf s hs
      simp [hname] at this
    simp only [hout, ↓reduceIte]
    refine ⟨h.named.concat hout, ?_, fun q => (lookupSlot_new h.named hout q).trans (h.val q)⟩
    simp

/-- What an entry does to the file: nothing if its slot is taken, else it goes to the end of the last section. -/
theorem entryNew_cases {st : DesktopFile × ℕ} {M : Merge} (key locale value : CStr) (h : Models st M) :
    M.Taken key locale ∧ applyCall st (.entryNew key locale value) = st ∨
      ¬ M.Taken key locale ∧ ∃ init s, st.1 = ⟨init ++ [s]⟩ ∧ applyCall st (.entryNew key locale value) =
        (⟨init ++ [{ s with entry := s.entry ++ [⟨key, locale, value⟩] }]⟩, st.2) := by
  obtain ⟨⟨sections⟩, i⟩ := st
  have hc := collides_iff h key locale
  by_cases htaken : M.Taken key locale
  · obtain ⟨j, hj⟩ := Option.ne_none_iff_exists'.mp (mt hc.mp (not_not.mpr htaken))
    exact .inl ⟨htaken, by simp only [applyCall, dbpDesktopEntryNew, hj]⟩
  · have hne : sections ≠ [] := fun hnil => by
      have := h.named.1
      rw [hnil] at this
      cases this
    obtain ⟨init, s, rfl⟩ := (List.eq_nil_or_concat' sections).resolve_left hne
    refine .inr ⟨htaken, init, s, rfl, ?_⟩
    rw [applyCall, dbpDesktopEntryNew_concat value (hc.mpr htaken)]

theorem models_entryNew {df : DesktopFile} {i : ℕ} {M : Merge} (key locale value : CStr) (h : Models (df, i) M) :
    Models (applyCall (df, i) (.entryNew key locale value)) (M.call (.entryNew key locale value)) := by
  rw [Merge.call]
  rcases entryNew_cases key locale value h with ⟨htaken, hkeep⟩ | ⟨htaken, init, s, hdf, hput⟩
  · rw [if_pos htaken, hkeep]
    exact h
  · obtain rfl : df = ⟨init ++ [s]⟩ := hdf
    rw [if_neg htaken, hput]
    have hval : lookupSlot ⟨init ++ [s]⟩ = M.val := funext h.val
    refine ⟨h.named.entries _, ?_, fun q => ?_⟩
    · rw [(h.named.entries _).1, ← h.named.1]
      exact h.cur
    · rw [lookupSlot_append h.named ⟨key, locale, value⟩ q, hval]
      rfl

/-- One call. -/
theorem models_step (st : DesktopFile × ℕ) (M : Merge) (c : ParseCall) (h : Models st M) :
    Models (applyCall st c) (M.call c) := by
  cases c with
  | none => exact h
  | sectionNew name => exact models_sectionNew name h
  | entryNew key locale value => exact models_entryNew key locale value h

/-- The calls of a text. -/
theorem models_calls (cs : List ParseCall) {st : DesktopFile × ℕ} {M : Merge} (h : Models st M) :
    Models (cs.foldl applyCall st) (cs.foldl Merge.call M) :=
  run_simulates models_step cs h

/-- Every parse starts in section 0. -/
theorem Models.restart {df : DesktopFile} {i : ℕ} {M : Merge} (h : Models (df, i) M) :
    Models (df, 0) ⟨M.headers, none, M.val⟩ :=
  ⟨h.named, by rw [h.named.1]; rfl, h.val⟩

/-- The file every parse starts from. -/
theorem models_empty : Models (DesktopFile.empty, 0) ⟨[], none, fun _ => none⟩ where
  named := ⟨rfl, List.nodup_nil⟩
  cur := rfl
  val q := by
    rw [lookupSlot_eq (show Named _ [] from ⟨rfl, List.nodup_nil⟩)]
    show ((List.find? (·.name == q.1) [(⟨none, []⟩ : DesktopSection)]).bind fun s => s.get q.2.1 q.2.2) = none
    rw [List.find?_cons]
    split <;> rfl

end Dbp
