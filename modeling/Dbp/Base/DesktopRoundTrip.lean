/-
# Writing a desktop file and parsing it back

A file is written as a list of lines, none of which the parser's scans
leave: each means by itself what it was written for (`localCall_headerLine`,
`localCall_entryLine`). Applied to the file with the nameless section they
build the file up again, section after section (`applyCalls_sections`), so
parsing what was written gives the file back (`parse_write`).

Key definitions: `headerLine`, `entryLine`, `sectionLines`, `WritableEntry`, `Writable`.
Key theorems: `dbpDesktopWrite_eq`, `localCall_headerLine`, `localCall_entryLine`,
`applyCalls_sections`, `parse_write`.
-/
import Dbp.Base.DesktopLocal

namespace Dbp

open CLib

/-! ### The lines of a file -/

/-- The line of a header. -/
def headerLine (name : CStr) : CStr := '[' :: (name ++ lit "]")

/-- The key of an entry's line, with its locale. -/
def writtenKey (e : DesktopEntry) : CStr := if e.locale = [] then e.key else e.key ++ '[' :: (e.locale ++ lit "]")

/-- The line of an entry. -/
def entryLine (e : DesktopEntry) : CStr := writtenKey e ++ '=' :: desktopWriteFormat e.value

/-- The lines of a section. -/
def sectionLines (s : DesktopSection) : List CStr := (s.name.map headerLine).toList ++ s.entry.map entryLine

/-- A text of lines with their line ends. -/
def textOf (lines : List CStr) : CStr := lines.flatMap (· ++ lit "\n")

theorem textOf_append (xs ys : List CStr) : textOf (xs ++ ys) = textOf xs ++ textOf ys := List.flatMap_append

theorem writeEntry_eq {e : DesktopEntry} (h : e.key ≠ []) : writeEntry e = entryLine e ++ lit "\n" := by
  unfold writeEntry entryLine writtenKey
  rw [if_neg h]
  split_ifs <;> simp [lit]

theorem writeSection_eq {s : DesktopSection} (h : ∀ e ∈ s.entry, e.key ≠ []) :
    writeSection s = textOf (sectionLines s) := by
  have hentries : s.entry.flatMap writeEntry = textOf (s.entry.map entryLine) := by
    rw [textOf, List.flatMap_map]
    exact List.flatMap_congr fun e he => writeEntry_eq (h e he)
  rw [sectionLines, textOf_append, ← hentries, writeSection]
  congr 1
  cases s.name with
  | none => rfl
  | some name => simp [textOf, headerLine, lit]

/-- What is written is the lines of the sections. -/
theorem dbpDesktopWrite_eq {df : DesktopFile} (h : ∀ s ∈ df.section_, ∀ e ∈ s.entry, e.key ≠ []) :
    dbpDesktopWrite df = textOf (df.section_.flatMap sectionLines) := by
  rw [dbpDesktopWrite, textOf, List.flatMap_assoc]
  exact List.flatMap_congr fun s hs => writeSection_eq (h s hs)

/-- The lines of a text of lines, and the empty one behind the last line end. -/
theorem lineStarts_textOf : ∀ {lines : List CStr}, (∀ l ∈ lines, '\n' ∉ l) →
    (∀ s ∈ lineStarts (textOf lines), ∃ l ∈ [] :: lines, ∃ after, s = l ++ after ∧ after.head?.all (· == '\n')) ∧
      textLines (textOf lines) = lines ++ [[]]
  | [], _ => ⟨fun s hs => ⟨[], by simp, [], by simpa [textOf, lineStarts] using hs, rfl⟩, rfl⟩
  | l :: lines, h => by
    have hl : '\n' ∉ l := h l (by simp)
    obtain ⟨h1, h2⟩ := @lineStarts_textOf lines fun l hl => h l (by simp [hl])
    have htext : textOf (l :: lines) = l ++ '\n' :: textOf lines := by
      rw [textOf, List.flatMap_cons, List.append_assoc]
      rfl
    rw [htext, textLines, lineStarts_cons _ hl, List.map_cons, firstLine_append hl rfl]
    refine ⟨fun s hs => ?_, by rw [← textLines, h2]; rfl⟩
    rcases List.mem_cons.mp hs with rfl | hs
    · exact ⟨l, by simp, _, rfl, rfl⟩
    · obtain ⟨x, hx, after, hs, ha⟩ := h1 s hs
      exact ⟨x, by rcases List.mem_cons.mp hx with rfl | hx <;> simp [*], after, hs, ha⟩

/-- The parse of a text of lines that mean by themselves what they mean in any text. -/
theorem calls_textOf {lines : List CStr} (hn : ∀ l ∈ lines, '\n' ∉ l) (hr : ∀ l ∈ lines, '\r' ∉ l)
    (hs : ∀ l ∈ lines, ∀ after, SelfContained l after) (b : ParseBufs) :
    calls (textOf lines) b = lines.map localCall ++ [.none] := by
  have hcr : crToLf (textOf lines) = textOf lines := by
    refine (List.map_congr_left fun c hc => if_neg ?_).trans (List.map_id _)
    obtain ⟨l, hl, hcl⟩ := List.mem_flatMap.mp hc
    rcases List.mem_append.mp hcl with hcl | hcl
    · exact ne_of_mem_of_not_mem hcl (hr l hl)
    · rw [List.mem_singleton.mp hcl]
      decide
  obtain ⟨h1, h2⟩ := lineStarts_textOf hn
  rw [@calls_of_selfContained (textOf lines), hcr, h2]
  · simp [show localCall [] = .none from by decide]
  · rw [hcr]
    intro s hmem
    obtain ⟨l, hl, after, rfl, ha⟩ := h1 s hmem
    have hln : '\n' ∉ l := by
      rcases List.mem_cons.mp hl with rfl | hl
      · simp
      · exact hn l hl
    rw [firstLine_append hln ha]
    rcases List.mem_cons.mp hl with rfl | hl
    · exact fun _ => ⟨fun h => absurd h.1 (by decide), fun h => absurd rfl h.1⟩
    · exact hs l hl _

/-! ### What the lines mean -/

/-- A string without brackets, `=` and line ends. -/
def Plain (s : CStr) : Prop := ∀ c ∈ s, c ≠ '[' ∧ c ≠ ']' ∧ c ≠ '=' ∧ c ≠ '\r' ∧ c ≠ '\n'

instance (s : CStr) : Decidable (Plain s) := inferInstanceAs (Decidable (∀ c ∈ s, _))

/-- An entry that its line can carry. -/
structure WritableEntry (e : DesktopEntry) : Prop where
  keyNe : e.key ≠ []
  keyPlain : Plain e.key
  keyHead : e.key.head? ≠ some ';' ∧ e.key.head? ≠ some '#'
  localePlain : Plain e.locale
  localeHead : ∀ c ∈ e.locale.head?, isspace c = false
  valueNe : e.value ≠ []
  valueHead : e.value.head? ≠ some ' ' ∧ e.value.head? ≠ some '\x0b' ∧ e.value.head? ≠ some '\x0c'
  value : desktopEntryUnescape (desktopWriteFormat e.value) = e.value

instance (e : DesktopEntry) : Decidable (WritableEntry e) :=
  decidable_of_iff
    (e.key ≠ [] ∧ Plain e.key ∧ (e.key.head? ≠ some ';' ∧ e.key.head? ≠ some '#') ∧ Plain e.locale ∧
      (∀ c ∈ e.locale.head?, isspace c = false) ∧ e.value ≠ [] ∧
      (e.value.head? ≠ some ' ' ∧ e.value.head? ≠ some '\x0b' ∧ e.value.head? ≠ some '\x0c') ∧
      desktopEntryUnescape (desktopWriteFormat e.value) = e.value)
    ⟨fun ⟨h1, h2, h3, h4, h5, h6, h7, h8⟩ => ⟨h1, h2, h3, h4, h5, h6, h7, h8⟩,
      fun ⟨h1, h2, h3, h4, h5, h6, h7, h8⟩ => ⟨h1, h2, h3, h4, h5, h6, h7, h8⟩⟩

theorem Plain.not_mem {s : CStr} (h : Plain s) : '[' ∉ s ∧ ']' ∉ s ∧ '=' ∉ s ∧ '\r' ∉ s ∧ '\n' ∉ s :=
  ⟨fun hc => (h _ hc).1 rfl, fun hc => (h _ hc).2.1 rfl, fun hc => (h _ hc).2.2.1 rfl, fun hc => (h _ hc).2.2.2.1 rfl,
    fun hc => (h _ hc).2.2.2.2 rfl⟩

theorem not_mem_writeFormat (v : CStr) : '\n' ∉ desktopWriteFormat v ∧ '\r' ∉ desktopWriteFormat v := by
  have h : ∀ x ∈ desktopWriteFormat v, x ≠ '\n' ∧ x ≠ '\r' := by
    intro x hx
    obtain ⟨c, -, hx⟩ := List.mem_flatMap.mp hx
    split_ifs at hx with h1 h2 h3 h4 <;> simp only [List.mem_cons, List.not_mem_nil, or_false] at hx
    · rcases hx with rfl | rfl <;> decide
    · rcases hx with rfl | rfl <;> decide
    · rcases hx with rfl | rfl <;> decide
    · rcases hx with rfl | rfl <;> decide
    · rw [hx]
      exact ⟨h3, h2⟩
  exact ⟨fun hx => (h _ hx).1 rfl, fun hx => (h _ hx).2 rfl⟩

/-- A written value begins with a character that is no white space. -/
theorem head_writeFormat {v : CStr} (hne : v ≠ [])
    (hh : v.head? ≠ some ' ' ∧ v.head? ≠ some '\x0b' ∧ v.head? ≠ some '\x0c') :
    ∃ c t, desktopWriteFormat v = c :: t ∧ isspace c = false := by
  cases v with
  | nil => exact absurd rfl hne
  | cons c v =>
    simp only [List.head?_cons, ne_eq, Option.some.injEq] at hh
    unfold desktopWriteFormat
    rw [List.flatMap_cons]
    split_ifs with h1 h2 h3 h4
    · exact ⟨_, _, rfl, rfl⟩
    · exact ⟨_, _, rfl, rfl⟩
    · exact ⟨_, _, rfl, rfl⟩
    · exact ⟨_, _, rfl, rfl⟩
    · exact ⟨_, _, rfl, by simp [isspace, hh, h2, h3, h4]⟩

section Header

variable {name : CStr}

theorem not_mem_headerLine (h : Plain name) : '\n' ∉ headerLine name ∧ '\r' ∉ headerLine name := by
  obtain ⟨-, -, -, hr, hn⟩ := h.not_mem
  simp [headerLine, lit, hr, hn]

theorem keyOf_headerLine (h : Plain name) : keyOf (headerLine name) = headerLine name := by
  obtain ⟨-, -, he, -, hn⟩ := h.not_mem
  have hs : KeySplit (headerLine name) [] := keySplit_bare (by simp [headerLine, lit, hn]) (by simp [headerLine, lit, he]) rfl
  have := hs.keyOf_eq
  rwa [List.append_nil] at this

theorem headerName_headerLine (h : Plain name) : headerName (headerLine name) = name := by
  have hstop : ∀ c ∈ '[' :: name, (c != ']') = true := fun c hc => by
    rcases List.mem_cons.mp hc with rfl | hc
    · rfl
    · simpa using (h c hc).2.1
  rw [headerName, headerLine, ← List.cons_append, takeWhile_append_stop hstop rfl, List.tail_cons]

theorem isHeader_headerLine (name : CStr) : IsHeader (headerLine name) := ⟨rfl, by simp [headerLine, lit]⟩

theorem selfContained_headerLine (h : Plain name) (hne : name ≠ []) (after : CStr) :
    SelfContained (headerLine name) after := fun _ => by
  rw [keyOf_headerLine h, headerName_headerLine h]
  exact ⟨fun _ => hne, fun he => absurd rfl he.2.1⟩

/-- A header line opens its section. -/
theorem localCall_headerLine (h : Plain name) (hne : name ≠ []) (hlen : (headerLine name).length < bufSize) :
    localCall (headerLine name) = .sectionNew name := by
  have hn := (not_mem_headerLine h).1
  rw [localCall_eq hn, if_neg (not_le.mpr hlen), keyOf_headerLine h,
    keyStep_header _ _ hn (isHeader_headerLine name), headerName_headerLine h, if_neg hne]

end Header

section Entry

variable {e : DesktopEntry}

theorem not_mem_writtenKey (h : WritableEntry e) : '\n' ∉ writtenKey e ∧ '\r' ∉ writtenKey e ∧ '=' ∉ writtenKey e := by
  obtain ⟨-, -, hke, hkr, hkn⟩ := h.keyPlain.not_mem
  obtain ⟨-, -, hle, hlr, hln⟩ := h.localePlain.not_mem
  unfold writtenKey
  split_ifs
  · exact ⟨hkn, hkr, hke⟩
  · simp [lit, hkn, hkr, hke, hln, hlr, hle]

theorem not_mem_entryLine (h : WritableEntry e) : '\n' ∉ entryLine e ∧ '\r' ∉ entryLine e := by
  obtain ⟨hn, hr, -⟩ := not_mem_writtenKey h
  obtain ⟨hvn, hvr⟩ := not_mem_writeFormat e.value
  simp [entryLine, hn, hr, hvn, hvr]

theorem keyOf_entryLine (h : WritableEntry e) : keyOf (entryLine e) = writtenKey e := by
  obtain ⟨hn, -, he⟩ := not_mem_writtenKey h
  exact (keySplit_eq hn he _).keyOf_eq

theorem valueOf_entryLine (h : WritableEntry e) : valueOf (entryLine e) = desktopWriteFormat e.value := by
  obtain ⟨hn, -, he⟩ := not_mem_writtenKey h
  obtain ⟨c, t, hct, hc⟩ := head_writeFormat h.valueNe h.valueHead
  have hb : ¬ Blank (desktopWriteFormat e.value) := fun hb => by
    rw [hct] at hb
    rw [hb c (by simp)] at hc
    cases hc
  have hv := @valueOf_inline (writtenKey e) _ [] hn he (not_mem_writeFormat e.value).1 hb rfl
  rw [List.append_nil] at hv
  rw [entryLine, hv, hct, List.dropWhile_cons_of_neg (by simp [hc])]

theorem isEntry_writtenKey (h : WritableEntry e) : IsEntry (writtenKey e) := by
  obtain ⟨c, k, hk⟩ := List.exists_cons_of_ne_nil h.keyNe
  have hbr : e.key.head? ≠ some '[' := fun hb => h.keyPlain.not_mem.1 (List.mem_of_head? hb)
  have hhead : (writtenKey e).head? = e.key.head? := by
    unfold writtenKey
    split_ifs
    · rfl
    · rw [hk]
      rfl
  refine ⟨fun hnil => ?_, hhead ▸ hbr, hhead ▸ h.keyHead.1, hhead ▸ h.keyHead.2, fun ho => ?_⟩
  · rw [hnil, hk] at hhead
    cases hhead
  · unfold writtenKey at ho ⊢
    split_ifs with hl
    · rw [if_pos hl] at ho
      exact absurd ho h.keyPlain.not_mem.1
    · simp [lit]

theorem not_blank_locale (h : WritableEntry e) (hl : e.locale ≠ []) : ¬ Blank e.locale := by
  obtain ⟨c, l, hc⟩ := List.exists_cons_of_ne_nil hl
  intro hb
  have hsp := h.localeHead c (by rw [hc]; rfl)
  rw [hb c (by rw [hc]; simp)] at hsp
  cases hsp

theorem freshKey_writtenKey (h : WritableEntry e) : FreshKey (writtenKey e) := by
  unfold writtenKey
  split_ifs with hl
  · exact fun ho => absurd ho h.keyPlain.not_mem.1
  · refine (freshKey_open h.keyPlain.not_mem.1).mpr ⟨h.keyPlain.not_mem.2.1, ?_⟩
    rw [takeWhile_append_stop (fun c hc => by simpa using (h.localePlain c hc).2.1) rfl]
    exact not_blank_locale h hl

theorem selfContained_entryLine (h : WritableEntry e) (after : CStr) : SelfContained (entryLine e) after := fun _ => by
  rw [keyOf_entryLine h]
  refine ⟨fun hh => absurd hh.1 (isEntry_writtenKey h).2.1, fun _ => ⟨freshKey_writtenKey h, ?_⟩⟩
  obtain ⟨hn, -, he⟩ := not_mem_writtenKey h
  obtain ⟨c, t, hct, hc⟩ := head_writeFormat h.valueNe h.valueHead
  unfold CarryFree
  rw [if_pos (by simp [entryLine]), entryLine,
    dropWhile_append_stop (fun c hc => by simpa using ne_of_mem_of_not_mem hc he) rfl, List.tail_cons, hct]
  exact .inl fun hb => by
    rw [hb c (by simp)] at hc
    cases hc

/-- An entry line adds its entry. -/
theorem localCall_entryLine (h : WritableEntry e) (hlen : (entryLine e).length < bufSize) :
    localCall (entryLine e) = .entryNew e.key e.locale e.value := by
  rw [localCall_eq (not_mem_entryLine h).1, if_neg (not_le.mpr hlen), keyOf_entryLine h, valueOf_entryLine h,
    keyStep_entry _ _ (isEntry_writtenKey h), h.value]
  unfold writtenKey
  obtain ⟨ho, hc, -, -, hn⟩ := h.keyPlain.not_mem
  by_cases hl : e.locale = []
  · simp only [hl, ↓reduceIte, ho]
  · obtain ⟨-, hlc, -, -, hln⟩ := h.localePlain.not_mem
    have hscan := localeScan_open (r := []) h.keyNe hn ho hc hlc hln
    obtain ⟨c, l, hcl⟩ := List.exists_cons_of_ne_nil hl
    have hsp := h.localeHead c (by rw [hcl]; rfl)
    have hdrop : e.locale.dropWhile isspace = e.locale := by
      rw [hcl]
      exact List.dropWhile_cons_of_neg (by simp [hsp])
    rw [if_neg (not_blank_locale h hl), hdrop] at hscan
    rw [if_neg hl, if_pos (by simp), show lit "]" = [']'] from rfl, hscan]
    rfl

end Entry

/-! ### Building the file up again -/

/-- The call an entry's line makes. -/
def entryCall (e : DesktopEntry) : ParseCall := .entryNew e.key e.locale e.value

/-- The calls a section's lines make. -/
def sectionCalls (s : DesktopSection) : List ParseCall := (s.name.map .sectionNew).toList ++ s.entry.map entryCall

section Apply

variable {P : List DesktopSection}

/-- A new entry of the last section. -/
theorem entryNew_last {name : Option CStr} {es : List DesktopEntry} {e : DesktopEntry}
    (h : ∀ x ∈ es, (x.key, x.locale) ≠ (e.key, e.locale)) :
    (dbpDesktopEntryNew ⟨P ++ [⟨name, es⟩]⟩ e.key e.locale e.value P.length).1 = ⟨P ++ [⟨name, es ++ [e]⟩]⟩ := by
  have hsec : DesktopFile.sec ⟨P ++ [⟨name, es⟩]⟩ P.length = ⟨name, es⟩ := by
    simp [DesktopFile.sec]
  have hnone : es.findIdx? (DesktopSection.collides ⟨name, es⟩ e.key e.locale) = none := by
    rw [List.findIdx?_eq_none_iff]
    intro x hx
    unfold DesktopSection.collides
    cases name with
    | none => rfl
    | some name =>
      rw [Bool.and_eq_false_iff, beq_eq_false_iff_ne, beq_eq_false_iff_ne]
      by_contra hn
      rw [not_or, not_ne_iff, not_ne_iff] at hn
      exact h x hx (Prod.ext hn.1 hn.2)
  exact dbpDesktopEntryNew_concat e.value (by rw [hsec]; exact hnone)

theorem applyCalls_entries {name : Option CStr} : ∀ (es done : List DesktopEntry),
    ((done ++ es).map fun e => (e.key, e.locale)).Nodup →
      (es.map entryCall).foldl applyCall (⟨P ++ [⟨name, done⟩]⟩, P.length) =
        (⟨P ++ [⟨name, done ++ es⟩]⟩, P.length)
  | [], done, _ => by simp
  | e :: es, done, h => by
    have hnew : ∀ x ∈ done, (x.key, x.locale) ≠ (e.key, e.locale) := by
      intro x hx he
      rw [List.map_append, List.nodup_append] at h
      exact h.2.2 _ (List.mem_map_of_mem hx) _ (List.mem_map_of_mem (by simp)) he
    rw [List.map_cons, List.foldl_cons]
    have hcall : applyCall (⟨P ++ [⟨name, done⟩]⟩, P.length) (entryCall e) =
        (⟨P ++ [⟨name, done ++ [e]⟩]⟩, P.length) := by
      simp only [applyCall, entryCall, entryNew_last hnew]
    rw [hcall, applyCalls_entries es (done ++ [e]) (by rwa [List.append_assoc]), List.append_assoc]
    rfl

theorem sectionNew_new {name : CStr} (h : some name ∉ P.map (·.name)) :
    dbpDesktopSectionNew ⟨P⟩ (some name) = (⟨P ++ [⟨some name, []⟩]⟩, P.length) := by
  have hnone : P.findIdx? (fun s => s.name.isSome && s.name == some name) = none := by
    rw [List.findIdx?_eq_none_iff]
    intro s hs
    rw [Bool.and_eq_false_iff, beq_eq_false_iff_ne]
    exact .inr fun he => h (he ▸ List.mem_map_of_mem hs)
  unfold dbpDesktopSectionNew
  simp only [hnone]

/-- The calls of sections with new names append them. -/
theorem applyCalls_sections : ∀ (ss P : List DesktopSection) (i : ℕ), (∀ s ∈ ss, s.name.isSome) →
    ((P ++ ss).map (·.name)).Nodup → (∀ s ∈ ss, (s.entry.map fun e => (e.key, e.locale)).Nodup) →
      ((ss.flatMap sectionCalls).foldl applyCall (⟨P⟩, i)).1 = ⟨P ++ ss⟩
  | [], P, i, _, _, _ => by simp
  | s :: ss, P, i, hname, hnd, hu => by
    obtain ⟨name, hs⟩ := Option.isSome_iff_exists.mp (hname s (by simp))
    have hnew : some name ∉ P.map (·.name) := fun hm => by
      rw [List.map_append, List.nodup_append] at hnd
      exact hnd.2.2 _ hm _ (by simp [hs]) rfl
    have hsec : (sectionCalls s).foldl applyCall (⟨P⟩, i) = (⟨P ++ [s]⟩, P.length) := by
      rw [sectionCalls, hs, Option.map_some, Option.toList_some, List.singleton_append, List.foldl_cons, applyCall,
        sectionNew_new hnew, applyCalls_entries s.entry [] (hu s (by simp)), List.nil_append, ← hs]
    rw [List.flatMap_cons, List.foldl_append, hsec,
      applyCalls_sections ss (P ++ [s]) _ (fun s hs => hname s (by simp [hs])) (by rwa [List.append_assoc])
        fun s hs => hu s (by simp [hs]), List.append_assoc]
    rfl

end Apply

/-- A file that its text can carry. -/
structure Writable (df : DesktopFile) : Prop where
  nameless : df.section_.head?.map (·.name) = some none
  named : ∀ s ∈ df.section_.tail, ∃ name, s.name = some name ∧ name ≠ [] ∧ Plain name
  distinct : (df.section_.tail.map (·.name)).Nodup
  unique : ∀ s ∈ df.section_, (s.entry.map fun e => (e.key, e.locale)).Nodup
  entry : ∀ s ∈ df.section_, ∀ e ∈ s.entry, WritableEntry e
  short : ∀ line ∈ textLines (dbpDesktopWrite df), line.length < 4096

/-- The lines of a section make its calls. -/
theorem localCall_sectionLines {s : DesktopSection} (hn : ∀ name ∈ s.name, name ≠ [] ∧ Plain name)
    (he : ∀ e ∈ s.entry, WritableEntry e) (hlen : ∀ l ∈ sectionLines s, l.length < bufSize) :
    (sectionLines s).map localCall = sectionCalls s := by
  have hent : (s.entry.map entryLine).map localCall = s.entry.map entryCall := by
    rw [List.map_map]
    refine List.map_congr_left fun e hm => localCall_entryLine (he e hm) (hlen _ ?_)
    exact List.mem_append_right _ (List.mem_map_of_mem hm)
  rw [sectionLines, List.map_append, hent, sectionCalls]
  congr 1
  cases hs : s.name with
  | none => rfl
  | some name =>
    obtain ⟨hne, hp⟩ := hn name hs
    have hl := hlen (headerLine name) (List.mem_append_left _ (by simp [hs]))
    simp [localCall_headerLine hp hne hl]

section Writable

variable {s₀ : DesktopSection} {ss : List DesktopSection} (h : Writable ⟨s₀ :: ss⟩)
include h

theorem Writable.first : s₀.name = none := by simpa using h.nameless

theorem Writable.name {s : DesktopSection} (hs : s ∈ s₀ :: ss) : ∀ name ∈ s.name, name ≠ [] ∧ Plain name := by
  intro name hn
  rcases List.mem_cons.mp hs with rfl | hs
  · rw [h.first] at hn
    cases hn
  · obtain ⟨name', hn', hp⟩ := h.named s hs
    rw [hn'] at hn
    cases hn
    exact hp

/-- Every line that is written is one line, and is read by itself. -/
theorem Writable.line {l : CStr} (hl : l ∈ (s₀ :: ss).flatMap sectionLines) :
    '\n' ∉ l ∧ '\r' ∉ l ∧ ∀ after, SelfContained l after := by
  obtain ⟨s, hs, hl⟩ := List.mem_flatMap.mp hl
  rcases List.mem_append.mp hl with hl | hl
  · obtain ⟨name, hn, rfl⟩ := Option.map_eq_some_iff.mp (Option.mem_toList.mp hl)
    obtain ⟨hne, hp⟩ := h.name hs name hn
    exact ⟨(not_mem_headerLine hp).1, (not_mem_headerLine hp).2, selfContained_headerLine hp hne⟩
  · obtain ⟨e, he, rfl⟩ := List.mem_map.mp hl
    have hw := h.entry s hs e he
    exact ⟨(not_mem_entryLine hw).1, (not_mem_entryLine hw).2, selfContained_entryLine hw⟩

theorem Writable.write : dbpDesktopWrite ⟨s₀ :: ss⟩ = textOf ((s₀ :: ss).flatMap sectionLines) :=
  dbpDesktopWrite_eq fun s hs e he => (h.entry s hs e he).keyNe

/-- Reading back makes the calls of the sections, and one more for the end of the text. -/
theorem Writable.calls (b : ParseBufs) :
    calls (dbpDesktopWrite ⟨s₀ :: ss⟩) b = (s₀ :: ss).flatMap sectionCalls ++ [.none] := by
  have hshort : ∀ l ∈ (s₀ :: ss).flatMap sectionLines, l.length < bufSize := by
    intro l hl
    refine h.short l ?_
    rw [h.write, (lineStarts_textOf fun l hl => (h.line hl).1).2]
    exact List.mem_append_left _ hl
  rw [h.write, calls_textOf (fun l hl => (h.line hl).1) (fun l hl => (h.line hl).2.1) fun l hl => (h.line hl).2.2,
    List.map_flatMap]
  congr 1
  refine List.flatMap_congr fun s hs => localCall_sectionLines (h.name hs) (h.entry s hs) fun l hl => ?_
  exact hshort l (List.mem_flatMap.mpr ⟨s, hs, hl⟩)

/-- The nameless section is there from the start. -/
theorem Writable.applyCalls_first : (sectionCalls s₀).foldl applyCall (DesktopFile.empty, 0) = (⟨[s₀]⟩, 0) := by
  have hes := @applyCalls_entries [] none s₀.entry [] (h.unique s₀ (by simp))
  have hs : s₀ = ⟨none, s₀.entry⟩ := by rw [← h.first]
  rw [sectionCalls, h.first, hs]
  exact hes

/-- The others are appended. -/
theorem Writable.applyCalls_rest : ((ss.flatMap sectionCalls).foldl applyCall (⟨[s₀]⟩, 0)).1 = ⟨s₀ :: ss⟩ := by
  have hsome : ∀ s ∈ ss, s.name.isSome := by
    intro s hs
    obtain ⟨name, hn, -⟩ := h.named s hs
    rw [hn]
    rfl
  have hnd : (([s₀] ++ ss).map (·.name)).Nodup := by
    refine List.nodup_cons.mpr ⟨fun hm => ?_, h.distinct⟩
    obtain ⟨s, hs, he : s.name = s₀.name⟩ := List.mem_map.mp hm
    have hns := hsome s hs
    rw [he, h.first] at hns
    cases hns
  exact applyCalls_sections ss [s₀] 0 hsome hnd fun s hs => h.unique s (List.mem_cons_of_mem _ hs)

end Writable

/-- What is written is parsed back. -/
theorem Writable.parse {df : DesktopFile} (h : Writable df) (b : ParseBufs) :
    dbpDesktopParse (dbpDesktopWrite df) b = df := by
  obtain ⟨sections⟩ := df
  cases sections with
  | nil => exact absurd h.nameless (by simp)
  | cons s₀ ss =>
    calc dbpDesktopParse (dbpDesktopWrite ⟨s₀ :: ss⟩) b
        = (((s₀ :: ss).flatMap sectionCalls ++ [ParseCall.none]).foldl applyCall (DesktopFile.empty, 0)).1 := by
          rw [dbpDesktopParse, dbpDesktopParseAppend, h.calls]
      _ = ((ss.flatMap sectionCalls).foldl applyCall (⟨[s₀]⟩, 0)).1 := by
          rw [List.flatMap_cons, List.foldl_append, List.foldl_append, h.applyCalls_first]
          rfl
      _ = ⟨s₀ :: ss⟩ := h.applyCalls_rest

/-- **Write and parse round trip.** -/
theorem parse_write (df : DesktopFile) (h : Writable df) (b : ParseBufs) :
    dbpDesktopParse (dbpDesktopWrite df) b = df := h.parse b

theorem parse_write_demo :
    let df : DesktopFile := ⟨[⟨none, [⟨lit "k", [], lit "\\n"⟩]⟩,
      ⟨some (lit "Desktop Entry"), [⟨lit "Name", [], lit "a=b"⟩, ⟨lit "Name", lit "sv", lit "x\ty"⟩]⟩]⟩
    dbpDesktopParse (dbpDesktopWrite df) ⟨[], []⟩ = df :=
  parse_write _
    { nameless := rfl
      named := fun s hs => by
        rw [List.tail_cons, List.mem_singleton] at hs
        exact ⟨_, by rw [hs], by decide, by decide⟩
      distinct := by decide
      unique := by decide
      entry := by decide
      short := by decide } _

end Dbp
