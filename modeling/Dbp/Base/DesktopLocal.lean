/-
# Lines of a desktop file by themselves

What a line means by itself is what the parser makes of it with nothing
after it and empty buffers (`localCall`). A parse is the meanings of its
lines one after the other exactly when every line is `SelfContained`: its
value does not come from a later line, and its header name or locale not
from an earlier one (`lineLocal_iff`).

Key definitions: `localCall`, `LineLocal`, `SelfContained`.
Key theorems: `parseLine_call`, `call_of_selfContained`, `selfContained_of_call`,
`calls_of_selfContained`, `lineLocal_iff`.
-/
import Dbp.Base.DesktopLines

namespace Dbp

open CLib

/-- What a line by itself has the parser do. -/
def localCall (line : CStr) : ParseCall := (parseLine line ⟨[], []⟩).call

/-- Whatever the buffers hold, every line of the text has the effect it has by itself. -/
def LineLocal (str : CStr) : Prop := ∀ b, calls str b = (textLines (crToLf str)).map localCall

/-- A line (one the parser does not skip) that means the same with `after` behind it: a header
has a name; an entry has the locale it announces, and its value on the line. -/
def SelfContained (line after : CStr) : Prop :=
  line.length < bufSize →
    (IsHeader (keyOf line) → headerName (keyOf line) ≠ []) ∧
      (IsEntry (keyOf line) → FreshKey (keyOf line) ∧ CarryFree line after)

theorem not_mem_keyOf (str : CStr) : '\n' ∉ keyOf str := by
  obtain ⟨k, t, rfl, hs⟩ := exists_keySplit str
  rw [hs.keyOf_eq]
  exact fun h => (hs.key _ h).1 rfl

theorem desktopEntryUnescape_eq_nil {s : CStr} : desktopEntryUnescape s = [] ↔ s = [] := by
  refine ⟨fun h => ?_, fun h => by rw [h]; rfl⟩
  unfold desktopEntryUnescape at h
  split at h
  · split at h <;> cases h
  · split at h <;> cases h
  · cases h
  · rfl

section Line

variable {line after : CStr}

theorem parseLine_call (hl : '\n' ∉ line) (ha : after.head?.all (· == '\n')) (b : ParseBufs) :
    (parseLine (line ++ after) b).call =
      if bufSize ≤ line.length then .none else (keyStep (keyOf line) (valueOf (line ++ after)) b).call := by
  rw [parseLine_eq, firstLine_append hl ha, keyOf_append hl ha]
  split_ifs <;> rfl

theorem localCall_eq (hl : '\n' ∉ line) : localCall line =
    if bufSize ≤ line.length then .none else (keyStep (keyOf line) (valueOf line) ⟨[], []⟩).call := by
  have h := @parseLine_call line [] hl rfl ⟨[], []⟩
  rwa [List.append_nil] at h

/-- A line that stands for itself. -/
theorem call_of_selfContained (hl : '\n' ∉ line) (ha : after.head?.all (· == '\n')) (h : SelfContained line after)
    (b : ParseBufs) : (parseLine (line ++ after) b).call = localCall line := by
  rw [parseLine_call hl ha, localCall_eq hl]
  split_ifs with hlen
  · rfl
  · obtain ⟨hh, he⟩ := h (not_le.mp hlen)
    have hk := not_mem_keyOf line
    by_cases hhead : IsHeader (keyOf line)
    · rw [keyStep_header _ _ hk hhead, keyStep_header _ _ hk hhead, if_neg (hh hhead), if_neg (hh hhead)]
    · by_cases hentry : IsEntry (keyOf line)
      · obtain ⟨hf, hc⟩ := he hentry
        rw [keyStep_entry _ _ hentry, keyStep_entry _ _ hentry, (valueOf_eq_iff hl ha).mpr hc]
        split_ifs with ho
        · have hlen2 := localeScan_length hk hentry ho
          rw [if_pos hf] at hlen2
          obtain ⟨x, y, hxy⟩ := List.length_eq_two.mp hlen2
          rw [hxy]
          rfl
        · rfl
      · rw [(keyStep_other _ _ hhead hentry).1, (keyStep_other _ _ hhead hentry).1]

/-- With something in both buffers, no other line does. -/
theorem selfContained_of_call (hl : '\n' ∉ line) (ha : after.head?.all (· == '\n')) {b : ParseBufs} (hb : b.Filled)
    (h : (parseLine (line ++ after) b).call = localCall line) : SelfContained line after := by
  rw [parseLine_call hl ha, localCall_eq hl] at h
  intro hlen
  rw [if_neg (not_le.mpr hlen), if_neg (not_le.mpr hlen)] at h
  have hk := not_mem_keyOf line
  refine ⟨fun hhead hn => ?_, fun hentry => ⟨fun ho => ?_, ?_⟩⟩
  · rw [keyStep_header _ _ hk hhead, keyStep_header _ _ hk hhead, if_pos hn, if_pos hn] at h
    exact hb.1 (ParseCall.sectionNew.inj h)
  · by_contra hf
    have hlen1 := localeScan_length hk hentry ho
    rw [if_neg fun hfk => hf (hfk ho)] at hlen1
    rw [keyStep_entry _ _ hentry, keyStep_entry _ _ hentry, if_pos ho, if_pos ho] at h
    have hnone : (localeScan (keyOf line))[1]? = none := List.getElem?_eq_none (by omega)
    have hloc := (ParseCall.entryNew.inj h).2.1
    rw [List.getD_eq_getElem?_getD, List.getD_eq_getElem?_getD, hnone] at hloc
    exact hb.2 hloc
  · rw [← valueOf_eq_iff hl ha]
    by_contra hne
    have hv : desktopEntryUnescape (valueOf (line ++ after)) = desktopEntryUnescape (valueOf line) := by
      rw [keyStep_entry _ _ hentry, keyStep_entry _ _ hentry] at h
      split_ifs at h
      · exact (ParseCall.entryNew.inj h).2.2
      · exact (ParseCall.entryNew.inj h).2.2
    rw [valueOf_of_ne hl ha hne] at hv hne
    exact hne (desktopEntryUnescape_eq_nil.mp hv)

end Line

/-- A text of such lines. -/
theorem parseSteps_of_selfContained : ∀ (strs : List CStr) (b : ParseBufs),
    (∀ str ∈ strs, SelfContained (firstLine str) (afterLine str)) →
      (parseSteps strs b).map (·.call) = (strs.map firstLine).map localCall
  | [], _, _ => rfl
  | str :: strs, b, h => by
    have hcall := call_of_selfContained (not_mem_firstLine str) (head_afterLine str) (h str (by simp)) b
    rw [firstLine_append_afterLine] at hcall
    rw [parseSteps, List.map_cons, List.map_cons, List.map_cons, hcall,
      parseSteps_of_selfContained strs _ fun s hs => h s (by simp [hs])]

theorem parseLine_filled {b : ParseBufs} (str : CStr) (h : b.Filled) : (parseLine str b).bufs.Filled := by
  rw [parseLine_eq]
  split_ifs
  · exact h
  · exact keyStep_filled _ _ h

theorem selfContained_of_parseSteps : ∀ (strs : List CStr) (b : ParseBufs), b.Filled →
    (parseSteps strs b).map (·.call) = (strs.map firstLine).map localCall →
      ∀ str ∈ strs, SelfContained (firstLine str) (afterLine str)
  | [], _, _, _ => by simp
  | str :: strs, b, hb, h => by
    rw [parseSteps, List.map_cons, List.map_cons, List.map_cons, List.cons.injEq] at h
    intro s hs
    rcases List.mem_cons.mp hs with rfl | hs
    · refine selfContained_of_call (not_mem_firstLine s) (head_afterLine s) hb ?_
      rw [firstLine_append_afterLine]
      exact h.1
    · exact selfContained_of_parseSteps strs _ (parseLine_filled str hb) h.2 s hs

theorem calls_of_selfContained {str : CStr}
    (h : ∀ s ∈ lineStarts (crToLf str), SelfContained (firstLine s) (afterLine s)) : LineLocal str :=
  fun b => parseSteps_of_selfContained _ b h

/-- A text that is read line by line yields the sections and entries of its lines. -/
theorem LineLocal.parseAppend {str : CStr} (h : LineLocal str) (df : DesktopFile) (b : ParseBufs) :
    dbpDesktopParseAppend str df b = (((textLines (crToLf str)).map localCall).foldl applyCall (df, 0)).1 := by
  rw [dbpDesktopParseAppend, h b]

/-- **Line locality.** A text is read line by line exactly when each of its lines is
self-contained. -/
theorem lineLocal_iff (str : CStr) : LineLocal str ↔
    ∀ s ∈ lineStarts (crToLf str), SelfContained (firstLine s) (afterLine s) :=
  ⟨fun h => selfContained_of_parseSteps _ ⟨['x'], ['x']⟩ ⟨by simp, by simp⟩ (h _), calls_of_selfContained⟩

/-- What a line `key=` does, and be it the first line of the text, depends on the line after it. -/
theorem lineLocal_empty_value : ¬ ∃ f : CStr → ℕ → ParseCall, ∀ str b,
    (calls str b).head? = (textLines (crToLf str)).head?.map (f · 0) := by
  rintro ⟨f, hf⟩
  have h1 : f (lit "key=") 0 = .entryNew (lit "key") [] [] :=
    (Option.some.inj ((show _ = some _ from by decide).symm.trans (hf (lit "key=") ⟨[], []⟩))).symm
  have h2 : f (lit "key=") 0 = .entryNew (lit "key") [] (lit "b") :=
    (Option.some.inj ((show _ = some _ from by decide).symm.trans (hf (lit "key=\nb") ⟨[], []⟩))).symm
  rw [h1] at h2
  exact absurd h2 (by decide)

end Dbp
