/-
# The parser's buffers

The parser skips lines of 4096 and more characters, and its buffers hold
4095. A key, and what is scanned from it, comes from one line. The value may
come from a later one, whose length nobody has looked at yet: after a line
`key=`, or a line without `=` before one that begins with it. Every store is
within the buffers exactly when no line is followed so by a run of 4096
characters (`parse_stores`).

Key definitions: `Overruns`.
Key theorems: `overruns_iff`, `parse_stores`.
-/
import Dbp.Base.DesktopLines

namespace Dbp

open CLib

/-- A key, then `=` and a run of 4096 characters or more, with nothing but white space, line
ends included, before and after the `=`. -/
def Overruns (str : CStr) : Prop :=
  ∃ k w₁ w₂ v s, str = k ++ (w₁ ++ '=' :: (w₂ ++ (v ++ s))) ∧ k ≠ [] ∧ (∀ c ∈ k, c ≠ '\n' ∧ c ≠ '=') ∧
    Blank w₁ ∧ w₁.head?.all (· == '\n') ∧ Blank w₂ ∧ v.head?.any (!isspace ·) ∧ '\n' ∉ v ∧ bufSize ≤ v.length

theorem Overruns.value {str : CStr} (h : Overruns str) : keyOf str ≠ [] ∧ bufSize ≤ (valueOf str).length := by
  obtain ⟨k, w₁, w₂, v, s, hstr, hne, hk, hw₁, hh, hw₂, hv, hvn, hlen⟩ := h
  have hsplit : KeySplit k (w₁ ++ '=' :: (w₂ ++ (v ++ s))) := by
    refine ⟨hk, ?_⟩
    cases w₁ with
    | nil => rfl
    | cons c w₁ => simpa using Or.inl (by simpa using hh)
  cases v with
  | nil => simp at hv
  | cons c v =>
    have hc : isspace c = false := by simpa using hv
    rw [hstr, hsplit.keyOf_eq, hsplit.valueOf_eq, dropWhile_isspace_stop hw₁ isspace_eq]
    simp only [List.cons_append, dropWhile_isspace_stop hw₂ hc]
    refine ⟨hne, le_trans hlen ?_⟩
    rw [← List.cons_append, List.takeWhile_append_of_pos fun x hx => by simpa using ne_of_mem_of_not_mem hx hvn,
      List.length_append]
    exact Nat.le_add_right _ _

/-- White space after a key starts with the line's end. -/
theorem KeySplit.head_blank {k w t : CStr} (h : KeySplit k (w ++ t)) (hw : Blank w) :
    w.head?.all (· == '\n') := by
  cases w with
  | nil => rfl
  | cons c w =>
    have hc : c = '\n' ∨ c = '=' := by simpa using h.stop
    have hsp := hw c (by simp)
    show (c == '\n') = true
    rw [beq_iff_eq]
    refine hc.resolve_right ?_
    rintro rfl
    cases hsp

theorem head_firstLine {u : CStr} (hu : u.head?.all (!isspace ·)) (hne : firstLine u ≠ []) :
    (firstLine u).head?.any (!isspace ·) := by
  cases u with
  | nil => exact absurd rfl hne
  | cons c u =>
    have hc : isspace c = false := by simpa using hu
    have hcn : (c != '\n') = true := by
      rw [bne_iff_ne]
      rintro rfl
      cases hc
    rw [firstLine, List.takeWhile_cons, if_pos hcn]
    show (!isspace c) = true
    rw [hc]
    rfl

/-- What the scan stores beyond its buffers is a value. -/
theorem overruns_iff (str : CStr) : Overruns str ↔ keyOf str ≠ [] ∧ bufSize ≤ (valueOf str).length := by
  refine ⟨Overruns.value, fun ⟨hne, hlen⟩ => ?_⟩
  obtain ⟨k, t, rfl, hs⟩ := exists_keySplit str
  rw [hs.keyOf_eq] at hne
  rw [hs.valueOf_eq] at hlen
  obtain ⟨w₁, u, rfl, hw₁, hu⟩ := exists_run isspace t
  rw [dropWhile_append_stop hw₁ hu] at hlen
  split at hlen
  next r _ =>
    obtain ⟨w₂, u', rfl, hw₂, hu'⟩ := exists_run isspace r
    rw [dropWhile_append_stop hw₂ hu'] at hlen
    have hpos : firstLine u' ≠ [] := fun h => by
      rw [show u'.takeWhile (· != '\n') = [] from h] at hlen
      exact absurd hlen (by decide)
    refine ⟨k, w₁, w₂, firstLine u', u'.dropWhile (· != '\n'), ?_, hne, hs.key, hw₁, hs.head_blank hw₁, hw₂,
      head_firstLine hu' hpos, not_mem_firstLine u', hlen⟩
    rw [firstLine, List.takeWhile_append_dropWhile]
  next => exact absurd hlen (by decide)

theorem length_keyOf_le (str : CStr) : (keyOf str).length ≤ (firstLine str).length := by
  obtain ⟨k, t, rfl, hs⟩ := exists_keySplit str
  rw [hs.keyOf_eq, firstLine, List.takeWhile_append_of_pos fun c hc => by simpa using (hs.key c hc).1,
    List.length_append]
  exact Nat.le_add_right _ _

/-- A scan stores parts of the string it reads. -/
theorem length_sscanf_le : ∀ {ds : List Directive} {s x : CStr}, x ∈ sscanf ds s → x.length ≤ s.length
  | [], _, _, h => by simp [sscanf] at h
  | .space :: ds, s, x, h =>
    calc x.length ≤ (s.dropWhile isspace).length := @length_sscanf_le ds _ _ h
      _ ≤ s.length := (List.dropWhile_sublist _).length_le
  | .lit c :: ds, s, x, h => by
    unfold sscanf at h
    split_ifs at h
    · exact (length_sscanf_le h).trans (by simp)
    · simp at h
  | .scanset p :: ds, s, x, h => by
    unfold sscanf at h
    split_ifs at h with hs
    · simp at h
    · rcases List.mem_cons.mp h with rfl | h
      · exact (List.takeWhile_sublist _).length_le
      · calc x.length ≤ (s.dropWhile p).length := length_sscanf_le h
          _ ≤ s.length := (List.dropWhile_sublist _).length_le

/-- What is stored while a key is taken apart is no longer than the key. -/
theorem length_keyStep_le {key value x : CStr} {b : ParseBufs} (h : x ∈ (keyStep key value b).stores) :
    x.length ≤ key.length := by
  unfold keyStep at h
  split at h
  next => simp at h
  next c s =>
    have hcut : ∀ t : CStr, (t.takeWhile (· != ']')).length ≤ t.length := fun t => (List.takeWhile_sublist _).length_le
    split_ifs at h
    · unfold parseSection at h
      split_ifs at h
      · calc x.length ≤ ((c :: s).takeWhile (· != ']')).tail.length := length_sscanf_le (by simpa using h)
          _ ≤ ((c :: s).takeWhile (· != ']')).length := (List.tail_sublist _).length_le
          _ ≤ (c :: s).length := hcut _
      · simp at h
    · simp at h
    · unfold parseEntry at h
      split_ifs at h
      · calc x.length ≤ (((c :: s).replace '[' '\n').takeWhile (· != ']')).length :=
              length_sscanf_le (by simpa using h)
          _ ≤ ((c :: s).replace '[' '\n').length := hcut _
          _ ≤ (c :: s).length := by rw [List.length_replace]
      · simp at h
      · simp at h

/-- The stores of one turn of the loop. -/
theorem parseLine_stores (str : CStr) (b : ParseBufs) :
    (∀ x ∈ (parseLine str b).stores, x.length < bufSize) ↔ (firstLine str).length < bufSize → ¬ Overruns str := by
  rw [parseLine_eq, overruns_iff, ← not_le]
  split_ifs with hlen
  · simp [hlen]
  · rw [not_le] at hlen
    have hkey : (keyOf str).length < bufSize := by
      calc (keyOf str).length ≤ (firstLine str).length := length_keyOf_le str
        _ < bufSize := hlen
    have hkeys : ∀ x ∈ (keyStep (keyOf str) (valueOf str) b).stores, x.length < bufSize := by
      intro x hx
      calc x.length ≤ (keyOf str).length := length_keyStep_le hx
        _ < bufSize := hkey
    rw [List.forall_mem_append, and_iff_left hkeys]
    simp only [hlen, true_implies, not_and, not_le, scan_keyValue]
    by_cases hk : keyOf str = []
    · simp [hk]
    · by_cases hv : valueOf str = []
      · have h0 : 0 < bufSize := by decide
        simp [hk, hv, hkey, h0]
      · simp [hk, hv, hkey]

theorem parseSteps_stores : ∀ (strs : List CStr) (b : ParseBufs),
    (∀ st ∈ parseSteps strs b, ∀ x ∈ st.stores, x.length < bufSize) ↔
      ∀ str ∈ strs, (firstLine str).length < bufSize → ¬ Overruns str
  | [], _ => by simp [parseSteps]
  | str :: strs, b => by
    simp only [parseSteps, List.mem_cons, forall_eq_or_imp]
    rw [parseLine_stores, parseSteps_stores strs]

/-- **Buffer bound.** A parse stores at most 4095 characters in each of its buffers exactly
when none of the lines it scans overruns. -/
theorem parse_stores (str : CStr) (b : ParseBufs) :
    (∀ st ∈ parseTrace str b, ∀ x ∈ st.stores, x.length ≤ 4095) ↔
      ∀ line ∈ lineStarts (crToLf str), (firstLine line).length < bufSize → ¬ Overruns line := by
  rw [← parseSteps_stores _ b]
  exact forall₄_congr fun st _ x _ => Nat.lt_succ_iff.symm

theorem overruns_next_line {n : ℕ} (h : bufSize ≤ n) : Overruns (lit "a=\n" ++ List.replicate n 'x') := by
  refine ⟨lit "a", [], lit "\n", List.replicate n 'x', [], ?_, by decide, by decide, by decide, rfl, by decide, ?_,
    ?_, by rwa [List.length_replicate]⟩
  · rw [List.append_nil]
    rfl
  · obtain ⟨m, rfl⟩ := Nat.exists_eq_add_of_le' (show 0 < n from lt_of_lt_of_le (by decide) h)
    rfl
  · exact fun hx => absurd (List.eq_of_mem_replicate hx) (by decide)

theorem store_next_line {n : ℕ} (h : bufSize ≤ n) (b : ParseBufs) :
    ∃ st ∈ parseTrace (lit "a=\n" ++ List.replicate n 'x') b, ∃ x ∈ st.stores, bufSize ≤ x.length := by
  have hcr : crToLf (lit "a=\n" ++ List.replicate n 'x') = lit "a=\n" ++ List.replicate n 'x' := by
    rw [crToLf, List.map_append, List.map_replicate]
    rfl
  refine ⟨parseLine (lit "a=\n" ++ List.replicate n 'x') b, ?_, ?_⟩
  · rw [parseTrace, hcr]
    exact List.mem_cons_self ..
  · have hline : (firstLine (lit "a=\n" ++ List.replicate n 'x')).length < bufSize := (by decide : 2 < bufSize)
    by_contra hnone
    refine (parseLine_stores _ b).mp (fun x hx => ?_) hline (overruns_next_line h)
    exact not_le.mp fun hle => hnone ⟨x, hx, hle⟩

/-- A line `a=` before a line of 4096 characters. -/
theorem parse_stores_next_line : ¬ ∀ st ∈ parseTrace (lit "a=\n" ++ List.replicate 4096 'x') ⟨[], []⟩,
    ∀ x ∈ st.stores, x.length ≤ 4095 := by
  intro h
  obtain ⟨st, hst, x, hx, hlen⟩ := store_next_line (Nat.le_refl 4096) ⟨[], []⟩
  exact absurd (h st hst x hx) (not_le.mpr hlen)

end Dbp
