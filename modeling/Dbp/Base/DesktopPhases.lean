/-
# Calls of the parser on a table

What the calls of one text do to the table of a file that is already there.
A new entry is looked for in the current section but put into the last one,
and nothing is looked for in the nameless section. So there are two phases:
up to the text's first header that the file does not have, new entries go to
the file's last section (`val_early`); from there on they go to sections of
the text's own (`val_late_old`, `val_late_new`).

Key definitions: `readDefs`, `earlyDefs`, `lateDefs`, `free`.
Key theorems: `val_early`, `val_late_old`, `val_late_new`, `val_other`, `val_last`,
`val_kept`, `find_nameless`.
-/
import Dbp.Base.DesktopMerge
import Mathlib.Tactic.Common

namespace Dbp

open CLib Find

/-! ### What a list of calls defines -/

/-- The definitions of a list of calls, read in section `S`. -/
def readDefs : List ParseCall → Option CStr → List (Slot × CStr)
  | [], _ => []
  | .none :: cs, S => readDefs cs S
  | .sectionNew name :: cs, _ => readDefs cs (some name)
  | .entryNew key locale value :: cs, S => ((S, key, locale), value) :: readDefs cs S

/-- The section after a list of calls. -/
def readSection : List ParseCall → Option CStr → Option CStr
  | [], S => S
  | .sectionNew name :: cs, _ => readSection cs (some name)
  | _ :: cs, S => readSection cs S

/-- The headers of a list of calls. -/
def readHeaders : List ParseCall → List CStr
  | [] => []
  | .sectionNew name :: cs => name :: readHeaders cs
  | _ :: cs => readHeaders cs

/-- A call that opens no section outside of `base`. -/
def staysIn (base : List CStr) : ParseCall → Bool
  | .sectionNew name => name ∈ base
  | _ => true

theorem readDefs_append : ∀ (cs cs' : List ParseCall) (S : Option CStr),
    readDefs (cs ++ cs') S = readDefs cs S ++ readDefs cs' (readSection cs S)
  | [], _, _ => rfl
  | .none :: cs, cs', S => readDefs_append cs cs' S
  | .sectionNew name :: cs, cs', _ => readDefs_append cs cs' (some name)
  | .entryNew _ _ _ :: cs, cs', S => congrArg (_ :: ·) (readDefs_append cs cs' S)

theorem readHeaders_append : ∀ cs cs' : List ParseCall, readHeaders (cs ++ cs') = readHeaders cs ++ readHeaders cs'
  | [], _ => rfl
  | .none :: cs, cs' => readHeaders_append cs cs'
  | .sectionNew _ :: cs, cs' => congrArg (_ :: ·) (readHeaders_append cs cs')
  | .entryNew _ _ _ :: cs, cs' => readHeaders_append cs cs'

/-- Definitions stand under the section they start in or under a header. -/
theorem readDefs_section : ∀ {cs : List ParseCall} {S : Option CStr} {d : Slot × CStr}, d ∈ readDefs cs S →
    d.1.1 = S ∨ ∃ name ∈ readHeaders cs, d.1.1 = some name
  | [], _, _, h => absurd h List.not_mem_nil
  | .none :: cs, _, _, h => @readDefs_section cs _ _ h
  | .sectionNew name :: cs, _, d, h => by
    rcases @readDefs_section cs _ _ h with hd | ⟨n, hn, hd⟩
    · exact .inr ⟨name, by simp [readHeaders], hd⟩
    · exact .inr ⟨n, by simp [readHeaders, hn], hd⟩
  | .entryNew _ _ _ :: cs, _, d, h => by
    rcases List.mem_cons.mp h with rfl | h
    · exact .inl rfl
    · exact @readDefs_section cs _ _ h

/-! ### Runs of calls on a table -/

section Phases

variable {base : List CStr}

/-- A definition in section `C` that, before any new header, goes to the last section. -/
def free (base : List CStr) (val : Slot → Option CStr) (key locale : CStr) (d : Slot × CStr) : Bool :=
  d.1.2 == (key, locale) && (d.1.1 == none || d.1.1 == base.getLast? || (val d.1).isNone)

theorem free_congr {val val' : Slot → Option CStr} (h : ∀ q : Slot, q.1 ≠ base.getLast? → val q = val' q)
    (key locale : CStr) : free base val key locale = free base val' key locale := by
  funext d
  unfold free
  by_cases hd : d.1.1 = base.getLast?
  · simp [hd]
  · rw [h d.1 hd]

theorem free_iff (val : Slot → Option CStr) (key locale : CStr) (d : Slot × CStr) :
    free base val key locale d = true ↔
      d.1.2 = (key, locale) ∧ ((d.1.1 = none ∨ d.1.1 = base.getLast?) ∨ val d.1 = none) := by
  simp only [free, Bool.and_eq_true, Bool.or_eq_true, beq_iff_eq, Option.isNone_iff_eq_none]

/-- An entry whose slot is not taken is free. -/
theorem free_of_not_taken {M : Merge} {key locale : CStr} (h : ¬ M.Taken key locale) (value : CStr) :
    free base M.val key locale ((M.cur, key, locale), value) = true := by
  rw [free_iff]
  rw [Merge.Taken, not_and_or, not_ne_iff] at h
  exact ⟨rfl, h.elim (fun h => .inl (.inl h)) fun h => .inr (by simpa using h)⟩

/-- A free entry whose slot is taken is one of the last section, and finds a value there. -/
theorem last_of_taken {M : Merge} {k l key locale value : CStr} (h : M.Taken k l)
    (hfree : free base M.val key locale ((M.cur, k, l), value) = true) :
    (M.val (base.getLast?, key, locale)).isSome := by
  obtain ⟨hkl, (h0 | hlast) | hnone⟩ := (free_iff ..).mp hfree
  · exact absurd h0 h.1
  · rw [← hlast, ← hkl]
    exact h.2
  · exact absurd h.2 (by simp [hnone])

theorem mem_of_staysIn {M : Merge} {name : CStr} (hb : M.headers = base) (h : staysIn base (.sectionNew name)) :
    name ∈ M.headers := by
  rw [hb]
  simpa [staysIn] using h

/-- Up to the first new header: the headers stay, and so do all slots outside of the last section. -/
theorem val_early_other : ∀ (cs : List ParseCall) (M : Merge), M.headers = base → (∀ c ∈ cs, staysIn base c) →
    (cs.foldl Merge.call M).headers = base ∧ (cs.foldl Merge.call M).cur = readSection cs M.cur ∧
      ∀ q : Slot, q.1 ≠ base.getLast? → (cs.foldl Merge.call M).val q = M.val q
  | [], _, hb, _ => ⟨hb, rfl, fun _ _ => rfl⟩
  | .none :: cs, M, hb, hc => val_early_other cs M hb fun c h => hc c (by simp [h])
  | .sectionNew name :: cs, M, hb, hc => by
    have hn : name ∈ M.headers := mem_of_staysIn hb (hc (.sectionNew name) (by simp))
    exact val_early_other cs (M.enter name) ((M.enter_headers_old hn).trans hb) fun c h => hc c (by simp [h])
  | .entryNew key locale value :: cs, M, hb, hc => by
    have hcs : ∀ c ∈ cs, staysIn base c := fun c h => hc c (by simp [h])
    rw [List.foldl_cons, Merge.call]
    split_ifs
    · exact val_early_other cs M hb hcs
    · obtain ⟨h1, h2, h3⟩ := val_early_other cs (M.put key locale value) hb hcs
      refine ⟨h1, h2, fun q hq => (h3 q hq).trans (M.put_val_ne key locale value fun he => hq ?_)⟩
      rw [he, ← hb]

/-- Up to the first new header: a slot of the last section gets the first free definition. -/
theorem val_early (key locale : CStr) : ∀ (cs : List ParseCall) (M : Merge), M.headers = base →
    (∀ c ∈ cs, staysIn base c) → (cs.foldl Merge.call M).val (base.getLast?, key, locale) =
      (M.val (base.getLast?, key, locale)).or (((readDefs cs M.cur).find? (free base M.val key locale)).map (·.2))
  | [], M, _, _ => by simp [readDefs]
  | .none :: cs, M, hb, hc => val_early key locale cs M hb fun c h => hc c (by simp [h])
  | .sectionNew name :: cs, M, hb, hc => by
    have hn : name ∈ M.headers := mem_of_staysIn hb (hc (.sectionNew name) (by simp))
    exact val_early key locale cs (M.enter name) ((M.enter_headers_old hn).trans hb) fun c h => hc c (by simp [h])
  | .entryNew k l value :: cs, M, hb, hc => by
    have hcs : ∀ c ∈ cs, staysIn base c := fun c h => hc c (by simp [h])
    rw [List.foldl_cons, Merge.call, readDefs]
    by_cases htaken : M.Taken k l
    · rw [if_pos htaken, val_early key locale cs M hb hcs]
      by_cases hfree : free base M.val key locale ((M.cur, k, l), value) = true
      · obtain ⟨v, hv⟩ := Option.isSome_iff_exists.mp (last_of_taken htaken hfree)
        rw [hv, Option.some_or, Option.some_or]
      · rw [List.find?_cons_of_neg hfree]
    · have hval : ∀ q : Slot, q.1 ≠ base.getLast? → (M.put k l value).val q = M.val q :=
        fun q hq => M.put_val_ne k l value fun he => hq (by rw [he, ← hb])
      rw [if_neg htaken, val_early key locale cs (M.put k l value) hb hcs, free_congr hval, Merge.put_cur]
      by_cases hkl : (k, l) = (key, locale)
      · cases hkl
        have hput := M.put_val_self key locale value
        rw [Merge.last, hb] at hput
        rw [hput, List.find?_cons_of_pos (free_of_not_taken htaken value), Option.or_assoc, Option.some_or]
        rfl
      · have hfree : ¬ free base M.val key locale ((M.cur, k, l), value) = true :=
          fun h => hkl ((free_iff ..).mp h).1
        rw [List.find?_cons_of_neg hfree, M.put_val_ne k l value fun he => hkl (Prod.ext_iff.mp he).2.symm]

/-- From a new header on: the slots of the base sections stay. -/
theorem val_late_old : ∀ (cs : List ParseCall) (M : Merge) (new : List CStr), M.headers = base ++ new → new ≠ [] →
    (∀ name ∈ new, name ∉ base) → ∀ q : Slot, (∀ name, q.1 = some name → name ∈ base) →
      (cs.foldl Merge.call M).val q = M.val q
  | [], _, _, _, _, _, _, _ => rfl
  | .none :: cs, M, new, hb, hne, hnew, q, hq => val_late_old cs M new hb hne hnew q hq
  | .sectionNew name :: cs, M, new, hb, hne, hnew, q, hq => by
    by_cases hn : name ∈ M.headers
    · exact val_late_old cs (M.enter name) new ((M.enter_headers_old hn).trans hb) hne hnew q hq
    · have hout : name ∉ base := fun hin => hn (by rw [hb]; exact List.mem_append_left _ hin)
      refine val_late_old cs (M.enter name) (new ++ [name]) ?_ (by simp) ?_ q hq
      · rw [M.enter_headers_new hn, hb, List.append_assoc]
      · exact List.forall_mem_append.mpr ⟨hnew, by simpa using hout⟩
  | .entryNew key locale value :: cs, M, new, hb, hne, hnew, q, hq => by
    rw [List.foldl_cons, Merge.call]
    split_ifs
    · exact val_late_old cs M new hb hne hnew q hq
    · rw [val_late_old cs (M.put key locale value) new hb hne hnew q hq]
      apply M.put_val_ne key locale value
      intro he
      obtain ⟨xs, x, rfl⟩ := (List.eq_nil_or_concat' new).resolve_left hne
      have hl : M.last = some x := by rw [Merge.last, hb, ← List.append_assoc, List.getLast?_concat]
      exact hnew x (by simp) (hq x (by rw [he, hl]))

/-- From a new header on, if no base section lacks what is defined under it: the slots of the
new sections get their definitions. -/
theorem val_late_new : ∀ (cs : List ParseCall) (M : Merge) (new : List CStr), M.headers = base ++ new → new ≠ [] →
    (∀ name ∈ new, name ∉ base) → (new ++ (readHeaders cs).filter (· ∉ base)).Nodup →
    (∃ name, M.cur = some name ∧ (name ∈ base ∨ new.getLast? = some name)) →
    (∀ d ∈ readDefs cs M.cur, (∃ name ∈ base, d.1.1 = some name) → (M.val d.1).isSome) →
    ∀ q : Slot, (∃ name, q.1 = some name ∧ name ∉ base) →
      (cs.foldl Merge.call M).val q = (M.val q).or ((readDefs cs M.cur).lookup q)
  | [], M, _, _, _, _, _, _, _, q, _ => by simp [readDefs]
  | .none :: cs, M, new, hb, hne, hnew, hnd, hcur, hbase, q, hq =>
    val_late_new cs M new hb hne hnew hnd hcur hbase q hq
  | .sectionNew name :: cs, M, new, hb, hne, hnew, hnd, hcur, hbase, q, hq => by
    by_cases hn : name ∈ base
    · have hh : name ∈ M.headers := by rw [hb]; exact List.mem_append_left _ hn
      refine val_late_new cs (M.enter name) new ((M.enter_headers_old hh).trans hb) hne hnew ?_
        ⟨name, rfl, .inl hn⟩ hbase q hq
      simpa [readHeaders, hn] using hnd
    · have hnn : name ∉ new := fun hm => by
        rw [List.nodup_append] at hnd
        exact hnd.2.2 _ hm _ (by simp [readHeaders, hn]) rfl
      have hh : name ∉ M.headers := by
        rw [hb, List.mem_append, not_or]
        exact ⟨hn, hnn⟩
      refine val_late_new cs (M.enter name) (new ++ [name]) ?_ (by simp) ?_ ?_ ⟨name, rfl, .inr (by simp)⟩ hbase q hq
      · rw [M.enter_headers_new hh, hb, List.append_assoc]
      · exact List.forall_mem_append.mpr ⟨hnew, by simpa using hn⟩
      · simpa [readHeaders, hn] using hnd
  | .entryNew key locale value :: cs, M, new, hb, hne, hnew, hnd, hcur, hbase, q, hq => by
    obtain ⟨name, hname, hwhere⟩ := id hcur
    have hrest : ∀ d ∈ readDefs cs M.cur, (∃ name ∈ base, d.1.1 = some name) → (M.val d.1).isSome :=
      fun d hd => hbase d (by simp [readDefs, hd])
    rw [List.foldl_cons, readDefs, List.lookup_cons]
    by_cases hin : name ∈ base
    · have htaken : M.Taken key locale :=
        ⟨by simp [hname], hbase ((M.cur, key, locale), value) (by simp [readDefs]) ⟨name, hin, hname⟩⟩
      have hqc : (q == (M.cur, key, locale)) = false := by
        obtain ⟨n, hqn, hn⟩ := hq
        rw [beq_eq_false_iff_ne]
        intro he
        rw [he, hname] at hqn
        exact hn (Option.some.inj hqn ▸ hin)
      rw [Merge.call, if_pos htaken, val_late_new cs M new hb hne hnew hnd hcur hrest q hq, hqc]
    · have hlast : M.cur = M.last := by
        rw [hname, Merge.last, hb, List.getLast?_append, hwhere.resolve_left hin, Option.some_or]
      have hcur' := M.call_entry_cur key locale value
      have hput := M.call_entry_val key locale value hlast
      rw [val_late_new cs _ new ((M.call_entry_headers _ _ _).trans hb) hne hnew hnd (hcur'.symm ▸ hcur) ?_ q hq,
        hcur', hput]
      · by_cases hqc : q = (M.cur, key, locale)
        · rw [if_pos hqc, beq_iff_eq.mpr hqc, Option.or_assoc, Option.some_or]
        · rw [if_neg hqc, beq_eq_false_iff_ne.mpr hqc]
      · intro d hd hdb
        have hs := hrest d (hcur' ▸ hd) hdb
        rw [hput]
        split_ifs
        · rw [Option.isSome_or, hs, Bool.true_or]
        · exact hs

end Phases

/-! ### The table in the end -/

/-- The definitions before the first header outside of `base`. -/
def earlyDefs (base : List CStr) (cs : List ParseCall) : List (Slot × CStr) :=
  readDefs (cs.takeWhile (staysIn base)) none

/-- The definitions from there on. -/
def lateDefs (base : List CStr) (cs : List ParseCall) : List (Slot × CStr) :=
  readDefs (cs.dropWhile (staysIn base)) (readSection (cs.takeWhile (staysIn base)) none)

theorem readDefs_nameless_first : ∀ cs : List ParseCall, ∃ pre rest, readDefs cs none = pre ++ rest ∧
    (∀ d ∈ pre, d.1.1 = none) ∧ ∀ d ∈ rest, d.1.1 ≠ none
  | [] => ⟨[], [], rfl, by simp, by simp⟩
  | .none :: cs => readDefs_nameless_first cs
  | .sectionNew name :: cs => by
    refine ⟨[], readDefs cs (some name), rfl, by simp, fun d hd => ?_⟩
    rcases readDefs_section hd with h | ⟨n, -, h⟩
    · simp [h]
    · simp [h]
  | .entryNew key locale value :: cs => by
    obtain ⟨pre, rest, h, hpre, hrest⟩ := readDefs_nameless_first cs
    refine ⟨((none, key, locale), value) :: pre, rest, by rw [readDefs, h, List.cons_append], fun d hd => ?_, hrest⟩
    rcases List.mem_cons.mp hd with rfl | hd
    · rfl
    · exact hpre d hd

section Final

variable {base : List CStr} {val : Slot → Option CStr} {cs : List ParseCall}

theorem staysIn_takeWhile : ∀ c ∈ cs.takeWhile (staysIn base), staysIn base c :=
  fun c hc => List.all_eq_true.mp List.all_takeWhile c hc

/-- The rest of the calls: nothing, or a new header first. -/
theorem late_calls (base : List CStr) (cs : List ParseCall) : cs.dropWhile (staysIn base) = [] ∨
    ∃ name cs', cs.dropWhile (staysIn base) = .sectionNew name :: cs' ∧ name ∉ base := by
  cases hl : cs.dropWhile (staysIn base) with
  | nil => exact .inl rfl
  | cons c cs' =>
    have hc := List.head?_dropWhile_not (staysIn base) cs
    rw [hl] at hc
    cases c with
    | sectionNew name => exact .inr ⟨name, cs', rfl, by simpa [staysIn] using hc⟩
    | none => cases hc
    | entryNew key locale value => cases hc

theorem readDefs_split (base : List CStr) (cs : List ParseCall) :
    readDefs cs none = earlyDefs base cs ++ lateDefs base cs := by
  rw [earlyDefs, lateDefs, ← readDefs_append, List.takeWhile_append_dropWhile]

theorem earlyDefs_subset {d : Slot × CStr} (h : d ∈ earlyDefs base cs) : d ∈ readDefs cs none := by
  rw [readDefs_split base cs]
  exact List.mem_append_left _ h

theorem lateDefs_subset {d : Slot × CStr} (h : d ∈ lateDefs base cs) : d ∈ readDefs cs none := by
  rw [readDefs_split base cs]
  exact List.mem_append_right _ h

theorem early_ne_late (hkeys : ((readDefs cs none).map (·.1)).Nodup) {d d' : Slot × CStr}
    (h : d ∈ earlyDefs base cs) (h' : d' ∈ lateDefs base cs) : d.1 ≠ d'.1 := by
  rw [readDefs_split base cs, List.map_append, List.nodup_append] at hkeys
  exact hkeys.2.2 _ (List.mem_map_of_mem h) _ (List.mem_map_of_mem h')

theorem lateDefs_nil (h : cs.dropWhile (staysIn base) = []) : lateDefs base cs = [] := by
  rw [lateDefs, h, readDefs]

theorem lateDefs_cons {name : CStr} {cs' : List ParseCall} (h : cs.dropWhile (staysIn base) = .sectionNew name :: cs') :
    lateDefs base cs = readDefs cs' (some name) := by
  rw [lateDefs, h, readDefs]

theorem readHeaders_late {name : CStr} {cs' : List ParseCall}
    (h : cs.dropWhile (staysIn base) = .sectionNew name :: cs') (hnd : (readHeaders cs).Nodup) :
    (name :: readHeaders cs').Nodup := by
  rw [← List.takeWhile_append_dropWhile (p := staysIn base) (l := cs), readHeaders_append, h] at hnd
  exact (List.nodup_append.mp hnd).2.1

theorem readHeaders_staysIn : ∀ {cs : List ParseCall}, (∀ c ∈ cs, staysIn base c) → ∀ n ∈ readHeaders cs, n ∈ base
  | [], _, _, hn => absurd hn List.not_mem_nil
  | .none :: cs, hcs, n, hn => @readHeaders_staysIn cs (fun c h => hcs c (by simp [h])) n hn
  | .sectionNew m :: cs, hcs, n, hn => by
    rcases List.mem_cons.mp hn with rfl | hn
    · simpa [staysIn] using hcs (.sectionNew n) (by simp)
    · exact @readHeaders_staysIn cs (fun c h => hcs c (by simp [h])) n hn
  | .entryNew _ _ _ :: cs, hcs, n, hn => @readHeaders_staysIn cs (fun c h => hcs c (by simp [h])) n hn

theorem earlyDefs_section {d : Slot × CStr} (h : d ∈ earlyDefs base cs) {name : CStr} (hd : d.1.1 = some name) :
    name ∈ base := by
  rcases readDefs_section h with hn | ⟨n, hn, hs⟩
  · rw [hn] at hd
    cases hd
  · rw [hd] at hs
    rw [Option.some.inj hs]
    exact readHeaders_staysIn staysIn_takeWhile n hn

/-- A definition of the nameless section comes before any header. -/
theorem nameless_early {key locale value : CStr} (h : ((none, key, locale), value) ∈ readDefs cs none) :
    ((none, key, locale), value) ∈ earlyDefs base cs := by
  rw [readDefs_split base cs] at h
  refine (List.mem_append.mp h).resolve_right fun hl => ?_
  rcases late_calls base cs with hnil | ⟨name, cs', hcs, -⟩
  · rw [lateDefs_nil hnil] at hl
    cases hl
  · rw [lateDefs_cons hcs] at hl
    rcases @readDefs_section cs' _ _ hl with he | ⟨n, -, he⟩
    · cases he
    · cases he

/-- The calls up to the first new header, then the rest. -/
theorem foldl_split (base : List CStr) (cs : List ParseCall) (M : Merge) : cs.foldl Merge.call M =
    (cs.dropWhile (staysIn base)).foldl Merge.call ((cs.takeWhile (staysIn base)).foldl Merge.call M) := by
  rw [← List.foldl_append, List.takeWhile_append_dropWhile]

/-- The slots of the base sections after all calls. -/
theorem val_base {q : Slot} (hq : ∀ name, q.1 = some name → name ∈ base) :
    (cs.foldl Merge.call ⟨base, none, val⟩).val q =
      ((cs.takeWhile (staysIn base)).foldl Merge.call ⟨base, none, val⟩).val q := by
  obtain ⟨hb, -, -⟩ := val_early_other (cs.takeWhile (staysIn base)) ⟨base, none, val⟩ rfl staysIn_takeWhile
  rw [foldl_split base cs]
  rcases late_calls base cs with hnil | ⟨name, cs', hcs, hn⟩
  · rw [hnil]
    rfl
  · rw [hcs, List.foldl_cons]
    have hhead := Merge.enter_headers_new ((cs.takeWhile (staysIn base)).foldl Merge.call ⟨base, none, val⟩)
      (show name ∉ _ by rwa [hb])
    exact val_late_old cs' _ [name] (by rw [Merge.call, hhead, hb]) (by simp) (by simpa using hn) q hq

/-- The slots of a base section that is not the last one are as before. -/
theorem val_other {q : Slot} (hq : ∀ name, q.1 = some name → name ∈ base) (hl : q.1 ≠ base.getLast?) :
    (cs.foldl Merge.call ⟨base, none, val⟩).val q = val q := by
  rw [val_base hq]
  exact (val_early_other _ ⟨base, none, val⟩ rfl staysIn_takeWhile).2.2 q hl

theorem last_mem {name : CStr} (h : base.getLast? = some name) : name ∈ base := List.mem_of_getLast? h

/-- A slot of the last base section gets the first free definition. -/
theorem val_last (key locale : CStr) : (cs.foldl Merge.call ⟨base, none, val⟩).val (base.getLast?, key, locale) =
    (val (base.getLast?, key, locale)).or (((earlyDefs base cs).find? (free base val key locale)).map (·.2)) := by
  rw [val_base fun name h => last_mem h]
  exact val_early key locale _ ⟨base, none, val⟩ rfl staysIn_takeWhile

/-- A slot of the base sections that has a value keeps it. -/
theorem val_kept {q : Slot} (hq : ∀ name, q.1 = some name → name ∈ base) {v : CStr} (hv : val q = some v) :
    (cs.foldl Merge.call ⟨base, none, val⟩).val q = some v := by
  by_cases hl : q.1 = base.getLast?
  · obtain ⟨S, key, locale⟩ := q
    obtain rfl : S = base.getLast? := hl
    rw [val_last, hv, Option.some_or]
  · rw [val_other hq hl, hv]

/-- The first free definition is the one of the nameless section, if there is one. -/
theorem find_nameless (hkeys : ((readDefs cs none).map (·.1)).Nodup) {key locale value : CStr}
    (h : ((none, key, locale), value) ∈ readDefs cs none) :
    ((earlyDefs base cs).find? (free base val key locale)).map (·.2) = some value := by
  obtain ⟨pre, rest, hsplit, hpre, hrest⟩ := readDefs_nameless_first (cs.takeWhile (staysIn base))
  have hmem : ((none, key, locale), value) ∈ earlyDefs base cs := nameless_early h
  rw [earlyDefs, hsplit] at hmem
  have hin : ((none, key, locale), value) ∈ pre :=
    (List.mem_append.mp hmem).resolve_right fun hr => hrest _ hr rfl
  have hfree : free base val key locale ((none, key, locale), value) = true := by simp [free]
  obtain ⟨d, hd⟩ := Option.isSome_iff_exists.mp (List.find?_isSome.mpr ⟨_, hin, hfree⟩)
  have hd1 : d.1 = (none, key, locale) := by
    have hf := (free_iff ..).mp (List.find?_some hd)
    exact Prod.ext (hpre d (List.mem_of_find?_eq_some hd)) hf.1
  have hd2 : d.2 = value := by
    refine eq_of_mem_nodup hkeys ?_ h
    rw [← hd1]
    have hearly : d ∈ earlyDefs base cs := by
      rw [earlyDefs, hsplit]
      exact List.mem_append_left _ (List.mem_of_find?_eq_some hd)
    exact earlyDefs_subset hearly
  rw [earlyDefs, hsplit, List.find?_append, hd, Option.some_or, Option.map_some, hd2]

end Final

end Dbp
