/-
# A desktop file over an override file

`package_desktop_write` parses the override file, then the package's launcher
on top of it, so that the override's values win. But the nameless section is
never looked up for a taken slot, and a new entry goes to the last section
of the file, whichever it is for. So the result is the override over the
launcher exactly when the launcher's definitions are placed (`PlacedDefs`):
each has its slot taken by the override, or comes while its section is the
last one (`merge_val_iff`, `override_lookup`).

Key definitions: `PlacedDefs`, `definitions`, `Regular`, `NoStale`.
Key theorems: `placed_of_val`, `val_of_placed`, `merge_val_iff`, `calls_regular`, `models_parse`,
`override_lookup`.
-/
import Dbp.Base.DesktopPhases
import Dbp.Base.DesktopLocal

namespace Dbp

open CLib Find

/-! ### One table over another -/

/-- The definitions of `cs` that end up where a table with the headers `base` and the values
`val` can show them. A nameless one needs a file without headers, or one in which the slot and
the slot of the last section are not looked up for it. One of a section there needs a taken
slot, or the section to be the last one, before any new header; or the same value, put there
from the nameless section. -/
structure PlacedDefs (base : List CStr) (val : Slot → Option CStr) (cs : List ParseCall) : Prop where
  nameless : ∀ key locale value, ((none, key, locale), value) ∈ readDefs cs none → base.getLast? = none ∨
    (val (none, key, locale)).isSome ∧
      ((val (base.getLast?, key, locale)).isSome ∨ ((base.getLast?, key, locale), value) ∈ readDefs cs none)
  named : ∀ name key locale value, ((some name, key, locale), value) ∈ readDefs cs none →
    (val (some name, key, locale)).isSome ∨ name ∉ base ∨ base.getLast? = some name ∧
      (((some name, key, locale), value) ∈ earlyDefs base cs ∨
        ((none, key, locale) : Slot) ∈ (readDefs cs none).map (·.1))

section Over

variable {base : List CStr} {val : Slot → Option CStr} {cs : List ParseCall}

theorem mem_base {name : CStr} (h : name ∈ base) : ∀ n, some name = some n → n ∈ base :=
  fun _ hn => Option.some.inj hn ▸ h

/-- What the first free definition for a key and a locale is about. -/
theorem find_free {key locale : CStr} {d : Slot × CStr}
    (h : (earlyDefs base cs).find? (free base val key locale) = some d) :
    ∃ S value, d = ((S, key, locale), value) ∧ ((S, key, locale), value) ∈ earlyDefs base cs ∧
      (S = none ∨ S = base.getLast? ∨ S ≠ base.getLast? ∧ val (S, key, locale) = none) := by
  obtain ⟨⟨S, k, l⟩, value⟩ := d
  obtain ⟨hkl, hfree⟩ := (free_iff ..).mp (List.find?_some h)
  obtain ⟨rfl, rfl⟩ := Prod.mk.inj hkl
  refine ⟨S, value, rfl, List.mem_of_find?_eq_some h, ?_⟩
  by_cases hl : S = base.getLast?
  · exact .inr (.inl hl)
  · exact hfree.elim (fun hh => hh.elim .inl fun hh => absurd hh hl) fun hh => .inr (.inr ⟨hl, hh⟩)

/-! ### Placed definitions -/

section Placed

variable (h : PlacedDefs base val cs) (hheaders : (readHeaders cs).Nodup)
  (hkeys : ((readDefs cs none).map (·.1)).Nodup)
include h

/-- A nameless definition is one of the last section too, unless there is a value. -/
theorem PlacedDefs.nameless_last {key locale value : CStr} (hd : ((none, key, locale), value) ∈ readDefs cs none)
    (hv : val (base.getLast?, key, locale) = none) : ((base.getLast?, key, locale), value) ∈ readDefs cs none := by
  rcases h.nameless key locale value hd with hb | ⟨-, hs | hd'⟩
  · rwa [hb]
  · rw [hv] at hs
    cases hs
  · exact hd'

/-- The slots of the base sections but the last one are only defined where they have a value. -/
theorem PlacedDefs.not_mem_other {q : Slot} (hq : ∀ name, q.1 = some name → name ∈ base) (hl : q.1 ≠ base.getLast?)
    (hv : val q = none) (value : CStr) : (q, value) ∉ readDefs cs none := by
  intro hd
  obtain ⟨S, key, locale⟩ := q
  have hsome : (val (S, key, locale)).isSome := by
    cases S with
    | none => exact ((h.nameless key locale value hd).resolve_left (Ne.symm hl)).1
    | some name =>
      rcases h.named name key locale value hd with hs | hout | ⟨hb, -⟩
      · exact hs
      · exact absurd (hq name rfl) hout
      · exact absurd hb.symm hl
  rw [hv] at hsome
  cases hsome

/-- With no free definition for it, a slot of the last section without a value is not defined. -/
theorem PlacedDefs.not_mem_last {key locale : CStr} (hv : val (base.getLast?, key, locale) = none)
    (hfind : (earlyDefs base cs).find? (free base val key locale) = none) (value : CStr) :
    ((base.getLast?, key, locale), value) ∉ readDefs cs none := by
  have hnone : ∀ {S value}, ((S, key, locale), value) ∈ earlyDefs base cs → S ≠ none ∧ S ≠ base.getLast? := by
    intro S value hd
    refine not_or.mp fun hS => List.find?_eq_none.mp hfind _ hd ?_
    exact (free_iff ..).mpr ⟨rfl, .inl hS⟩
  intro hd
  cases hb : base.getLast? with
  | none =>
    rw [hb] at hd
    exact (hnone (nameless_early hd)).1 rfl
  | some name =>
    rw [hb] at hd hv
    rcases h.named name key locale value hd with hs | hout | ⟨-, hearly | hnl⟩
    · rw [hv] at hs
      cases hs
    · exact hout (last_mem hb)
    · exact (hnone hearly).2 hb.symm
    · obtain ⟨⟨q', v'⟩, hd', rfl⟩ := List.mem_map.mp hnl
      exact (hnone (nameless_early hd')).1 rfl

/-- A free definition for a slot of the last section without a value is what the slot is defined to. -/
theorem PlacedDefs.mem_last {key locale : CStr} {d : Slot × CStr} (hv : val (base.getLast?, key, locale) = none)
    (hfind : (earlyDefs base cs).find? (free base val key locale) = some d) :
    ((base.getLast?, key, locale), d.2) ∈ readDefs cs none := by
  obtain ⟨S, v, rfl, hearly, hS⟩ := find_free hfind
  have hmem := earlyDefs_subset hearly
  rcases hS with rfl | rfl | ⟨hne, hnone⟩
  · exact h.nameless_last hmem hv
  · exact hmem
  · exact absurd hmem (h.not_mem_other (fun _ hS => earlyDefs_section hearly hS) hne hnone v)

include hkeys

/-- What is defined under a base section from the first new header on has its slot taken. -/
theorem PlacedDefs.late_taken {d : Slot × CStr} (hd : d ∈ lateDefs base cs) {name : CStr} (hname : name ∈ base)
    (hds : d.1.1 = some name) : ((cs.foldl Merge.call ⟨base, none, val⟩).val d.1).isSome := by
  obtain ⟨⟨S, key, locale⟩, value⟩ := d
  obtain rfl : S = some name := hds
  rcases h.named name key locale value (lateDefs_subset hd) with hs | hout | ⟨hl, hearly | hnl⟩
  · obtain ⟨v, hv⟩ := Option.isSome_iff_exists.mp hs
    rw [val_kept (mem_base hname) hv]
    rfl
  · exact absurd hname hout
  · exact absurd rfl (early_ne_late hkeys hearly hd)
  · obtain ⟨⟨q', v'⟩, hv', rfl⟩ := List.mem_map.mp hnl
    rw [← hl, val_last, find_nameless hkeys hv', Option.isSome_or, Option.isSome_some, Bool.or_true]

/-- A slot of the last section without a value gets its definition. -/
theorem PlacedDefs.val_last {key locale : CStr} (hv : val (base.getLast?, key, locale) = none) :
    (cs.foldl Merge.call ⟨base, none, val⟩).val (base.getLast?, key, locale) =
      (readDefs cs none).lookup (base.getLast?, key, locale) := by
  rw [Dbp.val_last, hv, Option.none_or]
  cases hfind : (earlyDefs base cs).find? (free base val key locale) with
  | none => exact (lookup_eq_none (h.not_mem_last hv hfind)).symm
  | some d => exact (lookup_of_mem hkeys (h.mem_last hv hfind)).symm

include hheaders

/-- A slot of a new section gets its definition. -/
theorem PlacedDefs.val_new {q : Slot} (hq : ∃ name, q.1 = some name ∧ name ∉ base) (hv : val q = none) :
    (cs.foldl Merge.call ⟨base, none, val⟩).val q = (readDefs cs none).lookup q := by
  obtain ⟨name₀, hname₀, hout⟩ := id hq
  obtain ⟨hb, -, hother⟩ := val_early_other (cs.takeWhile (staysIn base)) ⟨base, none, val⟩ rfl staysIn_takeWhile
  have hmid := (hother q fun he => hout (last_mem (he.symm.trans hname₀))).trans hv
  have hearly : (earlyDefs base cs).lookup q = none := lookup_eq_none fun _ hd => hout (earlyDefs_section hd hname₀)
  rw [readDefs_split base cs, List.lookup_append, hearly, Option.none_or, foldl_split base cs]
  rcases late_calls base cs with hnil | ⟨name, cs', hcs, hn⟩
  · rw [hnil, lateDefs_nil hnil]
    exact hmid
  · have hhead := Merge.enter_headers_new ((cs.takeWhile (staysIn base)).foldl Merge.call ⟨base, none, val⟩)
      (show name ∉ _ by rwa [hb])
    have hnd : (name :: (readHeaders cs').filter (· ∉ base)).Nodup :=
      (readHeaders_late hcs hheaders).sublist (List.filter_sublist.cons_cons name)
    rw [hcs, List.foldl_cons, lateDefs_cons hcs, Merge.call, val_late_new cs' _ [name] (by rw [hhead, hb]) (by simp)
      (by simpa using hn) hnd ⟨name, rfl, .inr rfl⟩ ?_ q hq, Merge.enter_cur, Merge.enter_val, hmid, Option.none_or]
    rintro d hd ⟨m, hm, hdm⟩
    rw [Merge.enter_val, ← val_base (hdm ▸ mem_base hm)]
    exact h.late_taken hkeys (lateDefs_cons hcs ▸ hd) hm hdm

/-- The old values, and the new ones elsewhere. -/
theorem val_of_placed (hval : ∀ q : Slot, (∃ name, q.1 = some name ∧ name ∉ base) → val q = none) (q : Slot) :
    (cs.foldl Merge.call ⟨base, none, val⟩).val q = (val q).or ((readDefs cs none).lookup q) := by
  by_cases hold : ∀ name, q.1 = some name → name ∈ base
  · cases hv : val q with
    | some v => rw [val_kept hold hv, Option.some_or]
    | none =>
      rw [Option.none_or]
      by_cases hl : q.1 = base.getLast?
      · obtain ⟨S, key, locale⟩ := q
        obtain rfl : S = base.getLast? := hl
        exact h.val_last hkeys hv
      · rw [val_other hold hl, hv, lookup_eq_none (h.not_mem_other hold hl hv)]
  · have hnew : ∃ name, q.1 = some name ∧ name ∉ base := by simpa using hold
    rw [h.val_new hheaders hkeys hnew (hval q hnew), hval q hnew, Option.none_or]

end Placed

/-! ### The other way round -/

section Converse

variable (hkeys : ((readDefs cs none).map (·.1)).Nodup)
  (h : ∀ q, (cs.foldl Merge.call ⟨base, none, val⟩).val q = (val q).or ((readDefs cs none).lookup q))
include hkeys h

theorem isSome_of_val {q : Slot} (hq : ∀ name, q.1 = some name → name ∈ base) (hl : q.1 ≠ base.getLast?)
    {value : CStr} (hd : (q, value) ∈ readDefs cs none) : (val q).isSome := by
  have hqv := h q
  rw [val_other hq hl, lookup_of_mem hkeys hd] at hqv
  rw [hqv, Option.isSome_or, Option.isSome_some, Bool.or_true]

theorem nameless_of_val {key locale value : CStr} (hd : ((none, key, locale), value) ∈ readDefs cs none) :
    (val (base.getLast?, key, locale)).isSome ∨ ((base.getLast?, key, locale), value) ∈ readDefs cs none := by
  have hq := h (base.getLast?, key, locale)
  rw [val_last, find_nameless hkeys hd] at hq
  cases hv : val (base.getLast?, key, locale) with
  | some v => exact .inl rfl
  | none =>
    rw [hv, Option.none_or, Option.none_or] at hq
    exact .inr (mem_of_lookup hq.symm)

theorem last_of_val {name key locale value : CStr} (hl : base.getLast? = some name)
    (hd : ((some name, key, locale), value) ∈ readDefs cs none) (hv : val (some name, key, locale) = none) :
    ((some name, key, locale), value) ∈ earlyDefs base cs ∨
      ((none, key, locale) : Slot) ∈ (readDefs cs none).map (·.1) := by
  have hq := h (some name, key, locale)
  rw [hv, Option.none_or, lookup_of_mem hkeys hd, ← hl, val_last, hl, hv, Option.none_or] at hq
  obtain ⟨d, hfind, -⟩ := Option.map_eq_some_iff.mp hq
  obtain ⟨S, v, rfl, hearly, hS⟩ := find_free hfind
  have hmem := earlyDefs_subset hearly
  rcases hS with rfl | hS | ⟨hne, hnone⟩
  · exact .inr (List.mem_map_of_mem hmem)
  · obtain rfl : S = some name := hS.trans hl
    rw [eq_of_mem_nodup hkeys hd hmem]
    exact .inl hearly
  · -- A stray definition of another section, which would have a value.
    have hs := isSome_of_val hkeys h (fun _ hS => earlyDefs_section hearly hS) hne hmem
    rw [hnone] at hs
    cases hs

/-- If the result is the old values over the new ones, the new definitions are placed. -/
theorem placed_of_val : PlacedDefs base val cs where
  nameless key locale value hd := by
    by_cases hl : base.getLast? = none
    · exact .inl hl
    · exact .inr ⟨isSome_of_val hkeys h (by simp) (Ne.symm hl) hd, nameless_of_val hkeys h hd⟩
  named name key locale value hd := by
    by_cases hin : name ∈ base
    · cases hv : val (some name, key, locale) with
      | some v => exact .inl rfl
      | none =>
        have hl : base.getLast? = some name := by
          by_contra hl
          have hs := isSome_of_val hkeys h (mem_base hin) (Ne.symm hl) hd
          rw [hv] at hs
          cases hs
        exact .inr (.inr ⟨hl, last_of_val hkeys h hl hd hv⟩)
    · exact .inr (.inl hin)

end Converse

/-- One table over another: the old values, and the new ones elsewhere. -/
theorem merge_val_iff (hval : ∀ q : Slot, (∃ name, q.1 = some name ∧ name ∉ base) → val q = none)
    (hheaders : (readHeaders cs).Nodup) (hkeys : ((readDefs cs none).map (·.1)).Nodup) :
    (∀ q, (cs.foldl Merge.call ⟨base, none, val⟩).val q = (val q).or ((readDefs cs none).lookup q)) ↔
      PlacedDefs base val cs :=
  ⟨placed_of_val hkeys, fun h => val_of_placed h hheaders hkeys hval⟩

end Over

/-! ### Texts -/

/-- The calls of a text's lines, each by itself. -/
def localCalls (str : CStr) : List ParseCall := (textLines (crToLf str)).map localCall

/-- What the lines of a text define. -/
def definitions (str : CStr) : List (Slot × CStr) := readDefs (localCalls str) none

/-- A text with short lines, every header and every slot at most once, and no empty values. -/
structure Regular (str : CStr) : Prop where
  short : ∀ line ∈ textLines (crToLf str), line.length < 4096
  headers : (readHeaders (localCalls str)).Nodup
  keys : ((definitions str).map (·.1)).Nodup
  values : ∀ d ∈ definitions str, d.2 ≠ []

/-- No header or locale is left to what the parser's buffers hold. -/
def NoStale (str : CStr) : Prop := ∀ line ∈ textLines (crToLf str),
  (IsHeader (keyOf line) → headerName (keyOf line) ≠ []) ∧ (IsEntry (keyOf line) → FreshKey (keyOf line))

instance (str : CStr) : Decidable (NoStale str) := inferInstanceAs (Decidable (∀ line ∈ _, _))

theorem mem_readDefs {key locale value : CStr} : ∀ {cs : List ParseCall} {S : Option CStr},
    .entryNew key locale value ∈ cs → ∃ T, ((T, key, locale), value) ∈ readDefs cs S
  | [], _, h => absurd h List.not_mem_nil
  | .none :: cs, S, h => @mem_readDefs key locale value cs S (by simpa using h)
  | .sectionNew name :: cs, _, h => @mem_readDefs key locale value cs (some name) (by simpa using h)
  | .entryNew k l v :: cs, S, h => by
    rcases List.mem_cons.mp h with h | h
    · cases h
      exact ⟨S, by simp [readDefs]⟩
    · obtain ⟨T, hT⟩ := @mem_readDefs key locale value cs S h
      exact ⟨T, by simp [readDefs, hT]⟩

/-- The entry of an entry line. -/
theorem localCall_entry {line : CStr} (hl : '\n' ∉ line) (hlen : line.length < bufSize) (h : IsEntry (keyOf line)) :
    ∃ key locale, localCall line = .entryNew key locale (desktopEntryUnescape (valueOf line)) := by
  rw [localCall_eq hl, if_neg (not_le.mpr hlen), keyStep_entry _ _ h]
  split_ifs
  · exact ⟨_, _, rfl⟩
  · exact ⟨_, _, rfl⟩

/-- A regular text is read line by line. -/
theorem calls_regular {str : CStr} (h : Regular str) (hs : NoStale str) (b : ParseBufs) :
    calls str b = localCalls str := by
  refine calls_of_selfContained (fun s hmem hlen => ?_) b
  have hline : firstLine s ∈ textLines (crToLf str) := List.mem_map_of_mem hmem
  have hl := not_mem_firstLine s
  refine ⟨(hs _ hline).1, fun he => ⟨(hs _ hline).2 he, ?_⟩⟩
  obtain ⟨key, locale, hcall⟩ := localCall_entry hl hlen he
  obtain ⟨T, hT⟩ := mem_readDefs (S := none) (hcall ▸ List.mem_map_of_mem hline :
    ParseCall.entryNew key locale (desktopEntryUnescape (valueOf (firstLine s))) ∈ localCalls str)
  have hv : valueOf (firstLine s) ≠ [] := fun hv => h.values _ hT (desktopEntryUnescape_eq_nil.mpr hv)
  rw [← valueOf_eq_iff hl (head_afterLine s)]
  by_contra hne
  exact hv (valueOf_of_ne hl (head_afterLine s) hne)

theorem headers_calls : ∀ (cs : List ParseCall) (M : Merge), (M.headers ++ readHeaders cs).Nodup →
    (cs.foldl Merge.call M).headers = M.headers ++ readHeaders cs
  | [], M, _ => by simp [readHeaders]
  | .none :: cs, M, h => headers_calls cs M h
  | .sectionNew name :: cs, M, h => by
    have hn : name ∉ M.headers := fun hn => (List.nodup_append.mp h).2.2 _ hn _ (by simp [readHeaders]) rfl
    have hh := M.enter_headers_new hn
    have hnd : ((M.enter name).headers ++ readHeaders cs).Nodup := by
      rw [hh, List.append_assoc]
      exact h
    calc (cs.foldl Merge.call (M.enter name)).headers = (M.enter name).headers ++ readHeaders cs :=
          headers_calls cs (M.enter name) hnd
      _ = M.headers ++ name :: readHeaders cs := by rw [hh, List.append_assoc, List.singleton_append]
  | .entryNew key locale value :: cs, M, h => by
    rw [List.foldl_cons, Merge.call]
    split_ifs
    · exact headers_calls cs M h
    · exact headers_calls cs (M.put key locale value) h

/-- The table of a parsed text. -/
theorem models_parse {str : CStr} (h : Regular str) (hs : NoStale str) (b : ParseBufs) :
    Models (dbpDesktopParse str b, 0) ⟨readHeaders (localCalls str), none, ((definitions str).lookup ·)⟩ := by
  have hm := (models_calls (localCalls str) models_empty).restart
  have hplaced : PlacedDefs [] (fun _ => none) (localCalls str) :=
    ⟨fun _ _ _ _ => .inl rfl, fun _ _ _ _ _ => .inr (.inl (by simp))⟩
  have hval := val_of_placed hplaced h.headers h.keys fun _ _ => rfl
  rw [headers_calls _ _ (by simpa using h.headers), List.nil_append, funext hval] at hm
  rw [dbpDesktopParse, dbpDesktopParseAppend, calls_regular h hs]
  exact hm

/-- **Override files.** The lookups after parsing `D` over `O` yield `O`'s value of a slot, else
`D`'s, exactly when the definitions of `D` are placed. -/
theorem override_lookup (O D : CStr) (hO : Regular O) (hD : Regular D) (sO : NoStale O) (sD : NoStale D)
    (b b' : ParseBufs) :
    (∀ q, lookupSlot (dbpDesktopParseAppend D (dbpDesktopParse O b) b') q =
      ((definitions O).lookup q).or ((definitions D).lookup q)) ↔
    PlacedDefs (readHeaders (localCalls O)) ((definitions O).lookup ·) (localCalls D) := by
  have hm := models_calls (localCalls D) (models_parse hO sO b)
  rw [← calls_regular hD sD b'] at hm
  rw [← merge_val_iff (fun q hq => ?_) hD.headers hD.keys]
  · apply forall_congr'
    intro q
    rw [dbpDesktopParseAppend, hm.val, calls_regular hD sD]
    rfl
  · -- A section that is not a header of `O` has no definitions in it.
    obtain ⟨name, hname, hout⟩ := hq
    rw [List.lookup_eq_none_iff]
    intro d hd
    rw [bne_iff_ne]
    rintro rfl
    rcases readDefs_section hd with h | ⟨n, hn, h⟩
    · rw [hname] at h
      cases h
    · rw [hname] at h
      exact hout (Option.some.inj h ▸ hn)

/-- A launcher whose sections come in the order of the override file. -/
theorem override_lookup_demo :
    let O := lit "[Desktop Entry]\nName=x\n"
    let D := lit "[Desktop Entry]\nName=y\nIcon=i\n[Package Entry]\nExec=run\n"
    ∀ q, lookupSlot (dbpDesktopParseAppend D (dbpDesktopParse O ⟨[], []⟩) ⟨[], []⟩) q =
      ((definitions O).lookup q).or ((definitions D).lookup q) :=
  (override_lookup _ _ ⟨by decide, by decide, by decide, by decide⟩ ⟨by decide, by decide, by decide, by decide⟩
    (by decide) (by decide) _ _).mpr <| by
  have hdefs : readDefs (localCalls (lit "[Desktop Entry]\nName=y\nIcon=i\n[Package Entry]\nExec=run\n")) none =
      [((some (lit "Desktop Entry"), lit "Name", []), lit "y"), ((some (lit "Desktop Entry"), lit "Icon", []), lit "i"),
        ((some (lit "Package Entry"), lit "Exec", []), lit "run")] := by decide
  refine ⟨fun key locale value hd => ?_, fun name key locale value hd => ?_⟩
  · rw [hdefs] at hd
    simp at hd
  · rw [hdefs] at hd
    simp only [List.mem_cons, Prod.mk.injEq, Option.some.injEq, List.not_mem_nil, or_false] at hd
    obtain ⟨⟨rfl, rfl, rfl⟩, rfl⟩ | ⟨⟨rfl, rfl, rfl⟩, rfl⟩ | ⟨⟨rfl, rfl, rfl⟩, rfl⟩ := hd
    · exact .inl (by decide)
    · exact .inr (.inr ⟨by decide, .inl (by decide)⟩)
    · exact .inr (.inl (by decide))

/-- A launcher with a section of its own before the one it shares with the override file: the
icon ends up in the wrong section. -/
theorem override_lookup_stray :
    let O := lit "[Desktop Entry]\nName=x\n"
    let D := lit "[Package Entry]\nExec=run\n[Desktop Entry]\nIcon=i\n"
    Regular O ∧ Regular D ∧ ¬ ∀ q, lookupSlot (dbpDesktopParseAppend D (dbpDesktopParse O ⟨[], []⟩) ⟨[], []⟩) q =
      ((definitions O).lookup q).or ((definitions D).lookup q) :=
  ⟨⟨by decide, by decide, by decide, by decide⟩, ⟨by decide, by decide, by decide, by decide⟩, fun h =>
    absurd (h (some (lit "Desktop Entry"), lit "Icon", [])) (by decide)⟩

end Dbp
