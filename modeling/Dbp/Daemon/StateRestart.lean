/-
# Restarts

What `state_dump` writes, `state_recover` reads back: a number is written in
decimal and read as it was, the entries of an instance have its run id as
their locale, and the parser keeps the first entry of a key and a locale. So
the instances come back in order, the first of each run id, with the run
counter (`recover_dump`), and these are all of them if their run ids are
distinct (`state_survives`). What is in purgatory is not written: a restart
loses the loop numbers that are only there (`restart_owners`), and in a run
with fresh run ids and loop devices these are all it has (`kept_iff_empty`).

Key definitions: `Dumpable`, `SameBoot`, `instanceEntries`, `dumpFile`, `KeepsOwners`, `KeptByDump`.
Key theorems: `stateDumpFile_eq`, `Dumpable.writable`, `recover_dump`, `state_survives`,
`restart_owners`, `kept_iff_empty`.
-/
import Dbp.Daemon.State
import Dbp.Daemon.FreshImage
import Dbp.Daemon.RegistryIds
import Dbp.Base.DesktopRoundTrip

namespace Dbp

open CLib Group Runs

/-! ### Strings of the documented characters -/

/-- A string of the characters that package ids are made of. -/
abbrev Documented (s : CStr) : Prop := ∀ c ∈ s, c ∈ documentedChars

theorem documented_char : ∀ c ∈ documentedChars, (c ≠ '[' ∧ c ≠ ']' ∧ c ≠ '=' ∧ c ≠ '\r' ∧ c ≠ '\n') ∧
    (c ≠ '\\' ∧ c ≠ '\t' ∧ c ≠ ';' ∧ c ≠ '#' ∧ c ≠ '\x00') ∧ isspace c = false := by
  decide +kernel

theorem documented_toDigits (n : ℕ) : Documented (Nat.toDigits 10 n) := fun c hc =>
  (idChar_iff c).mp (by simp [idChar, isdigit_toDigits hc])

theorem documented_formatInt (n : ℤ) : Documented (formatInt n) := by
  unfold formatInt
  split_ifs
  · exact List.forall_mem_cons.mpr ⟨(idChar_iff '-').mp rfl, documented_toDigits _⟩
  · exact documented_toDigits _

theorem documented_snprintf16 {s : CStr} (h : Documented s) : Documented (snprintf16 s) := fun c hc =>
  h c (List.mem_of_mem_take hc)

theorem formatInt_ne_nil (n : ℤ) : formatInt n ≠ [] := by
  unfold formatInt
  split_ifs
  · simp
  · exact Nat.toDigits_ne_nil

theorem snprintf16_ne_nil {s : CStr} (h : s ≠ []) : snprintf16 s ≠ [] := by
  simpa [snprintf16] using h

theorem snprintf16_toDigits {n : ℕ} (h : n < 2 ^ 32) : snprintf16 (Nat.toDigits 10 n) = Nat.toDigits 10 n :=
  List.take_of_length_le (length_toDigits_le (by decide) (by omega))

theorem snprintf16_formatInt {n : ℤ} (h0 : 0 ≤ n) (h : n < 2 ^ 31) : snprintf16 (formatInt n) = formatInt n := by
  obtain ⟨k, rfl⟩ := Int.eq_ofNat_of_zero_le h0
  rw [formatInt_natCast, snprintf16_toDigits (by omega)]

theorem writeFormat_documented {v : CStr} (h : Documented v) : desktopWriteFormat v = v := by
  induction v with
  | nil => rfl
  | cons c v ih =>
    obtain ⟨hc, hv⟩ := List.forall_mem_cons.mp h
    obtain ⟨⟨-, -, -, hr, hn⟩, ⟨hb, ht, -⟩, -⟩ := documented_char c hc
    rw [desktopWriteFormat, List.flatMap_cons, ← desktopWriteFormat, ih hv, if_neg hb, if_neg hr, if_neg hn, if_neg ht]
    rfl

theorem unescape_eq_self {v : CStr} (h : '\\' ∉ v) : desktopEntryUnescape v = v := by
  fun_induction desktopEntryUnescape v with
  | case5 c cs _ _ ih => rw [ih fun hm => h (List.mem_cons_of_mem _ hm)]
  | case6 => rfl
  | _ => exact absurd List.mem_cons_self h

theorem writable_documented {key locale value : CStr} (hk : key ≠ []) (hv : value ≠ []) (hkey : Documented key)
    (hlocale : Documented locale) (hvalue : Documented value) : WritableEntry ⟨key, locale, value⟩ where
  keyNe := hk
  keyPlain c hc := (documented_char c (hkey c hc)).1
  keyHead := by
    have hhead : ∀ c ∈ key.head?, c ≠ ';' ∧ c ≠ '#' := fun c hc => by
      obtain ⟨-, ⟨-, -, hsemi, hhash, -⟩, -⟩ := documented_char c (hkey c (List.mem_of_mem_head? hc))
      exact ⟨hsemi, hhash⟩
    exact ⟨fun h => (hhead _ h).1 rfl, fun h => (hhead _ h).2 rfl⟩
  localePlain c hc := (documented_char c (hlocale c hc)).1
  localeHead c hc := (documented_char c (hlocale c (List.mem_of_mem_head? hc))).2.2
  valueNe := hv
  valueHead := by
    have hhead : ∀ c, isspace c = true → value.head? ≠ some c := fun c hc h =>
      absurd (documented_char c (hvalue c (List.mem_of_mem_head? h))).2.2 (by rw [hc]; decide)
    exact ⟨hhead _ rfl, hhead _ rfl, hhead _ rfl⟩
  value := by
    have hb : '\\' ∉ value := fun hm => (documented_char _ (hvalue _ hm)).2.1.1 rfl
    rw [writeFormat_documented hvalue, unescape_eq_self hb]

/-! ### The file -/

def pkgIdEntry (i : PackageInstance) : DesktopEntry := ⟨lit "PkgId", Nat.toDigits 10 i.runId, i.packageId⟩

def loopEntry (i : PackageInstance) : DesktopEntry := ⟨lit "Loop", Nat.toDigits 10 i.runId, formatInt i.loop⟩

/-- The entries of an instance. -/
def instanceEntries (i : PackageInstance) : List DesktopEntry := [pkgIdEntry i, loopEntry i]

/-- The nameless section of the file. -/
def typeSection : DesktopSection := ⟨none, [⟨lit "Type", [], lit "DBPStateFile"⟩]⟩

/-- The section with the boot time and the run counter. -/
def controlSection (btime runCnt : ℤ) : DesktopSection :=
  ⟨some (lit "DBPStateControl"), [⟨lit "SystemBootup", [], snprintf16 (formatInt btime)⟩,
    ⟨lit "RunCnt", [], snprintf16 (formatInt runCnt)⟩]⟩

/-- The section of instances. -/
def instancesSection (is : List PackageInstance) : DesktopSection :=
  ⟨some (lit "Instances"), (firsts (·.runId) is).flatMap instanceEntries⟩

/-- The file that is written. -/
def dumpFile (btime : ℤ) (p : Package) : DesktopFile :=
  ⟨[typeSection, controlSection btime p.runCnt, instancesSection p.instance_]⟩

/-- A state of the daemon that its file can carry: numbers in the range of their types, and ids that
packages can be mounted under. -/
structure Dumpable (p : Package) : Prop where
  ids : ∀ i ∈ p.instance_, i.packageId ≠ [] ∧ Documented i.packageId ∧ i.packageId.length ≤ 255
  runIds : ∀ i ∈ p.instance_, i.runId < 2 ^ 32
  loops : ∀ i ∈ p.instance_, 0 ≤ i.loop ∧ i.loop < 2 ^ 31
  runCnt : 0 ≤ p.runCnt ∧ p.runCnt < 2 ^ 31

theorem parse_type (b : ParseBufs) : dbpDesktopParse (lit "Type=DBPStateFile\n") b = ⟨[typeSection]⟩ := by
  have hw : Writable ⟨[typeSection]⟩ :=
    { nameless := rfl
      named := by simp
      distinct := by simp
      unique := by decide
      entry := by decide
      short := by decide }
  exact hw.parse b

/-- An entry whose key and locale the last section has is not added again. -/
theorem entryNew_known {P : List DesktopSection} {name : CStr} {es : List DesktopEntry} {e : DesktopEntry}
    (h : (e.key, e.locale) ∈ es.map fun x => (x.key, x.locale)) :
    (dbpDesktopEntryNew ⟨P ++ [⟨some name, es⟩]⟩ e.key e.locale e.value P.length).1 = ⟨P ++ [⟨some name, es⟩]⟩ := by
  obtain ⟨x, hx, he⟩ := List.mem_map.mp h
  have hsec : DesktopFile.sec ⟨P ++ [⟨some name, es⟩]⟩ P.length = ⟨some name, es⟩ := by
    simp [DesktopFile.sec]
  have hsome : (es.findIdx? (DesktopSection.collides ⟨some name, es⟩ e.key e.locale)).isSome := by
    rw [List.findIdx?_isSome, List.any_eq_true]
    exact ⟨x, hx, by simpa [DesktopSection.collides] using he⟩
  obtain ⟨i, hi⟩ := Option.isSome_iff_exists.mp hsome
  unfold dbpDesktopEntryNew
  rw [hsec, hi]

theorem known_instanceEntries (is : List PackageInstance) (i : PackageInstance) {e : DesktopEntry}
    (he : e ∈ instanceEntries i) :
    (e.key, e.locale) ∈ (is.flatMap instanceEntries).map (fun x => (x.key, x.locale)) ↔ i.runId ∈ is.map (·.runId) := by
  have hlocale : ∀ j, ∀ x ∈ instanceEntries j, x.locale = Nat.toDigits 10 j.runId := by
    intro j x hx
    rcases List.mem_cons.mp hx with rfl | hx
    · rfl
    · rw [List.mem_singleton.mp hx]
      rfl
  constructor
  · intro h
    obtain ⟨x, hx, hxe⟩ := List.mem_map.mp h
    obtain ⟨j, hj, hx⟩ := List.mem_flatMap.mp hx
    have hl : x.locale = e.locale := congrArg Prod.snd hxe
    rw [hlocale j x hx, hlocale i e he] at hl
    exact List.mem_map.mpr ⟨j, hj, toDigits_inj hl⟩
  · intro h
    obtain ⟨j, hj, hrun⟩ := List.mem_map.mp h
    obtain ⟨x, hx, hkey⟩ : ∃ x ∈ instanceEntries j, x.key = e.key := by
      rcases List.mem_cons.mp he with rfl | he
      · exact ⟨pkgIdEntry j, List.mem_cons_self, rfl⟩
      · rw [List.mem_singleton.mp he]
        exact ⟨loopEntry j, by simp [instanceEntries], rfl⟩
    refine List.mem_map.mpr ⟨x, List.mem_flatMap.mpr ⟨j, hj, hx⟩, ?_⟩
    rw [hkey, hlocale j x hx, hlocale i e he, hrun]

theorem stateDumpInstance_eq {P : List DesktopSection} {done : List PackageInstance} {i : PackageInstance}
    (hrun : i.runId < 2 ^ 32) (hloop : 0 ≤ i.loop ∧ i.loop < 2 ^ 31) :
    stateDumpInstance P.length ⟨P ++ [instancesSection done]⟩ i = ⟨P ++ [instancesSection (done ++ [i])]⟩ := by
  have hstep : ∀ df, stateDumpInstance P.length df i =
      (dbpDesktopEntryNew (dbpDesktopEntryNew df (pkgIdEntry i).key (pkgIdEntry i).locale (pkgIdEntry i).value P.length).1
        (loopEntry i).key (loopEntry i).locale (loopEntry i).value P.length).1 := fun df => by
    simp only [stateDumpInstance, snprintf16_toDigits hrun, snprintf16_formatInt hloop.1 hloop.2]
    rfl
  rw [hstep, instancesSection, instancesSection, firsts_concat]
  generalize firsts (·.runId) done = fs
  have hp := @known_instanceEntries fs i (pkgIdEntry i) (by simp [instanceEntries])
  have hl := @known_instanceEntries fs i (loopEntry i) (by simp [instanceEntries])
  by_cases h : i.runId ∈ fs.map (·.runId)
  · rw [if_pos h, entryNew_known (hp.mpr h), entryNew_known (hl.mpr h)]
  · rw [if_neg h, entryNew_last fun x hx he => mt hp.mp h (he ▸ List.mem_map.mpr ⟨x, hx, rfl⟩), entryNew_last,
      List.flatMap_append, List.append_assoc]
    · rfl
    · intro x hx he
      rcases List.mem_append.mp hx with hx | hx
      · exact mt hl.mp h (he ▸ List.mem_map.mpr ⟨x, hx, rfl⟩)
      · rw [List.mem_singleton.mp hx] at he
        exact absurd (congrArg Prod.fst he) (show lit "PkgId" ≠ lit "Loop" by decide)

/-- **Dumping.** -/
theorem stateDumpFile_eq {p : Package} (h : Dumpable p) (btime : ℤ) (b : ParseBufs) :
    stateDumpFile btime b p = dumpFile btime p := by
  have hloop : ∀ rest done, done ++ rest = p.instance_ →
      rest.foldl (stateDumpInstance 2) ⟨[typeSection, controlSection btime p.runCnt] ++ [instancesSection done]⟩ =
        ⟨[typeSection, controlSection btime p.runCnt] ++ [instancesSection p.instance_]⟩ := by
    intro rest
    induction rest with
    | nil => exact fun done hd => by rw [← hd, List.append_nil]; rfl
    | cons i rest ih =>
      intro done hd
      have hi : i ∈ p.instance_ := by simp [← hd]
      have hstep := @stateDumpInstance_eq [typeSection, controlSection btime p.runCnt] done i (h.runIds i hi)
        (h.loops i hi)
      rw [List.foldl_cons, ← ih (done ++ [i]) (by simpa using hd), ← hstep]
      rfl
  unfold stateDumpFile
  rw [parse_type]
  exact hloop p.instance_ [] rfl

/-! ### Reading it back -/

/-- The keys of the file. -/
def stateKeys : List CStr := [lit "Type", lit "SystemBootup", lit "RunCnt", lit "PkgId", lit "Loop"]

theorem documented_stateKeys : ∀ k ∈ stateKeys, Documented k ∧ k ≠ [] ∧ k.length ≤ 12 := by
  have hid : ∀ k ∈ stateKeys, (∀ c ∈ k, idChar c = true) ∧ k ≠ [] ∧ k.length ≤ 12 := by decide
  exact fun k hk => ⟨fun c hc => (idChar_iff c).mp ((hid k hk).1 c hc), (hid k hk).2⟩

/-- An entry of the file. -/
structure StateEntry (e : DesktopEntry) : Prop where
  key : e.key ∈ stateKeys
  locale : Documented e.locale ∧ e.locale.length ≤ 10
  value : Documented e.value ∧ e.value ≠ [] ∧ e.value.length ≤ 255

section Entry

variable {e : DesktopEntry} (h : StateEntry e)
include h

theorem StateEntry.writable : WritableEntry e :=
  have hk := documented_stateKeys e.key h.key
  writable_documented hk.2.1 h.value.2.1 hk.1 h.locale.1 h.value.1

theorem StateEntry.short : (entryLine e).length < 4096 := by
  obtain ⟨-, -, hk⟩ := documented_stateKeys e.key h.key
  obtain ⟨-, hl⟩ := h.locale
  obtain ⟨hdoc, -, hv⟩ := h.value
  rw [entryLine, writtenKey, writeFormat_documented hdoc]
  split_ifs
  · rw [List.length_append, List.length_cons]
    omega
  · rw [List.length_append, List.length_append, List.length_cons, List.length_cons, List.length_append,
      show (lit "]").length = 1 from rfl]
    omega

theorem StateEntry.noNul : '\x00' ∉ entryLine e := by
  have hdoc : ∀ {s : CStr}, Documented s → '\x00' ∉ s := fun hs hm => by
    obtain ⟨-, ⟨-, -, -, -, hnul⟩, -⟩ := documented_char _ (hs _ hm)
    exact hnul rfl
  have hk := hdoc (documented_stateKeys e.key h.key).1
  have hl := hdoc h.locale.1
  have hv := hdoc h.value.1
  rw [entryLine, writtenKey, writeFormat_documented h.value.1]
  split_ifs
  · simp [hk, hv]
  · simp [hk, hl, hv, lit]

end Entry

theorem length_snprintf16_le (s : CStr) : (snprintf16 s).length ≤ 15 := List.length_take_le 15 s

theorem stateEntry_number {key : CStr} (hk : key ∈ stateKeys) (n : ℤ) :
    StateEntry ⟨key, [], snprintf16 (formatInt n)⟩ where
  key := hk
  locale := ⟨fun c hc => absurd hc List.not_mem_nil, Nat.zero_le _⟩
  value := ⟨documented_snprintf16 (documented_formatInt n), snprintf16_ne_nil (formatInt_ne_nil n),
    (length_snprintf16_le (formatInt n)).trans (by decide)⟩

theorem stateEntry_instance {p : Package} (h : Dumpable p) {i : PackageInstance} (hi : i ∈ p.instance_)
    {e : DesktopEntry} (he : e ∈ instanceEntries i) : StateEntry e := by
  have hrun := h.runIds i hi
  have hlocale := length_toDigits_le (k := 10) (by decide) (show i.runId < 10 ^ 10 by omega)
  rcases List.mem_cons.mp he with rfl | he
  · obtain ⟨hne, hdoc, hid⟩ := h.ids i hi
    exact ⟨(by decide : lit "PkgId" ∈ stateKeys), ⟨documented_toDigits _, hlocale⟩, hdoc, hne, hid⟩
  · rw [List.mem_singleton.mp he]
    obtain ⟨h0, h1⟩ := h.loops i hi
    have hlen := length_snprintf16_le (formatInt i.loop)
    rw [snprintf16_formatInt h0 h1] at hlen
    have hle : (formatInt i.loop).length ≤ 255 := by omega
    exact ⟨(by decide : lit "Loop" ∈ stateKeys), ⟨documented_toDigits _, hlocale⟩, documented_formatInt _,
      formatInt_ne_nil _, hle⟩

/-- No two entries of the instances have the same key and locale. -/
theorem nodup_instanceEntries : ∀ {is : List PackageInstance}, (is.map (·.runId)).Nodup →
    ((is.flatMap instanceEntries).map fun x => (x.key, x.locale)).Nodup
  | [], _ => List.nodup_nil
  | i :: is, hnd => by
    obtain ⟨hout, hnd⟩ := List.nodup_cons.mp hnd
    have hkeys : lit "PkgId" ≠ lit "Loop" := by decide
    rw [List.flatMap_cons, List.map_append]
    have htwo : ((instanceEntries i).map fun x => (x.key, x.locale)).Nodup := by
      rw [instanceEntries, List.map_cons, List.nodup_cons]
      exact ⟨fun h => hkeys (congrArg Prod.fst (List.mem_singleton.mp h)), List.nodup_singleton _⟩
    refine List.Nodup.append htwo (nodup_instanceEntries hnd) ?_
    intro x hx hx'
    obtain ⟨e, he, rfl⟩ := List.mem_map.mp hx
    exact hout ((known_instanceEntries is i he).mp hx')

/-- Boot times that `state_recover` takes for the same boot, of a size that the buffer of `state_dump` holds. -/
structure SameBoot (btime btime' : ℤ) : Prop where
  fits : (formatInt btime).length ≤ 15
  near : -1 ≤ btime - btime' ∧ btime - btime' ≤ 1

theorem SameBoot.atoll_eq {btime btime' : ℤ} (h : SameBoot btime btime') :
    atoll (snprintf16 (formatInt btime)) = btime := by
  have hlen : (Nat.toDigits 10 btime.natAbs).length ≤ 15 := by
    have hfits := h.fits
    unfold formatInt at hfits
    split_ifs at hfits
    · rw [List.length_cons] at hfits
      omega
    · exact hfits
  have hlt : btime.natAbs < 10 ^ 15 := (Nat.length_toDigits_le_iff (by decide) (by decide)).mp hlen
  rw [snprintf16, List.take_of_length_le h.fits, atoll_formatInt (by omega) (by omega)]

section File

variable {btime : ℤ} {p : Package} (h : Dumpable p)
include h

theorem Dumpable.entry {s : DesktopSection} (hs : s ∈ (dumpFile btime p).section_) {e : DesktopEntry} (he : e ∈ s.entry) :
    StateEntry e := by
  simp only [dumpFile, List.mem_cons, List.not_mem_nil, or_false] at hs
  rcases hs with rfl | rfl | rfl
  · rw [List.mem_singleton.mp he]
    exact ⟨by decide, by decide, by decide⟩
  · rcases List.mem_cons.mp he with rfl | he
    · exact stateEntry_number (by simp [stateKeys]) btime
    · rw [List.mem_singleton.mp he]
      exact stateEntry_number (by simp [stateKeys]) p.runCnt
  · obtain ⟨i, hi, he⟩ := List.mem_flatMap.mp he
    exact stateEntry_instance h ((firsts_sublist _ _).subset hi) he

theorem Dumpable.line {l : CStr} (hl : l ∈ (dumpFile btime p).section_.flatMap sectionLines) :
    '\n' ∉ l ∧ '\x00' ∉ l ∧ l.length < 4096 := by
  obtain ⟨s, hs, hl⟩ := List.mem_flatMap.mp hl
  rcases List.mem_append.mp hl with hl | hl
  · simp only [dumpFile, List.mem_cons, List.not_mem_nil, or_false] at hs
    rcases hs with rfl | rfl | rfl
    · simp [typeSection] at hl
    · rw [show l = headerLine (lit "DBPStateControl") by simpa [controlSection] using hl]
      decide
    · rw [show l = headerLine (lit "Instances") by simpa [instancesSection] using hl]
      decide
  · obtain ⟨e, he, rfl⟩ := List.mem_map.mp hl
    have hentry := h.entry hs he
    exact ⟨(not_mem_entryLine hentry.writable).1, hentry.noNul, hentry.short⟩

theorem Dumpable.write : dbpDesktopWrite (dumpFile btime p) = textOf ((dumpFile btime p).section_.flatMap sectionLines) :=
  dbpDesktopWrite_eq fun _ hs _ he => (h.entry hs he).writable.keyNe

theorem Dumpable.writable : Writable (dumpFile btime p) where
  nameless := rfl
  named := by
    intro s hs
    simp only [dumpFile, List.tail_cons, List.mem_cons, List.not_mem_nil, or_false] at hs
    rcases hs with rfl | rfl
    · exact ⟨_, rfl, by decide, by decide⟩
    · exact ⟨_, rfl, by decide, by decide⟩
  distinct := show ([some (lit "DBPStateControl"), some (lit "Instances")] : List (Option CStr)).Nodup by decide
  unique := by
    intro s hs
    simp only [dumpFile, List.mem_cons, List.not_mem_nil, or_false] at hs
    rcases hs with rfl | rfl | rfl
    · decide
    · exact show [(lit "SystemBootup", lit ""), (lit "RunCnt", lit "")].Nodup by decide
    · exact nodup_instanceEntries (nodup_firsts _ _)
  entry s hs e he := (h.entry hs he).writable
  short := by
    rw [h.write, (lineStarts_textOf fun l hl => (h.line hl).1).2]
    intro l hl
    rcases List.mem_append.mp hl with hl | hl
    · exact (h.line hl).2.2
    · rw [List.mem_singleton.mp hl]
      decide

/-- The text has no NUL. -/
theorem Dumpable.cString : Dbp.cString (dbpDesktopWrite (dumpFile btime p)) = dbpDesktopWrite (dumpFile btime p) := by
  apply List.takeWhile_eq_self_iff.mpr
  intro c hc
  rw [h.write] at hc
  obtain ⟨l, hl, hc⟩ := List.mem_flatMap.mp hc
  rcases List.mem_append.mp hc with hc | hc
  · simpa using ne_of_mem_of_not_mem hc (h.line hl).2.1
  · rw [List.mem_singleton.mp hc]
    decide

theorem Dumpable.read {btime' : ℤ} (hboot : SameBoot btime btime') (b : ParseBufs) :
    stateRead b btime' (dbpDesktopWrite (dumpFile btime p)) =
      some (p.runCnt, (firsts (·.runId) p.instance_).flatMap instanceEntries) := by
  have hup : dbpDesktopLookup (dumpFile btime p) (lit "SystemBootup") [] (some (lit "DBPStateControl")) =
      some (snprintf16 (formatInt btime)) := rfl
  have hcnt : dbpDesktopLookup (dumpFile btime p) (lit "RunCnt") [] (some (lit "DBPStateControl")) =
      some (snprintf16 (formatInt p.runCnt)) := rfl
  have hsec : dbpDesktopLookupSection (dumpFile btime p) (some (lit "Instances")) = some 2 := rfl
  have hnear : ¬ (btime - btime' < -1 ∨ 1 < btime - btime') := by
    have := hboot.near
    omega
  obtain ⟨h0, h1⟩ := h.runCnt
  have hrun : toInt32 (atoll (formatInt p.runCnt)) = p.runCnt := by
    rw [atoll_formatInt (by omega) (by omega), toInt32_eq (by omega) h1]
  simp only [stateRead, h.cString, h.writable.parse, hup, hcnt, hsec, hboot.atoll_eq, if_neg hnear,
    snprintf16_formatInt h0 h1, hrun]
  rfl

end File

/-! ### Regrouping -/

/-- An instance as it is recovered. -/
def StateInstance.of (i : PackageInstance) : StateInstance := ⟨some i.packageId, i.runId, i.loop⟩

theorem stateRuns_instances (junk : ℕ → ℕ) {is : List PackageInstance} (hrun : ∀ i ∈ is, i.runId < 2 ^ 32) :
    stateRuns junk (is.flatMap instanceEntries) =
      is.flatMap fun i => [(i.runId, pkgIdEntry i), (i.runId, loopEntry i)] := by
  have hscan : ∀ i ∈ is, ∀ e ∈ instanceEntries i, scanUnsigned e.locale = some i.runId := fun i hi e he => by
    have hlocale : e.locale = Nat.toDigits 10 i.runId := by
      rcases List.mem_cons.mp he with rfl | he
      · rfl
      · rw [List.mem_singleton.mp he]
        rfl
    rw [hlocale, scanUnsigned_toDigits (hrun i hi)]
  have hmap : stateRuns junk (is.flatMap instanceEntries) =
      (is.flatMap instanceEntries).map fun e => ((scanUnsigned e.locale).getD 0, e) := by
    apply List.ext_getElem (by simp [stateRuns])
    intro k h1 h2
    have hmem := List.getElem_mem (show k < (is.flatMap instanceEntries).length by simpa using h2)
    obtain ⟨i, hi, he⟩ := List.mem_flatMap.mp hmem
    simp [stateRuns, hscan i hi _ he]
  rw [hmap, List.map_flatMap]
  apply List.flatMap_congr
  intro i hi
  rw [List.map_congr_left fun e he => by rw [hscan i hi e he]]
  rfl

/-- The entries of an instance set all of it. -/
theorem stateSet_entries {i : PackageInstance} (h : 0 ≤ i.loop ∧ i.loop < 2 ^ 31) :
    stateSet (loopEntry i) (stateSet (pkgIdEntry i) (stateNew i.runId)) = .of i := by
  have hatoi : atoi (formatInt i.loop) = i.loop := atoi_formatInt (by omega) h.2
  have hkey : lit "Loop" ≠ lit "PkgId" := by decide
  have hpkg : stateSet (pkgIdEntry i) (stateNew i.runId) = ⟨some i.packageId, i.runId, -1⟩ := if_pos rfl
  have hloop : stateSet (loopEntry i) ⟨some i.packageId, i.runId, -1⟩ =
      ⟨some i.packageId, i.runId, atoi (formatInt i.loop)⟩ := (if_neg hkey).trans (if_pos rfl)
  rw [hpkg, hloop, hatoi, StateInstance.of]

theorem upsert_instances : ∀ {is : List PackageInstance}, (is.map (·.runId)).Nodup →
    (∀ i ∈ is, 0 ≤ i.loop ∧ i.loop < 2 ^ 31) →
      (is.flatMap fun i => [(i.runId, pkgIdEntry i), (i.runId, loopEntry i)]).foldl
        (fun is x => upsert (·.runId) stateNew (stateSet x.2) x.1 is) [] = is.map .of := by
  intro is
  induction is using List.reverseRecOn with
  | nil => exact fun _ _ => rfl
  | append_singleton is i ih =>
    intro hnd hloop
    rw [List.map_append, List.nodup_append] at hnd
    have hnew : ∀ x ∈ is.map StateInstance.of, x.runId ≠ i.runId := by
      intro x hx
      obtain ⟨j, hj, rfl⟩ := List.mem_map.mp hx
      exact hnd.2.2 _ (List.mem_map_of_mem hj) _ (by simp)
    rw [List.flatMap_append, List.foldl_append, ih hnd.1 fun j hj => hloop j (List.mem_append_left _ hj)]
    change upsert _ _ _ i.runId (upsert _ _ _ i.runId _) = _
    rw [upsert_new hnew, upsert_last hnew (stateSet_runId ..), List.map_append, stateSet_entries (hloop i (by simp))]
    rfl

/-- The instances with different run ids come back. -/
theorem stateLoad_instances (junk : ℕ → ℕ) (runCnt : ℤ) {is : List PackageInstance} (hnd : (is.map (·.runId)).Nodup)
    (hrun : ∀ i ∈ is, i.runId < 2 ^ 32) (hloop : ∀ i ∈ is, 0 ≤ i.loop ∧ i.loop < 2 ^ 31) :
    stateLoad junk runCnt [] (is.flatMap instanceEntries) = ⟨runCnt, is.map .of⟩ := by
  have hlist := foldl_stateLoadEntry (is.flatMap fun i => [(i.runId, pkgIdEntry i), (i.runId, loopEntry i)]) ([], 0)
  rw [upsert_instances hnd hloop] at hlist
  simp only [stateLoad, stateRuns_instances junk hrun, hlist]
  refine if_pos (.inr fun x hx => ?_)
  obtain ⟨i, hi, rfl⟩ := List.mem_map.mp (List.mem_of_getElem? hx)
  exact ⟨rfl, (hloop i hi).1⟩

/-- **Dump and recover.** The first instance of each run id comes back, with the run counter. -/
theorem recover_dump {p : Package} (h : Dumpable p) {btime btime' : ℤ} (hboot : SameBoot btime btime') (b b' : ParseBufs)
    (junk : ℕ → ℕ) : stateRecover b' junk btime' (some (stateDump btime b p)) .init =
      ⟨p.runCnt, (firsts (·.runId) p.instance_).map .of⟩ := by
  have hsub : ∀ i ∈ firsts (·.runId) p.instance_, i ∈ p.instance_ := fun i hi => (firsts_sublist _ _).subset hi
  rw [stateDump, stateDumpFile_eq h]
  simp only [stateRecover, h.read hboot]
  exact stateLoad_instances junk p.runCnt (nodup_firsts _ _) (fun i hi => h.runIds i (hsub i hi))
    fun i hi => h.loops i (hsub i hi)

/-- **Restarts.** A state whose instances have distinct run ids comes back as it was. -/
theorem state_survives (p : Package) (h : Dumpable p) (hnd : (p.instance_.map (·.runId)).Nodup) (btime : ℤ)
    (hfits : (formatInt btime).length ≤ 15) (b b' : ParseBufs) (junk : ℕ → ℕ) :
    stateRecover b' junk btime (some (stateDump btime b p)) .init = ⟨p.runCnt, p.instance_.map .of⟩ := by
  rw [recover_dump h ⟨hfits, by omega⟩ b b' junk, firsts_eq_self _ hnd]

theorem state_survives_demo :
    let p : Package := ⟨[], 12, [⟨lit "a", 3, 0⟩, ⟨lit "b-1.x", 11, 7⟩], []⟩
    stateRecover ⟨[], []⟩ (fun _ => 0) 1700000000 (some (stateDump 1700000000 ⟨[], []⟩ p)) .init =
      ⟨12, [⟨some (lit "a"), 3, 0⟩, ⟨some (lit "b-1.x"), 11, 7⟩]⟩ :=
  state_survives _ ⟨by decide, by decide, by decide, by decide⟩ (by decide) _ (by decide) _ _ _

/-! ### Owners -/

/-- An owner of a loop number after the start of a daemon that has recovered `r`. -/
def OwnsAfter (r : StatePackage) (n : ℤ) : Prop :=
  (∃ i ∈ r.instance_, i.loop = n) ∨ ∃ q ∈ packageInit.purgatory, q.loopNumber = n

/-- Every loop number that is owned before is owned after. -/
def KeepsOwners (d : Daemon) (r : StatePackage) : Prop := ∀ n, OwnsLoop d n → OwnsAfter r n

/-- A loop number in purgatory is that of an instance, too, and each instance has the loop number of one
that is the first of its run id. -/
structure KeptByDump (d : Daemon) : Prop where
  parked : ∀ q ∈ d.p.purgatory, ∃ i ∈ d.p.instance_, i.loop = q.loopNumber
  first : ∀ i ∈ d.p.instance_, ∃ j ∈ firsts (·.runId) d.p.instance_, j.loop = i.loop

/-- `dbp_loop_mount` returns an `int`. -/
def IntResult : DaemonOp → Prop
  | .run ret _ _ => ret < 2 ^ 31
  | _ => True

theorem loopsLt_run (cfg : DBPConfig) {ops : List DaemonOp} (hint : ∀ op ∈ ops, IntResult op) {d : Daemon}
    (hc : CounterOk d) (h : LoopsAll (· < 2 ^ 31) d) : LoopsAll (· < 2 ^ 31) (d.run cfg ops) := by
  refine (List.foldlRecOn (motive := fun d => CounterOk d ∧ LoopsAll (· < 2 ^ 31) d) ops _ ⟨hc, h⟩ ?_).2
  rintro d ⟨hc, h⟩ op hop
  refine ⟨hc.step cfg op, h.step cfg hc.loops.purgatory ?_⟩
  rintro ret id user rfl -
  exact hint _ hop

/-- A state that is reached can be dumped, if the ids are ones packages can be mounted under. -/
theorem dumpable_run (cfg : DBPConfig) (icons desktops execs : Dir) {ops : List DaemonOp}
    (hint : ∀ op ∈ ops, IntResult op)
    (hids : ∀ i ∈ (Daemon.run cfg (Daemon.init icons desktops execs) ops).p.instance_,
      i.packageId ≠ [] ∧ Documented i.packageId ∧ i.packageId.length ≤ 255) :
    Dumpable (Daemon.run cfg (Daemon.init icons desktops execs) ops).p := by
  have hc := counterOk_run cfg (counterOk_init icons desktops execs) ops
  have hlt := loopsLt_run cfg hint (counterOk_init icons desktops execs) (.init icons desktops execs)
  refine ⟨hids, fun i hi => ?_, fun i hi => ⟨hc.loops.instance_ i hi, hlt.instance_ i hi⟩, hc.cnt_nonneg, hc.cnt_lt⟩
  have := hc.id_lt i hi
  omega

theorem keepsOwners_iff (d : Daemon) (runCnt : ℤ) :
    KeepsOwners d ⟨runCnt, (firsts (·.runId) d.p.instance_).map .of⟩ ↔ KeptByDump d := by
  have hafter : ∀ n, OwnsAfter ⟨runCnt, (firsts (·.runId) d.p.instance_).map .of⟩ n ↔
      ∃ j ∈ firsts (·.runId) d.p.instance_, j.loop = n := fun n => by
    simp [OwnsAfter, packageInit, StateInstance.of]
  have hsub : ∀ j ∈ firsts (·.runId) d.p.instance_, j ∈ d.p.instance_ := fun j hj => (firsts_sublist _ _).subset hj
  constructor
  · intro h
    refine ⟨fun q hq => ?_, fun i hi => (hafter _).mp (h _ (.inl ⟨i, hi, rfl⟩))⟩
    obtain ⟨j, hj, hjn⟩ := (hafter _).mp (h _ (.inr ⟨q, hq, rfl⟩))
    exact ⟨j, hsub j hj, hjn⟩
  · rintro h n (⟨i, hi, rfl⟩ | ⟨q, hq, rfl⟩)
    · exact (hafter _).mpr (h.first i hi)
    · obtain ⟨i, hi, hiq⟩ := h.parked q hq
      exact (hafter _).mpr (hiq ▸ h.first i hi)

/-- **Owners over a restart.** A restart within the same boot keeps every loop number owned exactly when none is only in
purgatory, or only with an instance that has the run id of an earlier one. -/
theorem restart_owners (cfg : DBPConfig) (icons desktops execs : Dir) (ops : List DaemonOp)
    (hint : ∀ op ∈ ops, IntResult op)
    (hids : ∀ i ∈ (Daemon.run cfg (Daemon.init icons desktops execs) ops).p.instance_,
      i.packageId ≠ [] ∧ Documented i.packageId ∧ i.packageId.length ≤ 255)
    (btime btime' : ℤ) (hboot : SameBoot btime btime') (b b' : ParseBufs) (junk : ℕ → ℕ) :
    KeepsOwners (Daemon.run cfg (Daemon.init icons desktops execs) ops)
        (stateRecover b' junk btime'
          (some (stateDump btime b (Daemon.run cfg (Daemon.init icons desktops execs) ops).p)) .init) ↔
      KeptByDump (Daemon.run cfg (Daemon.init icons desktops execs) ops) := by
  rw [recover_dump (dumpable_run cfg icons desktops execs hint hids) hboot]
  exact keepsOwners_iff _ _

theorem restart_owners_demo :
    KeepsOwners (Daemon.run demoConfig (Daemon.init [] [] []) (demoRun.take 2))
        (stateRecover ⟨[], []⟩ (fun _ => 0) 5
          (some (stateDump 5 ⟨[], []⟩ (Daemon.run demoConfig (Daemon.init [] [] []) (demoRun.take 2)).p)) .init) ↔
      KeptByDump (Daemon.run demoConfig (Daemon.init [] [] []) (demoRun.take 2)) := by
  refine restart_owners demoConfig [] [] [] _ ?_ (by decide) 5 5 ⟨by decide, by decide, by decide⟩ _ _ _
  rintro op (_ | ⟨_, _ | ⟨_, h⟩⟩)
  · trivial
  · exact show (3 : ℤ) < 2 ^ 31 by decide
  · cases h

/-- A package that has just ended is in purgatory when the signal comes. -/
theorem restart_orphan : ¬ KeepsOwners (Daemon.run demoConfig (Daemon.init [] [] []) (movedRun.take 3))
    (stateRecover ⟨[], []⟩ (fun _ => 0) 5
      (some (stateDump 5 ⟨[], []⟩ (Daemon.run demoConfig (Daemon.init [] [] []) (movedRun.take 3)).p)) .init) := by
  intro h
  have hafter := h 3 (by decide)
  revert hafter
  unfold OwnsAfter
  decide

/-- Where run ids and loop devices are fresh, only an empty purgatory keeps all. -/
theorem kept_iff_empty {d : Daemon} (h : Mounted d) : KeptByDump d ↔ d.p.purgatory = [] := by
  have hfirst : firsts (·.runId) d.p.instance_ = d.p.instance_ := firsts_eq_self _ h.nodup
  obtain ⟨L, hL⟩ := h.leased
  constructor
  · intro hk
    apply List.eq_nil_iff_forall_not_mem.mpr
    intro q hq
    obtain ⟨i, hi, hiq⟩ := hk.parked q hq
    have hrun := (hL.running i.packageId i.loop).mpr ⟨i, hi, rfl, rfl⟩
    have hpark := (hL.parked q.packageId q.loopNumber).mpr ⟨q, hq, rfl, rfl⟩
    rw [hiq] at hrun
    rw [L.excl hrun hpark, hpark] at hrun
    cases hrun
  · intro hnil
    exact ⟨by simp [hnil], fun i hi => ⟨i, by rwa [hfirst], rfl⟩⟩

end Dbp
