/-
# Directory events as the kernel packs them

`mountwatch_inotify_handle` reads the inotify descriptor into a buffer and
walks over the events in it: a header of 16 bytes each, the last word of which
is the length of the name that follows, padded with NULs. It goes on to the
next event as long as the bytes read go on behind the one it is at. All its
reads go through `load32` and `loadString`, so a result means that it has
read none but these bytes. Whatever whole events the kernel packs into the
buffers, it visits each of them once, in order, and makes the changes that
`mountwatchInotifyHandle` makes of them (`inotifyRead_packed`).

Key definitions: `InotifyHeader`, `visitEvent`, `inotifyLoop`, `mountwatchInotifyRead`, `KernelEvent`, `InotifyBatch`.
Key theorems: `visitEvent_packed`, `inotifyLoop_packed`, `inotifyRead_packed`.
-/
import Dbp.C.Memory
import Dbp.Daemon.Mountwatch

namespace Dbp

open CLib

/-! ### Reading events -/

/-- `struct inotify_event`, without its name. -/
structure InotifyHeader where
  wd : BitVec 32
  mask : BitVec 32
  cookie : BitVec 32
  len : BitVec 32
deriving DecidableEq, Repr

/-- `sizeof(struct inotify_event)`. -/
def inotifyEventSize : ℕ := 16

def NAME_MAX : ℕ := 255

/-- `max_sz`, the size of the buffer. -/
def inotifyMaxSz : ℕ := inotifyEventSize + NAME_MAX + 1

/-- The header at an offset. -/
def loadHeader (buff : List UInt8) (off : ℕ) : Option InotifyHeader := do
  let wd ← load32 buff off
  let mask ← load32 buff (off + 4)
  let cookie ← load32 buff (off + 8)
  let len ← load32 buff (off + 12)
  return ⟨wd, mask, cookie, len⟩

/-- `mountwatch_path_lookup_entry`, and the entry at the index it returns. -/
def mountwatchPathLookupEntry (ientry : List MountwatchInotify) (handle : ℤ) : Option MountwatchInotify :=
  ientry.find? (·.handle == handle)

/-- `mountwatch_change_add`. -/
def mountwatchChangeAdd (change : List MountwatchChange) (mount device path : CStr) (tag : MountwatchTag) :
    List MountwatchChange :=
  change ++ [⟨mount, device, path, tag⟩]

/-- What the loop adds for the mask of an event of the watch `i`. -/
def inotifyMaskAdd (i : MountwatchInotify) (path : CStr) (mask : ℕ) (change : List MountwatchChange) :
    List MountwatchChange :=
  let change :=
    if mask &&& IN_CLOSE_WRITE ≠ 0 ∨ mask &&& IN_ATTRIB ≠ 0 then
      mountwatchChangeAdd (mountwatchChangeAdd change i.mount i.device path .pkgRemoved) i.mount i.device path .pkgAdded
    else change
  let change :=
    if mask &&& IN_DELETE ≠ 0 ∨ mask &&& IN_MOVED_FROM ≠ 0 then
      mountwatchChangeAdd change i.mount i.device path .pkgRemoved
    else change
  if mask &&& IN_CREATE ≠ 0 ∨ mask &&& IN_MOVED_TO ≠ 0 then
    mountwatchChangeAdd change i.mount i.device path .pkgAdded
  else change

/-- The loop's body, up to the test for the next event, at the offset of an event. -/
def visitEvent (ientry : List MountwatchInotify) (buff : List UInt8) (off : ℕ) (change : List MountwatchChange) :
    Option (InotifyHeader × List MountwatchChange) := do
  let ie ← loadHeader buff off
  if 0 < ie.len.toNat then
    match mountwatchPathLookupEntry ientry ie.wd.toInt with
    | none => return (ie, change)
    | some i =>
      let name ← loadString buff (off + inotifyEventSize)
      return (ie, inotifyMaskAdd i (i.path ++ '/' :: name) ie.mask.toNat change)
  else return (ie, change)

/-- The headers of the events visited, and the changes added. -/
structure InotifyScan where
  visited : List InotifyHeader
  change : List MountwatchChange
deriving DecidableEq, Repr

/-- The loop over the events in a buffer from an offset on; the first number bounds its turns. The size of the header
and `len` are added as unsigned words. -/
def inotifyLoop (ientry : List MountwatchInotify) (buff : List UInt8) : ℕ → ℕ → InotifyScan → Option InotifyScan
  | 0, _, _ => none
  | n + 1, off, s => do
    let r ← visitEvent ientry buff off s.change
    let s : InotifyScan := ⟨s.visited ++ [r.1], r.2⟩
    if (inotifyEventSize + r.1.len.toNat) % 2 ^ 32 + off < buff.length then
      inotifyLoop ientry buff n (off + (r.1.len.toNat + inotifyEventSize)) s
    else return s

/-- `mountwatch_inotify_handle`, on what the successive calls of `read` return. -/
def mountwatchInotifyRead (ientry : List MountwatchInotify) (reads : List (List UInt8)) (s : InotifyScan) :
    Option InotifyScan :=
  reads.foldlM (fun s buff => inotifyLoop ientry buff buff.length 0 s) s

/-! ### Packed events -/

/-- An event as the kernel packs it: a name is followed by NULs, and there are none where there is no name. -/
structure KernelEvent where
  wd : BitVec 32
  mask : BitVec 32
  cookie : BitVec 32
  name : List UInt8
  pad : ℕ
  plain : 0 ∉ name
  padded : name = [] ↔ pad = 0

namespace KernelEvent

variable (e : KernelEvent)

/-- `len`. -/
def len : ℕ := e.name.length + e.pad

def header : InotifyHeader := ⟨e.wd, e.mask, e.cookie, BitVec.ofNat 32 e.len⟩

def bytes : List UInt8 :=
  bytes32 e.wd ++ (bytes32 e.mask ++ (bytes32 e.cookie ++ (bytes32 (BitVec.ofNat 32 e.len) ++
    (e.name ++ List.replicate e.pad 0))))

/-- The event that is packed. -/
def event : InotifyEvent := ⟨e.wd.toInt, e.mask.toNat, charBytes e.name⟩

theorem length_bytes : e.bytes.length = inotifyEventSize + e.len := by
  simp only [bytes, List.length_append, length_bytes32, List.length_replicate, inotifyEventSize, len]
  omega

/-- The header holds the length, where it fits into a word. -/
theorem toNat_header_len (h : e.len < 2 ^ 32) : e.header.len.toNat = e.len := by
  rw [header, BitVec.toNat_ofNat, Nat.mod_eq_of_lt h]

end KernelEvent

/-- Every event has bytes. -/
theorem length_le_bytes (es : List KernelEvent) : es.length ≤ (es.flatMap (·.bytes)).length := by
  induction es with
  | nil => exact Nat.zero_le _
  | cons e es ih =>
    have hbytes := e.length_bytes
    have hhead : inotifyEventSize = 16 := rfl
    rw [List.flatMap_cons, List.length_append, List.length_cons]
    omega

/-- What one call of `read` returns: whole events, at least one, and as many as fit into the buffer. -/
structure InotifyBatch where
  events : List KernelEvent
  nonempty : events ≠ []
  fits : (events.flatMap (·.bytes)).length ≤ inotifyMaxSz

/-- The bytes it stores. -/
def InotifyBatch.bytes (b : InotifyBatch) : List UInt8 := b.events.flatMap (·.bytes)

/-! ### What is read back -/

variable (ientry : List MountwatchInotify)

theorem inotifyMaskAdd_eq (i : MountwatchInotify) (path : CStr) (mask : ℕ) (change : List MountwatchChange) :
    inotifyMaskAdd i path mask change =
      change ++ (inotifyTags mask).map (MountwatchChange.mk i.mount i.device path) := by
  unfold inotifyMaskAdd inotifyTags mountwatchChangeAdd
  split_ifs <;> simp

section Event

variable (e : KernelEvent) (pre post : List UInt8)

theorem loadHeader_packed : loadHeader (pre ++ (e.bytes ++ post)) pre.length = some e.header := by
  have hwd : load32 _ pre.length = _ := load32_append pre e.wd (bytes32 e.mask ++ (bytes32 e.cookie ++
    (bytes32 (BitVec.ofNat 32 e.len) ++ (e.name ++ List.replicate e.pad 0))) ++ post) rfl
  have hmask : load32 _ (pre.length + 4) = _ := load32_append (pre ++ bytes32 e.wd) e.mask ((bytes32 e.cookie ++
    (bytes32 (BitVec.ofNat 32 e.len) ++ (e.name ++ List.replicate e.pad 0))) ++ post) (by simp)
  have hcookie : load32 _ (pre.length + 8) = _ := load32_append (pre ++ bytes32 e.wd ++ bytes32 e.mask) e.cookie
    ((bytes32 (BitVec.ofNat 32 e.len) ++ (e.name ++ List.replicate e.pad 0)) ++ post) (by simp)
  have hlen : load32 _ (pre.length + 12) = _ := load32_append (pre ++ bytes32 e.wd ++ bytes32 e.mask ++ bytes32 e.cookie)
    (BitVec.ofNat 32 e.len) ((e.name ++ List.replicate e.pad 0) ++ post) (by simp)
  simp only [List.append_assoc] at hwd hmask hcookie hlen
  simp only [loadHeader, KernelEvent.bytes, List.append_assoc, hwd, hmask, hcookie, hlen]
  rfl

theorem loadString_packed (h : e.name ≠ []) :
    loadString (pre ++ (e.bytes ++ post)) (pre.length + inotifyEventSize) = some (charBytes e.name) := by
  have hpad : 0 < e.pad := Nat.pos_of_ne_zero fun h0 => h (e.padded.mpr h0)
  have hs : loadString _ (pre.length + inotifyEventSize) = _ := loadString_append (pre ++ bytes32 e.wd ++
    bytes32 e.mask ++ bytes32 e.cookie ++ bytes32 (BitVec.ofNat 32 e.len)) e.plain hpad post (by simp [inotifyEventSize])
  simpa only [KernelEvent.bytes, List.append_assoc] using hs

/-- The visit of a packed event makes its changes. -/
theorem visitEvent_packed (hlen : e.len < 2 ^ 32) (change : List MountwatchChange) :
    visitEvent ientry (pre ++ (e.bytes ++ post)) pre.length change =
      some (e.header, change ++ inotifyChanges ientry e.event) := by
  have hnil : e.event.name = [] ↔ e.name = [] := List.map_eq_nil_iff
  rw [visitEvent, loadHeader_packed]
  simp only [Option.bind_eq_bind, Option.bind_some, e.toNat_header_len hlen]
  by_cases hname : e.name = []
  · have hlen0 : e.len = 0 := by rw [KernelEvent.len, hname, e.padded.mp hname]; rfl
    rw [if_neg (by omega), inotifyChanges, if_pos (hnil.mpr hname), List.append_nil]
    rfl
  · have hpos : 0 < e.len := Nat.add_pos_left (List.length_pos_iff.mpr hname) _
    rw [if_pos hpos, loadString_packed e pre post hname, inotifyChanges, if_neg (mt hnil.mp hname),
      mountwatchPathLookupEntry]
    cases hi : ientry.find? (·.handle == e.header.wd.toInt) with
    | none =>
      have hev : ientry.find? (·.handle == e.event.wd) = none := hi
      rw [hev, List.append_nil]
      rfl
    | some i =>
      have hev : ientry.find? (·.handle == e.event.wd) = some i := hi
      rw [hev]
      exact congrArg (fun c => some (e.header, c)) (inotifyMaskAdd_eq i _ _ change)

end Event

/-- The loop on a buffer of packed events, from one of them on: each of the others is visited in its turn. -/
theorem inotifyLoop_packed : ∀ (es : List KernelEvent) (_ : es ≠ []) (pre : List UInt8) (n : ℕ) (s : InotifyScan),
    (pre ++ es.flatMap (·.bytes)).length ≤ inotifyMaxSz → es.length ≤ n →
      inotifyLoop ientry (pre ++ es.flatMap (·.bytes)) n pre.length s =
        some ⟨s.visited ++ es.map (·.header), s.change ++ es.flatMap fun e => inotifyChanges ientry e.event⟩
  | e :: es, _, pre, n, s, hfits, hn => by
    obtain ⟨n, rfl⟩ := Nat.exists_eq_succ_of_ne_zero (show n ≠ 0 by rw [List.length_cons] at hn; omega)
    have hbytes := e.length_bytes
    rw [List.flatMap_cons] at hfits ⊢
    have hsize : inotifyMaxSz = 272 := rfl
    have hhead : inotifyEventSize = 16 := rfl
    rw [List.length_append, List.length_append] at hfits
    have hlt : e.len < 2 ^ 32 := by omega
    have hsum : (inotifyEventSize + e.len) % 2 ^ 32 = inotifyEventSize + e.len := Nat.mod_eq_of_lt (by omega)
    rw [inotifyLoop, visitEvent_packed ientry e pre _ hlt]
    simp only [Option.bind_eq_bind, Option.bind_some, e.toNat_header_len hlt, List.length_append, hsum]
    cases es with
    | nil =>
      rw [if_neg (by simp only [List.flatMap_nil, List.length_nil]; omega)]
      simp
    | cons e' es =>
      have hbytes' := e'.length_bytes
      have hnext : pre.length + (e.len + inotifyEventSize) = (pre ++ e.bytes).length := by
        rw [List.length_append]
        omega
      have hrest := inotifyLoop_packed (e' :: es) (by simp) (pre ++ e.bytes) n
        ⟨s.visited ++ [e.header], s.change ++ inotifyChanges ientry e.event⟩
        (by rw [List.length_append, List.length_append]; omega) (by simpa using hn)
      rw [List.append_assoc] at hrest
      rw [if_pos (by rw [List.flatMap_cons, List.length_append]; omega), hnext, hrest]
      simp

/-- A buffer that was read. -/
theorem inotifyLoop_batch (b : InotifyBatch) (s : InotifyScan) : inotifyLoop ientry b.bytes b.bytes.length 0 s =
    some ⟨s.visited ++ b.events.map (·.header), s.change ++ b.events.flatMap fun e => inotifyChanges ientry e.event⟩ :=
  inotifyLoop_packed ientry b.events b.nonempty [] _ s b.fits (length_le_bytes b.events)

/-- All buffers that were read, after others. -/
theorem inotifyRead_batches (batches : List InotifyBatch) (s : InotifyScan) :
    mountwatchInotifyRead ientry (batches.map (·.bytes)) s =
      some ⟨s.visited ++ (batches.flatMap (·.events)).map (·.header),
        s.change ++ mountwatchInotifyHandle ientry ((batches.flatMap (·.events)).map (·.event))⟩ := by
  induction batches generalizing s with
  | nil => simp [mountwatchInotifyRead, mountwatchInotifyHandle]
  | cons b batches ih =>
    have hstep : mountwatchInotifyRead ientry ((b :: batches).map (·.bytes)) s =
        (inotifyLoop ientry b.bytes b.bytes.length 0 s).bind (mountwatchInotifyRead ientry (batches.map (·.bytes))) := rfl
    rw [hstep, inotifyLoop_batch, Option.bind_some, ih]
    simp [mountwatchInotifyHandle, List.flatMap_append, List.flatMap_map]

/-- **Directory events.** Whatever events the kernel packs into the buffers, each is visited once, in order, no byte
behind those read is looked at, and the changes added are those of the events. -/
theorem inotifyRead_packed (batches : List InotifyBatch) (change : List MountwatchChange) :
    mountwatchInotifyRead ientry (batches.map (·.bytes)) ⟨[], change⟩ =
      some ⟨(batches.flatMap (·.events)).map (·.header),
        change ++ mountwatchInotifyHandle ientry ((batches.flatMap (·.events)).map (·.event))⟩ :=
  inotifyRead_batches ientry batches ⟨[], change⟩

end Dbp
