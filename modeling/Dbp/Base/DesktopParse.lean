/-
# The desktop file parser and writer

`dbp_desktop_parse_append` reads a text line by line, but scans from the
start of each line with `sscanf`, whose white-space directives also match
line ends. `parseLine` is one turn of its loop: the strings `sscanf` stores,
and the call it makes on the file (open a section, add an entry, or none).
The call depends on the text from the line on and on what the buffers `buff`
and `buff2` hold, which live across lines and start uninitialised; it does
not read the file. So a parse is the list of calls of its lines (`calls`),
applied to the file in order.

Key definitions: `parseLine`, `lineStarts`, `calls`, `dbpDesktopParseAppend`,
`dbpDesktopParse`, `desktopEntryUnescape`, `dbpDesktopWrite`.
-/
import Dbp.Base.Desktop

namespace Dbp

open CLib

/-! ### Parsing -/

/-- What the character after a backslash stands for. -/
def unescapeChar (d : Char) : Option Char :=
  if d = '\\' then some '\\'
  else if d = 'n' then some '\n'
  else if d = 'r' then some '\r'
  else if d = 't' then some '\t'
  else none

/-- `desktop_entry_unescape`. The character that follows a decoded escape is
moved under the read position and passed over by the loop's `i++`, so an
escape that follows another at once is not decoded. -/
def desktopEntryUnescape : CStr → CStr
  | '\\' :: d :: x :: xs =>
    match unescapeChar d with
    | some e => e :: x :: desktopEntryUnescape xs
    | none => '\\' :: d :: desktopEntryUnescape (x :: xs)
  | ['\\', d] =>
    match unescapeChar d with
    | some e => [e]
    | none => ['\\', d]
  | c :: cs => c :: desktopEntryUnescape cs
  | [] => []

/-- The buffers of the parser that live across its lines. -/
structure ParseBufs where
  buff : CStr
  buff2 : CStr
deriving Repr, DecidableEq

/-- What a line has the parser do to the file. -/
inductive ParseCall
  | none
  | sectionNew (name : CStr)
  | entryNew (key locale value : CStr)
deriving Repr, DecidableEq

/-- One turn of the parser's loop: the call, the buffers after it, and the
strings its `sscanf` calls stored, in order. -/
structure ParseStep where
  call : ParseCall
  bufs : ParseBufs
  stores : List CStr
deriving Repr, DecidableEq

/-- `%[^\n]`. -/
def restOfLine : Directive := .scanset fun c => c != '\n'

/-- `"%[^\n=] = %[^\n]\n"`. -/
def keyValueFormat : List Directive :=
  [.scanset fun c => c != '\n' && c != '=', .space, .lit '=', .space, restOfLine, .space]

/-- `"%[^\n]\n%[^\n]"`. -/
def keyLocaleFormat : List Directive := [restOfLine, .space, restOfLine]

/-- The size of the parser's buffers, and its limit on a line. -/
def bufSize : ℕ := 4096

/-- The line at the start of `str`, without its line end. -/
def firstLine (str : CStr) : CStr := str.takeWhile (· != '\n')

/-- The scan of a line with key `[...`: a new section, named by what stands
before the first `]`. -/
def parseSection (key : CStr) (b : ParseBufs) (kv : List CStr) : ParseStep :=
  if ']' ∈ key then
    let st := sscanf [restOfLine] (key.takeWhile (· != ']')).tail
    let b := { b with buff := st.getD 0 b.buff }
    ⟨.sectionNew b.buff, b, kv ++ st⟩
  else ⟨.none, b, kv⟩

/-- The scan of an entry line: a key with `[` is split into key and locale. -/
def parseEntry (key value : CStr) (b : ParseBufs) (kv : List CStr) : ParseStep :=
  if '[' ∈ key then
    if ']' ∈ key then
      let st := sscanf keyLocaleFormat ((key.replace '[' '\n').takeWhile (· != ']'))
      let b : ParseBufs := ⟨st.getD 0 b.buff, st.getD 1 b.buff2⟩
      ⟨.entryNew b.buff b.buff2 (desktopEntryUnescape value), b, kv ++ st⟩
    else ⟨.none, b, kv⟩
  else ⟨.entryNew key [] (desktopEntryUnescape value), b, kv⟩

/-- The body of the loop of `dbp_desktop_parse_append`, with `str` the text
from the start of the line on. -/
def parseLine (str : CStr) (b : ParseBufs) : ParseStep :=
  if bufSize ≤ (firstLine str).length then ⟨.none, b, []⟩
  else
    let kv := sscanf keyValueFormat str
    let key := kv.getD 0 []
    match key with
    | [] => ⟨.none, b, kv⟩
    | c :: _ =>
      if c = '[' then parseSection key b kv
      else if c = ';' ∨ c = '#' then ⟨.none, b, kv⟩
      else parseEntry key (kv.getD 1 []) b kv

/-- The text from each line on: the values `str` takes in the loop. -/
def lineStarts : CStr → List CStr
  | [] => [[]]
  | c :: cs => (c :: cs) :: if c = '\n' then lineStarts cs else (lineStarts cs).tail

/-- The turns of the loop from the given line starts on. -/
def parseSteps : List CStr → ParseBufs → List ParseStep
  | [], _ => []
  | str :: strs, b => parseLine str b :: parseSteps strs (parseLine str b).bufs

/-- Carriage returns are line ends to the parser. -/
def crToLf (str : CStr) : CStr := str.map fun c => if c = '\r' then '\n' else c

/-- The turns of `dbp_desktop_parse_append` on a text. -/
def parseTrace (str : CStr) (b : ParseBufs) : List ParseStep := parseSteps (lineStarts (crToLf str)) b

/-- The calls a text has the parser make, from uninitialised buffers `b`. -/
def calls (str : CStr) (b : ParseBufs) : List ParseCall := (parseTrace str b).map (·.call)

/-- A call on the file and the number of the current section. -/
def applyCall (st : DesktopFile × ℕ) : ParseCall → DesktopFile × ℕ
  | .none => st
  | .sectionNew name => dbpDesktopSectionNew st.1 (some name)
  | .entryNew key locale value => ((dbpDesktopEntryNew st.1 key locale value st.2).1, st.2)

/-- `dbp_desktop_parse_append`, with `b` what the stack holds in `buff` and `buff2`. -/
def dbpDesktopParseAppend (str : CStr) (df : DesktopFile) (b : ParseBufs) : DesktopFile :=
  ((calls str b).foldl applyCall (df, 0)).1

/-- The file `dbp_desktop_parse` starts from: the nameless section. -/
def DesktopFile.empty : DesktopFile := (dbpDesktopSectionNew ⟨[]⟩ none).1

/-- `dbp_desktop_parse`. -/
def dbpDesktopParse (str : CStr) (b : ParseBufs) : DesktopFile :=
  dbpDesktopParseAppend str DesktopFile.empty b

/-- The C string at the start of a block of data. -/
def cString (data : CStr) : CStr := data.takeWhile (· ≠ '\x00')

/-! ### Writing -/

/-- `desktop_write_format`, without the final line end. -/
def desktopWriteFormat (str : CStr) : CStr :=
  str.flatMap fun c =>
    if c = '\\' then ['\\', '\\'] else if c = '\r' then ['\\', 'r']
    else if c = '\n' then ['\\', 'n'] else if c = '\t' then ['\\', 't'] else [c]

/-- The line written for an entry; nothing for an empty key. -/
def writeEntry (e : DesktopEntry) : CStr :=
  if e.key = [] then []
  else if e.locale = [] then e.key ++ lit "=" ++ desktopWriteFormat e.value ++ lit "\n"
  else e.key ++ lit "[" ++ e.locale ++ lit "]=" ++ desktopWriteFormat e.value ++ lit "\n"

/-- The lines written for a section. -/
def writeSection (s : DesktopSection) : CStr :=
  (match s.name with | none => [] | some name => lit "[" ++ name ++ lit "]\n") ++
    s.entry.flatMap writeEntry

/-- The text `dbp_desktop_write` puts in the file. -/
def dbpDesktopWrite (df : DesktopFile) : CStr := df.section_.flatMap writeSection

example : dbpDesktopWrite (dbpDesktopParse (lit "a=1\n[S]\nName[sv]=x\\ty\n") ⟨[], []⟩) =
    lit "a=1\n[S]\nName[sv]=x\\ty\n" := by decide

end Dbp
