import Dwarf.Line.Header
import Dwarf.Memory
import Dwarf.Tables.Strings
/-!
# Directory and file tables

From version five on, the directories and the files of a line program are tables: a list of
formats, each a content and a form, a count, and that many entries with one value per format.

## Implementation notes

A count is refused before any entry is read when the entries could not fit in the bytes that
remain, or when an entry has no bytes at all.  The bytes that remain are those that the file is told
to have, so a count that fits them can still ask for more memory than there is to reserve.
-/

namespace Dwarf

/-- What one value of every entry means, and its form. -/
structure EntryFormat where
  content : LineContent
  form : Form
  deriving DecidableEq, Repr

namespace EntryFormat

/-- The fewest bytes of a value of this format. -/
def leastSize (context : Context) (format : EntryFormat) : Nat :=
  match format.form.layout? with
  | some .empty => 0
  | some (.fixed width) | some (.block width) => width
  | some .address => context.addressSize.getD 1
  | some .offset => (context.format.map Format.wordSize).getD 4
  | _ => 1

/-- The fewest bytes of an entry with these formats. -/
def leastEntrySize (context : Context) (formats : List EntryFormat) : Nat :=
  formats.foldr (fun format total => leastSize context format + total) 0

end EntryFormat

/-- The bytes of memory that the entry of a file takes. -/
def SourceFile.footprint : Nat := 88

namespace Decode

/-- Reads a number of entry formats. -/
def entryFormatsFrom : Nat → Decode (List EntryFormat)
  | 0 => pure []
  | rest + 1 => do
    let content : LineContent ← constant .lineContent
    let form : Form ← constant .form
    let others ← entryFormatsFrom rest
    pure (⟨content, form⟩ :: others)

/-- Reads the formats of a table. -/
def entryFormats : Decode (List EntryFormat) := do entryFormatsFrom (← byte)

/-- Reads a number in the forms that hold one, and skips a value of any other form. -/
def optionalNumber (form : Form) : Decode (Option Nat) := do
  let isNumber :=
    match form.layout? with
    | some (.fixed width) => decide (width ≤ 8)
    | some .uleb128 => true
    | _ => false
  if isNumber then some <$> offsetValue form
  else do
    skipValue form
    pure none

/-- Reads the count of a table's entries, whose formats are known. -/
def entryCount (formats : List EntryFormat) (field : String) : Decode Nat := do
  let count ← uleb128 .word
  if count = 0 then pure 0
  else do
    let seen ← view
    let size := EntryFormat.leastEntrySize seen.context formats
    if size = 0 ∨ seen.remaining / size < count then throw (.impossibleValue field count)
    else pure count

/-- Reads a value of an entry that is not a path. -/
def plainEntryValue (format : EntryFormat) (entry : SourceFile) : Decode SourceFile := do
  match format.content with
  | .directoryIndex => do
    let directoryIndex ← offsetValue format.form
    pure { entry with directoryIndex }
  | .timestamp => do
    let modificationTime ← optionalNumber format.form
    pure { entry with modificationTime }
  | .size => do
    let size ← optionalNumber format.form
    pure { entry with size }
  | .digest =>
    if format.form = .data16 then do
      let digest ← completed (bytes 16)
      pure { entry with digest := some digest }
    else do
      skipValue format.form
      pure entry
  | _ => do
    skipValue format.form
    pure entry

end Decode

namespace Consult

/-- Reads one value of an entry. -/
def entryValue (format : EntryFormat) (entry : SourceFile) : Consult SourceFile :=
  if format.content = .path ∧ format.form.isString then do
    let path ← completed (stringValue .lines format.form)
    pure { entry with path := Utf8.decode path }
  else (Decode.plainEntryValue format entry).on .lines

/-- Reads the values of an entry in order. -/
def entryValues : List EntryFormat → SourceFile → Consult SourceFile
  | [], entry => pure entry
  | format :: rest, entry => do
    let entry ← entryValue format entry
    entryValues rest entry

/-- Reads a number of entries, onto those already read, in reverse order. -/
def entriesFrom (formats : List EntryFormat) (read : List SourceFile) :
    Nat → Consult (List SourceFile)
  | 0 => pure read.reverse
  | rest + 1 => do
    let entry ← entryValues formats .empty
    entriesFrom formats (entry :: read) rest

/-- Goes on with what was returned; where the program stopped, nothing follows. -/
def unlessStopped {α β : Type} (first : Consult (Halting α)) (next : α → Consult (Halting β)) :
    Consult (Halting β) := do
  match ← first with
  | .returned value => next value
  | .stopped => pure .stopped

/-- Reads the entries of a table whose formats are known: their count, for which memory is reserved,
and so many of them. -/
def entries (formats : List EntryFormat) (field : String) :
    Consult (Halting (List SourceFile)) := do
  let count ← (Decode.entryCount formats field).on .lines
  if Memory.Reserves count SourceFile.footprint then .returned <$> entriesFrom formats [] count
  else pure .stopped

/-- Reads a table: its formats and its entries. -/
def entryTable (field : String) : Consult (Halting (List SourceFile)) := do
  let formats ← Decode.entryFormats.on .lines
  entries formats field

/-- Reads the directories and files of a version. -/
def lineTables (version : Nat) : Consult (Halting (List String × List SourceFile)) := do
  if 5 ≤ version then
    (entryTable "directory count").unlessStopped fun directories =>
      (entryTable "file count").unlessStopped fun files =>
        pure (.returned (directories.map SourceFile.path, files))
  else
    let directories ← Decode.directories.on .lines
    let files ← Decode.files.on .lines
    pure (.returned (directories, files))

/-- Reads the header of the line program at an offset into the section, narrows the window to the
program and moves to its first opcode. -/
def lineHeader (offset : Nat) : Consult (Halting LineHeader) := do
  let extent ← (Decode.lineExtent offset).on .lines
  let sizes ← (Decode.targetSizes extent.version).on .lines
  let headerLength ← Decode.sectionOffset.on .lines
  let seen ← Decode.view.on .lines
  let programOffset := Word.saturate (seen.offset + headerLength)
  let parameters ← (Decode.opcodeParameters extent.version).on .lines
  (lineTables extent.version).unlessStopped fun (directories, files) => do
    (Decode.seek programOffset).on .lines
    pure (.returned {
      extent := extent
      sizes := sizes
      headerLength := headerLength
      programOffset := programOffset
      parameters := parameters
      directories := directories
      files := files })

end Consult

end Dwarf
