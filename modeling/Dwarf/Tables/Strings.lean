import Dwarf.Tables.Basic
import Dwarf.Decode.Value
/-!
# Strings across tables

A string attribute holds its bytes, an offset into a string table, or an index into the table of
string offsets, whose entries are offsets into a string table.

## Implementation notes

An entry is looked up in the whole table of offsets, whatever window its reader had before.  An
entry position that no word can hold is out of bounds before the window changes.
-/

namespace Dwarf

namespace Consult

/-- A step that fails with nothing delivered. -/
def orFailed (step : Consult Transfer) : Inquiry Transfer := do
  match ← step.run with
  | .ok transfer => pure transfer
  | .error error => pure (.failed error)

/-- Fails unless a transfer is complete. -/
def completed (transfer : Inquiry Transfer) : Consult (List UInt8) :=
  ExceptT.mk (Transfer.complete <$> transfer)

/-- Takes the string that a value of a form stands for; the value is in the given table. -/
def stringValue (table : Table) (form : Form) : Inquiry Transfer :=
  match form with
  | .string => Decode.string.on table
  | .strp => orFailed do
    let offset ← Decode.sectionOffset.on table
    ExceptT.lift ((Decode.stringAt offset).on .strings)
  | .lineStrp => orFailed do
    let offset ← Decode.sectionOffset.on table
    ExceptT.lift ((Decode.stringAt offset).on .lineStrings)
  | form => pure (.failed (.unreadableForm form))

end Consult

namespace Decode

/-- Reads an entry of the table of string offsets: its base is the offset of the first entry. -/
def stringOffsetEntry (base index : Nat) (format : Format) : Decode Nat := do
  ensureBound
  let seen ← view
  let entry := index * format.wordSize + base
  if entry ≤ Word.max then
    widen
    seekInSection entry
    offset format
  else
    throw (.outsideWindow Word.max seen.first seen.limit)

end Decode

namespace Consult

/-- Takes the string with an index into the table of string offsets. -/
def indexedString (base index : Nat) (format : Format) : Inquiry Transfer :=
  orFailed do
    let offset ← (Decode.stringOffsetEntry base index format).on .stringOffsets
    ExceptT.lift ((Decode.stringAt offset).on .strings)

end Consult

end Dwarf
