import Dwarf.Text.Numeral
/-!
# Sections

A section is one contiguous byte range of a file, given by absolute file offsets.
-/

namespace Dwarf

/-- A contiguous byte range of a file. -/
structure Section where
  /-- The file offset of the first byte. -/
  offset : Nat
  /-- The number of bytes. -/
  size : Nat
  deriving DecidableEq, Repr

namespace Section

/-- The range of no bytes at the start of the file. -/
def none : Section := ⟨0, 0⟩

/-- The file offset one past the last byte, or the largest word where that overflows. -/
def stop (range : Section) : Nat := Word.saturate (range.offset + range.size)

/-- Whether the section has no bytes. -/
def isEmpty (range : Section) : Bool := range.size == 0

/-- A section as a half-open interval. -/
def text (range : Section) : String :=
  "[" ++ Numeral.hex8 range.offset ++ ", " ++ Numeral.hex8 range.stop ++ ")"

end Section

end Dwarf
