import Dwarf.Decode.Bytes
/-!
# Line program headers

The header of a line program gives the parameters of its opcodes, the directories and the files.

## Implementation notes

Before version five directories and files are lists that end at an empty path; from then on they
are tables with formats of their own, which `Line.Entry` reads.  A list has no more members than
bytes remain; the loops count those down.
-/

namespace Dwarf

/-- A source file of a line program. -/
structure SourceFile where
  /-- The path as the program gives it. -/
  path : String
  /-- The index of the directory that the path starts from. -/
  directoryIndex : Nat
  /-- The time of the last change. -/
  modificationTime : Option Nat
  /-- The size in bytes. -/
  size : Option Nat
  /-- The digest of the contents. -/
  digest : Option (List UInt8)
  deriving DecidableEq, Repr

/-- The entry that gives nothing. -/
def SourceFile.empty : SourceFile := ⟨"", 0, none, none, none⟩

/-- Where a line program lies, and how it is to be read. -/
structure LineExtent where
  /-- The offset of the program in its section. -/
  sectionOffset : Nat
  /-- The length that the program declares. -/
  length : Nat
  /-- The file offset one past the program. -/
  stop : Nat
  /-- The format that the initial length implies. -/
  format : Format
  /-- The version of the program. -/
  version : Nat
  deriving DecidableEq, Repr

/-- The sizes that only headers of version five hold. -/
structure TargetSizes where
  /-- The size of addresses in bytes. -/
  addressSize : Nat
  /-- The size of segment selectors in bytes. -/
  segmentSelectorSize : Nat
  deriving DecidableEq, Repr

/-- The parameters of a line program's opcodes. -/
structure OpcodeParameters where
  /-- The size of the smallest instruction in bytes. -/
  minimumInstructionLength : Nat
  /-- The most operations of one instruction, one before version four. -/
  maximumOperations : Nat
  /-- Whether rows start as statements. -/
  defaultIsStatement : Bool
  /-- The least advance of the line by a special opcode. -/
  lineBase : Int
  /-- The number of line advances of special opcodes. -/
  lineRange : Nat
  /-- The first special opcode. -/
  opcodeBase : Nat
  /-- The operand counts of the standard opcodes. -/
  operandCounts : List UInt8
  deriving DecidableEq, Repr

/-- The header of one line program. -/
structure LineHeader where
  extent : LineExtent
  sizes : Option TargetSizes
  /-- The length of the header behind this field. -/
  headerLength : Nat
  /-- The file offset of the first opcode. -/
  programOffset : Nat
  parameters : OpcodeParameters
  directories : List String
  files : List SourceFile
  deriving DecidableEq, Repr

namespace LineHeader

/-- The directory that a file's path starts from.  Before version five the table starts at index
one, and index zero is the directory of the compilation, which the header does not hold. -/
def directory? (header : LineHeader) (file : SourceFile) : Option String :=
  if 5 ≤ header.extent.version then header.directories[file.directoryIndex]?
  else if file.directoryIndex = 0 then none
  else header.directories[file.directoryIndex - 1]?

end LineHeader

namespace Decode

/-- Enters the line program at an offset into the section. -/
def lineExtent (offset : Nat) : Decode LineExtent := do
  widen
  seekInSection offset
  let length ← initialLength
  let stop ← stopOf length
  narrow stop
  let format ← format
  let version ← unsigned 2
  if 2 ≤ version ∧ version ≤ 5 then pure ⟨offset, length, stop, format, version⟩
  else throw (.unknownVersion version)

/-- Reads the sizes that a version has. -/
def targetSizes (version : Nat) : Decode (Option TargetSizes) := do
  if 5 ≤ version then
    let addressSize ← readAddressSize
    let segmentSelectorSize ← byte
    pure (some ⟨addressSize, segmentSelectorSize⟩)
  else pure none

/-- Reads a byte that must not be zero. -/
def positiveByte (field : String) : Decode Nat := do
  let value ← byte
  if value = 0 then throw (.impossibleValue field 0) else pure value

/-- Reads the parameters of a version's opcodes. -/
def opcodeParameters (version : Nat) : Decode OpcodeParameters := do
  let minimumInstructionLength ← byte
  let maximumOperations ← if 4 ≤ version then byte else pure 1
  let defaultIsStatement ← byte
  let lineBase ← value (.twosComplement 8)
  let lineRange ← positiveByte "line_range"
  let opcodeBase ← positiveByte "opcode_base"
  let operandCounts ← completed (bytes (opcodeBase - 1))
  pure {
    minimumInstructionLength := minimumInstructionLength
    maximumOperations := maximumOperations
    defaultIsStatement := defaultIsStatement != 0
    lineBase := lineBase
    lineRange := lineRange
    opcodeBase := opcodeBase
    operandCounts := operandCounts }

/-- Reads directories up to an empty one, onto those already read, in reverse order. -/
def directoriesFrom (read : List String) : Nat → Decode (List String)
  | 0 => pure read.reverse
  | rest + 1 => do
    let path ← completed string
    if path.isEmpty then pure read.reverse
    else directoriesFrom (Utf8.decode path :: read) rest

/-- Reads the directories of a header before version five. -/
def directories : Decode (List String) := do
  let seen ← view
  directoriesFrom [] (seen.remaining + 1)

/-- Reads files up to an empty path, onto those already read, in reverse order. -/
def filesFrom (read : List SourceFile) : Nat → Decode (List SourceFile)
  | 0 => pure read.reverse
  | rest + 1 => do
    let path ← completed string
    if path.isEmpty then pure read.reverse
    else do
      let directoryIndex ← uleb128 .word
      let time ← uleb128 .word
      let size ← uleb128 .word
      filesFrom (⟨Utf8.decode path, directoryIndex, some time, some size, none⟩ :: read) rest

/-- Reads the files of a header before version five. -/
def files : Decode (List SourceFile) := do
  let seen ← view
  filesFrom [] (seen.remaining + 1)

end Decode

end Dwarf
