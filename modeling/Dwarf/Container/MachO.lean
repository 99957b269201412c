import Dwarf.Container.Image
import Dwarf.Error
/-!
# Sections of Mach-O files

The sections of a Mach-O file are listed by its segment commands.

## Implementation notes

Commands are read until one does not fit the space that is set aside for them; the others are
left alone.  A segment command that is too short for what it announces makes the file unreadable,
and so does a table of symbols that does not lie inside the file, although no symbol is read.
-/

namespace Dwarf.Container.MachO

/-- Where the fields of headers and commands stand, which depends on the width of a word. -/
structure Layout where
  /-- The size of the file header. -/
  headerSize : Nat
  /-- The code of segment commands. -/
  segmentCommand : Nat
  /-- The size of a segment command without its sections. -/
  segmentSize : Nat
  /-- The place of the number of sections in a segment command. -/
  sectionCount : Nat
  /-- The size of a section header. -/
  sectionSize : Nat
  /-- The width of the size in a section header, which stands behind an address of that width. -/
  word : Nat
  /-- The place of the offset of the contents in a section header. -/
  contents : Nat
  /-- The place of the flags in a section header. -/
  flags : Nat
  /-- The size of one symbol. -/
  symbolSize : Nat

/-- The layout of 64-bit files. -/
def Layout.wide : Layout := ⟨32, 0x19, 72, 64, 80, 8, 48, 64, 16⟩

/-- The layout of 32-bit files. -/
def Layout.narrow : Layout := ⟨28, 0x1, 56, 48, 68, 4, 40, 56, 12⟩

/-- The code of the command that places the table of symbols, in files of either width. -/
def symbolCommand : Nat := 0x2

/-- The size of the command that places the table of symbols. -/
def symbolCommandSize : Nat := 24

/-- A file with its layout and byte order. -/
structure File where
  layout : Layout
  order : ByteOrder
  image : Array UInt8

namespace File

variable (file : File)

/-- The number of some bytes at an offset. -/
def number (offset count : Nat) : Nat := numberAt file.order file.image offset count

/-- Whether sections with these flags have no contents in the file. -/
def isZeroFill (flags : Nat) : Bool := [0x1, 0xc, 0x12].contains (flags % 0x100)

/-- The section whose header stands at an offset. -/
def sectionAt (offset : Nat) : StoredSection :=
  let name := (bytesAt file.image offset 16).takeWhile (· ≠ 0)
  let range : Section :=
    ⟨file.number (offset + file.layout.contents) 4,
      file.number (offset + 32 + file.layout.word) file.layout.word⟩
  let contents :=
    if isZeroFill (file.number (offset + file.layout.flags) 4) then none else some range
  let compressed := do
    let range ← contents
    if (ascii "__zdebug_").isPrefixOf name then markedCompression file.image range else none
  ⟨name, contents, compressed⟩

/-- The sections of the segment command with a size at an offset. -/
def segmentSections (offset size : Nat) : Except ContainerFault (List StoredSection) :=
  if size < file.layout.segmentSize then .error .machCommandSize
  else
    let count := file.number (offset + file.layout.sectionCount) 4
    if size < file.layout.segmentSize + count * file.layout.sectionSize then
      .error .machSectionCount
    else
      .ok ((List.range count).map fun index =>
        file.sectionAt (offset + file.layout.segmentSize + index * file.layout.sectionSize))

/-- Fails unless the table of symbols that a command places lies inside the file. -/
def checkSymbols (offset size : Nat) : Except ContainerFault Unit :=
  let table := file.number (offset + 8) 4
  let count := file.number (offset + 12) 4
  if size < symbolCommandSize then .error .machCommandSize
  else if holds file.image table (count * file.layout.symbolSize) then .ok ()
  else .error .machSymbolTable

/-- The sections that the command with a size at an offset lists; only segment commands list any. -/
def listedSections (offset size : Nat) : Except ContainerFault (List StoredSection) :=
  let code := file.number offset 4
  if code = file.layout.segmentCommand then file.segmentSections offset size
  else if code = symbolCommand then do
    file.checkSymbols offset size
    pure []
  else pure []

/-- The sections of a number of commands from an offset on, which stay before an end. -/
def commandSections (stop : Nat) :
    (offset count : Nat) → Except ContainerFault (List StoredSection)
  | _, 0 => .ok []
  | offset, count + 1 =>
    let size := file.number (offset + 4) 4
    if stop < offset + 8 ∨ size < 8 ∨ stop < offset + size then .ok []
    else do
      let found ← file.listedSections offset size
      let others ← commandSections stop (offset + size) count
      pure (found ++ others)

/-- The sections in the order of the commands. -/
def sections : Except ContainerFault (List StoredSection) :=
  let header := file.layout.headerSize
  if !holds file.image 0 header then .error .machHeaderTruncated
  else
    let space := file.number 20 4
    if holds file.image header space then
      file.commandSections (header + space) header (file.number 16 4)
    else .ok []

end File

/-- Whether a section goes by a name: its own, or the one that the name has in such files, which
is cut to sixteen bytes. -/
def answersTo (name : List UInt8) (stored : StoredSection) : Bool :=
  stored.name == name
    || ((ascii ".").isPrefixOf name && stored.name == ascii "__" ++ (name.drop 1).take 14)
    || ((ascii ".debug_").isPrefixOf name
      && stored.name == ascii "__zdebug_" ++ (name.drop 7).take 7)

/-- The first section that goes by a name. -/
def find? (sections : List StoredSection) (name : String) : Option StoredSection :=
  sections.find? (answersTo (ascii name))

end Dwarf.Container.MachO
