import Dwarf.Container.Image
import Dwarf.Error
/-!
# Sections of ELF files

The section table of an ELF file, with names from the table of section names.

## Implementation notes

Only what leads to the sections is read.  A name that does not end inside the table of names makes
its section impossible to find, and nothing else.
-/

namespace Dwarf.Container.Elf

/-- Where the fields of headers stand, which depends on the width of a word. -/
structure Layout where
  /-- The width of offsets and sizes. -/
  word : Nat
  /-- The size of the file header. -/
  headerSize : Nat
  /-- The place of the offset of the section table. -/
  tableOffset : Nat
  /-- The place of the size of a section header. -/
  entrySize : Nat
  /-- The place of the number of sections. -/
  entryCount : Nat
  /-- The place of the index of the table of names. -/
  nameIndex : Nat
  /-- The size of a section header. -/
  sectionSize : Nat
  /-- The place of the offset of the contents in a section header. -/
  contents : Nat
  /-- The place of the size of the contents in a section header. -/
  size : Nat
  /-- The place of the link in a section header. -/
  link : Nat
  /-- The size of the header of compressed contents. -/
  compressionHeader : Nat

/-- The layout of 64-bit files. -/
def Layout.wide : Layout := ⟨8, 64, 40, 58, 60, 62, 64, 24, 32, 40, 24⟩

/-- The layout of 32-bit files. -/
def Layout.narrow : Layout := ⟨4, 52, 32, 46, 48, 50, 40, 16, 20, 24, 12⟩

/-- A file with its layout and byte order. -/
structure File where
  layout : Layout
  order : ByteOrder
  image : Array UInt8

/-- A section header, with its name as an offset into the table of names. -/
structure SectionHeader where
  name : Nat
  type : Nat
  flags : Nat
  offset : Nat
  size : Nat
  link : Nat

/-- The section type without contents. -/
def emptyType : Nat := 8

/-- The flag of compressed contents, as a power of two. -/
def compressedFlag : Nat := 0x800

/-- The index that stands for the link of the first section header. -/
def linkedIndex : Nat := 0xffff

namespace SectionHeader

/-- The contents of a section, unless its type has none. -/
def contents (header : SectionHeader) : Option Section :=
  if header.type = emptyType then none else some ⟨header.offset, header.size⟩

/-- Whether the contents are flagged as compressed. -/
def isFlagged (header : SectionHeader) : Bool := header.flags / compressedFlag % 2 == 1

end SectionHeader

namespace File

variable (file : File)

/-- The number of some bytes at an offset. -/
def number (offset count : Nat) : Nat := numberAt file.order file.image offset count

/-- The offset of the section table. -/
def tableOffset : Nat := file.number file.layout.tableOffset file.layout.word

/-- The section header at an offset. -/
def headerAt (offset : Nat) : SectionHeader where
  name := file.number offset 4
  type := file.number (offset + 4) 4
  flags := file.number (offset + 8) file.layout.word
  offset := file.number (offset + file.layout.contents) file.layout.word
  size := file.number (offset + file.layout.size) file.layout.word
  link := file.number (offset + file.layout.link) 4

/-- Fails unless section headers have the size of the layout. -/
def checkEntrySize : Except ContainerFault Unit :=
  if file.number file.layout.entrySize 2 = file.layout.sectionSize then .ok ()
  else .error .elfSectionEntrySize

/-- The number of sections; where the header has no room for it, the first section has it. -/
def sectionCount : Except ContainerFault Nat := do
  let count := file.number file.layout.entryCount 2
  if count = 0 then
    file.checkEntrySize
    if holds file.image file.tableOffset file.layout.sectionSize then
      pure (file.headerAt file.tableOffset).size
    else throw .elfFirstSectionTruncated
  else pure count

/-- All section headers. -/
def sectionHeaders : Except ContainerFault (List SectionHeader) := do
  if file.tableOffset = 0 then pure []
  else
    let count ← file.sectionCount
    if count = 0 then pure []
    else
      file.checkEntrySize
      if holds file.image file.tableOffset (count * file.layout.sectionSize) then
        pure ((List.range count).map fun index =>
          file.headerAt (file.tableOffset + index * file.layout.sectionSize))
      else throw .elfSectionTable

/-- The index of the table of names. -/
def nameTableIndex (headers : List SectionHeader) : Nat :=
  let index := file.number file.layout.nameIndex 2
  if index = linkedIndex then (headers.head?.map SectionHeader.link).getD 0 else index

/-- The table of names; none if that section has no contents. -/
def nameTable (headers : List SectionHeader) : Except ContainerFault (Option Section) := do
  let index := file.nameTableIndex headers
  if index = 0 then throw .elfNameTableMissing
  else
    match headers[index]? with
    | none => throw .elfNameTableIndex
    | some header =>
      match header.contents with
      | none => pure none
      | some range =>
        if range.offset + range.size ≤ Word.max then pure (some range)
        else throw .elfNameTableSize

/-- The name at an offset into a table of names, which lies inside the file and ends the name. -/
def nameAt? (names : Section) (offset : Nat) : Option (List UInt8) :=
  if holds file.image names.offset names.size ∧ offset ≤ names.size then
    let bytes := bytesAt file.image (names.offset + offset) (names.size - offset)
    let name := bytes.takeWhile (· ≠ 0)
    if name.length < bytes.length then some name else none
  else none

/-- The compressed data of contents that the section table marks as compressed. -/
def flaggedCompression (contents : Section) : Option Section :=
  let header := file.layout.compressionHeader
  let type := file.number contents.offset 4
  if holds file.image contents.offset header ∧ header ≤ contents.size ∧ (type = 1 ∨ type = 2) then
    some ⟨contents.offset + header, contents.size - header⟩
  else none

/-- The compressed data of a section, if its contents are compressed. -/
def compression (header : SectionHeader) (name : List UInt8) : Option Section := do
  let contents ← header.contents
  if header.isFlagged then file.flaggedCompression contents
  else if (ascii ".zdebug_").isPrefixOf name then markedCompression file.image contents
  else none

/-- The sections that can be found by name, in the order of the section table. -/
def sections : Except ContainerFault (List StoredSection) := do
  match ← file.sectionHeaders with
  | [] => pure []
  | headers =>
    match ← file.nameTable headers with
    | none => pure []
    | some names =>
      pure (headers.filterMap fun header => do
        let name ← file.nameAt? names header.name
        pure ⟨name, header.contents, file.compression header name⟩)

end File

/-- Reads the sections of an image that starts like an ELF file. -/
def sections (layout : Layout) (image : Array UInt8) : Except ContainerFault (List StoredSection) :=
  if !holds image 0 layout.headerSize then .error .elfHeaderTruncated
  else
    match bytesAt image 5 2 with
    | [1, 1] => File.sections ⟨layout, .little, image⟩
    | [2, 1] => File.sections ⟨layout, .big, image⟩
    | _ => .error .elfHeaderUnsupported

/-- The first section with a name, or else with the spelling for compressed contents. -/
def find? (sections : List StoredSection) (name : String) : Option StoredSection :=
  let named (name : List UInt8) := sections.find? (·.name == name)
  match named (ascii name) with
  | some found => some found
  | none =>
    if (ascii ".debug_").isPrefixOf (ascii name) then
      named (ascii ".zdebug_" ++ (ascii name).drop 7)
    else none

end Dwarf.Container.Elf
