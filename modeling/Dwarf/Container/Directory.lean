import Dwarf.Container.Elf
import Dwarf.Container.MachO
import Dwarf.Tables.Basic
/-!
# Debug sections of object files

The debug sections of an object file by their usual names, whatever the container calls them, and
the readers bound to them.

A section whose contents are compressed is listed and never read.  A section that is absent, empty
or outside the file has an unbound reader.  Of the containers that object files come in, ELF and
Mach-O are known here; a directory may come from elsewhere, and binding readers to it is the same.
-/

namespace Dwarf

/-- A debug section that was found in an object file. -/
structure ListedSection where
  /-- The usual name. -/
  name : String
  /-- Where the contents lie. -/
  range : Section
  /-- Whether the contents are compressed. -/
  compressed : Bool
  deriving DecidableEq, Repr

/-- The debug sections of an object file. -/
structure SectionDirectory where
  /-- The sections in the order of `SectionDirectory.kinds`. -/
  entries : List ListedSection
  /-- The size of the file. -/
  fileSize : Nat
  deriving DecidableEq, Repr

namespace Container

/-- How a container finds a section by name. -/
abbrev Finder := String → Option StoredSection

/-- What the first bytes say about a file. -/
inductive Magic where
  | elf (layout : Elf.Layout)
  | machO (layout : MachO.Layout) (order : ByteOrder)
  | unsupported

/-- The first bytes of the containers. -/
def magics : List (List UInt8 × Magic) :=
  [([0x7f, 0x45, 0x4c, 0x46, 1], .elf .narrow),
   ([0x7f, 0x45, 0x4c, 0x46, 2], .elf .wide),
   ([0xfe, 0xed, 0xfa, 0xce], .machO .narrow .big),
   ([0xce, 0xfa, 0xed, 0xfe], .machO .narrow .little),
   ([0xfe, 0xed, 0xfa, 0xcf], .machO .wide .big),
   ([0xcf, 0xfa, 0xed, 0xfe], .machO .wide .little),
   ([0xca, 0xfe, 0xba, 0xbe], .unsupported),
   ([0xca, 0xfe, 0xba, 0xbf], .unsupported),
   (ascii "!<arch>\n", .unsupported),
   (ascii "!<thin>\n", .unsupported),
   (ascii "dyld_v1 ", .unsupported)]

/-- The fewest bytes of a file whose container can be told. -/
def magicSize : Nat := 16

/-- Recognises the container of an image and reads its section table. -/
def finder (image : Array UInt8) : Except ContainerFault Finder := do
  if image.size < magicSize then throw .magicUnreadable
  else
    let start := bytesAt image 0 magicSize
    match magics.find? (fun magic => magic.1.isPrefixOf start) with
    | some (_, .elf layout) => pure (Elf.find? (← Elf.sections layout image))
    | some (_, .machO layout order) =>
      pure (MachO.find? (← MachO.File.sections ⟨layout, order, image⟩))
    | some (_, .unsupported) => throw .formatUnsupported
    | none => throw .magicUnknown

end Container

namespace SectionDirectory

/-- What the names of debug sections end in, in the order in which sections are listed. -/
def kinds : List String :=
  ["abbrev", "addr", "info", "line", "line_str", "ranges", "rnglists", "str", "str_offsets",
   "types", "loc", "loclists", "frame", "names"]

/-- The debug section of a kind, if the file has one with contents. -/
def ofKind? (find : Container.Finder) (kind : String) : Option ListedSection := do
  let stored ← (find (".debug_" ++ kind)).or (find ("__debug_" ++ kind))
  match stored.compressed with
  | some range => pure ⟨".debug_" ++ kind, range, true⟩
  | none =>
    let range ← stored.contents
    pure ⟨".debug_" ++ kind, range, false⟩

/-- Finds the debug sections of an ELF or Mach-O file. -/
def ofImage (image : Array UInt8) : Except Error SectionDirectory :=
  match Container.finder image with
  | .error fault => .error (.container fault)
  | .ok find => .ok ⟨kinds.filterMap (ofKind? find), image.size⟩

/-- Where the readable contents of a section lie. -/
def find? (sections : SectionDirectory) (name : String) : Option Section :=
  (sections.entries.find? fun entry => entry.name == name && !entry.compressed).map
    ListedSection.range

/-- A reader for a table, which is unbound unless its section has bytes in the file. -/
def reader (sections : SectionDirectory) (table : Table) (capacity : Nat) : Except Error Reader :=
  match sections.find? table.sectionName with
  | none => .ok .unbound
  | some range =>
    match Reader.bound (.zeroed capacity) range sections.fileSize with
    | .error (.emptySection _) => .ok .unbound
    | bound => bound

/-- Readers for all tables with buffers of the given capacities, of which there must be enough. -/
def bind (sections : SectionDirectory) (capacities : List Nat) : Except Error (Bank Reader) :=
  match capacities with
  | info :: abbreviations :: strings :: lineStrings :: stringOffsets :: lines :: _ => do
    pure {
      info := ← sections.reader .info info
      abbreviations := ← sections.reader .abbreviations abbreviations
      strings := ← sections.reader .strings strings
      lineStrings := ← sections.reader .lineStrings lineStrings
      stringOffsets := ← sections.reader .stringOffsets stringOffsets
      lines := ← sections.reader .lines lines }
  | few => .error (.impossibleValue "buffer count" few.length)

end SectionDirectory

end Dwarf
