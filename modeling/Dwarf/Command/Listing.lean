import Dwarf.Container.Directory
import Dwarf.Line.Header
import Dwarf.Memory
import Dwarf.Unit.Walk
/-!
# Listings

The lines of text in which sections, units and line programs are shown.
-/

namespace Dwarf.Command

/-- Lines of text. -/
abbrev Listing := List String

namespace Listing

/-- One row of the table of sections. -/
def row (name offset size : String) : String :=
  Numeral.padRight 20 name ++ " " ++ Numeral.padLeft ' ' 12 offset ++ " "
    ++ Numeral.padLeft ' ' 12 size

/-- The row of a section. -/
def ofSection (entry : ListedSection) : String :=
  row entry.name (Numeral.hex entry.range.offset) (Numeral.hex entry.range.size)
    ++ (if entry.compressed then "  (compressed, not streamable)" else "")

/-- The table of sections. -/
def ofSections (sections : SectionDirectory) : Listing :=
  if sections.entries.isEmpty then ["no DWARF sections"]
  else row "SECTION" "OFFSET" "SIZE" :: sections.entries.map ofSection

/-- An address attribute. -/
def ofAddress : AttributeAddress → String
  | .address address => Numeral.hex address
  | .index index => ".debug_addr[" ++ toString index ++ "]"
  | .offset offset => "+" ++ Numeral.hex offset

/-- The heading of a unit at an offset. -/
def unitHeading (offset : Nat) : String := "unit " ++ Numeral.hex8 offset

/-- A property of a unit behind its label, if it has the property. -/
def property (label : String) (value : Option String) : Listing :=
  (value.map (label ++ ·)).toList

/-- A decoded unit. -/
def ofUnit (report : DecodedUnit) : Listing :=
  let header := report.header
  let summary := report.summary
  (unitHeading header.sectionOffset ++ ": DWARF " ++ toString header.version ++ " "
      ++ header.unitType.name ++ " (" ++ toString (header.format.wordSize * 8)
      ++ "-bit, address size " ++ toString header.addressSize ++ ")")
    :: property "  tag:       " (summary.tag.map Constant.name)
    ++ property "  name:      " summary.name
    ++ property "  comp_dir:  " summary.directory
    ++ property "  producer:  " summary.producer
    ++ property "  language:  " (summary.language.map Constant.name)
    ++ property "  stmt_list: " (summary.lineProgram.map Numeral.hex)
    ++ property "  low_pc:    " (summary.lowAddress.map ofAddress)

/-- A unit that was visited. -/
def ofVisit (visit : Visit) : Listing :=
  match visit.report with
  | .ok report => ofUnit report
  | .error error => [unitHeading visit.offset ++ ": skipped (" ++ error.message ++ ")"]

/-- The operand counts of the standard opcodes, which are numbered from one. -/
def operandCounts (counts : List UInt8) : String :=
  " ".intercalate (counts.mapIdx fun index count =>
    (⟨index + 1⟩ : Constant .standardOpcode).name ++ "=" ++ toString count.toNat)

/-- A file of a line program. -/
def ofFile (header : LineHeader) (index : Nat) (file : SourceFile) : String :=
  "  file [" ++ toString index ++ "] " ++ file.path ++ " (dir " ++ toString file.directoryIndex
    ++ ": " ++ (header.directory? file).getD "" ++ ")"

/-- The header of a line program. -/
def ofLineHeader (header : LineHeader) : Listing :=
  let parameters := header.parameters
  ["  line program " ++ Numeral.hex header.extent.sectionOffset ++ ": version "
      ++ toString header.extent.version ++ ", min_inst "
      ++ toString parameters.minimumInstructionLength ++ ", line_base "
      ++ toString parameters.lineBase ++ ", line_range " ++ toString parameters.lineRange
      ++ ", opcode_base " ++ toString parameters.opcodeBase,
    "  opcode operands: " ++ operandCounts parameters.operandCounts]
    ++ header.directories.mapIdx (fun index directory =>
      "  dir  [" ++ toString index ++ "] " ++ directory)
    ++ header.files.mapIdx (ofFile header)

/-- The line program of a unit, or why it cannot be read; nothing where the program stopped. -/
def ofLineProgram (offset : Nat) (header : Except Error (Halting LineHeader)) : Listing :=
  match header with
  | .ok (.returned header) => ofLineHeader header
  | .ok .stopped => []
  | .error error =>
    ["  line program at " ++ Numeral.hex offset ++ ": skipped (" ++ error.message ++ ")"]

end Listing

end Dwarf.Command
