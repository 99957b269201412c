import Dwarf.Form
import Dwarf.Text.Numeral
/-!
# Errors

Every way in which reading debug information fails, as a cause with its facts; the wording and
the class of a cause are functions of it.
-/

namespace Dwarf

/-- Why a file could not serve an access. -/
inductive AccessFailure where
  | notFound
  | permissionDenied
  | unexpectedEof
  | interrupted
  | invalidInput
  | invalidData
  | timedOut
  | wouldBlock
  | brokenPipe
  | other
  deriving DecidableEq, Repr

/-- The wording of a failed access. -/
def AccessFailure.message : AccessFailure → String
  | .notFound => "entity not found"
  | .permissionDenied => "permission denied"
  | .unexpectedEof => "unexpected end of file"
  | .interrupted => "operation interrupted"
  | .invalidInput => "invalid input parameter"
  | .invalidData => "invalid data"
  | .timedOut => "timed out"
  | .wouldBlock => "operation would block"
  | .brokenPipe => "broken pipe"
  | .other => "other error"

/-- Why the container of an object file cannot be read. -/
inductive ContainerFault where
  | magicUnreadable
  | magicUnknown
  | formatUnsupported
  | elfHeaderTruncated
  | elfHeaderUnsupported
  | elfFirstSectionTruncated
  | elfSectionEntrySize
  | elfSectionTable
  | elfNameTableMissing
  | elfNameTableIndex
  | elfNameTableSize
  | machHeaderTruncated
  | machCommandSize
  | machSectionCount
  | machSymbolTable
  deriving DecidableEq, Repr

/-- The wording of a container fault. -/
def ContainerFault.message : ContainerFault → String
  | .magicUnreadable => "Could not read file magic"
  | .magicUnknown => "Unknown file magic"
  | .formatUnsupported => "Unsupported file format"
  | .elfHeaderTruncated => "Invalid ELF header size or alignment"
  | .elfHeaderUnsupported => "Unsupported ELF header"
  | .elfFirstSectionTruncated => "Invalid ELF section header offset or size"
  | .elfSectionEntrySize => "Invalid ELF section header entry size"
  | .elfSectionTable => "Invalid ELF section header offset/size/alignment"
  | .elfNameTableMissing => "Missing ELF e_shstrndx"
  | .elfNameTableIndex => "Invalid ELF e_shstrndx"
  | .elfNameTableSize => "Invalid ELF shstrtab size"
  | .machHeaderTruncated => "Invalid Mach-O header size or alignment"
  | .machCommandSize => "Invalid Mach-O command size"
  | .machSectionCount => "Invalid Mach-O number of sections"
  | .machSymbolTable => "Invalid Mach-O symbol table offset or size"

/-- The cause of a failure, with the facts that locate it. -/
inductive Error where
  /-- The file refused an access. -/
  | access (offset length : Nat) (failure : AccessFailure)
  /-- The file delivered fewer bytes than were needed. -/
  | shortDelivery (offset needed got : Nat)
  /-- A position lies outside the window. -/
  | outsideWindow (offset first stop : Nat)
  /-- The window ends before the bytes that are needed. -/
  | tooFewBytes (offset needed remaining : Nat)
  /-- An initial length of the reserved range. -/
  | reservedLength (value : Nat)
  /-- An address size that is neither four nor eight. -/
  | addressSizeInvalid (size : Nat)
  /-- A LEB128 value that does not fit its type. -/
  | leb128TooWide (offset bits : Nat)
  /-- A form that the operation cannot read. -/
  | unreadableForm (form : Form)
  /-- A string without its NUL. -/
  | stringWithoutEnd (offset : Nat)
  /-- A string that is longer than the buffer it must stay in. -/
  | stringBeyondBuffer (offset capacity : Nat)
  /-- A version outside the known ones. -/
  | unknownVersion (version : Nat)
  /-- An entry whose abbreviation is not in the table. -/
  | unknownAbbreviation (code : Nat)
  /-- A field or setting with an impossible value. -/
  | impossibleValue (field : String) (value : Nat)
  /-- An object file whose container cannot be read. -/
  | container (fault : ContainerFault)
  /-- An operation on a reader that is bound to no section. -/
  | unbound
  /-- An address before the address size is known. -/
  | addressSizeMissing
  /-- An offset before the format is known. -/
  | formatMissing
  /-- A buffer that is too small for the reader or for one value. -/
  | smallBuffer (capacity minimum : Nat)
  /-- A section with no bytes inside the file. -/
  | emptySection (offset : Nat)
  deriving DecidableEq, Repr

/-- The kinds of causes that callers tell apart. -/
inductive Category where
  /-- The file did not supply the bytes. -/
  | access
  /-- A read or a seek would leave the window. -/
  | bounds
  /-- The bytes do not form a valid encoding. -/
  | malformed
  /-- The reader was driven wrongly. -/
  | misuse
  deriving DecidableEq, Repr

namespace Error

/-- The class of a cause. -/
def category : Error → Category
  | .access .. | .shortDelivery .. => .access
  | .outsideWindow .. | .tooFewBytes .. => .bounds
  | .reservedLength .. | .addressSizeInvalid .. | .leb128TooWide .. | .unreadableForm ..
  | .stringWithoutEnd .. | .stringBeyondBuffer .. | .unknownVersion ..
  | .unknownAbbreviation .. | .impossibleValue .. | .container .. => .malformed
  | .unbound | .addressSizeMissing | .formatMissing | .smallBuffer .. | .emptySection .. =>
    .misuse

/-- The wording of a cause. -/
def message : Error → String
  | .access offset length failure =>
    "I/O error reading " ++ toString length ++ " bytes at offset " ++ Numeral.hex offset ++ ": "
      ++ failure.message
  | .shortDelivery offset needed got =>
    "short read at offset " ++ Numeral.hex offset ++ ": needed " ++ toString needed
      ++ " bytes, got " ++ toString got
  | .outsideWindow offset first stop =>
    "offset " ++ Numeral.hex offset ++ " outside section window [" ++ Numeral.hex first ++ ", "
      ++ Numeral.hex stop ++ "]"
  | .tooFewBytes offset needed remaining =>
    "truncated data at offset " ++ Numeral.hex offset ++ ": needed " ++ toString needed
      ++ " bytes, " ++ toString remaining ++ " remain"
  | .reservedLength value => "reserved initial length value " ++ Numeral.hex8 value
  | .addressSizeInvalid size => "unsupported address size " ++ toString size
  | .leb128TooWide offset bits =>
    "LEB128 value at offset " ++ Numeral.hex offset ++ " overflows a " ++ toString bits
      ++ "-bit integer"
  | .unreadableForm form => "unsupported attribute form " ++ form.reportName
  | .stringWithoutEnd offset =>
    "unterminated string starting at offset " ++ Numeral.hex offset
  | .stringBeyondBuffer offset capacity =>
    "string at offset " ++ Numeral.hex offset ++ " does not fit a " ++ toString capacity
      ++ "-byte buffer"
  | .unknownVersion version => "unsupported DWARF version " ++ toString version
  | .unknownAbbreviation code => "abbreviation code " ++ toString code ++ " not found"
  | .impossibleValue field value => "invalid " ++ field ++ " value " ++ toString value
  | .container fault => "object file error: " ++ fault.message
  | .unbound => "section reader is not enabled"
  | .addressSizeMissing => "address size has not been established"
  | .formatMissing => "offset size has not been established"
  | .smallBuffer capacity minimum =>
    "scratch buffer of " ++ toString capacity ++ " bytes is below the " ++ toString minimum
      ++ "-byte minimum"
  | .emptySection offset => "empty section at offset " ++ Numeral.hex offset

end Error

end Dwarf
