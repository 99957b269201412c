import Dwarf.Query
/-!
# Integers

Fixed-width integers have the byte order of the host, which is little-endian.  A LEB128 integer is a
run of bytes with seven bits each, lowest first; every byte but the last has its high bit set.

## Implementation notes

At most ten groups make a 64-bit value.  The tenth has room for one bit: it must be zero or one in
an unsigned encoding, and all zeros or all ones in a signed one.  The larger of the address sizes
that are accepted is the width of a pointer of the host.
-/

namespace Dwarf.Decode

/-- Reads an unsigned integer of some bytes. -/
def unsigned (width : Nat) : Decode Nat := do
  let bytes ← take width
  pure (littleEndian bytes)

/-- Reads one byte. -/
def byte : Decode Nat := unsigned 1

/-- Reads a value of a fixed-width type. -/
def value (type : IntType) : Decode Int := do
  let pattern ← unsigned type.bytes
  pure (type.ofPattern pattern)

/-- Reads an unsigned integer of one to eight bytes. -/
def unsignedChecked (width : Nat) : Decode Nat :=
  if 1 ≤ width ∧ width ≤ 8 then unsigned width
  else throw (.impossibleValue "integer width" width)

/-- Reads the groups of an unsigned encoding, of which some may follow before the tenth. -/
def unsignedGroups (start : Nat) : Nat → Decode Nat
  | 0 => do
    let last ← byte
    if last ≤ 1 then pure last else throw (.leb128TooWide start 64)
  | more + 1 => do
    let group ← byte
    if group < 128 then pure group
    else do
      let rest ← unsignedGroups start more
      pure (group % 128 + 128 * rest)

/-- Reads the groups of a signed encoding, of which some may follow before the tenth. -/
def signedGroups (start : Nat) : Nat → Decode Int
  | 0 => do
    let last ← byte
    if last = 0 then pure 0
    else if last = 0x7f then pure (-1)
    else throw (.leb128TooWide start 64)
  | more + 1 => do
    let group ← byte
    if group < 64 then pure group
    else if group < 128 then pure (group - 128 : Int)
    else do
      let rest ← signedGroups start more
      pure ((group % 128 : Nat) + 128 * rest)

/-- Reads an unsigned LEB128 integer that has to fit a type. -/
def uleb128 (type : IntType) : Decode Nat := do
  let start := (← view).offset
  let value ← unsignedGroups start 9
  if type.holds value then pure value else throw (.leb128TooWide start type.bits)

/-- Reads a signed LEB128 integer that has to fit a type. -/
def sleb128 (type : IntType) : Decode Int := do
  let start := (← view).offset
  let value ← signedGroups start 9
  if type.holds value then pure value else throw (.leb128TooWide start type.bits)

/-- Reads a constant of some family, coded as an unsigned LEB128 integer of sixteen bits. -/
def constant (family : Family) : Decode (Constant family) := do
  let code ← uleb128 .half
  pure ⟨code⟩

/-- The first value of an initial length that is reserved. -/
def reservedLengths : Nat := 0xfffffff0

/-- The initial length that announces a 64-bit length. -/
def wideLength : Nat := 0xffffffff

/-- Reads an initial length, and records the format it implies. -/
def initialLength : Decode Nat := do
  let word ← unsigned 4
  if word < reservedLengths then
    record ({ · with format := some .dwarf32 })
    pure word
  else if word = wideLength then
    let length ← unsigned 8
    record ({ · with format := some .dwarf64 })
    pure length
  else
    throw (.reservedLength word)

/-- Reads an offset of a format. -/
def offset (format : Format) : Decode Nat := unsigned format.wordSize

/-- The format that an initial length established. -/
def format : Decode Format := do
  match (← view).context.format with
  | some format => pure format
  | none => throw .formatMissing

/-- The address size that a header established. -/
def addressSize : Decode Nat := do
  match (← view).context.addressSize with
  | some size => pure size
  | none => throw .addressSizeMissing

/-- Reads an offset of the established format. -/
def sectionOffset : Decode Nat := do offset (← format)

/-- Reads an address of the established size. -/
def address : Decode Nat := do unsignedChecked (← addressSize)

/-- Accepts the address sizes of 32-bit and of 64-bit targets. -/
def checkAddressSize (size : Nat) : Except Error Nat :=
  if size = 4 ∨ size = 8 then .ok size else .error (.addressSizeInvalid size)

/-- Records an address size, if it is one. -/
def recordAddressSize (size : Nat) : Decode Unit := do
  let size ← ofExcept (checkAddressSize size)
  record ({ · with addressSize := some size })

/-- Reads the byte that holds an address size, and records it. -/
def readAddressSize : Decode Nat := do
  let size ← byte
  recordAddressSize size
  pure size

end Dwarf.Decode
