import Dwarf.Decode.Integer
/-!
# Unit headers

The header of a unit starts with its length.  Versions two to four are laid out alike; version
five adds a type of unit, which decides what else the header holds.
-/

namespace Dwarf

/-- The header of one unit. -/
structure UnitHeader where
  /-- The offset of the unit in its section. -/
  sectionOffset : Nat
  /-- The file offset of the initial length. -/
  start : Nat
  /-- The file offset of the first entry. -/
  entries : Nat
  /-- The file offset one past the unit. -/
  stop : Nat
  /-- The length that the unit declares. -/
  length : Nat
  /-- The format that the initial length implies. -/
  format : Format
  /-- The version of the format. -/
  version : Nat
  /-- The type of unit, which is a compile unit before version five. -/
  unitType : UnitType
  /-- The offset of the unit's abbreviations in their section. -/
  abbreviationsOffset : Nat
  /-- The size of addresses in bytes. -/
  addressSize : Nat
  /-- The identity of a skeleton or split compile unit. -/
  splitId : Option Nat
  /-- The signature of a type unit. -/
  typeSignature : Option Nat
  /-- The offset of the type entry in a type unit. -/
  typeOffset : Option Nat
  deriving DecidableEq, Repr

/-- Where a unit lies, as its initial length tells. -/
structure UnitExtent where
  /-- The offset of the unit in its section. -/
  sectionOffset : Nat
  /-- The file offset of the initial length. -/
  start : Nat
  /-- The length that the unit declares. -/
  length : Nat
  /-- The file offset one past the unit. -/
  stop : Nat
  deriving DecidableEq, Repr

namespace Decode

/-- Reads the initial length of the unit at the position. -/
def unitExtent : Decode UnitExtent := do
  let seen ← view
  let length ← initialLength
  let stop ← stopOf length
  pure ⟨seen.sectionOffset, seen.offset, length, stop⟩

/-- The fields of a header behind its version. -/
structure UnitFields where
  unitType : UnitType
  addressSize : Nat
  abbreviationsOffset : Nat
  splitId : Option Nat
  typeSignature : Option Nat
  typeOffset : Option Nat

/-- Reads the fields of a header of versions two to four. -/
def unitFieldsEarly : Decode UnitFields := do
  let abbreviationsOffset ← sectionOffset
  let addressSize ← readAddressSize
  pure ⟨.compile, addressSize, abbreviationsOffset, none, none, none⟩

/-- Reads the fields of a header of version five. -/
def unitFieldsTyped : Decode UnitFields := do
  let unitType : UnitType := ⟨← byte⟩
  let addressSize ← readAddressSize
  let abbreviationsOffset ← sectionOffset
  match unitType with
  | .skeleton | .splitCompile => do
    let splitId ← unsigned 8
    pure ⟨unitType, addressSize, abbreviationsOffset, some splitId, none, none⟩
  | .type | .splitType => do
    let signature ← unsigned 8
    let typeOffset ← sectionOffset
    pure ⟨unitType, addressSize, abbreviationsOffset, none, some signature, some typeOffset⟩
  | _ => pure ⟨unitType, addressSize, abbreviationsOffset, none, none, none⟩

/-- Reads the fields that a version has. -/
def unitFields (version : Nat) : Decode UnitFields :=
  if 2 ≤ version ∧ version ≤ 4 then unitFieldsEarly
  else if version = 5 then unitFieldsTyped
  else throw (.unknownVersion version)

/-- Enters the unit whose initial length was just read, and reads the rest of its header. -/
def unitHeaderIn (extent : UnitExtent) : Decode UnitHeader := do
  narrow extent.stop
  let format ← format
  let version ← unsigned 2
  record ({ · with version := some version })
  let fields ← unitFields version
  let seen ← view
  pure {
    sectionOffset := extent.sectionOffset
    start := extent.start
    entries := seen.offset
    stop := extent.stop
    length := extent.length
    format := format
    version := version
    unitType := fields.unitType
    abbreviationsOffset := fields.abbreviationsOffset
    addressSize := fields.addressSize
    splitId := fields.splitId
    typeSignature := fields.typeSignature
    typeOffset := fields.typeOffset }

/-- Reads the header of the unit at the position, and narrows the window to the unit. -/
def unitHeader : Decode UnitHeader := do unitHeaderIn (← unitExtent)

end Decode

end Dwarf
