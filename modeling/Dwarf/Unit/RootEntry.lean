import Dwarf.Tables.Strings
import Dwarf.Text.Utf8
import Dwarf.Unit.Abbreviation
/-!
# What the root entry says about a unit

The attributes of the root entry that name the unit are kept, and all others are skipped.

## Implementation notes

A string index can be resolved only once the base of the unit's string offsets is known, and that
attribute may follow the index.  So indices are collected while the entry is read and resolved
behind it, in order.
-/

namespace Dwarf

/-- What the root entry of a unit says. -/
structure RootEntry where
  tag : Option Tag
  name : Option String
  directory : Option String
  producer : Option String
  language : Option Language
  /-- The offset of the unit's line program in its section. -/
  lineProgram : Option Nat
  lowAddress : Option AttributeAddress
  deriving DecidableEq, Repr

/-- The attributes of a unit that are text. -/
inductive UnitText where
  | name
  | directory
  | producer
  deriving DecidableEq, Repr

/-- The text that an attribute gives, if it gives one. -/
def UnitText.ofAttribute? : Attribute → Option UnitText
  | .entryName => some .name
  | .directory => some .directory
  | .producer => some .producer
  | _ => none

namespace RootEntry

/-- The summary of an entry that says nothing. -/
def empty : RootEntry := ⟨none, none, none, none, none, none, none⟩

/-- A summary with one of its texts replaced by the text of some bytes. -/
def setText (summary : RootEntry) (text : UnitText) (bytes : List UInt8) : RootEntry :=
  let value := some (Utf8.decode bytes)
  match text with
  | .name => { summary with name := value }
  | .directory => { summary with directory := value }
  | .producer => { summary with producer := value }

end RootEntry

/-- What was read of an entry, with the string indices that are still open. -/
structure EntryReading where
  /-- The summary so far. -/
  summary : RootEntry
  /-- The open string indices, latest first. -/
  indices : List (UnitText × Nat)
  /-- The base of the unit's string offsets, if the entry gave one. -/
  base : Option Nat
  deriving DecidableEq, Repr

namespace Decode

/-- Reads a constant, or takes the one that the abbreviation keeps; a negative one is none. -/
def constantValue (spec : AttributeSpecification) : Decode (Option Nat) :=
  match spec.implicit with
  | some value => pure (if 0 ≤ value then some value.toNat else none)
  | none => some <$> offsetValue spec.form

end Decode

namespace Consult

/-- Reads an attribute that is not a string. -/
def plainAttribute (spec : AttributeSpecification) (reading : EntryReading) :
    Decode EntryReading := do
  match spec.name with
  | .stringOffsetsBase => do
    let base ← Decode.constantValue spec
    pure { reading with base }
  | .sourceLanguage => do
    let code ← Decode.constantValue spec
    let language := (code.filter (· < 0x10000)).map (fun code => (⟨code⟩ : Language))
    pure { reading with summary := { reading.summary with language } }
  | .lineProgram => do
    let lineProgram ← Decode.constantValue spec
    pure { reading with summary := { reading.summary with lineProgram } }
  | .lowAddress => do
    let lowAddress ← Decode.addressValue spec.form
    pure { reading with summary := { reading.summary with lowAddress := some lowAddress } }
  | _ => do
    Decode.skipValue spec.form
    pure reading

/-- Reads one attribute of the root entry. -/
def rootAttribute (spec : AttributeSpecification) (reading : EntryReading) : Consult EntryReading :=
  match UnitText.ofAttribute? spec.name with
  | none => (plainAttribute spec reading).on .info
  | some text =>
    if spec.form.isString then do
      let bytes ← completed (stringValue .info spec.form)
      pure { reading with summary := reading.summary.setText text bytes }
    else if spec.form.isStringIndex then do
      let index ← (Decode.offsetValue spec.form).on .info
      pure { reading with indices := (text, index) :: reading.indices }
    else (plainAttribute spec reading).on .info

/-- Reads the attributes of the root entry in order. -/
def rootAttributes : List AttributeSpecification → EntryReading → Consult EntryReading
  | [], reading => pure reading
  | spec :: rest, reading => do
    let reading ← rootAttribute spec reading
    rootAttributes rest reading

/-- Resolves string indices in order. -/
def resolveIndices (base : Nat) (format : Format) :
    List (UnitText × Nat) → RootEntry → Consult RootEntry
  | [], summary => pure summary
  | (text, index) :: rest, summary => do
    let bytes ← completed (indexedString base index format)
    resolveIndices base format rest (summary.setText text bytes)

/-- Where the entries of a string offsets table start when the unit does not say: right behind
the header of the first table. -/
def defaultBase : Format → Nat
  | .dwarf32 => 8
  | .dwarf64 => 16

/-- Reads the root entry at the position. -/
def rootEntry (table : Abbreviations) : Consult RootEntry := do
  let code ← (Decode.uleb128 .word).on .info
  if code = 0 then pure .empty
  else
    match table.find? code with
    | none => throw (.unknownAbbreviation code)
    | some entry => do
      let summary := { RootEntry.empty with tag := some entry.tag }
      let reading ← rootAttributes entry.attributes ⟨summary, [], none⟩
      if reading.indices.isEmpty then pure reading.summary
      else do
        let format ← Decode.format.on .info
        let base := reading.base.getD (defaultBase format)
        resolveIndices base format reading.indices.reverse reading.summary

end Consult

end Dwarf
