import Dwarf.Decode.Integer
/-!
# Abbreviations

An abbreviation gives the shape of entries: a tag, whether children follow, and the attributes
with their forms.  A table of abbreviations ends at a zero code or at the end of its section.

## Implementation notes

Every code and every attribute takes a byte at least, so a table has no more of either than bytes
remain; the loops count those down.
-/

namespace Dwarf

/-- One attribute of an abbreviation. -/
structure AttributeSpecification where
  /-- The name of the attribute. -/
  name : Attribute
  /-- The form of its values. -/
  form : Form
  /-- The value itself, where the form keeps it in the abbreviation. -/
  implicit : Option Int
  deriving DecidableEq, Repr

/-- The shape of entries. -/
structure Abbreviation where
  /-- The code by which entries refer to the abbreviation. -/
  code : Nat
  /-- The tag of the entries. -/
  tag : Tag
  /-- Whether children follow the entries. -/
  hasChildren : Bool
  /-- The attributes in the order of their values. -/
  attributes : List AttributeSpecification
  deriving DecidableEq, Repr

/-- The abbreviations of a unit, in the order of their declaration. -/
structure Abbreviations where
  /-- The abbreviations themselves. -/
  entries : List Abbreviation
  deriving DecidableEq, Repr

namespace Abbreviations

/-- The abbreviation with a code.  Codes usually count up from one, so the place that the code
would then have is tried before the table is searched. -/
def find? (table : Abbreviations) (code : Nat) : Option Abbreviation :=
  let direct := if code = 0 then none else table.entries[code - 1]?
  match direct.filter (·.code == code) with
  | some entry => some entry
  | none => table.entries.find? (·.code == code)

/-- The number of abbreviations. -/
def size (table : Abbreviations) : Nat := table.entries.length

/-- Whether there are no abbreviations. -/
def isEmpty (table : Abbreviations) : Bool := table.entries.isEmpty

end Abbreviations

namespace Decode

/-- Reads attributes up to the pair of zeros, onto those already read, in reverse order. -/
def attributeSpecsFrom (read : List AttributeSpecification) :
    Nat → Decode (List AttributeSpecification)
  | 0 => pure read.reverse
  | rest + 1 => do
    let name : Attribute ← constant .attribute
    let form : Form ← constant .form
    if name.code = 0 ∧ form.code = 0 then pure read.reverse
    else do
      let implicit ←
        if form = .implicitConst then some <$> sleb128 .signedWord else pure none
      attributeSpecsFrom (⟨name, form, implicit⟩ :: read) rest

/-- Reads attributes up to the pair of zeros. -/
def attributeSpecs : Decode (List AttributeSpecification) := do
  let seen ← view
  attributeSpecsFrom [] (seen.remaining + 1)

/-- The byte that announces children. -/
def childrenFollow : Nat := 1

/-- Reads the rest of an abbreviation behind its code. -/
def abbreviation (code : Nat) : Decode Abbreviation := do
  let tag : Tag ← constant .tag
  let children ← byte
  let attributes ← attributeSpecs
  pure ⟨code, tag, children == childrenFollow, attributes⟩

/-- Reads abbreviations up to a zero code or the end of the section, onto those already read, in
reverse order. -/
def abbreviationsFrom (read : List Abbreviation) : Nat → Decode (List Abbreviation)
  | 0 => pure read.reverse
  | rest + 1 => do
    let seen ← view
    if seen.atEnd then pure read.reverse
    else do
      let code ← uleb128 .word
      if code = 0 then pure read.reverse
      else do
        let entry ← abbreviation code
        abbreviationsFrom (entry :: read) rest

/-- Reads the table at an offset into the section. -/
def abbreviations (offset : Nat) : Decode Abbreviations := do
  widen
  seekInSection offset
  let seen ← view
  let entries ← abbreviationsFrom [] (seen.remaining + 1)
  pure ⟨entries⟩

end Decode

end Dwarf
