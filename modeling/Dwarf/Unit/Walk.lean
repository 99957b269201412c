import Dwarf.Unit.Header
import Dwarf.Unit.RootEntry
/-!
# Walking the units of a file

A walk visits every unit of the info section in order.  A unit that cannot be decoded is visited
with its failure, and the walk goes on behind it; only a unit that cannot be located ends the walk.

## Implementation notes

The tables of abbreviations that were read in a walk are kept for its later units, by their
offset; a table that could not be read is tried again.  Every unit takes four bytes at least, so
the bytes of the section bound the number of visits.
-/

namespace Dwarf

/-- A decoded unit. -/
structure DecodedUnit where
  header : UnitHeader
  summary : RootEntry
  deriving DecidableEq, Repr

/-- One unit that was visited. -/
structure Visit where
  /-- The offset of the unit in its section. -/
  offset : Nat
  /-- The unit, or why it could not be decoded. -/
  report : Except Error DecodedUnit

/-- The units that were visited, and what ended the walk. -/
structure Walk where
  /-- The visits in order. -/
  visits : List Visit
  /-- The failure that ended the walk before the end of the section. -/
  failure : Option Error

namespace Walk

/-- The number of units, if the walk reached the end of the section. -/
def count (walk : Walk) : Except Error Nat :=
  match walk.failure with
  | none => .ok walk.visits.length
  | some error => .error error

end Walk

/-- The tables of abbreviations that were read, by their offset. -/
abbrev TableCache := List (Nat × Abbreviations)

namespace Consult

/-- A table of abbreviations, which is read unless it was read before. -/
def cachedTable (cache : TableCache) (offset : Nat) :
    Inquiry (Except Error Abbreviations × TableCache) := do
  match cache.lookup offset with
  | some table => pure (.ok table, cache)
  | none =>
    match ← ((Decode.abbreviations offset).on .abbreviations).run with
    | .ok table => pure (.ok table, (offset, table) :: cache)
    | .error error => pure (.error error, cache)

/-- Decodes the unit whose initial length was just read. -/
def decodedUnit (extent : UnitExtent) (cache : TableCache) :
    Inquiry (Except Error DecodedUnit × TableCache) := do
  match ← ((Decode.unitHeaderIn extent).on .info).run with
  | .error error => pure (.error error, cache)
  | .ok header =>
    match ← cachedTable cache header.abbreviationsOffset with
    | (.error error, cache) => pure (.error error, cache)
    | (.ok table, cache) =>
      match ← (rootEntry table).run with
      | .error error => pure (.error error, cache)
      | .ok summary => pure (.ok ⟨header, summary⟩, cache)

/-- Leaves the unit that ends at a file offset. -/
def leaveUnit (stop : Nat) : Consult Unit := do
  Decode.widen.on .info
  (Decode.seek stop).on .info

/-- Visits units until the end of the section, onto the visits made, in reverse order. -/
def visitsFrom (made : List Visit) (cache : TableCache) : Nat → Inquiry Walk
  | 0 => pure ⟨made.reverse, none⟩
  | rest + 1 => do
    let seen ← Decoder.view.on .info
    if seen.atEnd then pure ⟨made.reverse, none⟩
    else do
      match ← (Decode.unitExtent.on .info).run with
      | .error error => pure ⟨made.reverse, some error⟩
      | .ok extent =>
        let (report, cache) ← decodedUnit extent cache
        let made := ⟨extent.sectionOffset, report⟩ :: made
        match ← (leaveUnit extent.stop).run with
        | .error error => pure ⟨made.reverse, some error⟩
        | .ok () => visitsFrom made cache rest

/-- Goes to the start of the info section and opens it whole. -/
def rewind : Decode View := do
  Decode.widen
  Decode.seekInSection 0
  Decode.view

/-- Walks all units of the info section. -/
def walk : Inquiry Walk := do
  match ← (rewind.on .info).run with
  | .error error => pure ⟨[], some error⟩
  | .ok seen => visitsFrom [] [] (seen.remaining + 1)

end Consult

end Dwarf
