import Dwarf.Proofs.Pool
import Dwarf.Tables.Strings
/-!
# Operations on readers

The operations that callers have on the readers of a pool: binding and disabling a reader, moving
it and its window, and reading from it, some of them with other readers as string tables.  A trace
lists what each operation of a sequence gave, and how every reader looked behind it.

## Implementation notes

An operation is data, and the buffered and the direct pool each say how they perform it.  What
limits a caller stands in the types: a buffer is large enough to be accepted, and a fixed-width
type fits every buffer.
-/

namespace Dwarf

/-- A buffer that a reader accepts, whatever it holds. -/
structure Scratch where
  /-- The buffer. -/
  buffer : Buffer
  /-- The buffer is large enough. -/
  accepted : Reader.minimumCapacity ≤ buffer.capacity

/-- A fixed-width type whose values fit every buffer. -/
structure FixedType where
  /-- The type. -/
  type : IntType
  /-- A value of the type fits every buffer. -/
  fits : type.bytes ≤ Reader.minimumCapacity

/-- What a successful operation gives. -/
inductive Value where
  | nothing
  | number (value : Nat)
  | integer (value : Int)
  | address (value : AttributeAddress)
  deriving DecidableEq, Repr

/-- What an operation gives: its result, and the bytes it appended to those of its caller. -/
structure Outcome where
  /-- The result. -/
  result : Except Error Value
  /-- The bytes that were appended. -/
  appended : List UInt8

namespace Outcome

/-- An outcome that appends nothing. -/
def ofResult {α : Type} (wrap : α → Value) (result : Except Error α) : Outcome :=
  ⟨result.map wrap, []⟩

/-- The outcome of a transfer. -/
def ofTransfer (transfer : Transfer) : Outcome :=
  ⟨transfer.complete.map fun _ => .nothing, transfer.bytes⟩

/-- A decoding step as a decoder of its outcome. -/
def ofStep {α : Type} (wrap : α → Value) (step : Decode α) : Decoder Outcome :=
  ofResult wrap <$> step.run

/-- A decoding step as a decoder of its outcome, which gives nothing when it succeeds. -/
def ofSilent {α : Type} (step : Decode α) : Decoder Outcome := ofStep (fun _ => .nothing) step

/-- Whether an operation failed. -/
def Fails (outcome : Outcome) : Prop := Failed outcome.result

end Outcome

/-- The operations of one reader that is bound already. -/
inductive Action where
  | setFormat (format : Format)
  | setAddressSize (size : Nat)
  | setVersion (version : Nat)
  | skip (count : Nat)
  | seek (target : Nat)
  | seekInSection (offset : Nat)
  | narrow (stop : Nat)
  | widen
  | value (fixed : FixedType)
  | unsigned (width : Nat)
  | uleb128 (type : IntType)
  | sleb128 (type : IntType)
  | initialLength
  | offset (format : Format)
  | sectionOffset
  | address
  | readAddressSize
  | string
  | skipString
  | stringAt (offset : Nat)
  | skipValue (form : Form)
  | offsetValue (form : Form)
  | addressValue (form : Form)

/-- The decoder of an action. -/
def Action.decoder : Action → Decoder Outcome
  | .setFormat format => Outcome.ofSilent (Decode.record ({ · with format := some format }))
  | .setAddressSize size => Outcome.ofSilent (Decode.recordAddressSize size)
  | .setVersion version => Outcome.ofSilent (Decode.record ({ · with version := some version }))
  | .skip count => Outcome.ofSilent (Decode.skip count)
  | .seek target => Outcome.ofSilent (Decode.seek target)
  | .seekInSection position => Outcome.ofSilent (Decode.seekInSection position)
  | .narrow stop => Outcome.ofSilent (Decode.narrow stop)
  | .widen => Outcome.ofSilent Decode.widen
  | .value fixed => Outcome.ofStep .integer (Decode.value fixed.type)
  | .unsigned width => Outcome.ofStep .number (Decode.unsignedChecked width)
  | .uleb128 type => Outcome.ofStep .number (Decode.uleb128 type)
  | .sleb128 type => Outcome.ofStep .integer (Decode.sleb128 type)
  | .initialLength => Outcome.ofStep .number Decode.initialLength
  | .offset format => Outcome.ofStep .number (Decode.offset format)
  | .sectionOffset => Outcome.ofStep .number Decode.sectionOffset
  | .address => Outcome.ofStep .number Decode.address
  | .readAddressSize => Outcome.ofStep .number Decode.readAddressSize
  | .string => Outcome.ofTransfer <$> Decode.string
  | .skipString => Outcome.ofSilent (Decode.completed Decode.string)
  | .stringAt position => Outcome.ofTransfer <$> Decode.stringAt position
  | .skipValue form => Outcome.ofSilent (Decode.skipValue form)
  | .offsetValue form => Outcome.ofStep .number (Decode.offsetValue form)
  | .addressValue form => Outcome.ofStep .address (Decode.addressValue form)

/-- The operations on the readers of a pool. -/
inductive Operation (ι : Type) where
  /-- Binds a reader to a section of a file that is said to have some size. -/
  | bind (reader : ι) (scratch : Scratch) (range : Section) (fileSize : Nat)
  /-- Binds a bound reader to another section. -/
  | rebind (reader : ι) (range : Section)
  /-- Makes a reader unbound. -/
  | disable (reader : ι)
  /-- Does something with one reader. -/
  | act (reader : ι) (action : Action)
  /-- Reads the string of a value, with two readers of string tables. -/
  | stringValue (reader strings lineStrings : ι) (form : Form)
  /-- Reads the string with an index into a table of string offsets. -/
  | indexedString (reader strings : ι) (base index : Nat) (format : Format)

/-- Seats readers at the two string tables, and one reader at all others. -/
def seating {ι : Type} (reader strings lineStrings : ι) : Table → ι
  | .strings => strings
  | .lineStrings => lineStrings
  | _ => reader

variable {ι : Type}

namespace DirectPool

/-- The pool of unbound readers. -/
def unbound : DirectPool ι := fun _ => .unbound

/-- How the readers look, but for their capacities. -/
def sight (pool : DirectPool ι) (i : ι) : View := (pool i).view.sight

end DirectPool

namespace Pool

/-- The pool of unbound readers. -/
def unbound : Pool ι := ⟨fun _ => .unbound, #[]⟩

/-- A pool with another reader in one place. -/
def set [DecidableEq ι] (pool : Pool ι) (i : ι) (reader : Reader) : Pool ι :=
  { pool with readers := Function.update pool.readers i reader }

/-- How the readers look, but for their capacities. -/
def sight (pool : Pool ι) (i : ι) : View := (pool.readers i).view.sight

theorem faithful_unbound (image : Array UInt8) : (unbound : Pool ι).Faithful image :=
  ⟨fun _ => Reader.sound_unbound, fun _ => Reader.shows_unbound⟩

theorem sight_direct (pool : Pool ι) : pool.direct.sight = pool.sight :=
  funext fun i => Reader.sight_view_direct (pool.readers i)

end Pool

namespace Operation

variable [DecidableEq ι]

/-- Performs an operation on a pool. -/
def perform (source : Source) : Operation ι → Pool ι → Outcome × Pool ι
  | .bind i scratch range fileSize, pool =>
    let (result, reader) := Reader.bind scratch.buffer range fileSize
    (.ofResult (fun _ => .nothing) result, pool.set i reader)
  | .rebind i range, pool =>
    match (pool.readers i).rebind range with
    | .ok reader => (.ofResult id (.ok .nothing), pool.set i reader)
    | .error error => (.ofResult id (.error error), pool)
  | .disable i, pool => (.ofResult id (.ok .nothing), pool.set i .unbound)
  | .act i action, pool => pool.decode source i action.decoder
  | .stringValue i strings lineStrings form, pool =>
    pool.run source (seating i strings lineStrings)
      (Outcome.ofTransfer <$> Consult.stringValue .info form)
  | .indexedString i strings base index format, pool =>
    pool.run source (seating i strings i)
      (Outcome.ofTransfer <$> Consult.indexedString base index format)

/-- Performs an operation on a direct pool. -/
def performDirect (image : Array UInt8) : Operation ι → DirectPool ι → Outcome × DirectPool ι
  | .bind i _ range fileSize, pool =>
    let (result, reader) := DirectReader.bind range fileSize
    (.ofResult (fun _ => .nothing) result, Function.update pool i reader)
  | .rebind i range, pool =>
    match (pool i).rebind range with
    | .ok reader => (.ofResult id (.ok .nothing), Function.update pool i reader)
    | .error error => (.ofResult id (.error error), pool)
  | .disable i, pool => (.ofResult id (.ok .nothing), Function.update pool i .unbound)
  | .act i action, pool => pool.decode image i action.decoder
  | .stringValue i strings lineStrings form, pool =>
    pool.run image (seating i strings lineStrings)
      (Outcome.ofTransfer <$> Consult.stringValue .info form)
  | .indexedString i strings base index format, pool =>
    pool.run image (seating i strings i)
      (Outcome.ofTransfer <$> Consult.indexedString base index format)

/-- What operations give in order, and how the readers look behind each. -/
def trace (source : Source) : List (Operation ι) → Pool ι → List (Outcome × (ι → View))
  | [], _ => []
  | operation :: rest, pool =>
    let (outcome, pool) := operation.perform source pool
    (outcome, pool.sight) :: trace source rest pool

/-- What operations give in order on a direct pool, and how its readers look behind each. -/
def traceDirect (image : Array UInt8) :
    List (Operation ι) → DirectPool ι → List (Outcome × (ι → View))
  | [], _ => []
  | operation :: rest, pool =>
    let (outcome, pool) := operation.performDirect image pool
    (outcome, pool.sight) :: traceDirect image rest pool

end Operation

end Dwarf
