import Dwarf.Dialogue
import Dwarf.Source
/-!
# Queries to a section

All decoding of one section goes through five queries: look at the position, take bytes, move,
narrow the window, and record what has been learnt about the unit.  A decoder is a dialogue of
such queries; it knows nothing of buffers and files.

`Decode` is a decoder that may fail.  A failure ends the decoding and not the section: whatever
was taken before it stays taken.
-/

namespace Dwarf

/-- The width of lengths and offsets in a unit. -/
inductive Format where
  | dwarf32
  | dwarf64
  deriving DecidableEq, Repr

namespace Format

/-- The width of an offset in bytes. -/
def wordSize : Format → Nat
  | .dwarf32 => 4
  | .dwarf64 => 8

/-- The name of a format. -/
def name : Format → String
  | .dwarf32 => "Dwarf32"
  | .dwarf64 => "Dwarf64"

end Format

/-- What has been learnt about the unit being decoded. -/
structure Context where
  /-- The width of offsets, once an initial length was read. -/
  format : Option Format
  /-- The width of addresses, once it was read. -/
  addressSize : Option Nat
  /-- The version, where the size of a form depends on it. -/
  version : Option Nat
  deriving DecidableEq, Repr

/-- The context before anything was learnt. -/
def Context.unknown : Context := ⟨none, none, none⟩

/-- What can be seen of a section without reading from it. -/
structure View where
  /-- Whether a section is bound at all. -/
  isBound : Bool
  /-- The file offset of the next byte. -/
  offset : Nat
  /-- The file offset of the first byte of the section. -/
  first : Nat
  /-- The end of the window. -/
  stop : Nat
  /-- The end of the section inside the file, which no window exceeds. -/
  limit : Nat
  /-- The most bytes that can be taken at once. -/
  capacity : Nat
  /-- What has been learnt about the unit. -/
  context : Context
  deriving DecidableEq, Repr

namespace View

/-- The number of bytes between the position and the end of the window. -/
def remaining (view : View) : Nat := view.stop - view.offset

/-- The position relative to the start of the section. -/
def sectionOffset (view : View) : Nat := view.offset - view.first

/-- Whether the position is the end of the window of a bound section. -/
def atEnd (view : View) : Bool := view.isBound && view.offset == view.stop

/-- The failure of moving to a position outside the window. -/
def outside (view : View) (target : Nat) : Error :=
  .outsideWindow (Word.saturate target) view.first view.stop

end View

/-- How far ahead of the bytes that are needed a reader may load. -/
inductive Ahead where
  /-- As far as the buffer reaches. -/
  | buffer
  /-- Up to a number of bytes. -/
  | atMost (count : Nat)
  deriving DecidableEq, Repr

/-- The most bytes to load when some are needed, with a buffer of the given capacity. -/
def Ahead.limit (ahead : Ahead) (needed capacity : Nat) : Nat :=
  match ahead with
  | .buffer => capacity
  | .atMost count => min (max count needed) capacity

/-- The primitive queries to one section. -/
inductive Query where
  /-- Looks at the section. -/
  | view
  /-- Takes the next bytes, all or none. -/
  | take (count : Nat) (ahead : Ahead)
  /-- Moves to a file offset inside the window. -/
  | seek (target : Nat)
  /-- Moves the end of the window, between the position and the limit. -/
  | narrow (stop : Nat)
  /-- Replaces what has been learnt about the unit. -/
  | record (context : Context)
  deriving DecidableEq, Repr

/-- The type of the reply to a query. -/
def Query.Reply : Query → Type
  | .view => View
  | .take _ _ => Except Error (List UInt8)
  | .seek _ => Except Error Unit
  | .narrow _ => Except Error Unit
  | .record _ => Unit

/-- A dialogue with one section. -/
abbrev Decoder := Dialogue Query Query.Reply

/-- Looks at the section. -/
def Decoder.view : Decoder View := Dialogue.ask .view .done

/-- A dialogue with one section that may fail. -/
abbrev Decode := ExceptT Error Decoder

namespace Decode

/-- A check as a step that asks nothing. -/
def ofExcept {α : Type} (checked : Except Error α) : Decode α := ExceptT.mk (pure checked)

/-- Looks at the section. -/
def view : Decode View := ExceptT.lift Decoder.view

/-- Takes bytes, loading at most so far ahead. -/
def takeAhead (ahead : Ahead) (count : Nat) : Decode (List UInt8) :=
  ExceptT.mk (Dialogue.ask (.take count ahead) .done)

/-- Takes bytes. -/
def take (count : Nat) : Decode (List UInt8) := takeAhead .buffer count

/-- Moves to a file offset. -/
def seek (target : Nat) : Decode Unit := ExceptT.mk (Dialogue.ask (.seek target) .done)

/-- Moves the end of the window. -/
def narrow (stop : Nat) : Decode Unit := ExceptT.mk (Dialogue.ask (.narrow stop) .done)

/-- Changes what has been learnt about the unit. -/
def record (change : Context → Context) : Decode Unit := do
  let seen ← view
  ExceptT.lift (Dialogue.ask (.record (change seen.context)) .done)

/-- Fails unless a section is bound. -/
def ensureBound : Decode Unit := do
  let seen ← view
  unless seen.isBound do throw .unbound

/-- Moves on by a number of bytes without taking them. -/
def skip (count : Nat) : Decode Unit := do
  let seen ← view
  seek (seen.offset + count)

/-- Moves to an offset relative to the start of the section. -/
def seekInSection (offset : Nat) : Decode Unit := do
  let seen ← view
  seek (seen.first + offset)

/-- Widens the window to the whole section. -/
def widen : Decode Unit := do
  let seen ← view
  narrow seen.limit

/-- The end of a structure that follows the position and has the given length. -/
def stopOf (length : Nat) : Decode Nat := do
  let seen ← view
  let stop := seen.offset + length
  if stop ≤ seen.limit then pure stop
  else throw (.tooFewBytes seen.offset length (seen.limit - seen.offset))

end Decode

end Dwarf
