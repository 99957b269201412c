import Dwarf.Decode.Integer
import Dwarf.Text.Utf8
/-!
# Bytes and strings

Reads whose length the buffer does not bound: a number of bytes, and bytes up to a NUL.

Such a read may fail when part of it was already taken, so it ends with a transfer: the bytes it
delivered, and the failure that stopped it, if any.
-/

namespace Dwarf

/-- What a read of many bytes delivered, and what stopped it early. -/
structure Transfer where
  /-- The bytes that were taken, in order. -/
  bytes : List UInt8
  /-- The failure, unless the read is complete. -/
  failure : Option Error
  deriving DecidableEq, Repr

namespace Transfer

/-- The bytes of a complete read. -/
def complete (transfer : Transfer) : Except Error (List UInt8) :=
  match transfer.failure with
  | none => .ok transfer.bytes
  | some error => .error error

/-- The transfer of nothing but a failure. -/
def failed (error : Error) : Transfer := ⟨[], some error⟩

end Transfer

namespace Decode

/-- A step that fails with nothing delivered. -/
def orFailed (step : Decode Transfer) : Decoder Transfer := do
  match ← step.run with
  | .ok transfer => pure transfer
  | .error error => pure (.failed error)

/-- Fails unless a transfer is complete. -/
def completed (transfer : Decoder Transfer) : Decode (List UInt8) :=
  ExceptT.mk (Transfer.complete <$> transfer)

/-- The sizes of the pieces in which a number of bytes is taken: whole pieces and a smaller rest. -/
def pieces (count size : Nat) : List Nat :=
  List.replicate (count / size) size ++ (if count % size = 0 then [] else [count % size])

/-- Takes pieces in order, onto the bytes already taken, which stand in reverse order. -/
def bytesFrom (taken : List UInt8) : List Nat → Decoder Transfer
  | [] => pure ⟨taken.reverse, none⟩
  | piece :: rest => do
    match ← (take piece).run with
    | .ok bytes => bytesFrom (bytes.reverse ++ taken) rest
    | .error error => pure ⟨taken.reverse, some error⟩

/-- Takes a number of bytes, in pieces that fit the buffer. -/
def bytes (count : Nat) : Decoder Transfer := do
  let seen ← Decoder.view
  bytesFrom [] (pieces count (max seen.capacity 1))

/-- Takes bytes up to a NUL, onto those already taken, which stand in reverse order; the given
number of bytes remains. -/
def stringFrom (start : Nat) (ahead : Ahead) (taken : List UInt8) : Nat → Decoder Transfer
  | 0 => pure ⟨taken.reverse, some (.stringWithoutEnd start)⟩
  | rest + 1 => do
    match ← (takeAhead ahead 1).run with
    | .ok bytes =>
      if bytes = [0] then pure ⟨taken.reverse, none⟩
      else stringFrom start ahead (bytes.reverse ++ taken) rest
    | .error error => pure ⟨taken.reverse, some error⟩

/-- Takes bytes up to a NUL and the NUL itself, which is not delivered. -/
def stringAhead (ahead : Ahead) : Decoder Transfer :=
  orFailed do
    ensureBound
    let seen ← view
    ExceptT.lift (stringFrom seen.offset ahead [] seen.remaining)

/-- Takes a string at the position. -/
def string : Decoder Transfer := stringAhead .buffer

/-- Takes a string as text. -/
def text : Decode String := do
  let bytes ← completed string
  pure (Utf8.decode bytes)

/-- How far ahead a look-up in a string table loads. -/
def lookupAhead : Ahead := .atMost 256

/-- Takes the string at an offset into the section. -/
def stringAt (offset : Nat) : Decoder Transfer :=
  orFailed do
    ensureBound
    let seen ← view
    let target := seen.first + offset
    if target < seen.stop then
      seek target
      ExceptT.lift (stringAhead lookupAhead)
    else
      throw (seen.outside target)

end Decode

end Dwarf
