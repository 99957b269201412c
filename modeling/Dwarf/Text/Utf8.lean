/-!
# Text from bytes that claim to be UTF-8

`Utf8.decode` never fails: every maximal run of bytes that starts a character but does not finish
it, and every byte that starts none, becomes one replacement character.

## Implementation notes

The decoder is a machine that takes one byte at a time.  Between bytes it either stands between
characters or owes continuation bytes; the first of these has a range of its own after some lead
bytes, which keeps out overlong forms, surrogates and values past the last code point.  A byte
that does not fit ends the open character and is then taken as a lead byte itself.
-/

namespace Dwarf.Utf8

/-- The character that stands for bytes that are not UTF-8. -/
def replacement : Char := '\ufffd'

/-- A character whose first bytes have been read. -/
structure Pending where
  /-- How many continuation bytes are owed after the next one. -/
  more : Nat
  /-- The least value of the next byte. -/
  low : Nat
  /-- The greatest value of the next byte. -/
  high : Nat
  /-- The bits read so far. -/
  bits : Nat
  deriving DecidableEq, Repr

/-- What a byte does between characters. -/
inductive Lead where
  /-- The byte is a character. -/
  | whole (c : Char)
  /-- The byte opens a character. -/
  | opens (pending : Pending)
  /-- No character starts with the byte. -/
  | invalid
  deriving DecidableEq, Repr

/-- The role of a byte between characters. -/
def lead (byte : Nat) : Lead :=
  if byte < 0x80 then .whole (Char.ofNat byte)
  else if byte < 0xc2 then .invalid
  else if byte < 0xe0 then .opens ⟨0, 0x80, 0xbf, byte % 0x20⟩
  else if byte = 0xe0 then .opens ⟨1, 0xa0, 0xbf, 0⟩
  else if byte = 0xed then .opens ⟨1, 0x80, 0x9f, 0xd⟩
  else if byte < 0xf0 then .opens ⟨1, 0x80, 0xbf, byte % 0x10⟩
  else if byte = 0xf0 then .opens ⟨2, 0x90, 0xbf, 0⟩
  else if byte < 0xf4 then .opens ⟨2, 0x80, 0xbf, byte % 0x08⟩
  else if byte = 0xf4 then .opens ⟨2, 0x80, 0x8f, 4⟩
  else .invalid

/-- Takes a byte between characters: the characters it completes and the character it opens. -/
def start (byte : Nat) : List Char × Option Pending :=
  match lead byte with
  | .whole c => ([c], none)
  | .opens pending => ([], some pending)
  | .invalid => ([replacement], none)

/-- Takes one byte: the characters it completes and the character then open. -/
def step (state : Option Pending) (byte : Nat) : List Char × Option Pending :=
  match state with
  | none => start byte
  | some pending =>
    if pending.low ≤ byte ∧ byte ≤ pending.high then
      let bits := pending.bits * 0x40 + byte % 0x40
      match pending.more with
      | 0 => ([Char.ofNat bits], none)
      | more + 1 => ([], some ⟨more, 0x80, 0xbf, bits⟩)
    else
      let (completed, next) := start byte
      (replacement :: completed, next)

/-- The characters of the remaining bytes, in reverse order onto those already found. -/
def decodeFrom (found : List Char) : Option Pending → List UInt8 → List Char
  | none, [] => found
  | some _, [] => replacement :: found
  | state, byte :: rest =>
    let (completed, next) := step state byte.toNat
    decodeFrom (completed.reverse ++ found) next rest

/-- The text of bytes, with replacement characters for what is not UTF-8. -/
def decode (bytes : List UInt8) : String := String.ofList (decodeFrom [] none bytes).reverse

end Dwarf.Utf8
