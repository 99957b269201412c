/-!
# Words and fixed-width integers

The host is taken to be a little-endian machine with 64-bit words and pointers.  Its byte order is
the one in which integers are decoded, and its word bounds positions, sizes and addresses.

## Implementation notes

Positions, sizes and decoded values are natural numbers, so sums are exact.  The limits of a
64-bit word appear only where the format or the reports have them: an end of a section saturates
at `Word.max`, and a position that no word can hold is reported as `Word.max`.
-/

namespace Dwarf

namespace Word

/-- The largest 64-bit word. -/
def max : Nat := 0xFFFFFFFFFFFFFFFF

/-- The word nearest to a number: the number itself, or `Word.max` above it. -/
def saturate (n : Nat) : Nat := min n max

theorem saturate_of_le {n : Nat} (h : n ≤ max) : saturate n = n := Nat.min_eq_left h

theorem saturate_of_lt {n : Nat} (h : saturate n < max) : saturate n = n := by
  simp only [saturate] at h ⊢
  omega

theorem saturate_le (n : Nat) : saturate n ≤ max := Nat.min_le_right n max

end Word

/-- A fixed-width integer type: its width in bits and whether it has a sign. -/
structure IntType where
  /-- Whether the type holds negative values. -/
  signed : Bool
  /-- The width in bits. -/
  bits : Nat
  deriving DecidableEq, Repr

namespace IntType

/-- The unsigned type of the given width. -/
def unsigned (bits : Nat) : IntType := ⟨false, bits⟩

/-- The two's-complement type of the given width. -/
def twosComplement (bits : Nat) : IntType := ⟨true, bits⟩

/-- The unsigned 64-bit type. -/
def word : IntType := unsigned 64

/-- The unsigned 16-bit type, which holds tags, attribute names and forms. -/
def half : IntType := unsigned 16

/-- The signed 64-bit type. -/
def signedWord : IntType := twosComplement 64

/-- The width in bytes. -/
def bytes (type : IntType) : Nat := type.bits / 8

/-- The number of patterns of the given width. -/
def patterns (bits : Nat) : Nat := 1 <<< bits

/-- Whether a value lies in the range of the type. -/
def holds (type : IntType) (value : Int) : Bool :=
  if type.signed then
    decide (-(patterns (type.bits - 1) : Int) ≤ value) && decide (value < patterns (type.bits - 1))
  else
    decide (0 ≤ value) && decide (value < patterns type.bits)

theorem le_max_of_holds {type : IntType} (unsigned : type.signed = false) (bits : type.bits ≤ 64)
    {value : Nat} (held : type.holds value) : value ≤ Word.max := by
  have power : 2 ^ type.bits ≤ 2 ^ 64 := Nat.pow_le_pow_right (by decide) bits
  simp only [holds, unsigned, patterns, Nat.one_shiftLeft, Bool.false_eq_true, if_false,
    Bool.and_eq_true, decide_eq_true_eq] at held
  have small := Int.ofNat_lt.mp held.2
  unfold Word.max
  omega

/-- The value of a bit pattern, read as two's complement by signed types. -/
def ofPattern (type : IntType) (pattern : Nat) : Int :=
  if type.signed && decide (patterns (type.bits - 1) ≤ pattern) then
    (pattern : Int) - patterns type.bits
  else
    pattern

end IntType

/-- The number that bytes denote, least significant byte first. -/
def littleEndian : List UInt8 → Nat
  | [] => 0
  | byte :: rest => byte.toNat + 256 * littleEndian rest

/-- The number that bytes denote, most significant byte first. -/
def bigEndian (bytes : List UInt8) : Nat := littleEndian bytes.reverse

end Dwarf
