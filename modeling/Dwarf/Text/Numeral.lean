import Dwarf.Word
/-!
# Numbers as text

Hexadecimal output with its padding, and the one reader of unsigned numbers.

## Implementation notes

The reader takes digits from the left.  A character that is no digit is refused where it stands,
and a value too large for a word is refused at the digit that makes it so; of the two faults the
one further left is reported.
-/

namespace Dwarf.Numeral

/-- The lower-case hexadecimal digits of a number, without leading zeros. -/
def hexDigits (n : Nat) : String := String.ofList (Nat.toDigits 16 n)

/-- Text filled with a character on the left up to a width. -/
def padLeft (fill : Char) (width : Nat) (text : String) : String :=
  String.ofList (List.replicate (width - text.length) fill) ++ text

/-- Text filled with blanks on the right up to a width. -/
def padRight (width : Nat) (text : String) : String :=
  text ++ String.ofList (List.replicate (width - text.length) ' ')

/-- A number in hexadecimal behind its marker. -/
def hex (n : Nat) : String := "0x" ++ hexDigits n

/-- A number in hexadecimal with at least eight digits behind its marker. -/
def hex8 (n : Nat) : String := "0x" ++ padLeft '0' 8 (hexDigits n)

/-- Why a text is not an unsigned 64-bit number. -/
inductive Fault where
  /-- There are no digits at all. -/
  | empty
  /-- A character is not a digit of the radix. -/
  | invalidDigit
  /-- The value exceeds the largest word. -/
  | tooLarge
  deriving DecidableEq, Repr

/-- The wording of a fault. -/
def Fault.message : Fault → String
  | .empty => "cannot parse integer from empty string"
  | .invalidDigit => "invalid digit found in string"
  | .tooLarge => "number too large to fit in target type"

/-- The value of an ASCII digit or letter in a radix up to sixteen. -/
def digit? (radix : Nat) (c : Char) : Option Nat :=
  let value? :=
    if '0' ≤ c ∧ c ≤ '9' then some (c.toNat - '0'.toNat)
    else if 'a' ≤ c ∧ c ≤ 'f' then some (c.toNat - 'a'.toNat + 10)
    else if 'A' ≤ c ∧ c ≤ 'F' then some (c.toNat - 'A'.toNat + 10)
    else none
  value?.filter (· < radix)

/-- Reads further digits behind a value already read. -/
def readDigits (radix : Nat) : Nat → List Char → Except Fault Nat
  | value, [] => .ok value
  | value, c :: rest =>
    match digit? radix c with
    | none => .error .invalidDigit
    | some d =>
      let next := value * radix + d
      if next ≤ Word.max then readDigits radix next rest else .error .tooLarge

/-- Reads a whole text as one number: digits behind at most one plus sign. -/
def read (radix : Nat) (text : List Char) : Except Fault Nat :=
  match text with
  | [] => .error .empty
  | ['+'] => .error .invalidDigit
  | '+' :: rest => readDigits radix 0 rest
  | digits => readDigits radix 0 digits

/-- Reads hexadecimal digits behind `0x` or `0X`, and decimal digits otherwise. -/
def readMarked (text : List Char) : Except Fault Nat :=
  match text with
  | '0' :: 'x' :: rest => read 16 rest
  | '0' :: 'X' :: rest => read 16 rest
  | other => read 10 other

end Dwarf.Numeral
