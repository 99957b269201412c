import Dwarf.Error
/-!
# Byte sources

A source answers positional accesses.  It may fail, deliver less than was asked for, or claim to
have delivered more than it did; an answer is a function of the number of earlier accesses, the
offset and the length, so every pattern of faults is some source.

## Implementation notes

An access that fails may have written to its destination before.  Those bytes stand beside the
answers: no reader looks at them, and most sources leave none.
-/

namespace Dwarf

/-- What a source does with one access. -/
inductive Answer where
  /-- The access fails and delivers nothing. -/
  | failed (failure : AccessFailure)
  /-- The bytes are delivered, and a number of them is claimed. -/
  | delivered (bytes : Array UInt8) (claimed : Nat)
  deriving DecidableEq, Repr

/-- A file as its readers see it. -/
structure Source where
  /-- The answer to an access, given how many came before it, its offset and its length. -/
  answer : (earlier offset length : Nat) → Answer
  /-- What an access that fails leaves at the start of its destination. -/
  residue : (earlier offset length : Nat) → Array UInt8 := fun _ _ _ => #[]

/-- One access that was made, and what came of it. -/
structure Access where
  /-- The file offset of the first byte asked for. -/
  offset : Nat
  /-- The number of bytes asked for. -/
  length : Nat
  /-- The number of bytes claimed, or the failure. -/
  outcome : Except AccessFailure Nat

/-- The accesses made so far, oldest first. -/
abbrev AccessLog := Array Access

namespace Source

/-- The bytes of an image that start at an offset, at most as many as asked for. -/
def imageBytes (image : Array UInt8) (offset length : Nat) : Array UInt8 :=
  image.extract offset (offset + length)

/-- A source that delivers the bytes of an image and is short only at its end. -/
def ofImage (image : Array UInt8) : Source where
  answer _ offset length :=
    let bytes := imageBytes image offset length
    .delivered bytes bytes.size

/-- When a failure strikes. -/
inductive Trigger where
  /-- At the access with this number, counting from zero. -/
  | call (number : Nat)
  /-- At accesses that start in this half-open range. -/
  | start (first stop : Nat)
  deriving DecidableEq, Repr

/-- Whether a trigger strikes at an access. -/
def Trigger.strikes (trigger : Trigger) (earlier offset : Nat) : Bool :=
  match trigger with
  | .call number => earlier == number
  | .start first stop => decide (first ≤ offset ∧ offset < stop)

/-- How a source misbehaves. -/
structure Faults where
  /-- The most bytes that one access delivers, if there is a limit. -/
  most : Option Nat
  /-- How many bytes are claimed beyond those delivered. -/
  extra : Nat
  /-- The accesses that fail; the first trigger that strikes decides. -/
  failures : List (Trigger × AccessFailure)

/-- A source over an image that misbehaves as told. -/
def faulty (image : Array UInt8) (faults : Faults) : Source where
  answer earlier offset length :=
    match faults.failures.find? (fun failure => failure.1.strikes earlier offset) with
    | some (_, failure) => .failed failure
    | none =>
      let bytes := imageBytes image offset (min length (faults.most.getD length))
      .delivered bytes (bytes.size + faults.extra)

end Source

end Dwarf
