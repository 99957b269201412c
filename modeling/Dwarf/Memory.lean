/-!
# Reserving memory

Memory is reserved for a whole table as soon as its count is known, and for a buffer when it is
made.  One reservation may ask for half of what a 64-bit word can address at most; to ask for more
stops the program, and no caller is told why.  A smaller reservation is taken to be granted.
-/

namespace Dwarf

/-- How a computation ends that reserves memory. -/
inductive Halting (α : Type) where
  /-- It returned a value. -/
  | returned (value : α)
  /-- It asked for more than can be reserved, and the program stopped. -/
  | stopped
  deriving DecidableEq, Repr

namespace Memory

/-- The most bytes that can be reserved at once. -/
def mostReserved : Nat := 0x7FFFFFFFFFFFFFFF

/-- So many items of a size can be reserved at once. -/
def Reserves (count size : Nat) : Prop := count * size ≤ mostReserved
  deriving Decidable

theorem Reserves.mono {count fewer size : Nat} (h : Reserves count size) (le : fewer ≤ count) :
    Reserves fewer size :=
  Nat.le_trans (Nat.mul_le_mul_right size le) h

end Memory

end Dwarf
