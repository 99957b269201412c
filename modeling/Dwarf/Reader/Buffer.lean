/-!
# Buffers

A buffer is a fixed number of bytes that are zero until they are written.

## Implementation notes

Only a first part of the bytes is stored, and all bytes behind it are zero.  So a buffer takes no
more room than what was once written to it, whatever its capacity.
-/

namespace Dwarf

/-- Bytes in memory, which start as zeros. -/
structure Buffer where
  /-- The bytes up to the last one that was ever written. -/
  written : Array UInt8
  /-- The number of bytes. -/
  capacity : Nat
  deriving DecidableEq, Repr

namespace Buffer

/-- A buffer of zeros. -/
def zeroed (capacity : Nat) : Buffer := ⟨#[], capacity⟩

/-- A buffer whose first bytes are replaced by those delivered. -/
def write (buffer : Buffer) (delivered : Array UInt8) : Buffer :=
  { buffer with
    written := delivered ++ buffer.written.extract delivered.size buffer.written.size }

/-- The bytes between two indices. -/
def slice (buffer : Buffer) (start stop : Nat) : List UInt8 :=
  let stored := (buffer.written.extract start stop).toList
  stored ++ List.replicate (stop - start - stored.length) 0

@[simp] theorem length_slice (buffer : Buffer) (start stop : Nat) :
    (buffer.slice start stop).length = stop - start := by
  simp only [slice, List.length_append, List.length_replicate, Array.length_toList,
    Array.size_extract]
  omega

@[simp] theorem slice_zeroed (capacity start stop : Nat) :
    (zeroed capacity).slice start stop = List.replicate (stop - start) 0 := by
  simp [slice, zeroed]

theorem slice_write_of_le (buffer : Buffer) (delivered : Array UInt8) {start stop : Nat}
    (h : stop ≤ delivered.size) :
    (buffer.write delivered).slice start stop = (delivered.extract start stop).toList := by
  have stored :
      (buffer.write delivered).written.extract start stop = delivered.extract start stop := by
    have behind : stop - delivered.size = 0 := Nat.sub_eq_zero_of_le h
    simp [write, Array.extract_append, behind]
  have enough : stop - start - (delivered.extract start stop).toList.length = 0 := by
    rw [Array.length_toList, Array.size_extract]
    omega
  simp only [slice, stored, enough, List.replicate_zero, List.append_nil]

@[simp] theorem capacity_write (buffer : Buffer) (delivered : Array UInt8) :
    (buffer.write delivered).capacity = buffer.capacity := rfl

end Buffer

end Dwarf
