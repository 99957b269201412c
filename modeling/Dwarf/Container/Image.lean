import Dwarf.Section
/-!
# Numbers and sections in object files

What the containers have in common: numbers of either byte order at fixed places, and sections
with a name and a place in the file.

A number is read from a place that was found to lie inside the image; outside it reads as zero.
-/

namespace Dwarf.Container

/-- The order of the bytes of a number. -/
inductive ByteOrder where
  | little
  | big
  deriving DecidableEq, Repr

/-- The number that bytes denote in an order. -/
def ByteOrder.number : ByteOrder → List UInt8 → Nat
  | .little, bytes => littleEndian bytes
  | .big, bytes => bigEndian bytes

/-- The bytes of an image from an offset on, as far as there are any. -/
def bytesAt (image : Array UInt8) (offset count : Nat) : List UInt8 :=
  (image.extract offset (offset + count)).toList

/-- Whether a range lies inside an image. -/
def holds (image : Array UInt8) (offset count : Nat) : Bool :=
  decide (offset + count ≤ image.size)

/-- The number of some bytes at an offset. -/
def numberAt (order : ByteOrder) (image : Array UInt8) (offset count : Nat) : Nat :=
  order.number (bytesAt image offset count)

/-- The bytes of an ASCII text. -/
def ascii (text : String) : List UInt8 := text.toList.map (fun c => c.toNat.toUInt8)

/-- A section of a container. -/
structure StoredSection where
  /-- The bytes of the name. -/
  name : List UInt8
  /-- The contents in the file, unless the section has none. -/
  contents : Option Section
  /-- The compressed data in the file, if the contents are compressed. -/
  compressed : Option Section
  deriving DecidableEq, Repr

/-- What contents start with that are compressed without any mark in the section table. -/
def compressionMark : List UInt8 := ascii "ZLIB" ++ [0, 0, 0, 0]

/-- The compressed data behind the mark and a size of four bytes. -/
def markedCompression (image : Array UInt8) (contents : Section) : Option Section :=
  let header := compressionMark.length + 4
  if bytesAt image contents.offset compressionMark.length = compressionMark
      ∧ holds image contents.offset header ∧ header ≤ contents.size then
    some ⟨contents.offset + header, contents.size - header⟩
  else none

end Dwarf.Container
