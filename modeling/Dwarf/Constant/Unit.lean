/-!
# Names about units and their entries

The codes of inline states, unit types and source languages, in increasing order of code.
-/

namespace Dwarf.Constant

/-- Every inline state that has a name. -/
def inlineStates : List (Nat × String) :=
  [(0x0, "not_inlined"), (0x1, "inlined"), (0x2, "declared_not_inlined"),
   (0x3, "declared_inlined")]

/-- Every unit type that has a name. -/
def unitTypes : List (Nat × String) :=
  [(0x1, "compile"), (0x2, "type"), (0x3, "partial"), (0x4, "skeleton"), (0x5, "split_compile"),
   (0x6, "split_type"), (0x80, "lo_user"), (0xff, "hi_user")]

/-- Every source language that has a name. -/
def languages : List (Nat × String) :=
  [(0x1, "C89"), (0x2, "C"), (0x3, "Ada83"), (0x4, "C_plus_plus"), (0x5, "Cobol74"),
   (0x6, "Cobol85"), (0x7, "Fortran77"), (0x8, "Fortran90"), (0x9, "Pascal83"), (0xa, "Modula2"),
   (0xb, "Java"), (0xc, "C99"), (0xd, "Ada95"), (0xe, "Fortran95"), (0xf, "PLI"), (0x10, "ObjC"),
   (0x11, "ObjC_plus_plus"), (0x12, "UPC"), (0x13, "D"), (0x14, "Python"), (0x15, "OpenCL"),
   (0x16, "Go"), (0x17, "Modula3"), (0x18, "Haskell"), (0x19, "C_plus_plus_03"),
   (0x1a, "C_plus_plus_11"), (0x1b, "OCaml"), (0x1c, "Rust"), (0x1d, "C11"), (0x1e, "Swift"),
   (0x1f, "Julia"), (0x20, "Dylan"), (0x21, "C_plus_plus_14"), (0x22, "Fortran03"),
   (0x23, "Fortran08"), (0x24, "RenderScript"), (0x25, "BLISS"), (0x26, "Kotlin"), (0x27, "Zig"),
   (0x28, "Crystal"), (0x2a, "C_plus_plus_17"), (0x2b, "C_plus_plus_20"), (0x2c, "C17"),
   (0x2d, "Fortran18"), (0x2e, "Ada2005"), (0x2f, "Ada2012"), (0x8000, "lo_user"),
   (0x8001, "Mips_Assembler"), (0x8e57, "GOOGLE_RenderScript"), (0x9001, "SUN_Assembler"),
   (0x9101, "ALTIUM_Assembler"), (0xb000, "BORLAND_Delphi"), (0xffff, "hi_user")]

end Dwarf.Constant
