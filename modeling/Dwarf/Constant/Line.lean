/-!
# Names in line programs

The codes of line program opcodes and of entry contents, in increasing order of code.
-/

namespace Dwarf.Constant

/-- Every standard opcode that has a name. -/
def standardOpcodes : List (Nat × String) :=
  [(0x1, "copy"), (0x2, "advance_pc"), (0x3, "advance_line"), (0x4, "set_file"),
   (0x5, "set_column"), (0x6, "negate_stmt"), (0x7, "set_basic_block"), (0x8, "const_add_pc"),
   (0x9, "fixed_advance_pc"), (0xa, "set_prologue_end"), (0xb, "set_epilogue_begin"),
   (0xc, "set_isa")]

/-- Every extended opcode that has a name. -/
def extendedOpcodes : List (Nat × String) :=
  [(0x1, "end_sequence"), (0x2, "set_address"), (0x3, "define_file"), (0x4, "set_discriminator"),
   (0x80, "lo_user"), (0xff, "hi_user")]

/-- Every content code of a file or directory entry that has a name. -/
def lineContents : List (Nat × String) :=
  [(0x1, "path"), (0x2, "directory_index"), (0x3, "timestamp"), (0x4, "size"), (0x5, "MD5"),
   (0x2000, "lo_user"), (0x2001, "LLVM_source"), (0x3fff, "hi_user")]

end Dwarf.Constant
