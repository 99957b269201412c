/-!
# Names of attribute forms

The codes of attribute forms with their names, in increasing order of code.
-/

namespace Dwarf.Constant

/-- Every form code that has a name. -/
def forms : List (Nat × String) :=
  [(0x0, "null"), (0x1, "addr"), (0x2, "ref"), (0x3, "block2"), (0x4, "block4"), (0x5, "data2"),
   (0x6, "data4"), (0x7, "data8"), (0x8, "string"), (0x9, "block"), (0xa, "block1"),
   (0xb, "data1"), (0xc, "flag"), (0xd, "sdata"), (0xe, "strp"), (0xf, "udata"),
   (0x10, "ref_addr"), (0x11, "ref1"), (0x12, "ref2"), (0x13, "ref4"), (0x14, "ref8"),
   (0x15, "ref_udata"), (0x16, "indirect"), (0x17, "sec_offset"), (0x18, "exprloc"),
   (0x19, "flag_present"), (0x1a, "strx"), (0x1b, "addrx"), (0x1c, "ref_sup4"),
   (0x1d, "strp_sup"), (0x1e, "data16"), (0x1f, "line_strp"), (0x20, "ref_sig8"),
   (0x21, "implicit_const"), (0x22, "loclistx"), (0x23, "rnglistx"), (0x24, "ref_sup8"),
   (0x25, "strx1"), (0x26, "strx2"), (0x27, "strx3"), (0x28, "strx4"), (0x29, "addrx1"),
   (0x2a, "addrx2"), (0x2b, "addrx3"), (0x2c, "addrx4"), (0x1f01, "GNU_addr_index"),
   (0x1f02, "GNU_str_index"), (0x1f20, "GNU_ref_alt"), (0x1f21, "GNU_strp_alt")]

end Dwarf.Constant
