import Dwarf.Constant.Family
/-!
# Attribute forms

A form tells how the bytes of one attribute value are laid out.  `Form.layout?` is the only place
that says which forms are known; every reader of values and the skipper go through it.
-/

namespace Dwarf

/-- The form of an attribute value. -/
abbrev Form := Constant .form

namespace Form

@[match_pattern] abbrev addr : Form := ⟨0x01⟩
@[match_pattern] abbrev block2 : Form := ⟨0x03⟩
@[match_pattern] abbrev block4 : Form := ⟨0x04⟩
@[match_pattern] abbrev data2 : Form := ⟨0x05⟩
@[match_pattern] abbrev data4 : Form := ⟨0x06⟩
@[match_pattern] abbrev data8 : Form := ⟨0x07⟩
@[match_pattern] abbrev string : Form := ⟨0x08⟩
@[match_pattern] abbrev block : Form := ⟨0x09⟩
@[match_pattern] abbrev block1 : Form := ⟨0x0a⟩
@[match_pattern] abbrev data1 : Form := ⟨0x0b⟩
@[match_pattern] abbrev flag : Form := ⟨0x0c⟩
@[match_pattern] abbrev sdata : Form := ⟨0x0d⟩
@[match_pattern] abbrev strp : Form := ⟨0x0e⟩
@[match_pattern] abbrev udata : Form := ⟨0x0f⟩
@[match_pattern] abbrev refAddr : Form := ⟨0x10⟩
@[match_pattern] abbrev ref1 : Form := ⟨0x11⟩
@[match_pattern] abbrev ref2 : Form := ⟨0x12⟩
@[match_pattern] abbrev ref4 : Form := ⟨0x13⟩
@[match_pattern] abbrev ref8 : Form := ⟨0x14⟩
@[match_pattern] abbrev refUdata : Form := ⟨0x15⟩
@[match_pattern] abbrev indirect : Form := ⟨0x16⟩
@[match_pattern] abbrev secOffset : Form := ⟨0x17⟩
@[match_pattern] abbrev exprloc : Form := ⟨0x18⟩
@[match_pattern] abbrev flagPresent : Form := ⟨0x19⟩
@[match_pattern] abbrev strx : Form := ⟨0x1a⟩
@[match_pattern] abbrev addrx : Form := ⟨0x1b⟩
@[match_pattern] abbrev refSup4 : Form := ⟨0x1c⟩
@[match_pattern] abbrev strpSup : Form := ⟨0x1d⟩
@[match_pattern] abbrev data16 : Form := ⟨0x1e⟩
@[match_pattern] abbrev lineStrp : Form := ⟨0x1f⟩
@[match_pattern] abbrev refSig8 : Form := ⟨0x20⟩
@[match_pattern] abbrev implicitConst : Form := ⟨0x21⟩
@[match_pattern] abbrev loclistx : Form := ⟨0x22⟩
@[match_pattern] abbrev rnglistx : Form := ⟨0x23⟩
@[match_pattern] abbrev refSup8 : Form := ⟨0x24⟩
@[match_pattern] abbrev strx1 : Form := ⟨0x25⟩
@[match_pattern] abbrev strx2 : Form := ⟨0x26⟩
@[match_pattern] abbrev strx3 : Form := ⟨0x27⟩
@[match_pattern] abbrev strx4 : Form := ⟨0x28⟩
@[match_pattern] abbrev addrx1 : Form := ⟨0x29⟩
@[match_pattern] abbrev addrx2 : Form := ⟨0x2a⟩
@[match_pattern] abbrev addrx3 : Form := ⟨0x2b⟩
@[match_pattern] abbrev addrx4 : Form := ⟨0x2c⟩
@[match_pattern] abbrev gnuAddrIndex : Form := ⟨0x1f01⟩
@[match_pattern] abbrev gnuStrIndex : Form := ⟨0x1f02⟩
@[match_pattern] abbrev gnuRefAlt : Form := ⟨0x1f20⟩
@[match_pattern] abbrev gnuStrpAlt : Form := ⟨0x1f21⟩

/-- How the bytes of one attribute value are laid out. -/
inductive Layout where
  /-- The entry holds no bytes for the value. -/
  | empty
  /-- A fixed number of bytes. -/
  | fixed (width : Nat)
  /-- A target address of the unit's address size. -/
  | address
  /-- A section offset of the unit's format. -/
  | offset
  /-- An unsigned LEB128 integer. -/
  | uleb128
  /-- A signed LEB128 integer. -/
  | sleb128
  /-- Bytes up to a NUL. -/
  | string
  /-- Bytes behind their count, which has a fixed width. -/
  | block (width : Nat)
  /-- Bytes behind their count, which is an unsigned LEB128 integer. -/
  | countedBlock
  /-- The form itself stands in the entry, before a value of that form. -/
  | indirect
  deriving DecidableEq, Repr

/-- The layout of the values of a form; none for forms that are not known. -/
def layout? : Form → Option Layout
  | .flagPresent | .implicitConst => some .empty
  | .data1 | .ref1 | .flag | .strx1 | .addrx1 => some (.fixed 1)
  | .data2 | .ref2 | .strx2 | .addrx2 => some (.fixed 2)
  | .strx3 | .addrx3 => some (.fixed 3)
  | .data4 | .ref4 | .refSup4 | .strx4 | .addrx4 => some (.fixed 4)
  | .data8 | .ref8 | .refSig8 | .refSup8 => some (.fixed 8)
  | .data16 => some (.fixed 16)
  | .addr => some .address
  | .refAddr | .secOffset | .strp | .lineStrp | .strpSup | .gnuRefAlt | .gnuStrpAlt =>
    some .offset
  | .udata | .refUdata | .strx | .addrx | .rnglistx | .loclistx | .gnuAddrIndex | .gnuStrIndex =>
    some .uleb128
  | .sdata => some .sleb128
  | .string => some .string
  | .block1 => some (.block 1)
  | .block2 => some (.block 2)
  | .block4 => some (.block 4)
  | .block | .exprloc => some .countedBlock
  | .indirect => some .indirect
  | _ => none

/-- Whether a value of the form is a string, inline or at an offset into a string table. -/
def isString : Form → Bool
  | .string | .strp | .lineStrp => true
  | _ => false

/-- Whether a value of the form is an index into the table of string offsets. -/
def isStringIndex : Form → Bool
  | .strx | .strx1 | .strx2 | .strx3 | .strx4 | .gnuStrIndex => true
  | _ => false

/-- The name of a form in reports, which keeps the number of a form without a name. -/
def reportName (form : Form) : String :=
  (Family.form.name? form.code).getD ("Unknown DwForm: " ++ toString form.code)

end Form

end Dwarf
