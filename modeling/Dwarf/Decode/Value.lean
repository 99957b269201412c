import Dwarf.Decode.Bytes
/-!
# Attribute values by form

Skipping a value and reading it as an offset or as an address follow the layout of its form.

## Implementation notes

An indirect form names the real one, which must not be indirect again; so every operation comes as
one for direct forms and one that looks behind a single indirection.
-/

namespace Dwarf

/-- The value of an address attribute. -/
inductive AttributeAddress where
  /-- A target address. -/
  | address (value : Nat)
  /-- An index into the table of addresses. -/
  | index (value : Nat)
  /-- A constant, which counts from another address. -/
  | offset (value : Nat)
  deriving DecidableEq, Repr

namespace Decode

/-- The layout of a form here: references to addresses have the size of one in version 2. -/
def layout (form : Form) : Decode Form.Layout := do
  let seen ← view
  if form = .refAddr ∧ seen.context.version = some 2 then pure .address
  else
    match form.layout? with
    | some layout => pure layout
    | none => throw (.unreadableForm form)

/-- Reads the form behind an indirect one. -/
def indirectForm : Decode Form := do
  let form : Form ← constant .form
  if form = .indirect then throw (.unreadableForm form) else pure form

/-- Applies an operation to the form itself, or to the one behind an indirect form. -/
def throughIndirect {α : Type} (direct : Form → Form.Layout → Decode α) (form : Form) :
    Decode α := do
  match ← layout form with
  | .indirect => do
    let actual ← indirectForm
    direct actual (← layout actual)
  | other => direct form other

/-- Moves past a value of a direct form. -/
def skipDirect (form : Form) : Form.Layout → Decode Unit
  | .empty => pure ()
  | .fixed width => skip width
  | .address => do skip (← addressSize)
  | .offset => do skip (← format).wordSize
  | .uleb128 => discard (uleb128 .word)
  | .sleb128 => discard (sleb128 .signedWord)
  | .string => discard (completed string)
  | .block width => do skip (← unsignedChecked width)
  | .countedBlock => do skip (← uleb128 .word)
  | .indirect => throw (.unreadableForm form)

/-- Moves past a value of a form. -/
def skipValue : Form → Decode Unit := throughIndirect skipDirect

/-- Reads an offset, index, reference or small constant of a direct form. -/
def offsetDirect (form : Form) : Form.Layout → Decode Nat
  | .fixed width =>
    if width ≤ 8 then unsignedChecked width else throw (.unreadableForm form)
  | .offset => sectionOffset
  | .address => if form = .refAddr then address else throw (.unreadableForm form)
  | .uleb128 => uleb128 .word
  | _ => throw (.unreadableForm form)

/-- Reads an offset, index, reference or small constant of a form. -/
def offsetValue : Form → Decode Nat := throughIndirect offsetDirect

/-- Reads an address of a direct form. -/
def addressDirect : Form → Decode AttributeAddress
  | .addr => .address <$> address
  | .addrx1 => .index <$> unsignedChecked 1
  | .addrx2 => .index <$> unsignedChecked 2
  | .addrx3 => .index <$> unsignedChecked 3
  | .addrx4 => .index <$> unsignedChecked 4
  | .addrx | .gnuAddrIndex => .index <$> uleb128 .word
  | .data1 => .offset <$> unsignedChecked 1
  | .data2 => .offset <$> unsignedChecked 2
  | .data4 => .offset <$> unsignedChecked 4
  | .data8 => .offset <$> unsignedChecked 8
  | .udata => .offset <$> uleb128 .word
  | form => throw (.unreadableForm form)

/-- Reads an address of a form. -/
def addressValue (form : Form) : Decode AttributeAddress :=
  if form = .indirect then do addressDirect (← indirectForm) else addressDirect form

end Decode

end Dwarf
