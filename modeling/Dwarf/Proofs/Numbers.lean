import Dwarf.Proofs.Values
import Dwarf.Unit.RootEntry
/-!
# Numbers in attributes

A value of some layouts spells a number.  Offsets, addresses and constants are read exactly where
such a value of a suitable form stands, be it behind an indirect form, and are that number.
-/

namespace Dwarf

open Leb128

namespace Form

/-- The number that one value of a layout spells. -/
inductive Layout.Number (image : Array UInt8) (stop : Nat) (sizes : UnitSizes) :
    Layout → (start value finish : Nat) → Prop where
  /-- A few bytes spell one. -/
  | fixed {width start value finish : Nat} : 1 ≤ width ∧ width ≤ 8 →
    Decode.field image stop width start value finish →
      Number image stop sizes (.fixed width) start value finish
  /-- An address is one. -/
  | address {start value finish : Nat} : 1 ≤ sizes.addressSize ∧ sizes.addressSize ≤ 8 →
    Decode.field image stop sizes.addressSize start value finish →
      Number image stop sizes .address start value finish
  /-- An offset is one. -/
  | offset {start value finish : Nat} :
    Decode.field image stop sizes.format.wordSize start value finish →
      Number image stop sizes .offset start value finish
  /-- At most ten groups spell one of 64 bits. -/
  | uleb128 {start value finish : Nat} :
    Groups.At image stop 10 Leb128.unsigned (IntType.word.holds ·) start value finish →
      Number image stop sizes .uleb128 start value finish

/-- What a grammar says of a form, or of the form that stands behind an indirect one. -/
def through {α : Type} (image : Array UInt8) (stop : Nat) (direct : Form → Grammar α)
    (form : Form) : Grammar α := fun start value finish =>
  form ≠ .indirect ∧ direct form start value finish ∨
    form = .indirect ∧ ∃ code middle,
      Groups.At image stop 10 Leb128.unsigned (IntType.half.holds ·) start code middle ∧
        code ≠ 0x16 ∧ direct ⟨code⟩ middle value finish

/-- The number that one value of a form spells; an address is one in a reference only. -/
def Numeral (image : Array UInt8) (stop : Nat) (sizes : UnitSizes) : Form → Grammar Nat :=
  through image stop fun form start value finish =>
    ∃ layout, form.kind? sizes.version = some layout ∧ (layout = .address → form = .refAddr) ∧
      layout.Number image stop sizes start value finish

/-- What the number counts in an address attribute. -/
def countsAs? : Form → Option (Nat → AttributeAddress)
  | .addr => some .address
  | .addrx | .addrx1 | .addrx2 | .addrx3 | .addrx4 | .gnuAddrIndex => some .index
  | .data1 | .data2 | .data4 | .data8 | .udata => some .offset
  | _ => none

/-- The address that one value of a form stands for. -/
def Address (image : Array UInt8) (stop : Nat) (sizes : UnitSizes) :
    Form → Grammar AttributeAddress :=
  through image stop fun form start value finish =>
    ∃ counts layout number, form.countsAs? = some counts ∧
      form.kind? sizes.version = some layout ∧
        layout.Number image stop sizes start number finish ∧ value = counts number

/-- What spells a number is a value of its layout. -/
theorem Layout.Number.spans {image : Array UInt8} {stop : Nat} {sizes : UnitSizes}
    {layout : Layout} {start value finish : Nat}
    (h : layout.Number image stop sizes start value finish) :
    layout.Spans image stop sizes start finish := by
  cases h with
  | fixed sized there => exact .fixed ⟨(UnitExtent.fieldAt_eq_ok there.1).1, there.2⟩
  | address sized there => exact .address ⟨(UnitExtent.fieldAt_eq_ok there.1).1, there.2⟩
  | offset there => exact .offset ⟨(UnitExtent.fieldAt_eq_ok there.1).1, there.2⟩
  | uleb128 there => exact .uleb128 there

theorem whole_of_through {α : Type} {image : Array UInt8} {stop : Nat} {sizes : UnitSizes}
    {direct : Form → Grammar α} {form : Form} {start finish : Nat} {value : α}
    (each : ∀ form start value finish, direct form start value finish →
      Decode.whole image stop sizes form start finish)
    (h : through image stop direct form start value finish) :
    Decode.whole image stop sizes form start finish := by
  rcases h with ⟨-, there⟩ | ⟨rfl, code, middle, named, other, there⟩
  · exact each _ _ _ _ there
  · obtain ⟨layout, known, spans⟩ := each _ _ _ _ there
    exact ⟨.indirect, rfl, .indirect named other known spans⟩

theorem Numeral.whole {image : Array UInt8} {stop : Nat} {sizes : UnitSizes} {form : Form}
    {start value finish : Nat} (h : form.Numeral image stop sizes start value finish) :
    Decode.whole image stop sizes form start finish := by
  refine whole_of_through (fun form start value finish there => ?_) h
  obtain ⟨layout, known, -, number⟩ := there
  exact ⟨layout, known, number.spans⟩

theorem Address.whole {image : Array UInt8} {stop : Nat} {sizes : UnitSizes} {form : Form}
    {start finish : Nat} {value : AttributeAddress}
    (h : form.Address image stop sizes start value finish) :
    Decode.whole image stop sizes form start finish := by
  refine whole_of_through (fun form start value finish there => ?_) h
  obtain ⟨counts, layout, number, -, known, there, -⟩ := there
  exact ⟨layout, known, there.spans⟩

end Form

namespace Decode

variable {α : Type} {image : Array UInt8} {stop : Nat} {sizes : UnitSizes}

theorem Exact.of_run {step step' : Decode α} {context : Context} {grammar : Grammar α}
    (h : Exact image stop context step grammar)
    (same : ∀ place, DirectReader.run image step'.run ⟨some place, context⟩ =
      DirectReader.run image step.run ⟨some place, context⟩) :
    Exact image stop context step' grammar where
  within place value reached sound stops ran :=
    h.within place value reached sound stops ((same place).symm.trans ran)
  complete place value finish sound stops spelt :=
    (same place).trans (h.complete place value finish sound stops spelt)

theorem exact_unsignedOfWidth (width : Nat) :
    Exact image stop sizes.context (unsignedChecked width)
      (fun start value finish =>
        (1 ≤ width ∧ width ≤ 8) ∧ field image stop width start value finish) := by
  by_cases sized : 1 ≤ width ∧ width ≤ 8
  · exact (exact_unsignedChecked sized).congr fun start value finish => (and_iff_right sized).symm
  · rw [unsignedChecked, if_neg sized]
    exact (Exact.throw _).congr fun start value finish => ⟨False.elim, fun spelt => sized spelt.1⟩

/-- An offset of a direct form is read where a number of its layout stands; an address is read as
one in a reference only. -/
theorem exact_offsetDirect (form : Form) (layout : Form.Layout) :
    Exact image stop sizes.context (offsetDirect form layout) (fun start value finish =>
      (layout = .address → form = .refAddr) ∧
        layout.Number image stop sizes start value finish) := by
  cases layout with
  | fixed width =>
      rw [offsetDirect]
      split
      · refine (exact_unsignedOfWidth width).congr fun start value finish => ⟨?_, ?_⟩
        · rintro ⟨sized, there⟩
          exact ⟨by simp, .fixed sized there⟩
        · rintro ⟨-, number⟩
          cases number with
          | fixed sized there => exact ⟨sized, there⟩
      · rename_i wide
        refine (Exact.throw _).congr fun start value finish => ⟨False.elim, ?_⟩
        rintro ⟨-, number⟩
        cases number with
        | fixed sized there => exact wide sized.2
  | address =>
      rw [offsetDirect]
      split
      · rename_i reference
        refine (exact_addressSize.bind exact_unsignedOfWidth).congr
          fun start value finish => ⟨?_, ?_⟩
        · rintro ⟨_, _, ⟨rfl, rfl⟩, sized, there⟩
          exact ⟨fun _ => reference, .address sized there⟩
        · rintro ⟨-, number⟩
          cases number with
          | address sized there => exact ⟨_, _, ⟨rfl, rfl⟩, sized, there⟩
      · rename_i other
        exact (Exact.throw _).congr fun start value finish =>
          ⟨False.elim, fun spelt => other (spelt.1 rfl)⟩
  | offset =>
      refine (exact_format.bind fun format => exact_unsigned format.wordSize_pos).congr
        fun start value finish => ⟨?_, ?_⟩
      · rintro ⟨_, _, ⟨rfl, rfl⟩, there⟩
        exact ⟨by simp, .offset there⟩
      · rintro ⟨-, number⟩
        cases number with
        | offset there => exact ⟨_, _, ⟨rfl, rfl⟩, there⟩
  | uleb128 =>
      refine (exact_uleb128 rfl (by decide)).congr fun start value finish => ⟨?_, ?_⟩
      · exact fun there => ⟨by simp, .uleb128 there⟩
      · rintro ⟨-, number⟩
        cases number with
        | uleb128 there => exact there
  | empty | sleb128 | string | block _ | countedBlock | indirect =>
      refine (Exact.throw _).congr fun start value finish => ⟨False.elim, ?_⟩
      rintro ⟨-, ⟨⟩⟩

/-- An operation that reads exactly what is said of the layouts reads exactly what is said of the
forms, and of those behind an indirect one. -/
theorem exact_throughIndirect {direct : Form → Form.Layout → Decode α}
    {grammar : Form → Form.Layout → Grammar α} (form : Form)
    (each : ∀ form layout, Exact image stop sizes.context (direct form layout)
      (grammar form layout)) :
    Exact image stop sizes.context (throughIndirect direct form)
      (form.through image stop fun form start value finish =>
        ∃ layout, form.kind? sizes.version = some layout ∧
          grammar form layout start value finish) := by
  have direct (form : Form) : Exact image stop sizes.context
      (layout form >>= direct form) (fun start value finish =>
        ∃ layout, form.kind? sizes.version = some layout ∧
          grammar form layout start value finish) := by
    refine ((exact_layout form).bind (each form)).congr fun start value finish => ⟨?_, ?_⟩
    · rintro ⟨layout, _, ⟨known, rfl⟩, there⟩
      exact ⟨layout, known, there⟩
    · rintro ⟨layout, known, there⟩
      exact ⟨layout, _, ⟨known, rfl⟩, there⟩
  by_cases indirect : form = .indirect
  · subst indirect
    refine ((exact_indirectForm.bind direct).of_run fun place =>
      DirectReader.run_throughIndirect_of_indirect image _ rfl).congr
        fun start value finish => ⟨?_, ?_⟩
    · rintro ⟨⟨code⟩, middle, ⟨other, named⟩, there⟩
      exact .inr ⟨rfl, code, middle, named, other, there⟩
    · rintro (⟨plain, -⟩ | ⟨-, code, middle, named, other, there⟩)
      · exact absurd rfl plain
      · exact ⟨⟨code⟩, middle, ⟨other, named⟩, there⟩
  · refine ((direct form).of_run fun place => ?_).congr fun start value finish =>
      ⟨fun there => .inl ⟨indirect, there⟩, fun either => (either.resolve_right ?_).2⟩
    · have looks := DirectReader.run_layout image form ⟨some place, sizes.context⟩
      cases known : form.kind? (UnitSizes.context sizes).version with
      | none =>
          rw [DirectReader.run_throughIndirect_of_none image _ known]
          rw [known] at looks
          simp only [DirectReader.run, Dialogue.runStep_bind] at looks ⊢
          rw [looks]
      | some layout =>
          have plain : layout ≠ .indirect := by
            rintro rfl
            exact indirect (congrArg Constant.mk (Form.code_of_kind?_indirect known))
          rw [known] at looks
          rw [DirectReader.run_throughIndirect_of_direct image _ known plain,
            DirectReader.run_bind_of_ok looks]
    · exact fun there => indirect there.1

theorem exact_offsetValue (form : Form) : Exact image stop sizes.context (offsetValue form)
    (form.Numeral image stop sizes) :=
  exact_throughIndirect form exact_offsetDirect

theorem addressDirect_of_counts {form : Form} {counts : Nat → AttributeAddress}
    (version : Option Nat) (h : form.countsAs? = some counts) :
    ∃ layout, form.kind? version = some layout ∧
      addressDirect form = counts <$> offsetDirect .refAddr layout := by
  unfold Form.countsAs? at h
  split at h
  all_goals cases h
  all_goals exact ⟨_, rfl, rfl⟩

theorem addressDirect_of_none {form : Form} (h : form.countsAs? = none) :
    addressDirect form = throw (.unreadableForm form) := by
  unfold addressDirect
  split
  case h_13 => rfl
  all_goals cases h

/-- An address of a direct form is read where its number stands, if the form counts something. -/
theorem exact_addressDirect (form : Form) :
    Exact image stop sizes.context (addressDirect form) (fun start value finish =>
      ∃ counts layout number, form.countsAs? = some counts ∧
        form.kind? sizes.version = some layout ∧
          layout.Number image stop sizes start number finish ∧ value = counts number) := by
  cases counted : form.countsAs? with
  | none =>
      rw [addressDirect_of_none counted]
      refine (Exact.throw _).congr fun start value finish => ⟨False.elim, ?_⟩
      rintro ⟨_, _, _, ⟨⟩, -⟩
  | some counts =>
      obtain ⟨layout, known, same⟩ := addressDirect_of_counts sizes.version counted
      rw [same]
      refine ((exact_offsetDirect .refAddr layout).map counts).congr
        fun start value finish => ⟨?_, ?_⟩
      · rintro ⟨number, ⟨-, there⟩, rfl⟩
        exact ⟨counts, layout, number, rfl, known, there, rfl⟩
      · rintro ⟨_, _, number, ⟨⟩, known', there, rfl⟩
        cases known.symm.trans known'
        exact ⟨number, ⟨fun _ => rfl, there⟩, rfl⟩

theorem exact_addressValue (form : Form) : Exact image stop sizes.context (addressValue form)
    (form.Address image stop sizes) := by
  by_cases indirect : form = .indirect
  · rw [addressValue, if_pos indirect]
    refine (exact_indirectForm.bind exact_addressDirect).congr fun start value finish => ⟨?_, ?_⟩
    · rintro ⟨⟨code⟩, middle, ⟨other, named⟩, there⟩
      exact .inr ⟨indirect, code, middle, named, other, there⟩
    · rintro (⟨plain, -⟩ | ⟨-, code, middle, named, other, there⟩)
      · exact absurd indirect plain
      · exact ⟨⟨code⟩, middle, ⟨other, named⟩, there⟩
  · rw [addressValue, if_neg indirect]
    exact (exact_addressDirect form).congr fun start value finish =>
      ⟨fun there => .inl ⟨indirect, there⟩,
        fun either => (either.resolve_right fun there => indirect there.1).2⟩

end Decode

/-- The number of an attribute that is a constant, where the abbreviation may keep it; a negative
one is none. -/
inductive AttributeSpecification.Constant (image : Array UInt8) (stop : Nat) (sizes : UnitSizes)
    (spec : AttributeSpecification) : (start : Nat) → (value : Option Nat) → (finish : Nat) → Prop
    where
  /-- The abbreviation keeps it, and the entry holds no bytes. -/
  | kept {value : Int} {start : Nat} : spec.implicit = some value →
    Constant image stop sizes spec start (if 0 ≤ value then some value.toNat else none) start
  /-- The entry holds it. -/
  | stored {start value finish : Nat} : spec.implicit = none →
    spec.form.Numeral image stop sizes start value finish →
      Constant image stop sizes spec start (some value) finish

theorem Decode.exact_constantValue {image : Array UInt8} {stop : Nat} {sizes : UnitSizes}
    (spec : AttributeSpecification) :
    Exact image stop sizes.context (constantValue spec) (spec.Constant image stop sizes) := by
  unfold constantValue
  split
  · rename_i value kept
    refine (Exact.pure _).congr fun start read finish => ⟨?_, fun constant => ?_⟩
    · rintro ⟨rfl, rfl⟩
      exact .kept kept
    · cases constant with
      | kept kept' =>
          cases kept.symm.trans kept'
          exact ⟨rfl, rfl⟩
      | stored bare => cases kept.symm.trans bare
  · rename_i bare
    refine ((exact_offsetValue spec.form).map some).congr fun start read finish =>
      ⟨?_, fun constant => ?_⟩
    · rintro ⟨number, there, rfl⟩
      exact .stored bare there
    · cases constant with
      | kept kept => cases bare.symm.trans kept
      | stored _ there => exact ⟨_, there, rfl⟩

end Dwarf
