import Dwarf.Proofs.Consultations
import Dwarf.Proofs.Exact
import Dwarf.Proofs.Simulation
import Dwarf.Proofs.Standing
/-!
# Values of attributes

One value of a form spans some bytes of the window, as the format lays its form out.  Skipping the
value succeeds exactly where a whole one is there and ends behind it.  Whatever else can be read as
a value of the form could be skipped, and ends at the same place.

## Implementation notes

The layouts of the forms are listed here once more, by their codes and in the order of these, so
that what is skipped is measured against the format and not against the decoder.
-/

namespace Dwarf

theorem Format.wordSize_pos (format : Format) : 0 < format.wordSize := by
  cases format <;> decide

/-- The sizes on which the layouts in a unit depend. -/
structure UnitSizes where
  /-- The width of offsets. -/
  format : Format
  /-- The width of addresses. -/
  addressSize : Nat
  /-- The version, where it is recorded. -/
  version : Option Nat

/-- What is known of a unit whose sizes are. -/
def UnitSizes.context (sizes : UnitSizes) : Context :=
  ⟨some sizes.format, some sizes.addressSize, sizes.version⟩

namespace Form

/-- The layouts of the known forms by their codes. -/
def catalogue : List (Nat × Layout) :=
  [(0x01, .address), (0x03, .block 2), (0x04, .block 4), (0x05, .fixed 2), (0x06, .fixed 4),
   (0x07, .fixed 8), (0x08, .string), (0x09, .countedBlock), (0x0a, .block 1), (0x0b, .fixed 1),
   (0x0c, .fixed 1), (0x0d, .sleb128), (0x0e, .offset), (0x0f, .uleb128), (0x10, .offset),
   (0x11, .fixed 1), (0x12, .fixed 2), (0x13, .fixed 4), (0x14, .fixed 8), (0x15, .uleb128),
   (0x16, .indirect), (0x17, .offset), (0x18, .countedBlock), (0x19, .empty), (0x1a, .uleb128),
   (0x1b, .uleb128), (0x1c, .fixed 4), (0x1d, .offset), (0x1e, .fixed 16), (0x1f, .offset),
   (0x20, .fixed 8), (0x21, .empty), (0x22, .uleb128), (0x23, .uleb128), (0x24, .fixed 8),
   (0x25, .fixed 1), (0x26, .fixed 2), (0x27, .fixed 3), (0x28, .fixed 4), (0x29, .fixed 1),
   (0x2a, .fixed 2), (0x2b, .fixed 3), (0x2c, .fixed 4), (0x1f01, .uleb128), (0x1f02, .uleb128),
   (0x1f20, .offset), (0x1f21, .offset)]

/-- The layout of a form in a unit of some version: a reference to another unit has the size of an
address in version two, and that of an offset later. -/
def kind? (version : Option Nat) (form : Form) : Option Layout :=
  if form.code = 0x10 ∧ version = some 2 then some .address else catalogue.lookup form.code

/-- The decoder knows the forms of the catalogue, with the layouts there, and no others. -/
theorem layout?_eq_lookup (form : Form) : form.layout? = catalogue.lookup form.code := by
  by_cases listed : form.code ∈ catalogue.map Prod.fst
  · have each : ∀ code ∈ catalogue.map Prod.fst,
        layout? ⟨code⟩ = catalogue.lookup code := by
      decide
    exact each form.code listed
  · have unlisted : catalogue.lookup form.code = none := by
      refine List.lookup_eq_none_iff.mpr fun entry member => bne_iff_ne.mpr fun same => listed ?_
      exact same ▸ List.mem_map_of_mem member
    rw [unlisted]
    unfold layout?
    split <;> first | rfl | exact absurd (by decide) listed

theorem code_of_kind?_indirect {version : Option Nat} {form : Form}
    (h : form.kind? version = some .indirect) : form.code = 0x16 := by
  simp only [kind?] at h
  split at h
  · cases h
  · obtain ⟨before, behind, same, -⟩ := List.lookup_eq_some_iff.mp h
    have only : ∀ entry ∈ catalogue, entry.2 = .indirect → entry.1 = 0x16 := by decide
    exact only (form.code, .indirect) (same ▸ by simp) rfl

/-- The bytes that one complete value of a layout spans, before the end of a window. -/
inductive Layout.Spans (image : Array UInt8) (stop : Nat) (sizes : UnitSizes) :
    Layout → Nat → Nat → Prop where
  /-- The entry holds no bytes. -/
  | empty {start : Nat} : Spans image stop sizes .empty start start
  /-- Some bytes follow. -/
  | fixed {width start finish : Nat} : Grammar.room stop width start () finish →
    Spans image stop sizes (.fixed width) start finish
  /-- An address follows. -/
  | address {start finish : Nat} : Grammar.room stop sizes.addressSize start () finish →
    Spans image stop sizes .address start finish
  /-- An offset follows. -/
  | offset {start finish : Nat} : Grammar.room stop sizes.format.wordSize start () finish →
    Spans image stop sizes .offset start finish
  /-- At most ten groups follow, with a number of 64 bits. -/
  | uleb128 {start value finish : Nat} :
    Leb128.Groups.At image stop 10 Leb128.unsigned (IntType.word.holds ·) start value finish →
      Spans image stop sizes .uleb128 start finish
  /-- At most ten groups follow, with a number of 64 bits in two's complement. -/
  | sleb128 {start finish : Nat} {value : Int} :
    Leb128.Groups.At image stop 10 Leb128.signed (IntType.signedWord.holds ·) start value finish →
      Spans image stop sizes .sleb128 start finish
  /-- A text and its NUL follow. -/
  | string {start finish : Nat} {text : List UInt8} :
    Decode.terminated image stop start text finish → Spans image stop sizes .string start finish
  /-- A count of a fixed width follows, and as many bytes. -/
  | block {width start count middle finish : Nat} : 1 ≤ width ∧ width ≤ 8 →
    Decode.field image stop width start count middle → Grammar.room stop count middle () finish →
      Spans image stop sizes (.block width) start finish
  /-- At most ten groups follow that count, and as many bytes. -/
  | countedBlock {start count middle finish : Nat} :
    Leb128.Groups.At image stop 10 Leb128.unsigned (IntType.word.holds ·) start count middle →
      Grammar.room stop count middle () finish →
        Spans image stop sizes .countedBlock start finish
  /-- At most ten groups follow with the code of another form, and a value of that form. -/
  | indirect {start code middle finish : Nat} {layout : Layout} :
    Leb128.Groups.At image stop 10 Leb128.unsigned (IntType.half.holds ·) start code middle →
      code ≠ 0x16 → kind? sizes.version ⟨code⟩ = some layout →
        Spans image stop sizes layout middle finish →
          Spans image stop sizes .indirect start finish

end Form

/-- A server that may be looked at without harm finds the layout of a form and nothing else. -/
theorem Decode.run_layout {σ : Type} {serve : (query : Query) → σ → query.Reply × σ} {state : σ}
    {seen : View} (looks : serve .view state = (seen, state)) (form : Form) :
    (layout form).run.run serve state =
      (match form.kind? seen.context.version with
        | some layout => .ok layout
        | none => .error (.unreadableForm form), state) := by
  have ran : (layout form).run.run serve state =
      (ExceptT.run (
        if form = .refAddr ∧ (serve .view state).1.context.version = some 2 then pure .address
        else
          match form.layout? with
          | some layout => pure layout
          | none => throw (.unreadableForm form) : Decode Form.Layout)).run serve
        (serve .view state).2 := rfl
  have code : form = .refAddr ↔ form.code = 0x10 :=
    ⟨fun same => same ▸ rfl, fun same => congrArg Constant.mk same⟩
  rw [ran, looks, Form.kind?, ← Form.layout?_eq_lookup]
  simp only [code]
  split
  · rfl
  · split <;> rfl

namespace DirectReader

theorem run_layout (image : Array UInt8) (form : Form) (reader : DirectReader) :
    run image (Decode.layout form).run reader =
      (match form.kind? reader.context.version with
        | some layout => .ok layout
        | none => .error (.unreadableForm form), reader) := by
  have looks : serve image .view reader = (reader.view, reader) := rfl
  have context : reader.view.context = reader.context := by
    obtain ⟨_ | place, context⟩ := reader <;> rfl
  rw [run, Decode.run_layout looks, context]

theorem run_throughIndirect_of_none {α : Type} (image : Array UInt8)
    (direct : Form → Form.Layout → Decode α) {form : Form} {reader : DirectReader}
    (unknown : form.kind? reader.context.version = none) :
    run image (Decode.throughIndirect direct form).run reader =
      (.error (.unreadableForm form), reader) := by
  have looks := run_layout image form reader
  rw [unknown] at looks
  simp only [run, Decode.throughIndirect, Dialogue.runStep_bind] at looks ⊢
  rw [looks]

theorem run_throughIndirect_of_direct {α : Type} (image : Array UInt8)
    (direct : Form → Form.Layout → Decode α) {form : Form} {reader : DirectReader}
    {layout : Form.Layout} (known : form.kind? reader.context.version = some layout)
    (plain : layout ≠ .indirect) :
    run image (Decode.throughIndirect direct form).run reader =
      run image (direct form layout).run reader := by
  have looks := run_layout image form reader
  rw [known] at looks
  rw [Decode.throughIndirect, run_bind_of_ok looks]
  cases layout <;> first | rfl | exact absurd rfl plain

theorem run_throughIndirect_of_indirect {α : Type} (image : Array UInt8)
    (direct : Form → Form.Layout → Decode α) {form : Form} {reader : DirectReader}
    (known : form.kind? reader.context.version = some .indirect) :
    run image (Decode.throughIndirect direct form).run reader =
      run image (ExceptT.run (do
        let actual ← Decode.indirectForm
        let layout ← Decode.layout actual
        direct actual layout)) reader := by
  have looks := run_layout image form reader
  rw [known] at looks
  rw [Decode.throughIndirect, run_bind_of_ok looks]

end DirectReader

namespace Decode

open Leb128

variable {image : Array UInt8} {stop : Nat} {sizes : UnitSizes}

theorem exact_format : Exact image stop sizes.context format (Grammar.nothing sizes.format) := by
  refine Exact.look fun seen known => ?_
  rw [known]
  exact Exact.pure sizes.format

theorem exact_addressSize :
    Exact image stop sizes.context addressSize (Grammar.nothing sizes.addressSize) := by
  refine Exact.look fun seen known => ?_
  rw [known]
  exact Exact.pure sizes.addressSize

/-- The form behind an indirect one is read where its code stands. -/
theorem exact_indirectForm : Exact image stop sizes.context indirectForm
    (fun start form finish => form.code ≠ 0x16 ∧
      Groups.At image stop 10 Leb128.unsigned (IntType.half.holds ·) start form.code finish) := by
  have reads : Exact image stop sizes.context (constant .form) _ :=
    (exact_uleb128 rfl (by decide)).bind fun code => Exact.pure (⟨code⟩ : Form)
  constructor
  · intro place form reached sound stops ran
    obtain ⟨actual, between, ran, goes⟩ := Dialogue.runStep_bind_ok _ _ ran
    obtain ⟨finish, ⟨code, _, there, rfl, rfl⟩, rfl⟩ :=
      reads.within place actual between sound stops ran
    split at goes
    · cases goes
    · rename_i other
      cases goes
      exact ⟨_, ⟨fun same => other (congrArg Constant.mk same), there⟩, rfl⟩
  · rintro place ⟨code⟩ finish sound stops ⟨other, there⟩
    have ran := reads.complete place ⟨code⟩ finish sound stops ⟨code, finish, there, rfl, rfl⟩
    rw [indirectForm, DirectReader.run_bind_of_ok ran,
      if_neg fun same => other (congrArg Constant.code same)]
    rfl

/-- Skipping a value of a direct form succeeds where one stands, and ends behind it. -/
theorem exact_skipDirect (form : Form) {layout : Form.Layout} (plain : layout ≠ .indirect) :
    Exact image stop sizes.context (skipDirect form layout)
      (fun start _ finish => layout.Spans image stop sizes start finish) := by
  cases layout with
  | empty =>
      refine (Exact.pure ()).congr fun start value finish => ⟨?_, fun spans => ?_⟩
      · rintro ⟨-, rfl⟩
        exact .empty
      · cases spans with
        | empty => exact ⟨rfl, rfl⟩
  | fixed width =>
      refine (exact_skip width).congr fun start value finish => ⟨.fixed, fun spans => ?_⟩
      cases spans with
      | fixed there => exact there
  | address =>
      refine (exact_addressSize.bind fun size => exact_skip size).congr
        fun start value finish => ⟨?_, fun spans => ?_⟩
      · rintro ⟨_, _, ⟨rfl, rfl⟩, there⟩
        exact .address there
      · cases spans with
        | address there => exact ⟨_, _, ⟨rfl, rfl⟩, there⟩
  | offset =>
      refine (exact_format.bind fun format => exact_skip format.wordSize).congr
        fun start value finish => ⟨?_, fun spans => ?_⟩
      · rintro ⟨_, _, ⟨rfl, rfl⟩, there⟩
        exact .offset there
      · cases spans with
        | offset there => exact ⟨_, _, ⟨rfl, rfl⟩, there⟩
  | uleb128 =>
      refine ((exact_uleb128 rfl (by decide)).map _).congr
        fun start value finish => ⟨?_, fun spans => ?_⟩
      · rintro ⟨number, there, -⟩
        exact .uleb128 there
      · cases spans with
        | uleb128 there => exact ⟨_, there, rfl⟩
  | sleb128 =>
      refine ((exact_sleb128 rfl (by decide)).map _).congr
        fun start value finish => ⟨?_, fun spans => ?_⟩
      · rintro ⟨number, there, -⟩
        exact .sleb128 there
      · cases spans with
        | sleb128 there => exact ⟨_, there, rfl⟩
  | string =>
      refine (exact_string.map _).congr fun start value finish => ⟨?_, fun spans => ?_⟩
      · rintro ⟨text, there, -⟩
        exact .string there
      · cases spans with
        | string there => exact ⟨_, there, rfl⟩
  | block width =>
      by_cases sized : 1 ≤ width ∧ width ≤ 8
      · refine ((exact_unsignedChecked sized).bind fun count => exact_skip count).congr
          fun start value finish => ⟨?_, fun spans => ?_⟩
        · rintro ⟨count, middle, there, follow⟩
          exact .block sized there follow
        · cases spans with
          | block _ there follow => exact ⟨_, _, there, follow⟩
      · rw [skipDirect, unsignedChecked, if_neg sized]
        refine (Exact.throw _).congr fun start value finish => ⟨False.elim, fun spans => ?_⟩
        cases spans with
        | block sized' => exact sized sized'
  | countedBlock =>
      refine ((exact_uleb128 rfl (by decide)).bind fun count => exact_skip count).congr
        fun start value finish => ⟨?_, fun spans => ?_⟩
      · rintro ⟨count, middle, there, follow⟩
        exact .countedBlock there follow
      · cases spans with
        | countedBlock there follow => exact ⟨_, _, there, follow⟩
  | indirect => exact absurd rfl plain

theorem exact_layout (form : Form) : Exact image stop sizes.context (layout form)
    (fun start layout finish => form.kind? sizes.version = some layout ∧ finish = start) := by
  have looks (place : Place) := DirectReader.run_layout image form ⟨some place, sizes.context⟩
  constructor
  · intro place layout reached sound stops ran
    rw [looks] at ran
    split at ran
    · rename_i known
      cases ran
      exact ⟨_, ⟨known, rfl⟩, rfl⟩
    · cases ran
  · rintro place layout finish sound stops ⟨known, rfl⟩
    rw [looks, show form.kind? (UnitSizes.context sizes).version = some layout from known]

/-- The bytes that one complete value of a form spans. -/
def whole (image : Array UInt8) (stop : Nat) (sizes : UnitSizes) (form : Form)
    (start finish : Nat) : Prop :=
  ∃ layout, form.kind? sizes.version = some layout ∧ layout.Spans image stop sizes start finish

section Within

variable {α : Type} {direct : Form → Form.Layout → Decode α}

/-- An operation that stays inside the values of the layouts it is told stays inside those of the
forms. -/
theorem within_layout (form : Form)
    (each : ∀ layout, Within image stop sizes.context (direct form layout)
      (fun start _ finish => layout.Spans image stop sizes start finish)) :
    Within image stop sizes.context (layout form >>= direct form)
      (fun start _ finish => whole image stop sizes form start finish) := by
  refine ((exact_layout form).within.bind each).mono fun start value finish => ?_
  rintro ⟨layout, _, ⟨known, rfl⟩, spans⟩
  exact ⟨layout, known, spans⟩

/-- An operation that stays inside the values of layouts stays inside those of all forms when it
looks behind an indirection. -/
theorem within_throughIndirect (form : Form)
    (each : ∀ form layout, Within image stop sizes.context (direct form layout)
      (fun start _ finish => layout.Spans image stop sizes start finish)) :
    Within image stop sizes.context (throughIndirect direct form)
      (fun start _ finish => whole image stop sizes form start finish) := by
  have looks : throughIndirect direct form = Decode.layout form >>= fun layout =>
      if layout = .indirect then do
        let actual ← indirectForm
        direct actual (← Decode.layout actual)
      else direct form layout :=
    congrArg (Decode.layout form >>= ·) (funext fun layout => by cases layout <;> rfl)
  have goes (layout : Form.Layout) : Within image stop sizes.context
      (if layout = .indirect then do
        let actual ← indirectForm
        direct actual (← Decode.layout actual)
      else direct form layout)
      (fun start _ finish => layout.Spans image stop sizes start finish) := by
    split
    · rename_i indirect
      subst indirect
      have behind := exact_indirectForm.within.bind fun actual =>
        within_layout actual (each actual)
      refine behind.mono fun start value finish => ?_
      rintro ⟨actual, middle, ⟨other, code⟩, layout, known, spans⟩
      exact .indirect code other known spans
    · exact each form layout
  rw [looks]
  refine ((exact_layout form).within.bind goes).mono fun start value finish => ?_
  rintro ⟨layout, _, ⟨known, rfl⟩, spans⟩
  exact ⟨layout, known, spans⟩

end Within

/-- Skipping a value of a form succeeds where one stands, and ends behind it. -/
theorem exact_skipValue (form : Form) : Exact image stop sizes.context (skipValue form)
    (fun start _ finish => whole image stop sizes form start finish) where
  within := within_throughIndirect form fun form layout => by
    by_cases plain : layout = .indirect
    · subst plain
      exact within_throw _
    · exact (exact_skipDirect form plain).within
  complete place value finish sound stops spelt := by
    obtain ⟨layout, known, spans⟩ := spelt
    by_cases plain : layout = .indirect
    · subst plain
      cases spans with
      | @indirect _ code middle _ inner there other known' spans =>
          have reads : DirectReader.run image indirectForm.run ⟨some place, sizes.context⟩ = _ :=
            exact_indirectForm.complete place ⟨code⟩ middle sound stops ⟨other, there⟩
          have looks : DirectReader.run image (layout ⟨code⟩).run
              ⟨some { place with offset := middle }, sizes.context⟩ = _ :=
            (exact_layout ⟨code⟩).complete _ inner middle (sound.behind reads) stops ⟨known', rfl⟩
          have direct : inner ≠ .indirect := by
            rintro rfl
            exact other (Form.code_of_kind?_indirect known')
          rw [skipValue, DirectReader.run_throughIndirect_of_indirect image skipDirect known,
            DirectReader.run_bind_of_ok reads, DirectReader.run_bind_of_ok looks]
          exact (exact_skipDirect ⟨code⟩ direct).complete _ value finish (sound.behind reads) stops
            spans
    · rw [skipValue, DirectReader.run_throughIndirect_of_direct image skipDirect known plain]
      exact (exact_skipDirect form plain).complete place value finish sound stops spans

theorem within_unsignedChecked (width : Nat) :
    Within image stop sizes.context (unsignedChecked width)
      (fun start _ finish => Grammar.room stop width start () finish) := by
  by_cases sized : 1 ≤ width ∧ width ≤ 8
  · refine (exact_unsignedChecked sized).within.mono fun start value finish => ?_
    rintro ⟨read, rfl⟩
    exact ⟨(UnitExtent.fieldAt_eq_ok read).1, rfl⟩
  · rw [unsignedChecked, if_neg sized]
    exact within_throw _

theorem within_uleb128 : Within image stop sizes.context (uleb128 .word)
    (fun start _ finish => Form.Layout.uleb128.Spans image stop sizes start finish) :=
  (exact_uleb128 rfl (by decide)).within.mono fun _ _ _ => .uleb128

theorem within_address : Within image stop sizes.context address
    (fun start _ finish => Form.Layout.address.Spans image stop sizes start finish) := by
  refine (exact_addressSize.within.bind fun size => within_unsignedChecked size).mono
    fun start value finish => ?_
  rintro ⟨_, _, ⟨rfl, rfl⟩, there⟩
  exact .address there

theorem within_sectionOffset : Within image stop sizes.context sectionOffset
    (fun start _ finish => Form.Layout.offset.Spans image stop sizes start finish) := by
  have reads : Within image stop sizes.context sectionOffset _ :=
    exact_format.within.bind fun format => (exact_unsigned format.wordSize_pos).within
  refine reads.mono fun start value finish => ?_
  rintro ⟨_, _, ⟨rfl, rfl⟩, read, rfl⟩
  exact .offset ⟨(UnitExtent.fieldAt_eq_ok read).1, rfl⟩

/-- What is read as an offset of a direct form is a value of its layout. -/
theorem within_offsetDirect (form : Form) (layout : Form.Layout) :
    Within image stop sizes.context (offsetDirect form layout)
      (fun start _ finish => layout.Spans image stop sizes start finish) := by
  cases layout with
  | fixed width =>
      rw [offsetDirect]
      split
      · exact (within_unsignedChecked width).mono fun _ _ _ => .fixed
      · exact within_throw _
  | address =>
      rw [offsetDirect]
      split
      · exact within_address
      · exact within_throw _
  | offset => exact within_sectionOffset
  | uleb128 => exact within_uleb128
  | empty | sleb128 | string | block _ | countedBlock | indirect => exact within_throw _

/-- What is read as an address of a direct form is a value of that form. -/
theorem within_addressDirect (form : Form) :
    Within image stop sizes.context (addressDirect form)
      (fun start _ finish => whole image stop sizes form start finish) := by
  have fixed {form : Form} {width : Nat} (wrap : Nat → AttributeAddress)
      (known : form.kind? sizes.version = some (.fixed width)) :
      Within image stop sizes.context (wrap <$> unsignedChecked width)
        (fun start _ finish => whole image stop sizes form start finish) :=
    ((within_unsignedChecked width).mono fun _ _ _ there => ⟨_, known, .fixed there⟩).map wrap
  have counted {form : Form} (wrap : Nat → AttributeAddress)
      (known : form.kind? sizes.version = some .uleb128) :
      Within image stop sizes.context (wrap <$> uleb128 .word)
        (fun start _ finish => whole image stop sizes form start finish) :=
    (within_uleb128.mono fun _ _ _ there => ⟨_, known, there⟩).map wrap
  unfold addressDirect
  split
  · exact (within_address.mono fun _ _ _ there => ⟨_, rfl, there⟩).map _
  all_goals first
    | exact fixed _ rfl
    | exact counted _ rfl
    | exact within_throw _

theorem within_addressValue (form : Form) :
    Within image stop sizes.context (addressValue form)
      (fun start _ finish => whole image stop sizes form start finish) := by
  rw [addressValue]
  split
  · rename_i same
    subst same
    refine (exact_indirectForm.within.bind within_addressDirect).mono fun start value finish => ?_
    rintro ⟨actual, middle, ⟨other, code⟩, layout, known, spans⟩
    exact ⟨.indirect, rfl, .indirect code other known spans⟩
  · exact within_addressDirect form

end Decode

/-- The number in an address attribute, whatever it counts. -/
def AttributeAddress.number : AttributeAddress → Nat
  | .address value | .index value | .offset value => value

namespace Decode

/-- Reading a value of a direct form as an address is reading it as an offset and saying what that
counts, unless the form is read as an address only or not at all. -/
theorem addressDirect_cases {version : Option Nat} {form : Form} {layout : Form.Layout}
    (known : form.kind? version = some layout) :
    (∃ wrap : Nat → AttributeAddress, (∀ value, (wrap value).number = value) ∧
        addressDirect form = wrap <$> offsetDirect form layout) ∨
      offsetDirect form layout = throw (.unreadableForm form) ∨
        addressDirect form = throw (.unreadableForm form) := by
  unfold addressDirect
  split
  case h_13 => exact .inr (.inr rfl)
  all_goals cases known
  · exact .inr (.inl rfl)
  all_goals first
    | exact .inl ⟨.index, fun _ => rfl, rfl⟩
    | exact .inl ⟨.offset, fun _ => rfl, rfl⟩

end Decode

namespace DirectReader

variable {image : Array UInt8} {reader reached reached' : DirectReader} {value : Nat}
variable {address : AttributeAddress}

/-- A value of a direct form that can be read both as an offset and as an address is the same
number. -/
theorem number_addressDirect {version : Option Nat} {form : Form} {layout : Form.Layout}
    (known : form.kind? version = some layout)
    (reads : run image (Decode.offsetDirect form layout).run reader = (.ok value, reached))
    (reads' : run image (Decode.addressDirect form).run reader = (.ok address, reached')) :
    address.number = value := by
  rcases Decode.addressDirect_cases known with ⟨wrap, number, same⟩ | fails | fails
  · rw [same, map_eq_pure_bind, run_bind_of_ok reads] at reads'
    cases reads'
    exact number value
  · rw [fails] at reads
    cases reads
  · rw [fails] at reads'
    cases reads'

/-- A value that can be read both as an offset and as an address is the same number. -/
theorem number_addressValue {form : Form}
    (reads : run image (Decode.offsetValue form).run reader = (.ok value, reached))
    (reads' : run image (Decode.addressValue form).run reader = (.ok address, reached')) :
    address.number = value := by
  rw [Decode.offsetValue] at reads
  cases known : form.kind? reader.context.version with
  | none =>
      rw [run_throughIndirect_of_none image _ known] at reads
      cases reads
  | some layout =>
      by_cases plain : layout = .indirect
      · subst plain
        have same : form = .indirect := congrArg Constant.mk (Form.code_of_kind?_indirect known)
        rw [run_throughIndirect_of_indirect image _ known] at reads
        rw [Decode.addressValue, if_pos same] at reads'
        obtain ⟨actual, middle, ran, goes⟩ := Dialogue.runStep_bind_ok _ _ reads
        obtain ⟨inner, looked, looks, goes⟩ := Dialogue.runStep_bind_ok _ _ goes
        rw [run_bind_of_ok ran] at reads'
        have layouts := run_layout image actual middle
        rw [show run image _ middle = _ from looks] at layouts
        split at layouts
        · rename_i known'
          cases layouts
          exact number_addressDirect known' goes reads'
        · cases layouts
      · have other : form ≠ .indirect := by
          rintro rfl
          cases known
          exact plain rfl
        rw [run_throughIndirect_of_direct image _ known plain] at reads
        rw [Decode.addressValue, if_neg other] at reads'
        exact number_addressDirect known reads reads'

end DirectReader

namespace Session

variable {image : Array UInt8} {session session' : Session} {table : Table}

/-- Over an image, the direct reader of a table answers a plain decoder as its reader does, and
stands alike behind it. -/
theorem direct_run_on {α : Type} {decoder : Decoder α} {blames : α → Error → Prop} {answer : α}
    (reached : (session.readers.get table).Reachable (.ofImage image))
    (obeys : (Licence.discipline .plain).judgement.Holds blames decoder)
    (h : session.run (.ofImage image) (decoder.on table) = (answer, session')) :
    DirectReader.run image decoder (session.readers.get table).direct =
      (answer, (session'.readers.get table).direct) := by
  have ran := run_on (.ofImage image) table decoder session
  rw [h] at ran
  rw [Reader.run_ofImage reached.sound (reached.shows (Source.truthful_ofImage image)) rfl obeys
    session.log]
  rcases answers : Reader.run (.ofImage image) decoder (session.readers.get table) session.log with
    ⟨answer', reader, log⟩
  rw [answers] at ran
  cases ran
  rw [Bank.get_set_self]

theorem get_run_on {α : Type} {decoder : Decoder α} {other : Table} (source : Source)
    (apart : table ≠ other) (session : Session) :
    (session.run source (decoder.on other)).2.readers.get table = session.readers.get table := by
  rw [run_on]
  exact Bank.get_set_of_ne _ _ apart

/-- A reader that is only looked at, and is then given up on, leaves its session alone. -/
theorem skipValue_unknown {source : Source} {form : Form}
    (unknown : form.kind? (session.readers.get table).context.version = none) :
    session.run source ((Decode.skipValue form).on table).run =
      (.error (.unreadableForm form), session) := by
  have context :
      (session.readers.get table).view.context = (session.readers.get table).context := by
    rcases session.readers.get table with ⟨_ | w, context⟩ <;> rfl
  have looks : Reader.serve source .view (session.readers.get table, session.log) =
      ((session.readers.get table).view, session.readers.get table, session.log) := rfl
  have ran := Decode.run_layout looks form
  rw [context, unknown] at ran
  have fails : Reader.run source (Decode.skipValue form).run (session.readers.get table)
      session.log = (.error (.unreadableForm form), session.readers.get table, session.log) := by
    rw [Reader.run, Decode.skipValue, Decode.throughIndirect, Dialogue.runStep_bind, ran]
  have kept : session.readers.set (session.readers.get table) table = session.readers := by
    cases table <;> rfl
  calc session.run source ((Decode.skipValue form).on table).run
      = (.error (.unreadableForm form),
          ⟨session.readers.set (session.readers.get table) table, session.log⟩) := by
        rw [Decode.on, ExceptT.run_mk, run_on, fails]
    _ = (.error (.unreadableForm form), session) := by rw [kept]

variable {sizes : UnitSizes} {place : Place}

/-- A string that was found is a value of its form, and the reader of the value stands behind it. -/
theorem whole_of_stringValue {form : Form} {transfer : Transfer}
    (reached : (session.readers.get table).Reachable (.ofImage image))
    (stands : (session.readers.get table).direct = ⟨some place, sizes.context⟩)
    (apart : table ≠ .strings ∧ table ≠ .lineStrings)
    (h : session.run (.ofImage image) (Consult.stringValue table form) = (transfer, session'))
    (complete : transfer.failure = none) :
    ∃ finish, Decode.whole image place.stop sizes form place.offset finish ∧
      (session'.readers.get table).direct =
        ⟨some { place with offset := finish }, sizes.context⟩ := by
  have bounds : place.Sound := reached.sound.direct place (stands ▸ rfl)
  -- A value that is an offset into another table ends where that offset does.
  have looked {other : Table} (aside : table ≠ other)
      (known : form.kind? sizes.version = some .offset)
      (ran : session.run (.ofImage image) (Consult.orFailed do
          let offset ← Decode.sectionOffset.on table
          ExceptT.lift ((Decode.stringAt offset).on other)) = (transfer, session')) :
      ∃ finish, Decode.whole image place.stop sizes form place.offset finish ∧
        (session'.readers.get table).direct =
          ⟨some { place with offset := finish }, sizes.context⟩ := by
    rw [Consult.orFailed_eq, run, Dialogue.run_map] at ran
    have first := Dialogue.runStep_bind (serve (.ofImage image)) session
      (Decode.sectionOffset.on table) fun offset =>
        ExceptT.lift ((Decode.stringAt offset).on other)
    rw [first] at ran
    rcases reads : (Decode.sectionOffset.on table).run.run (serve (.ofImage image)) session with
      ⟨error | offset, middle⟩
    · rw [reads] at ran
      cases ran
      cases complete
    · have direct := direct_run_on reached Decode.obeys_sectionOffset reads
      rw [stands] at direct
      obtain ⟨finish, spans, left⟩ := Decode.within_sectionOffset place _ _ bounds rfl direct
      rw [reads] at ran
      simp only [Dialogue.runStep_lift] at ran
      have kept :
          (middle.run (.ofImage image) ((Decode.stringAt offset).on other)).2.readers.get table =
            middle.readers.get table :=
        get_run_on (.ofImage image) aside middle
      rw [run] at kept
      cases ran
      exact ⟨finish, ⟨.offset, known, spans⟩, kept ▸ left⟩
  unfold Consult.stringValue at h
  split at h
  · have ran := direct_run_on reached Decode.obeys_string h
    rw [stands] at ran
    have reads : DirectReader.run image (Decode.completed Decode.string).run
        ⟨some place, sizes.context⟩ =
          (.ok transfer.bytes, (session'.readers.get table).direct) := by
      have mapped := Dialogue.run_map (DirectReader.serve image) Transfer.complete Decode.string
        ⟨some place, sizes.context⟩
      rw [DirectReader.run] at ran
      rw [ran, Transfer.complete, complete] at mapped
      exact mapped
    obtain ⟨finish, there, left⟩ := Decode.exact_string.within place _ _ bounds rfl reads
    exact ⟨finish, ⟨.string, rfl, .string there⟩, left⟩
  · exact looked apart.1 rfl h
  · exact looked apart.2 rfl h
  · cases h
    cases complete

/-- Skipping a value succeeds exactly where the window holds a whole one and ends behind it, and a
form that is not known is given up on at once.  What can be read as a value of a form, as an offset,
as an address or as a string, could be skipped to the same place; an offset and an address that can
both be read are the same number. -/
theorem skipValue_exact (reached : (session.readers.get table).Reachable (.ofImage image))
    (stands : (session.readers.get table).direct = ⟨some place, sizes.context⟩)
    (apart : table ≠ .strings ∧ table ≠ .lineStrings) (form : Form) :
    let left (session : Session) := (session.readers.get table).direct
    let skipped := session.run (.ofImage image) ((Decode.skipValue form).on table).run
    let offset := session.run (.ofImage image) ((Decode.offsetValue form).on table).run
    let address := session.run (.ofImage image) ((Decode.addressValue form).on table).run
    let text := session.run (.ofImage image) (Consult.stringValue table form)
    (∀ layout, form.kind? sizes.version = some layout →
        (skipped.1 = .ok () ↔
            ∃ finish, layout.Spans image place.stop sizes place.offset finish) ∧
          ∀ finish, layout.Spans image place.stop sizes place.offset finish →
            left skipped.2 = ⟨some { place with offset := finish }, sizes.context⟩) ∧
      (form.kind? sizes.version = none → skipped = (.error (.unreadableForm form), session)) ∧
      (∀ value, offset.1 = .ok value → skipped.1 = .ok () ∧ left skipped.2 = left offset.2) ∧
      (∀ value, address.1 = .ok value → skipped.1 = .ok () ∧ left skipped.2 = left address.2) ∧
      (text.1.failure = none → skipped.1 = .ok () ∧ left skipped.2 = left text.2) ∧
      ∀ value value', offset.1 = .ok value → address.1 = .ok value' → value'.number = value := by
  intro left skipped offset address text
  have bounds : place.Sound := reached.sound.direct place (stands ▸ rfl)
  have runs {α : Type} {step : Decode α} (obeys : step.Obeys .plain) :
      DirectReader.run image step.run ⟨some place, sizes.context⟩ =
        ((session.run (.ofImage image) (step.on table).run).1,
          left (session.run (.ofImage image) (step.on table).run).2) := by
    rw [← stands]
    exact direct_run_on reached obeys rfl
  have skips := runs (Decode.obeys_skipValue form)
  have offsets := runs (Decode.obeys_offsetValue form)
  have addresses := runs (Decode.obeys_addressValue form)
  have skipping : Decode.Exact image place.stop sizes.context (Decode.skipValue form) _ :=
    Decode.exact_skipValue form
  have passed {finish : Nat}
      (spans : Decode.whole image place.stop sizes form place.offset finish) :
      skipped.1 = .ok () ∧
        left skipped.2 = ⟨some { place with offset := finish }, sizes.context⟩ := by
    have ends := skipping.complete place () finish bounds rfl spans
    rw [skips] at ends
    exact ⟨congrArg Prod.fst ends, congrArg Prod.snd ends⟩
  refine ⟨fun layout known => ⟨⟨fun ok => ?_, ?_⟩, fun finish spans => ?_⟩, fun unknown => ?_,
    fun value ok => ?_, fun value ok => ?_, fun found => ?_, fun value value' ok ok' => ?_⟩
  · obtain ⟨finish, ⟨layout', known', spans⟩, -⟩ :=
      skipping.within place () (left skipped.2) bounds rfl (skips.trans (Prod.ext ok rfl))
    cases known.symm.trans known'
    exact ⟨finish, spans⟩
  · rintro ⟨finish, spans⟩
    exact (passed ⟨layout, known, spans⟩).1
  · exact (passed ⟨layout, known, spans⟩).2
  · have context : (session.readers.get table).context = sizes.context :=
      congrArg DirectReader.context stands
    exact skipValue_unknown (context ▸ unknown)
  · obtain ⟨finish, spans, ends⟩ := Decode.within_throughIndirect form Decode.within_offsetDirect
      place value (left offset.2) bounds rfl (offsets.trans (Prod.ext ok rfl))
    exact ⟨(passed spans).1, (passed spans).2.trans ends.symm⟩
  · obtain ⟨finish, spans, ends⟩ := Decode.within_addressValue form place value (left address.2)
      bounds rfl (addresses.trans (Prod.ext ok rfl))
    exact ⟨(passed spans).1, (passed spans).2.trans ends.symm⟩
  · obtain ⟨finish, spans, ends⟩ := whole_of_stringValue reached stands apart rfl found
    exact ⟨(passed spans).1, (passed spans).2.trans ends.symm⟩
  · exact DirectReader.number_addressValue (offsets.trans (Prod.ext ok rfl))
      (addresses.trans (Prod.ext ok' rfl))

/-- Behind an indirect form, the two bytes of the form that is named there are passed with it. -/
theorem skipValue_exact_indirect :
    let image : Array UInt8 := #[0x05, 0x34, 0x12]
    let reader : Reader := ⟨some ⟨.zeroed 16, 0, 0, 0, 0, 3, 3, 3⟩, ⟨some .dwarf32, some 8, none⟩⟩
    let session : Session := .start ⟨reader, .unbound, .unbound, .unbound, .unbound, .unbound⟩
    let skipped := session.run (.ofImage image) ((Decode.skipValue .indirect).on .info).run
    skipped.1 = .ok () ∧
      (skipped.2.readers.get .info).direct = ⟨some ⟨3, 0, 3, 3, 3⟩, reader.context⟩ := by
  intro image reader session skipped
  let sizes : UnitSizes := ⟨.dwarf32, 8, none⟩
  have reached : reader.Reachable (.ofImage image) :=
    .run (Dialogue.ask (.record sizes.context) .done) #[] (.bound (rfl :
      Reader.bound (.zeroed 16) ⟨0, 3⟩ 3 = .ok ⟨some ⟨.zeroed 16, 0, 0, 0, 0, 3, 3, 3⟩, .unknown⟩))
  have spans : Form.Layout.indirect.Spans image 3 sizes 0 3 :=
    .indirect ⟨[0x05], .last (by decide), by decide, ⟨by decide, by decide⟩, by decide, rfl, rfl⟩
      (by decide) rfl (.fixed ⟨by decide, rfl⟩)
  have stands : (session.readers.get .info).direct = ⟨some ⟨0, 0, 3, 3, 3⟩, sizes.context⟩ := rfl
  obtain ⟨exactly, -⟩ := skipValue_exact reached stands (by decide) .indirect
  have passed := exactly .indirect rfl
  clear exactly
  simp only [skipped]
  generalize session.run (.ofImage image) ((Decode.skipValue .indirect).on .info).run = ran at *
  exact ⟨passed.1.mpr ⟨3, spans⟩, passed.2 3 spans⟩

end Session

end Dwarf
