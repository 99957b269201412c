import Dwarf.Proofs.Aligned
import Dwarf.Proofs.Codes
/-!
# Headers of units and their bytes

A header is parsed exactly where its bytes stand at the position of a reader, its unit ends inside
the section and its own bytes end inside the unit.  So no two headers have the same bytes, and every
field of a header can be had back from them.
-/

namespace Dwarf

/-- The first length that a format has no bytes for. -/
def Format.lengthBound : Format → Nat
  | .dwarf32 => Decode.reservedLengths
  | .dwarf64 => 256 ^ 8

/-- The bytes of an initial length. -/
def Format.lengthBytes : Format → Nat → List UInt8
  | .dwarf32, length => toLittleEndian 4 length
  | .dwarf64, length => toLittleEndian 4 Decode.wideLength ++ toLittleEndian 8 length

/-- A field of some width that is there exactly under a condition. -/
def Held (present : Prop) (width : Nat) : Option Nat → Prop
  | none => ¬ present
  | some value => present ∧ value < 256 ^ width

theorem Held.eq_none {present : Prop} {width : Nat} {value : Option Nat}
    (held : Held present width value) (absent : ¬ present) : value = none := by
  cases value with
  | none => rfl
  | some value => exact absurd held.1 absent

theorem Held.eq_some {present : Prop} {width : Nat} {value : Option Nat}
    (held : Held present width value) (holds : present) :
    ∃ number, value = some number ∧ number < 256 ^ width := by
  cases value with
  | none => exact absurd holds held
  | some number => exact ⟨number, rfl, held.2⟩

namespace Decode.UnitFields

/-- Fields that a header of some version and format can have. -/
structure WellFormed (format : Format) (version : Nat) (fields : UnitFields) : Prop where
  /-- Before version five there are compile units alone. -/
  unitType : if version = 5 then fields.unitType.code < 256 else fields.unitType = .compile
  /-- Addresses are those of 32-bit and of 64-bit targets. -/
  addressSize : fields.addressSize = 4 ∨ fields.addressSize = 8
  /-- Offsets are as wide as the format says. -/
  abbreviationsOffset : fields.abbreviationsOffset < 256 ^ format.wordSize
  /-- Skeletons and split compile units have an identity. -/
  splitId : Held (version = 5 ∧ (fields.unitType = .skeleton ∨ fields.unitType = .splitCompile)) 8
    fields.splitId
  /-- Type units have a signature. -/
  typeSignature : Held (version = 5 ∧ (fields.unitType = .type ∨ fields.unitType = .splitType)) 8
    fields.typeSignature
  /-- Type units have a type, wherever that is. -/
  typeOffset : Held (version = 5 ∧ (fields.unitType = .type ∨ fields.unitType = .splitType))
    format.wordSize fields.typeOffset

/-- The bytes of the fields in some version and format. -/
def bytes (format : Format) (version : Nat) (fields : UnitFields) : List UInt8 :=
  let offset := toLittleEndian format.wordSize fields.abbreviationsOffset
  let size := toLittleEndian 1 fields.addressSize
  if version = 5 then
    toLittleEndian 1 fields.unitType.code ++ size ++ offset ++
      fields.splitId.elim [] (toLittleEndian 8) ++
        fields.typeSignature.elim [] (toLittleEndian 8) ++
          fields.typeOffset.elim [] (toLittleEndian format.wordSize)
  else offset ++ size

end Decode.UnitFields

namespace UnitHeader

/-- The fields of a header behind its version. -/
def fields (header : UnitHeader) : Decode.UnitFields :=
  ⟨header.unitType, header.addressSize, header.abbreviationsOffset, header.splitId,
    header.typeSignature, header.typeOffset⟩

/-- Headers whose fields have a place in their bytes. -/
structure WellFormed (header : UnitHeader) : Prop where
  length : header.length < header.format.lengthBound
  version : 2 ≤ header.version ∧ header.version ≤ 5
  fields : header.fields.WellFormed header.format header.version

/-- The bytes of a header. -/
def bytes (header : UnitHeader) : List UInt8 :=
  header.format.lengthBytes header.length ++ toLittleEndian 2 header.version ++
    header.fields.bytes header.format header.version

end UnitHeader

namespace Decode

variable {image : Array UInt8} {place : Place} {context : Context} {format : Format}
variable {version : Nat}

/-- The byte of an address size is read where it is one of the two, which is known then. -/
theorem reads_readAddressSize (sound : place.Sound) :
    Reads image place context readAddressSize ⟨fun size => size = 4 ∨ size = 8, toLittleEndian 1⟩
      fun size => { context with addressSize := some size } := by
  have records {place : Place} (sound : place.Sound) (size : Nat) :
      Reads image place context (do recordAddressSize size; pure size)
        ⟨fun value => value = size ∧ (size = 4 ∨ size = 8), fun _ => []⟩
          fun size => { context with addressSize := some size } := by
    by_cases accepted : size = 4 ∨ size = 8
    · have told : Reads image place { context with addressSize := some size } (pure size)
          (.nothing size) fun size => { context with addressSize := some size } :=
        .pure sound rfl
      have records : Reads image place context (do recordAddressSize size; pure size)
          (.nothing size) fun size => { context with addressSize := some size } := by
        rw [recordAddressSize, checkAddressSize, if_pos accepted]
        exact told
      exact records.congr (fun value => (and_iff_left accepted).symm) fun _ _ => rfl
    · rw [recordAddressSize, checkAddressSize, if_neg accepted]
      have fails : Reads image place context (throw (.addressSizeInvalid size)) Code.none
          fun size => { context with addressSize := some size } := .throw _
      refine Reads.congr fails (fun value => ?_) fun _ _ => rfl
      exact ⟨False.elim, fun both => accepted both.2⟩
  have taken : Reads image place context byte (.fixed 1) fun _ => context :=
    reads_unsigned Nat.one_pos sound
  have reads := taken.bind id sound (fun size _ sound => records sound size)
    fun _ _ _ both => both.1
  refine reads.congr (fun size => ?_) fun size _ => List.append_nil _
  constructor
  · rintro ⟨-, -, accepted⟩
    exact accepted
  · rintro (rfl | rfl)
    · exact ⟨(by decide : 4 < 256 ^ 1), rfl, .inl rfl⟩
    · exact ⟨(by decide : 8 < 256 ^ 1), rfl, .inr rfl⟩

/-- The fields of versions two to four are read from their bytes. -/
theorem reads_unitFieldsEarly (sound : place.Sound) (known : context.format = some format)
    (early : version ≠ 5) :
    Reads image place context unitFieldsEarly
      ⟨UnitFields.WellFormed format version, UnitFields.bytes format version⟩
      fun fields => { context with addressSize := some fields.addressSize } := by
  have made {place : Place} (sound : place.Sound) (offset size : Nat) :
      Reads image place { context with addressSize := some size }
        (pure ⟨.compile, size, offset, none, none, none⟩)
          (.nothing ⟨.compile, size, offset, none, none, none⟩)
            fun fields : UnitFields => { context with addressSize := some fields.addressSize } :=
    .pure sound rfl
  have sized {place : Place} (sound : place.Sound) (offset : Nat) :=
    (reads_readAddressSize sound).bind UnitFields.addressSize sound
      (fun size _ sound => made sound offset size)
        fun _ _ _ same => congrArg UnitFields.addressSize same
  have reads := (reads_sectionOffset sound known).bind UnitFields.abbreviationsOffset sound
    (fun offset _ sound => sized sound offset)
      fun _ _ _ rest => congrArg UnitFields.abbreviationsOffset rest.2
  refine reads.congr (fun fields => ?_) fun fields _ => ?_
  · obtain ⟨unitType, size, offset, splitId, signature, typeOffset⟩ := fields
    constructor
    · rintro ⟨narrow, accepted, ⟨⟩⟩
      exact ⟨by rw [if_neg early], accepted, narrow, fun has => early has.1,
        fun has => early has.1, fun has => early has.1⟩
    · rintro ⟨compile, accepted, narrow, noId, noSignature, noOffset⟩
      rw [if_neg early] at compile
      cases compile
      cases noId.eq_none fun has => early has.1
      cases noSignature.eq_none fun has => early has.1
      cases noOffset.eq_none fun has => early has.1
      exact ⟨narrow, accepted, rfl⟩
  · simp only [UnitFields.bytes, if_neg early]
    exact congrArg (toLittleEndian format.wordSize fields.abbreviationsOffset ++ ·)
      (List.append_nil _)

/-- What a type of unit has behind the fields of all types. -/
def identity (format : Format) (unitType : UnitType) (size offset : Nat) : Code UnitFields where
  Fits fields :=
    fields.unitType = unitType ∧ fields.addressSize = size ∧ fields.abbreviationsOffset = offset ∧
      Held (unitType = .skeleton ∨ unitType = .splitCompile) 8 fields.splitId ∧
        Held (unitType = .type ∨ unitType = .splitType) 8 fields.typeSignature ∧
          Held (unitType = .type ∨ unitType = .splitType) format.wordSize fields.typeOffset
  bytes fields :=
    fields.splitId.elim [] (toLittleEndian 8) ++
      (fields.typeSignature.elim [] (toLittleEndian 8) ++
        fields.typeOffset.elim [] (toLittleEndian format.wordSize))

/-- A skeleton or a split compile unit has an identity. -/
theorem reads_splitId {unitType : UnitType} {size offset : Nat} (sound : place.Sound)
    (split : unitType = .skeleton ∨ unitType = .splitCompile) :
    Reads image place context (do
        let splitId ← unsigned 8
        pure ⟨unitType, size, offset, some splitId, none, none⟩)
      (identity format unitType size offset) fun _ => context := by
  have made {place : Place} (sound : place.Sound) (splitId : Nat) :
      Reads image place context (pure ⟨unitType, size, offset, some splitId, none, none⟩)
        (.nothing ⟨unitType, size, offset, some splitId, none, none⟩)
          fun _ : UnitFields => context :=
    .pure sound rfl
  have reads := (reads_unsigned (by decide : 0 < 8) sound).bind
    (fun fields : UnitFields => fields.splitId.getD 0) sound
      (fun splitId _ sound => made sound splitId)
        fun _ _ _ same => congrArg (fun fields : UnitFields => fields.splitId.getD 0) same
  have other : ¬ (unitType = .type ∨ unitType = .splitType) := by
    rcases split with rfl | rfl <;> decide
  refine reads.congr (fun fields => ?_) fun fields fits => ?_
  · obtain ⟨unitType, size, offset, splitId, signature, typeOffset⟩ := fields
    constructor
    · rintro ⟨narrow, same⟩
      injection same with sameType sameSize sameOffset has noSignature noOffset
      subst sameType sameSize sameOffset noSignature noOffset
      rw [has]
      exact ⟨rfl, rfl, rfl, ⟨split, narrow⟩, other, other⟩
    · rintro ⟨⟨⟩, ⟨⟩, ⟨⟩, has, noSignature, noOffset⟩
      obtain ⟨splitId, ⟨⟩, narrow⟩ := has.eq_some split
      cases noSignature.eq_none other
      cases noOffset.eq_none other
      exact ⟨narrow, rfl⟩
  · obtain ⟨-, -, -, has, noSignature, noOffset⟩ := fits
    obtain ⟨splitId, same, -⟩ := has.eq_some split
    simp only [Code.andThen, Code.fixed, Code.nothing, identity, same, noSignature.eq_none other,
      noOffset.eq_none other, Option.getD_some, Option.elim, List.append_nil]

/-- A type unit has a signature, and says where its type is. -/
theorem reads_typeSignature {unitType : UnitType} {size offset : Nat} (sound : place.Sound)
    (known : context.format = some format) (type : unitType = .type ∨ unitType = .splitType) :
    Reads image place context (do
        let signature ← unsigned 8
        let typeOffset ← sectionOffset
        pure ⟨unitType, size, offset, none, some signature, some typeOffset⟩)
      (identity format unitType size offset) fun _ => context := by
  have made {place : Place} (sound : place.Sound) (signature typeOffset : Nat) :
      Reads image place context
        (pure ⟨unitType, size, offset, none, some signature, some typeOffset⟩)
          (.nothing ⟨unitType, size, offset, none, some signature, some typeOffset⟩)
            fun _ : UnitFields => context :=
    .pure sound rfl
  have signed {place : Place} (sound : place.Sound) (signature : Nat) :=
    (reads_sectionOffset sound known).bind (fun fields : UnitFields => fields.typeOffset.getD 0)
      sound (fun typeOffset _ sound => made sound signature typeOffset)
        fun _ _ _ same => congrArg (fun fields : UnitFields => fields.typeOffset.getD 0) same
  have reads := (reads_unsigned (by decide : 0 < 8) sound).bind
    (fun fields : UnitFields => fields.typeSignature.getD 0) sound
      (fun signature _ sound => signed sound signature)
        fun _ _ _ rest => congrArg (fun fields : UnitFields => fields.typeSignature.getD 0) rest.2
  have other : ¬ (unitType = .skeleton ∨ unitType = .splitCompile) := by
    rcases type with rfl | rfl <;> decide
  refine reads.congr (fun fields => ?_) fun fields fits => ?_
  · obtain ⟨unitType, size, offset, splitId, signature, typeOffset⟩ := fields
    constructor
    · rintro ⟨narrow, narrow', same⟩
      injection same with sameType sameSize sameOffset noId has has'
      subst sameType sameSize sameOffset noId
      rw [has, has']
      exact ⟨rfl, rfl, rfl, other, ⟨type, narrow⟩, ⟨type, narrow'⟩⟩
    · rintro ⟨⟨⟩, ⟨⟩, ⟨⟩, noId, has, has'⟩
      obtain ⟨signature, ⟨⟩, narrow⟩ := has.eq_some type
      obtain ⟨typeOffset, ⟨⟩, narrow'⟩ := has'.eq_some type
      cases noId.eq_none other
      exact ⟨narrow, narrow', rfl⟩
  · obtain ⟨-, -, -, noId, has, has'⟩ := fits
    obtain ⟨signature, same, -⟩ := has.eq_some type
    obtain ⟨typeOffset, same', -⟩ := has'.eq_some type
    simp only [Code.andThen, Code.fixed, Code.nothing, identity, same, same', noId.eq_none other,
      Option.getD_some, Option.elim, List.append_nil, List.nil_append]

theorem reads_nothingElse {unitType : UnitType} {size offset : Nat} (sound : place.Sound)
    (whole : ¬ (unitType = .skeleton ∨ unitType = .splitCompile))
    (plain : ¬ (unitType = .type ∨ unitType = .splitType)) :
    Reads image place context (pure ⟨unitType, size, offset, none, none, none⟩)
      (identity format unitType size offset) fun _ => context := by
  have made : Reads image place context (pure ⟨unitType, size, offset, none, none, none⟩)
      (.nothing ⟨unitType, size, offset, none, none, none⟩) fun _ : UnitFields => context :=
    .pure sound rfl
  refine made.congr (fun fields => ?_) fun fields fits => ?_
  · constructor
    · rintro rfl
      exact ⟨rfl, rfl, rfl, whole, plain, plain⟩
    · obtain ⟨unitType, size, offset, splitId, signature, typeOffset⟩ := fields
      rintro ⟨⟨⟩, ⟨⟩, ⟨⟩, noId, noSignature, noOffset⟩
      cases noId.eq_none whole
      cases noSignature.eq_none plain
      cases noOffset.eq_none plain
      rfl
  · obtain ⟨-, -, -, noId, noSignature, noOffset⟩ := fits
    simp only [Code.nothing, identity, noId.eq_none whole, noSignature.eq_none plain,
      noOffset.eq_none plain, Option.elim, List.append_nil]

/-- What a type of unit has behind the fields of all types is read from its bytes. -/
theorem reads_identity {unitType : UnitType} {size offset : Nat} (sound : place.Sound)
    (known : context.format = some format) :
    Reads image place context (match unitType with
        | .skeleton | .splitCompile => do
          let splitId ← unsigned 8
          pure ⟨unitType, size, offset, some splitId, none, none⟩
        | .type | .splitType => do
          let signature ← unsigned 8
          let typeOffset ← sectionOffset
          pure ⟨unitType, size, offset, none, some signature, some typeOffset⟩
        | _ => pure ⟨unitType, size, offset, none, none, none⟩)
      (identity format unitType size offset) fun _ => context := by
  split
  · exact reads_splitId sound (.inl rfl)
  · exact reads_splitId sound (.inr rfl)
  · exact reads_typeSignature sound known (.inl rfl)
  · exact reads_typeSignature sound known (.inr rfl)
  · rename_i notSkeleton notSplitCompile notType notSplitType
    exact reads_nothingElse sound (not_or.mpr ⟨notSkeleton, notSplitCompile⟩)
      (not_or.mpr ⟨notType, notSplitType⟩)

/-- The fields of version five are read from their bytes. -/
theorem reads_unitFieldsTyped (sound : place.Sound) (known : context.format = some format) :
    Reads image place context unitFieldsTyped
      ⟨UnitFields.WellFormed format 5, UnitFields.bytes format 5⟩
      fun fields => { context with addressSize := some fields.addressSize } := by
  let sized (size : Nat) : Context := { context with addressSize := some size }
  have kept (size : Nat) : (sized size).format = some format := known
  have offsets {place : Place} (sound : place.Sound) (size : Nat) :
      Reads image place (sized size) sectionOffset (.fixed format.wordSize) fun _ => sized size :=
    reads_sectionOffset sound (kept size)
  have identified {place : Place} (sound : place.Sound) (unitType : UnitType) (size offset : Nat) :
      Reads image place (sized size) _ (identity format unitType size offset)
        fun fields => sized fields.addressSize :=
    (reads_identity sound (kept size)).learns fun _ fits => congrArg sized fits.2.1.symm
  have located {place : Place} (sound : place.Sound) (unitType : UnitType) (size : Nat) :=
    (offsets sound size).bind UnitFields.abbreviationsOffset sound
      (fun offset _ sound => identified sound unitType size offset) fun _ _ _ fits => fits.2.2.1
  have measured {place : Place} (sound : place.Sound) (unitType : UnitType) :=
    (reads_readAddressSize sound).bind UnitFields.addressSize sound
      (fun size _ sound => located sound unitType size) fun _ _ _ fits => fits.2.2.1
  have coded : Reads image place context byte (.fixed 1) fun _ => context :=
    reads_unsigned Nat.one_pos sound
  have reads := coded.bind (fun fields : UnitFields => fields.unitType.code) sound
    (fun code _ sound => measured sound ⟨code⟩) fun _ _ _ fits => congrArg Constant.code fits.2.2.1
  have five {present : Prop} {width : Nat} {value : Option Nat} :
      Held present width value ↔ Held (5 = 5 ∧ present) width value := by
    rw [eq_self, true_and]
  refine Reads.congr reads (fun fields => ?_) fun fields fits => ?_
  · constructor
    · rintro ⟨coded, accepted, narrow, -, -, -, hasId, hasSignature, hasOffset⟩
      exact ⟨coded, accepted, narrow, five.mp hasId, five.mp hasSignature, five.mp hasOffset⟩
    · rintro ⟨coded, accepted, narrow, hasId, hasSignature, hasOffset⟩
      exact ⟨coded, accepted, narrow, rfl, rfl, rfl, five.mpr hasId, five.mpr hasSignature,
        five.mpr hasOffset⟩
  · simp only [Code.andThen, Code.fixed, identity, UnitFields.bytes, if_pos, List.append_assoc]

/-- The fields of a known version are read from their bytes. -/
theorem reads_unitFields (sound : place.Sound) (known : context.format = some format)
    (version : Nat) :
    Reads image place context (unitFields version)
      ⟨fun fields => (2 ≤ version ∧ version ≤ 5) ∧ fields.WellFormed format version,
        UnitFields.bytes format version⟩
      fun fields => { context with addressSize := some fields.addressSize } := by
  rw [unitFields]
  split
  · rename_i early
    exact (reads_unitFieldsEarly sound known (by omega)).congr
      (fun _ => (and_iff_right (by omega)).symm) fun _ _ => rfl
  · split
    · rename_i typed
      subst typed
      exact (reads_unitFieldsTyped sound known).congr
        (fun _ => (and_iff_right (by decide)).symm) fun _ _ => rfl
    · rename_i notEarly notTyped
      have absent {fields : UnitFields}
          (both : (2 ≤ version ∧ version ≤ 5) ∧ fields.WellFormed format version) : False := by
        omega
      exact Reads.congr (.throw _) (fun _ => ⟨False.elim, absent⟩) fun _ both => (absent both).elim

/-- A header, told from where it lies and what its bytes are. -/
def headerOf (extent : UnitExtent) (format : Format) (version : Nat) (fields : UnitFields)
    (entries : Nat) : UnitHeader :=
  ⟨extent.sectionOffset, extent.start, entries, extent.stop, extent.length, format, version,
    fields.unitType, fields.abbreviationsOffset, fields.addressSize, fields.splitId,
    fields.typeSignature, fields.typeOffset⟩

/-- Behind its initial length, a header of a unit is read from its bytes. -/
theorem reads_headerRest (extent : UnitExtent) (sound : place.Sound)
    (known : context.format = some format) :
    Reads image place context (do
        let format ← Decode.format
        let version ← unsigned 2
        record ({ · with version := some version })
        let fields ← unitFields version
        let seen ← view
        pure (headerOf extent format version fields seen.offset))
      { Fits := fun header =>
          (2 ≤ header.version ∧ header.version ≤ 5) ∧
            header.fields.WellFormed format header.version ∧
              header = headerOf extent format header.version header.fields
                (place.offset + 2 + (header.fields.bytes format header.version).length)
        bytes := fun header =>
          toLittleEndian 2 header.version ++ header.fields.bytes format header.version }
      fun header => header.sizes.context := by
  let told (version : Nat) : Context := { context with version := some version }
  have kept (version : Nat) : (told version).format = some format := known
  have looked {place : Place} (sound : place.Sound) (version : Nat) (fields : UnitFields) :
      Reads image place { told version with addressSize := some fields.addressSize } (do
          let seen ← view
          pure (headerOf extent format version fields seen.offset))
        (.nothing (headerOf extent format version fields place.offset))
          fun header => header.sizes.context := by
    have made : Reads image place { told version with addressSize := some fields.addressSize }
        (pure (headerOf extent format version fields place.offset)) (.nothing _)
          fun header => header.sizes.context :=
      .pure sound (by simp only [told, known]; rfl)
    exact made
  have fielded {place : Place} (sound : place.Sound) (version : Nat) :=
    (reads_unitFields sound (kept version) version).bind UnitHeader.fields sound
      (fun fields _ sound => looked sound version fields)
        fun _ _ _ same => congrArg UnitHeader.fields same
  have recorded {place : Place} (sound : place.Sound) (version : Nat) :
      Reads image place context (do
          record ({ · with version := some version })
          let fields ← unitFields version
          let seen ← view
          pure (headerOf extent format version fields seen.offset)) _
        fun header => header.sizes.context :=
    (reads_record sound _).bind (fun _ => ()) sound
      (fun _ _ sound => fielded sound version) fun _ _ _ _ => rfl
  have reads := (reads_unsigned (by decide : 0 < 2) sound).bind UnitHeader.version sound
    (fun version _ sound => recorded sound version)
      fun _ _ _ fits => congrArg UnitHeader.version fits.2.2
  intro header left
  rw [DirectReader.run_bind_of_ok (run_format known)]
  refine (reads.congr (fun header => ?_) fun header _ => ?_) header left
  · simp only [Code.andThen, Code.fixed, Code.nothing, Place.advance, length_toLittleEndian,
      List.length_nil, Nat.add_zero, true_and]
    constructor
    · rintro ⟨-, ⟨versions, formed⟩, same⟩
      exact ⟨versions, formed, same⟩
    · rintro ⟨versions, formed, same⟩
      exact ⟨Nat.lt_of_le_of_lt versions.2 (by decide), ⟨versions, formed⟩, same⟩
  · simp only [Code.andThen, Code.fixed, Code.nothing, List.append_nil, List.nil_append]

end Decode

theorem Format.length_lengthBytes (format : Format) (length : Nat) :
    (format.lengthBytes length).length = format.lengthSize := by
  cases format <;> simp [lengthBytes, lengthSize]

theorem UnitHeader.length_bytes (header : UnitHeader) :
    header.bytes.length = header.format.lengthSize +
      (2 + (header.fields.bytes header.format header.version).length) := by
  simp only [bytes, List.length_append, Format.length_lengthBytes, length_toLittleEndian,
    Nat.add_assoc]

/-- A header lies at a place: its bytes stand there, and its unit ends in the section. -/
structure UnitHeader.LiesAt (image : Array UInt8) (place : Place) (header : UnitHeader) : Prop where
  formed : header.WellFormed
  start : header.start = place.offset
  sectionOffset : header.sectionOffset = place.offset - place.first
  there : Source.Starts image header.stop place.offset header.bytes
  entries : header.entries = place.offset + header.bytes.length
  stop : header.stop = place.offset + header.format.lengthSize + header.length
  inside : header.stop ≤ place.limit

namespace UnitExtent

open Source Decode

variable {image : Array UInt8} {limit offset length stop : Nat} {format : Format}

theorem lengthSize_eq (image : Array UInt8) (offset : Nat) :
    lengthSize image offset = (formatAt image offset).lengthSize := by
  simp only [lengthSize, formatAt]
  split <;> rfl

theorem initialLength_of_plain (plain : wordAt image offset 4 < reservedLengths) :
    formatAt image offset = .dwarf32 ∧ lengthAt image offset = wordAt image offset 4 := by
  have narrow : wordAt image offset 4 ≠ wideLength := by
    unfold reservedLengths at plain
    unfold wideLength
    omega
  exact ⟨if_neg narrow, if_neg narrow⟩

theorem initialLength_of_wide (wide : wordAt image offset 4 = wideLength) :
    formatAt image offset = .dwarf64 ∧ lengthAt image offset = wordAt image (offset + 4) 8 :=
  ⟨if_pos wide, if_pos wide⟩

/-- Where there is a link, the initial length has the bytes of its format. -/
theorem starts_of_link (located : link image limit offset = .ok stop) :
    lengthAt image offset < (formatAt image offset).lengthBound ∧
      Starts image limit offset
        ((formatAt image offset).lengthBytes (lengthAt image offset)) := by
  simp only [link] at located
  split at located
  · cases located
  · rename_i word first
    obtain ⟨-, rfl⟩ := fieldAt_eq_ok first
    obtain ⟨-, starts⟩ := (fieldAt_eq_ok_iff (by decide)).mp first
    split at located
    · rename_i plain
      obtain ⟨format, length⟩ := initialLength_of_plain plain
      rw [format, length]
      exact ⟨plain, starts⟩
    · split at located
      · rename_i wide
        split at located
        · cases located
        · rename_i length second
          obtain ⟨-, rfl⟩ := fieldAt_eq_ok second
          obtain ⟨small, follow⟩ := (fieldAt_eq_ok_iff (by decide)).mp second
          obtain ⟨format, length⟩ := initialLength_of_wide wide
          rw [wide] at starts
          rw [format, length]
          exact ⟨small, starts_append_iff.mpr ⟨starts, by simpa using follow⟩⟩
      · cases located

/-- A link is had from the bytes of an initial length, if the unit ends before the limit. -/
theorem link_eq_ok_iff :
    (link image limit offset = .ok stop ∧ formatAt image offset = format ∧
        lengthAt image offset = length) ↔
      length < format.lengthBound ∧ Starts image limit offset (format.lengthBytes length) ∧
        stop = offset + format.lengthSize + length ∧ stop ≤ limit := by
  constructor
  · rintro ⟨located, rfl, rfl⟩
    obtain ⟨holds, starts⟩ := starts_of_link located
    obtain ⟨ends, before⟩ := link_eq_ok located
    rw [lengthSize_eq] at ends
    exact ⟨holds, starts, ends, before⟩
  · rintro ⟨holds, starts, ends, before⟩
    cases format with
    | dwarf32 =>
        have small : length < 256 ^ 4 := Nat.lt_trans holds (by decide)
        have first := (fieldAt_eq_ok_iff (by decide)).mpr ⟨small, starts⟩
        obtain ⟨-, same⟩ := fieldAt_eq_ok first
        have plain : wordAt image offset 4 < reservedLengths := same ▸ holds
        obtain ⟨format, length⟩ := initialLength_of_plain plain
        refine ⟨?_, format, length.trans same.symm⟩
        simp only [link, first]
        rw [if_pos (same ▸ plain)]
        exact stopAt_eq_ok_iff.mpr ⟨ends.symm, before⟩
    | dwarf64 =>
        obtain ⟨starts, follow⟩ := starts_append_iff.mp starts
        rw [length_toLittleEndian] at follow
        have first := (fieldAt_eq_ok_iff (by decide)).mpr ⟨by decide, starts⟩
        have second := (fieldAt_eq_ok_iff (by decide)).mpr ⟨holds, follow⟩
        obtain ⟨-, wide⟩ := fieldAt_eq_ok first
        obtain ⟨-, same⟩ := fieldAt_eq_ok second
        obtain ⟨format, length⟩ := initialLength_of_wide wide.symm
        refine ⟨?_, format, length.trans same.symm⟩
        simp only [link, first, second]
        rw [if_neg (by decide), if_pos trivial]
        exact stopAt_eq_ok_iff.mpr ⟨ends.symm, before⟩

end UnitExtent

theorem Decode.eq_headerOf_iff {extent : UnitExtent} {format : Format} {header : UnitHeader}
    {entries : Nat} :
    header = headerOf extent format header.version header.fields entries ↔
      extent = ⟨header.sectionOffset, header.start, header.length, header.stop⟩ ∧
        header.format = format ∧ header.entries = entries := by
  constructor
  · intro same
    rw [same]
    exact ⟨rfl, rfl, rfl⟩
  · rintro ⟨rfl, rfl, rfl⟩
    rfl

namespace DirectReader

variable {image : Array UInt8} {place : Place} {context : Context} {header : UnitHeader}
variable {left : DirectReader}

/-- A direct reader behind an initial length parses the header exactly where the rest of its bytes
stand in the unit. -/
theorem run_unitHeaderIn_eq_ok_iff (extent : UnitExtent) {format : Format} (sound : place.Sound)
    (known : context.format = some format) (ahead : place.offset ≤ extent.stop)
    (inside : extent.stop ≤ place.limit) :
    run image (Decode.unitHeaderIn extent).run ⟨some place, context⟩ = (.ok header, left) ↔
      ((2 ≤ header.version ∧ header.version ≤ 5) ∧
        header.fields.WellFormed format header.version ∧
          header = Decode.headerOf extent format header.version header.fields
            (place.offset + 2 + (header.fields.bytes format header.version).length)) ∧
        Source.Starts image extent.stop place.offset
          (toLittleEndian 2 header.version ++ header.fields.bytes format header.version) ∧
        left = ⟨some (Place.advance
          (toLittleEndian 2 header.version ++ header.fields.bytes format header.version).length
            { place with stop := extent.stop }), header.sizes.context⟩ := by
  have inner : Place.Sound { place with stop := extent.stop } :=
    { sound with
      offset_le_stop := ahead
      stop_le_limit := inside }
  rw [Decode.unitHeaderIn, run_bind_of_ok (run_narrow image ahead inside context)]
  exact Decode.reads_headerRest extent inner known header left

/-- A direct reader whose section is wholly open parses a header exactly where it lies at the
position, and is left at the entries with the window of the unit. -/
theorem run_unitHeader_eq_ok_iff (sound : place.Sound) (opened : place.stop = place.limit) :
    run image Decode.unitHeader.run ⟨some place, context⟩ = (.ok header, left) ↔
      header.LiesAt image place ∧
        left = ⟨some { place with offset := header.entries, stop := header.stop },
          header.sizes.context⟩ := by
  obtain ⟨reached, locates, reaches⟩ := run_unitExtent image sound opened context
  constructor
  · intro ran
    obtain ⟨extent, moved, ran', goes⟩ := Dialogue.runStep_bind_ok _ _ ran
    cases located : UnitExtent.link image place.limit place.offset with
    | error error =>
        rw [located] at locates
        cases locates.symm.trans ran'
    | ok stop =>
        obtain ⟨ahead, rfl⟩ := reaches stop located
        rw [located] at locates
        cases locates.symm.trans ran'
        obtain ⟨-, inside⟩ := UnitExtent.link_eq_ok located
        have here : (place.advance (UnitExtent.lengthSize image place.offset)).Sound :=
          sound.advance (opened ▸ Nat.le_trans ahead inside)
        obtain ⟨⟨versions, formed, same⟩, rest, rfl⟩ :=
          (run_unitHeaderIn_eq_ok_iff ⟨_, _, _, stop⟩ here rfl ahead inside).mp goes
        obtain ⟨placed, format, entries⟩ := Decode.eq_headerOf_iff.mp same
        injection placed with sectionOffset start length stops
        subst stops
        obtain ⟨holds, first, ends, -⟩ :=
          UnitExtent.link_eq_ok_iff.mp ⟨located, format.symm, length⟩
        rw [← format] at formed rest entries
        rw [UnitExtent.lengthSize_eq, ← format] at ahead rest entries ⊢
        refine ⟨⟨⟨holds, versions, formed⟩, start.symm, sectionOffset.symm, ?_, ?_, ends, inside⟩,
          ?_⟩
        · rw [UnitHeader.bytes, List.append_assoc, Source.starts_append_iff,
            Format.length_lengthBytes]
          refine ⟨⟨?_, first.2⟩, rest⟩
          rw [Format.length_lengthBytes]
          exact ahead
        · rw [entries, header.length_bytes]
          simp only [Place.advance, Nat.add_assoc]
        · rw [entries]
          simp only [Place.advance, List.length_append, length_toLittleEndian, Nat.add_assoc]
  · rintro ⟨⟨⟨holds, versions, formed⟩, start, sectionOffset, there, entries, ends, inside⟩, rfl⟩
    rw [UnitHeader.bytes, List.append_assoc, Source.starts_append_iff,
      Format.length_lengthBytes] at there
    obtain ⟨first, rest⟩ := there
    obtain ⟨located, format, length⟩ := UnitExtent.link_eq_ok_iff.mpr
      ⟨holds, ⟨Nat.le_trans first.1 inside, first.2⟩, ends, inside⟩
    obtain ⟨ahead, rfl⟩ := reaches header.stop located
    rw [located] at locates
    have here : (place.advance (UnitExtent.lengthSize image place.offset)).Sound :=
      sound.advance (opened ▸ Nat.le_trans ahead inside)
    rw [Decode.unitHeader, run_bind_of_ok locates,
      run_unitHeaderIn_eq_ok_iff ⟨_, _, _, header.stop⟩ here rfl ahead inside]
    rw [format, UnitExtent.lengthSize_eq, format]
    refine ⟨⟨versions, formed, Decode.eq_headerOf_iff.mpr ⟨?_, rfl, ?_⟩⟩, rest, ?_⟩
    · rw [sectionOffset, start, length]
    · rw [entries, header.length_bytes]
      simp only [Place.advance, Nat.add_assoc]
    · rw [entries, header.length_bytes]
      simp only [Place.advance, List.length_append, length_toLittleEndian, Nat.add_assoc]

end DirectReader

namespace Reader

variable {image : Array UInt8} {reader : Reader} {place : Place} {context : Context}

/-- A reader whose section is wholly open, whatever it knows, parses a header exactly if the header
is well formed and lies at the position, the bytes up to its entries are its own, and its unit ends
inside the section where its length says.  The reader then stands at the entries, with the window
of the unit and the sizes of the header. -/
theorem unitHeader_exact (reached : reader.Reachable (.ofImage image))
    (stands : reader.direct = ⟨some place, context⟩) (opened : place.stop = place.limit)
    (told : place.fileSize ≤ image.size) (log : AccessLog) (header : UnitHeader) :
    let parsed := reader.run (.ofImage image) Decode.unitHeader.run log
    (parsed.1 = .ok header ↔
        header.WellFormed ∧ header.start = place.offset ∧
          header.sectionOffset = place.offset - place.first ∧
            (Source.imageBytes image header.start (header.entries - header.start)).toList =
                header.bytes ∧
              header.stop = header.start + header.format.lengthSize + header.length ∧
                header.start < header.entries ∧ header.entries ≤ header.stop ∧
                  header.stop ≤ place.limit) ∧
      (parsed.1 = .ok header →
        parsed.2.1.direct = ⟨some { place with offset := header.entries, stop := header.stop },
          ⟨some header.format, some header.addressSize, some header.version⟩⟩) := by
  intro parsed
  have sound : place.Sound := reached.sound.direct place (stands ▸ rfl)
  have obeys : Decode.unitHeader.Obeys .plain :=
    (Decode.obeys_unitExtent rfl).bind fun extent => Decode.obeys_unitHeaderIn extent rfl rfl
  have direct := run_direct reached stands obeys log
  have parses (left : DirectReader) : parsed.1 = .ok header ∧ parsed.2.1.direct = left ↔
      header.LiesAt image place ∧
        left = ⟨some { place with offset := header.entries, stop := header.stop },
          header.sizes.context⟩ := by
    rw [← Prod.mk.injEq, ← direct]
    exact DirectReader.run_unitHeader_eq_ok_iff sound opened
  refine ⟨⟨fun ok => ?_, ?_⟩, fun ok => ((parses _).mp ⟨ok, rfl⟩).2⟩
  · obtain ⟨lies, -⟩ := (parses _).mp ⟨ok, rfl⟩
    have size := header.length_bytes
    have entries := lies.entries
    rw [lies.start, entries, Nat.add_sub_cancel_left]
    exact ⟨lies.formed, rfl, lies.sectionOffset, lies.there.2, lies.stop, by omega, lies.there.1,
      lies.inside⟩
  · rintro ⟨formed, start, sectionOffset, listed, ends, ahead, before, inside⟩
    have limits := sound.limit_le_fileSize
    have size := congrArg List.length listed
    rw [Array.length_toList, Source.size_imageBytes] at size
    have length : header.entries - header.start = header.bytes.length := by omega
    rw [start] at ends length listed ahead
    rw [length] at listed
    have there : Source.Starts image header.stop place.offset header.bytes := ⟨by omega, listed⟩
    exact ((parses _).mpr
      ⟨⟨formed, start, sectionOffset, there, by omega, ends, inside⟩, rfl⟩).1

/-- A type unit in the wide format is parsed field by field, whatever was known of another unit. -/
theorem unitHeader_exact_wide :
    let image : Array UInt8 := #[0xff, 0xff, 0xff, 0xff, 29, 0, 0, 0, 0, 0, 0, 0, 5, 0, 2, 4,
      0x80, 0, 0, 0, 0, 0, 0, 0, 0xef, 0xbe, 0xfe, 0xca, 0xce, 0xfa, 0xed, 0xfe,
      0x30, 0, 0, 0, 0, 0, 0, 0, 0]
    let reader : Reader :=
      ⟨some ⟨.zeroed 16, 0, 0, 0, 0, 41, 41, 41⟩, ⟨some .dwarf32, some 8, some 2⟩⟩
    let parsed := reader.run (.ofImage image) Decode.unitHeader.run #[]
    parsed.1 = .ok ⟨0, 0, 40, 41, 29, .dwarf64, 5, .type, 0x80, 4, none, some 0xfeedfacecafebeef,
        some 0x30⟩ ∧
      parsed.2.1.direct = ⟨some ⟨40, 0, 41, 41, 41⟩, ⟨some .dwarf64, some 4, some 5⟩⟩ := by
  intro image reader parsed
  let header : UnitHeader := ⟨0, 0, 40, 41, 29, .dwarf64, 5, .type, 0x80, 4, none,
    some 0xfeedfacecafebeef, some 0x30⟩
  have bound : Reader.bound (.zeroed 16) ⟨0, 41⟩ 41 =
      .ok ⟨some ⟨.zeroed 16, 0, 0, 0, 0, 41, 41, 41⟩, .unknown⟩ := rfl
  have reached : reader.Reachable (.ofImage image) :=
    .run (Dialogue.ask (.record ⟨some .dwarf32, some 8, some 2⟩) .done) #[] (.bound bound)
  have stands : reader.direct =
      ⟨some ⟨0, 0, 41, 41, 41⟩, ⟨some .dwarf32, some 8, some 2⟩⟩ := rfl
  have formed : header.WellFormed := by
    refine ⟨by decide, by decide, ⟨by decide, .inl rfl, by decide, ?_, ?_, ?_⟩⟩
    · exact fun split => absurd split.2 (by decide)
    · exact ⟨⟨rfl, .inl rfl⟩, by decide⟩
    · exact ⟨⟨rfl, .inl rfl⟩, by decide⟩
  have listed : (Source.imageBytes image 0 40).toList = header.bytes := by decide +kernel
  have told : 41 ≤ image.size := by decide
  clear_value image
  obtain ⟨exactly, left⟩ := unitHeader_exact reached stands rfl told #[] header
  have ok := exactly.mpr ⟨formed, rfl, rfl, listed, rfl, by decide, by decide, by decide⟩
  exact ⟨ok, left ok⟩

end Reader

end Dwarf
