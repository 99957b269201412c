import Dwarf.Proofs.Texts
/-!
# What the attributes of a root entry mean

Each attribute means something by itself: a text, the index of one, the base of the indices, a
constant, an address, or nothing.  What was read of an entry adds up from the meanings of its
attributes, each of which is exactly what stands at its place.
-/

namespace Dwarf

/-- What an attribute of a root entry means. -/
inductive AttributeMeaning where
  /-- A text with its bytes. -/
  | text (which : UnitText) (bytes : List UInt8)
  /-- A text with its index into the table of string offsets. -/
  | index (which : UnitText) (index : Nat)
  /-- The base of the indices. -/
  | base (value : Option Nat)
  /-- The source language. -/
  | language (value : Option Language)
  /-- The offset of the line program. -/
  | lineProgram (value : Option Nat)
  /-- The lowest address. -/
  | lowAddress (value : AttributeAddress)
  /-- Nothing that is kept. -/
  | nothing
  deriving DecidableEq, Repr

/-- What an attribute of a root entry is for. -/
inductive AttributeUse where
  | text (which : UnitText)
  | index (which : UnitText)
  | base
  | language
  | lineProgram
  | lowAddress
  | nothing
  deriving DecidableEq, Repr

/-- What an attribute that is no text is for. -/
def AttributeUse.ofName : Attribute → AttributeUse
  | .stringOffsetsBase => .base
  | .sourceLanguage => .language
  | .lineProgram => .lineProgram
  | .lowAddress => .lowAddress
  | _ => .nothing

/-- What an attribute is for, by its name and its form. -/
def AttributeSpecification.use (spec : AttributeSpecification) : AttributeUse :=
  match UnitText.ofAttribute? spec.name with
  | some which =>
    if spec.form.isString then .text which
    else if spec.form.isStringIndex then .index which
    else .nothing
  | none => .ofName spec.name

/-- The language with a code, if the code is one of sixteen bits. -/
def Language.ofCode? (code : Option Nat) : Option Language :=
  (code.filter (· < 0x10000)).map fun code => ⟨code⟩

/-- What was read of an entry, with the meaning of one more attribute. -/
def EntryReading.add (reading : EntryReading) : AttributeMeaning → EntryReading
  | .text which bytes => { reading with summary := reading.summary.setText which bytes }
  | .index which index => { reading with indices := (which, index) :: reading.indices }
  | .base base => { reading with base }
  | .language language => { reading with summary := { reading.summary with language } }
  | .lineProgram lineProgram => { reading with summary := { reading.summary with lineProgram } }
  | .lowAddress address =>
    { reading with summary := { reading.summary with lowAddress := some address } }
  | .nothing => reading

/-- Reads what an attribute means. -/
def Consult.attributeMeaning (spec : AttributeSpecification) : Consult AttributeMeaning :=
  match spec.use with
  | .text which => .text which <$> completed (stringValue .info spec.form)
  | .index which => .index which <$> (Decode.offsetValue spec.form).on .info
  | .base => .base <$> (Decode.constantValue spec).on .info
  | .language => (.language ∘ Language.ofCode?) <$> (Decode.constantValue spec).on .info
  | .lineProgram => .lineProgram <$> (Decode.constantValue spec).on .info
  | .lowAddress => .lowAddress <$> (Decode.addressValue spec.form).on .info
  | .nothing => (fun _ => .nothing) <$> (Decode.skipValue spec.form).on .info

namespace Consult

/-- An attribute is read by adding what it means. -/
theorem rootAttribute_eq (spec : AttributeSpecification) (reading : EntryReading) :
    rootAttribute spec reading = reading.add <$> attributeMeaning spec := by
  unfold rootAttribute attributeMeaning AttributeSpecification.use
  cases named : UnitText.ofAttribute? spec.name with
  | some which =>
      have passes : (plainAttribute spec reading).on .info =
          reading.add <$> (fun _ => .nothing) <$> (Decode.skipValue spec.form).on .info := by
        unfold plainAttribute
        split
        case h_5 =>
          simp only [Decode.on_bind, map_eq_pure_bind, bind_assoc, pure_bind, EntryReading.add]
          rfl
        all_goals
          rename_i other
          rw [other] at named
          cases named
      dsimp only
      split
      · simp only [map_eq_pure_bind, bind_assoc, pure_bind, EntryReading.add]
      · split
        · simp only [map_eq_pure_bind, bind_assoc, pure_bind, EntryReading.add]
        · exact passes
  | none =>
      obtain ⟨name, form, implicit⟩ := spec
      dsimp only
      unfold plainAttribute
      dsimp only
      split
      case h_5 base language lineProgram lowAddress =>
        have passed : AttributeUse.ofName name = .nothing := by
          unfold AttributeUse.ofName
          split <;> first | rfl | contradiction
        simp only [passed, Decode.on_bind, map_eq_pure_bind, bind_assoc, pure_bind,
          EntryReading.add]
        rfl
      all_goals
        simp only [AttributeUse.ofName, Decode.on_bind, map_eq_pure_bind, bind_assoc, pure_bind,
          EntryReading.add]
        rfl

/-- The attributes of an entry are read by adding what they mean. -/
theorem rootAttributes_eq (specs : List AttributeSpecification) (reading : EntryReading) :
    rootAttributes specs reading =
      (fun meanings => meanings.foldl EntryReading.add reading) <$>
        specs.mapM attributeMeaning := by
  induction specs generalizing reading with
  | nil => rfl
  | cons spec rest ih =>
      simp only [rootAttributes, rootAttribute_eq, ih, List.mapM_cons, map_eq_pure_bind, bind_assoc,
        pure_bind, List.foldl_cons]

end Consult

/-- One after another, the items have values that stand one behind another. -/
inductive Grammar.Sequence {ι α : Type} (each : ι → Grammar α) :
    List ι → (start : Nat) → List α → (finish : Nat) → Prop where
  | nil {start : Nat} : Sequence each [] start [] start
  | cons {item : ι} {items : List ι} {start middle finish : Nat} {value : α} {values : List α} :
    each item start value middle → Sequence each items middle values finish →
      Sequence each (item :: items) start (value :: values) finish

/-- Steps for items read the values of the items one behind another. -/
theorem Consult.Exact.mapM {ι α : Type} {image : Array UInt8} {base : DirectPool Table}
    {stop : Nat} {context : Context} {step : ι → Consult α} {grammar : ι → Grammar α}
    (each : ∀ item, Exact image base stop context (step item) (grammar item)) (items : List ι) :
    Exact image base stop context (items.mapM step) (Grammar.Sequence grammar items) := by
  induction items with
  | nil =>
      refine (pure []).congr fun start values finish => ⟨?_, fun row => ?_⟩
      · rintro ⟨rfl, rfl⟩
        exact .nil
      · cases row with
        | nil => exact ⟨rfl, rfl⟩
  | cons item items ih =>
      rw [List.mapM_cons]
      refine ((each item).bind fun value => ih.bind fun values => pure (value :: values)).congr
        fun start values finish => ⟨?_, fun row => ?_⟩
      · rintro ⟨value, middle, there, rest, _, follow, rfl, rfl⟩
        exact .cons there follow
      · cases row with
        | cons there follow => exact ⟨_, _, there, _, _, follow, rfl, rfl⟩

/-- What an attribute means is what stands at its place. -/
def AttributeSpecification.Means (image : Array UInt8) (base : DirectPool Table) (stop : Nat)
    (sizes : UnitSizes) (spec : AttributeSpecification) : Grammar AttributeMeaning :=
  fun start meaning finish =>
    match spec.use with
    | .text which => ∃ text, spec.form.Text image base stop sizes start text finish ∧
        meaning = .text which text
    | .index which => ∃ index, spec.form.Numeral image stop sizes start index finish ∧
        meaning = .index which index
    | .base => ∃ value, spec.Constant image stop sizes start value finish ∧ meaning = .base value
    | .language => ∃ value, spec.Constant image stop sizes start value finish ∧
        meaning = .language (Language.ofCode? value)
    | .lineProgram => ∃ value, spec.Constant image stop sizes start value finish ∧
        meaning = .lineProgram value
    | .lowAddress => ∃ address, spec.form.Address image stop sizes start address finish ∧
        meaning = .lowAddress address
    | .nothing => Decode.whole image stop sizes spec.form start finish ∧ meaning = .nothing

theorem Consult.exact_attributeMeaning {image : Array UInt8} {base : DirectPool Table} {stop : Nat}
    {sizes : UnitSizes} (spec : AttributeSpecification) :
    Exact image base stop sizes.context (attributeMeaning spec)
      (spec.Means image base stop sizes) := by
  have constant : Exact image base stop sizes.context ((Decode.constantValue spec).on .info) _ :=
    Exact.on (Decode.exact_constantValue spec)
  unfold attributeMeaning AttributeSpecification.Means
  cases spec.use with
  | text which => exact (exact_stringValue spec.form).map _
  | index which => exact (Exact.on (Decode.exact_offsetValue spec.form)).map _
  | base => exact constant.map _
  | language => exact constant.map _
  | lineProgram => exact constant.map _
  | lowAddress => exact (Exact.on (Decode.exact_addressValue spec.form)).map _
  | nothing =>
      refine ((Exact.on (Decode.exact_skipValue spec.form)).map _).congr
        fun start meaning finish => ⟨?_, ?_⟩
      · rintro ⟨-, there, rfl⟩
        exact ⟨there, rfl⟩
      · rintro ⟨there, rfl⟩
        exact ⟨(), there, rfl⟩

/-- The abbreviation keeps a constant exactly for the form that has it there. -/
def AttributeSpecification.Formed (spec : AttributeSpecification) : Prop :=
  spec.implicit.isSome = true ↔ spec.form = .implicitConst
  deriving Decidable

theorem AttributeSpecification.Constant.whole {image : Array UInt8} {stop : Nat}
    {sizes : UnitSizes} {spec : AttributeSpecification} {start finish : Nat} {value : Option Nat}
    (h : spec.Constant image stop sizes start value finish) (formed : spec.Formed) :
    Decode.whole image stop sizes spec.form start finish := by
  cases h with
  | kept kept =>
      rw [formed.mp (kept ▸ rfl)]
      exact ⟨.empty, rfl, .empty⟩
  | stored _ there => exact there.whole

/-- The bytes of an attribute that means something are a whole value of its form. -/
theorem AttributeSpecification.Means.whole {image : Array UInt8} {base : DirectPool Table}
    {stop : Nat} {sizes : UnitSizes} {spec : AttributeSpecification} {start finish : Nat}
    {meaning : AttributeMeaning} (h : spec.Means image base stop sizes start meaning finish)
    (formed : spec.Formed) : Decode.whole image stop sizes spec.form start finish := by
  unfold AttributeSpecification.Means at h
  split at h
  · obtain ⟨text, there, -⟩ := h
    exact there.whole
  · obtain ⟨index, there, -⟩ := h
    exact there.whole
  · obtain ⟨value, there, -⟩ := h
    exact there.whole formed
  · obtain ⟨value, there, -⟩ := h
    exact there.whole formed
  · obtain ⟨value, there, -⟩ := h
    exact there.whole formed
  · obtain ⟨address, there, -⟩ := h
    exact there.whole
  · exact h.1

end Dwarf
