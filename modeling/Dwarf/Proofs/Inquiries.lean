import Dwarf.Line.Entry
import Dwarf.Proofs.Decoders
import Dwarf.Unit.Walk
/-!
# Inquiries obey their licences

The decoders of units, abbreviations and line programs obey licences to move and to record, where
they do so.
-/

namespace Dwarf

open Judgement

namespace Decode

variable {J : Judgement Query Query.Reply} {licence : Licence}

section Units

theorem obeys_unitExtent (records : licence.records = true) :
    Decode.Obeys licence unitExtent := by
  apply obeys_view (fun _ _ _ => rfl)
  intro seen
  apply (obeys_initialLength records).bind
  intro length
  exact (obeys_stopOf length).bind fun _ => step_pure _

theorem obeys_unitFieldsEarly (records : licence.records = true) :
    Decode.Obeys licence unitFieldsEarly := by
  apply obeys_sectionOffset.bind
  intro offset
  exact (obeys_readAddressSize records).bind fun _ => step_pure _

/-- The fields of a header of version five obey a licence to record the address size. -/
theorem obeys_unitFieldsTyped (records : licence.records = true) :
    Decode.Obeys licence unitFieldsTyped := by
  apply obeys_byte.bind
  intro code
  apply (obeys_readAddressSize records).bind
  intro size
  apply obeys_sectionOffset.bind
  intro offset
  split
  · exact (obeys_unsigned (by decide)).bind fun _ => step_pure _
  · exact (obeys_unsigned (by decide)).bind fun _ => step_pure _
  · apply (obeys_unsigned (by decide)).bind
    intro signature
    exact obeys_sectionOffset.bind fun _ => step_pure _
  · apply (obeys_unsigned (by decide)).bind
    intro signature
    exact obeys_sectionOffset.bind fun _ => step_pure _
  · exact step_pure _

theorem obeys_unitFields (version : Nat) (records : licence.records = true) :
    Decode.Obeys licence (unitFields version) := by
  simp only [unitFields]
  split
  · exact obeys_unitFieldsEarly records
  · split
    · exact obeys_unitFieldsTyped records
    · exact step_throw nofun

theorem obeys_unitHeaderIn (extent : UnitExtent) (narrows : licence.narrows = true)
    (records : licence.records = true) : Decode.Obeys licence (unitHeaderIn extent) := by
  apply (obeys_narrow extent.stop narrows).bind
  intro _
  apply LetsKnow.format.bind
  intro format
  apply (obeys_unsigned (by decide)).bind
  intro version
  apply (obeys_record _ records).bind
  intro _
  apply (obeys_unitFields version records).bind
  intro fields
  exact obeys_view (fun _ _ _ => rfl) fun seen => step_pure _

end Units

section Abbreviations

section Taking

variable [J.LetsTake]

theorem obeys_attributeSpecsFrom (read : List AttributeSpecification) (rest : Nat) :
    J.Step (attributeSpecsFrom read rest) := by
  induction rest generalizing read with
  | zero => exact step_pure _
  | succ rest ih =>
      apply (obeys_constant .attribute).bind
      intro name
      apply (obeys_constant .form).bind
      intro form
      split
      · exact step_pure _
      · split
        · exact ((obeys_sleb128 .signedWord).map some).bind fun implicit => ih _
        · exact ih _

theorem obeys_attributeSpecs : J.Step attributeSpecs :=
  LetsTake.look (fun _ _ _ => rfl) fun _ => obeys_attributeSpecsFrom _ _

theorem obeys_abbreviation (code : Nat) : J.Step (abbreviation code) := by
  apply (obeys_constant .tag).bind
  intro tag
  apply obeys_byte.bind
  intro children
  exact obeys_attributeSpecs.bind fun _ => step_pure _

theorem obeys_abbreviationsFrom (read : List Abbreviation) (rest : Nat) :
    J.Step (abbreviationsFrom read rest) := by
  induction rest generalizing read with
  | zero => exact step_pure _
  | succ rest ih =>
      apply LetsTake.look (fun _ _ _ => rfl)
      intro seen
      split
      · exact step_pure _
      · apply (obeys_uleb128 .word).bind
        intro code
        split
        · exact step_pure _
        · exact (obeys_abbreviation code).bind fun _ => ih _

theorem lets_abbreviations (seeks : J.Seeks) (narrows : J.Narrows) (offset : Nat) :
    J.Step (abbreviations offset) := by
  apply (lets_widen narrows).bind
  intro _
  apply (lets_seekInSection seeks offset).bind
  intro _
  apply LetsTake.look (fun _ _ _ => rfl)
  intro seen
  exact (obeys_abbreviationsFrom _ _).bind fun _ => step_pure _

end Taking

theorem obeys_abbreviations (offset : Nat) (seeks : licence.seeks = true)
    (narrows : licence.narrows = true) : Decode.Obeys licence (abbreviations offset) :=
  lets_abbreviations (fun target => obeys_seek target seeks)
    (fun stop => obeys_narrow stop narrows) offset

end Abbreviations

section Attributes

variable [J.LetsKnow]

theorem obeys_constantValue (spec : AttributeSpecification) :
    J.Step (constantValue spec) := by
  simp only [constantValue]
  split
  · exact step_pure _
  · exact (obeys_offsetValue spec.form).map _

theorem obeys_plainAttribute (spec : AttributeSpecification) (reading : EntryReading) :
    J.Step (Consult.plainAttribute spec reading) := by
  simp only [Consult.plainAttribute]
  split
  · exact (obeys_constantValue spec).bind fun _ => step_pure _
  · exact (obeys_constantValue spec).bind fun _ => step_pure _
  · exact (obeys_constantValue spec).bind fun _ => step_pure _
  · exact (obeys_addressValue spec.form).bind fun _ => step_pure _
  · exact (obeys_skipValue spec.form).bind fun _ => step_pure _

end Attributes

section Lines

/-- A line program may be entered where its format may be recorded. -/
theorem lets_lineExtent [J.LetsKnow] (learns : J.Learns) (seeks : J.Seeks) (narrows : J.Narrows)
    (offset : Nat) : J.Step (lineExtent offset) := by
  apply (lets_widen narrows).bind
  intro _
  apply (lets_seekInSection seeks offset).bind
  intro _
  apply (lets_initialLength learns).bind
  intro length
  apply (obeys_stopOf length).bind
  intro stop
  apply (narrows stop).bind
  intro _
  apply LetsKnow.format.bind
  intro format
  apply (obeys_unsigned (by decide)).bind
  intro version
  split
  · exact step_pure _
  · exact step_throw nofun

theorem lets_targetSizes [J.LetsTake] (learns : J.Learns) (version : Nat) :
    J.Step (targetSizes version) := by
  simp only [targetSizes]
  split
  · apply (lets_readAddressSize learns).bind
    intro size
    exact obeys_byte.bind fun _ => step_pure _
  · exact step_pure _

section Taking

variable [J.LetsTake]

theorem obeys_positiveByte (field : String) : J.Step (positiveByte field) := by
  apply obeys_byte.bind
  intro value
  split
  · exact step_throw nofun
  · exact step_pure _

theorem obeys_directoriesFrom (read : List String) (rest : Nat) :
    J.Step (directoriesFrom read rest) := by
  induction rest generalizing read with
  | zero => exact step_pure _
  | succ rest ih =>
      apply (obeys_completed obeys_string).bind
      intro path
      split
      · exact step_pure _
      · exact ih _

theorem obeys_directories : J.Step directories :=
  LetsTake.look (fun _ _ _ => rfl) fun _ => obeys_directoriesFrom _ _

theorem obeys_filesFrom (read : List SourceFile) (rest : Nat) :
    J.Step (filesFrom read rest) := by
  induction rest generalizing read with
  | zero => exact step_pure _
  | succ rest ih =>
      apply (obeys_completed obeys_string).bind
      intro path
      split
      · exact step_pure _
      · apply (obeys_uleb128 .word).bind
        intro directory
        apply (obeys_uleb128 .word).bind
        intro time
        exact (obeys_uleb128 .word).bind fun _ => ih _

theorem obeys_files : J.Step files :=
  LetsTake.look (fun _ _ _ => rfl) fun _ => obeys_filesFrom _ _

theorem obeys_entryFormatsFrom (rest : Nat) : J.Step (entryFormatsFrom rest) := by
  induction rest with
  | zero => exact step_pure _
  | succ rest ih =>
      apply (obeys_constant .lineContent).bind
      intro content
      apply (obeys_constant .form).bind
      intro form
      exact ih.bind fun _ => step_pure _

theorem obeys_entryFormats : J.Step entryFormats := obeys_byte.bind obeys_entryFormatsFrom

end Taking

section Knowing

variable [J.LetsKnow]

theorem obeys_optionalNumber (form : Form) : J.Step (optionalNumber form) := by
  have either (isNumber : Bool) : J.Step
      (if isNumber then some <$> offsetValue form else do
        skipValue form
        pure none) := by
    split
    · exact (obeys_offsetValue form).map _
    · exact (obeys_skipValue form).bind fun _ => step_pure _
  exact either _

theorem obeys_entryCount (formats : List EntryFormat) (field : String) :
    J.Step (entryCount formats field) := by
  apply (obeys_uleb128 .word).bind
  intro count
  split
  · exact step_pure _
  · apply LetsKnow.lookAtSizes (fun _ _ _ _ => rfl)
    intro seen
    dsimp only
    split
    · exact step_throw nofun
    · exact step_pure _

end Knowing

end Lines

end Decode

end Dwarf
