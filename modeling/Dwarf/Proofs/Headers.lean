import Dwarf.Proofs.Locality
/-!
# Headers overwrite what was learnt

The format, the version and the address size that a reader knows may stem from another unit.  A
header records each of them before it asks for it, so two readers at the same place read the same
header whatever they knew, and know the same behind it.
-/

namespace Dwarf

/-- Two readers at one place over images that agree on the rest of the window, with related
contexts. -/
structure DirectReader.Twins (image image' : Array UInt8) (Known : Context → Context → Prop)
    (reader reader' : DirectReader) : Prop where
  place : reader'.place = reader.place
  sound : reader.Sound
  agree : reader.Agree image image'
  known : Known reader.context reader'.context

/-- A step answers twins alike, and makes twins of them that are related as told. -/
def Decode.Pairs {α : Type} (image image' : Array UInt8) (Known Known' : Context → Context → Prop)
    (step : Decode α) : Prop :=
  ∀ ⦃reader reader' : DirectReader⦄, reader.Twins image image' Known reader' →
    (reader.run image step.run).1 = (reader'.run image' step.run).1 ∧
      ∀ answer, (reader.run image step.run).1 = .ok answer →
        (reader.run image step.run).2.Twins image image' Known'
          (reader'.run image' step.run).2

namespace Decode.Pairs

open DirectReader

variable {α β : Type} {image image' : Array UInt8}
variable {Known Known' Known'' : Context → Context → Prop}

theorem done (answer : α) : (pure answer : Decode α).Pairs image image' Known Known :=
  fun _ _ twins => ⟨rfl, fun _ _ => twins⟩

theorem fails (error : Error) : (throw error : Decode α).Pairs image image' Known Known' :=
  fun _ _ _ => ⟨rfl, fun _ same => by cases same⟩

/-- A step may go on from the twins that its first part leaves. -/
theorem bind {first : Decode α} {next : α → Decode β} (h : first.Pairs image image' Known Known')
    (each : ∀ answer, (next answer).Pairs image image' Known' Known'') :
    (first >>= next).Pairs image image' Known Known'' := by
  intro reader reader' twins
  obtain ⟨answers, leaves⟩ := h twins
  simp only [DirectReader.run] at answers leaves ⊢
  rw [Dialogue.runStep_bind, Dialogue.runStep_bind]
  rcases ran : first.run.run (serve image) reader with ⟨error | answer, reached⟩
  · rcases ran' : first.run.run (serve image') reader' with ⟨error' | answer', reached'⟩
    · rw [ran, ran'] at answers
      cases answers
      exact ⟨rfl, fun _ same => by cases same⟩
    · rw [ran, ran'] at answers
      cases answers
  · rcases ran' : first.run.run (serve image') reader' with ⟨error' | answer', reached'⟩
    · rw [ran, ran'] at answers
      cases answers
    · rw [ran, ran'] at answers leaves
      cases answers
      exact each answer (leaves answer rfl)

theorem take (count : Nat) : (Decode.take count).Pairs image image' Known Known := by
  rintro ⟨_ | place, context⟩ ⟨place', context'⟩ twins
  · cases twins.place
    exact ⟨rfl, fun _ same => by cases same⟩
  · cases twins.place
    have taken := run_takeAhead image .buffer count place context
    have taken' := run_takeAhead image' .buffer count place context'
    rw [← Place.take_congr (twins.agree place rfl) (twins.sound place rfl).offset_le_stop]
      at taken'
    have leads := leads_serve image (.take count .buffer) ⟨some place, context⟩
    have behind : Behind image image' place.offset ⟨some place, context⟩ := by
      rintro _ ⟨⟩
      exact ⟨Nat.le_refl _, twins.agree place rfl⟩
    have permitted : Licence.Permits ⟨false, false, false, true⟩ place.offset
        (.take count .buffer) := .inl rfl
    have behind' := behind.serve permitted rfl rfl
    refine ⟨by rw [Decode.take, taken, taken'], fun _ _ => ?_⟩
    rw [Decode.take, taken, taken']
    exact ⟨rfl, leads.sound twins.sound, behind'.agree, twins.known⟩

theorem unsigned (width : Nat) : (Decode.unsigned width).Pairs image image' Known Known :=
  (take width).bind fun _ => done _

theorem record {change : Context → Context}
    (h : ∀ context context', Known context context' → Known' (change context) (change context')) :
    (Decode.record change).Pairs image image' Known Known' := by
  rintro ⟨place, context⟩ ⟨place', context'⟩ twins
  cases twins.place
  have ran (image : Array UInt8) (context : Context) :
      run image (Decode.record change).run ⟨place, context⟩ =
        (.ok (), ⟨place, change context⟩) := by
    cases place <;> rfl
  rw [ran, ran]
  exact ⟨rfl, fun _ _ => ⟨rfl, twins.sound, twins.agree, h _ _ twins.known⟩⟩

/-- The format is the same for twins that know it alike. -/
theorem format (h : ∀ context context', Known context context' →
    context.format = context'.format) : Decode.format.Pairs image image' Known Known := by
  rintro ⟨place, context⟩ ⟨place', context'⟩ twins
  cases twins.place
  have ran (image : Array UInt8) (context : Context) :
      run image Decode.format.run ⟨place, context⟩ =
        (context.format.elim (.error .formatMissing) .ok, ⟨place, context⟩) := by
    obtain ⟨_ | format, size, version⟩ := context <;> cases place <;> rfl
  rw [ran, ran, h _ _ twins.known]
  exact ⟨rfl, fun _ _ => twins⟩

theorem onward {step : Decode α} (obeys : step.Obeys .onward) :
    step.Pairs image image' Eq Eq := by
  rintro ⟨place, context⟩ ⟨place', context'⟩ twins
  cases twins.place
  cases twins.known
  obtain ⟨same, sound, agree⟩ := run_onward twins.sound twins.agree obeys rfl rfl
  rw [← same]
  exact ⟨rfl, fun _ _ => ⟨rfl, sound, agree, rfl⟩⟩

theorem view : Decode.view.Pairs image image' Eq Eq := by
  rintro ⟨place, context⟩ ⟨place', context'⟩ twins
  cases twins.place
  cases twins.known
  exact ⟨rfl, fun _ _ => twins⟩

end Decode.Pairs

namespace Context

/-- Two contexts know the same format. -/
def SameFormat (context context' : Context) : Prop := context.format = context'.format

/-- Two contexts know the same format and the same version. -/
def SameVersion (context context' : Context) : Prop :=
  context.format = context'.format ∧ context.version = context'.version

end Context

namespace Decode

open Context

variable {image image' : Array UInt8}

/-- Twins that know the same format and version read the same address size and know it then. -/
theorem pairs_readAddressSize : readAddressSize.Pairs image image' SameVersion Eq := by
  apply (Pairs.unsigned 1).bind
  intro size
  have known (size : Nat) (context context' : Context) (same : SameVersion context context') :
      { context with addressSize := some size } = { context' with addressSize := some size } := by
    obtain ⟨format, version⟩ := same
    rw [format, version]
  have records : (recordAddressSize size).Pairs image image' SameVersion Eq := by
    simp only [recordAddressSize]
    cases checkAddressSize size with
    | ok size => exact (Pairs.done size).bind fun size => Pairs.record (known size)
    | error error => exact Pairs.fails error
  exact records.bind fun _ => Pairs.done _

theorem pairs_sectionOffset : sectionOffset.Pairs image image' SameVersion SameVersion :=
  (Pairs.format fun _ _ same => same.1).bind fun _ => Pairs.unsigned _

/-- Twins that know the same format and version read the same fields and know the same then. -/
theorem pairs_unitFields (version : Nat) :
    (unitFields version).Pairs image image' SameVersion Eq := by
  simp only [unitFields]
  split
  · exact pairs_sectionOffset.bind fun offset => pairs_readAddressSize.bind fun size => Pairs.done _
  · split
    · refine (Pairs.unsigned 1).bind fun code => pairs_readAddressSize.bind fun size => ?_
      apply (Pairs.onward obeys_sectionOffset).bind
      intro offset
      split
      · exact (Pairs.unsigned 8).bind fun _ => Pairs.done _
      · exact (Pairs.unsigned 8).bind fun _ => Pairs.done _
      · exact (Pairs.unsigned 8).bind fun _ => (Pairs.onward obeys_sectionOffset).bind fun _ => Pairs.done _
      · exact (Pairs.unsigned 8).bind fun _ => (Pairs.onward obeys_sectionOffset).bind fun _ => Pairs.done _
      · exact Pairs.done _
    · exact Pairs.fails _

/-- Twins that know the same format read the same rest of a header, and know the same then. -/
theorem pairs_headerRest {β : Type} (f : Format → Nat → UnitFields → View → β) :
    Pairs image image' SameFormat Eq (do
      let format ← Decode.format
      let version ← Decode.unsigned 2
      Decode.record ({ · with version := some version })
      let fields ← unitFields version
      let seen ← Decode.view
      pure (f format version fields seen)) := by
  apply (Pairs.format fun _ _ same => same).bind
  intro format
  apply (Pairs.unsigned 2).bind
  intro version
  have known (context context' : Context) (same : SameFormat context context') :
      SameVersion { context with version := some version }
        { context' with version := some version } := ⟨same, rfl⟩
  apply (Pairs.record known).bind
  intro _
  apply (pairs_unitFields version).bind
  intro fields
  exact Pairs.view.bind fun seen => Pairs.done _

end Decode

/-- Readers at the same place that know the format read the same header of a unit over images that
agree on the rest of the unit, and know the same behind it. -/
theorem DirectReader.run_unitHeaderIn_congr {image image' : Array UInt8} {extent : UnitExtent}
    {place : Place} {context context' : Context} (sound : place.Sound)
    (known : context.SameFormat context') (ahead : place.offset ≤ extent.stop)
    (inside : extent.stop ≤ place.limit)
    (agree : Source.Agree image image' place.offset extent.stop) :
    (run image (Decode.unitHeaderIn extent).run ⟨some place, context⟩).1 =
        (run image' (Decode.unitHeaderIn extent).run ⟨some place, context'⟩).1 ∧
      ∀ header, (run image (Decode.unitHeaderIn extent).run ⟨some place, context⟩).1 = .ok header →
        (run image (Decode.unitHeaderIn extent).run ⟨some place, context⟩).2.Twins image image' Eq
          (run image' (Decode.unitHeaderIn extent).run ⟨some place, context'⟩).2 := by
  have enters (image : Array UInt8) (context : Context) :=
    run_narrow image ahead inside context
  have twins : Twins image image' Context.SameFormat
      ⟨some { place with stop := extent.stop }, context⟩
      ⟨some { place with stop := extent.stop }, context'⟩ := by
    refine ⟨rfl, ?_, ?_, known⟩
    · rintro _ ⟨⟩
      exact { sound with
        offset_le_stop := ahead
        stop_le_limit := inside }
    · rintro _ ⟨⟩
      exact agree
  have rest := Decode.pairs_headerRest
    (fun format version fields seen => (⟨extent.sectionOffset, extent.start, seen.offset,
      extent.stop, extent.length, format, version, fields.unitType, fields.abbreviationsOffset,
      fields.addressSize, fields.splitId, fields.typeSignature, fields.typeOffset⟩ : UnitHeader))
    twins
  simp only [run] at enters rest ⊢
  rw [Decode.unitHeaderIn, Dialogue.runStep_bind, Dialogue.runStep_bind, enters, enters]
  exact rest

end Dwarf
