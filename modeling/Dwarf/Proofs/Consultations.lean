import Dwarf.Proofs.Inquiries
/-!
# What consultations are made of

An entry is read with decoders of its own table and with look-ups in the tables of strings.  A
lawful judgement that holds of those holds of every reading of entries; licences that suffice for
the parts suffice for walks and for line programs.
-/

namespace Dwarf

open Discipline Judgement

section On

variable {α β : Type}

theorem Decoder.on_bind (table : Table) (first : Decoder α) (next : α → Decoder β) :
    (first >>= next).on table = first.on table >>= fun answer => (next answer).on table := by
  induction first with
  | done answer => rfl
  | ask query rest ih => exact congrArg (Dialogue.ask _) (funext ih)

theorem Decoder.on_map (table : Table) (f : α → β) (decoder : Decoder α) :
    (f <$> decoder).on table = f <$> decoder.on table := by
  rw [map_eq_pure_bind, map_eq_pure_bind, on_bind]
  rfl

theorem Decode.on_bind (table : Table) (first : Decode α) (next : α → Decode β) :
    (first >>= next).on table = first.on table >>= fun answer => (next answer).on table := by
  refine (Decoder.on_bind table first.run (ExceptT.bindCont next)).trans ?_
  refine congrArg (first.run.on table >>= ·) (funext fun result => ?_)
  cases result with
  | ok answer => rfl
  | error error => rfl

end On

theorem Consult.orFailed_eq (step : Consult Transfer) :
    orFailed step = Transfer.ofResult <$> step.run := by
  rw [map_eq_pure_bind]
  refine congrArg (step.run >>= ·) (funext fun result => ?_)
  cases result <;> rfl

namespace Inquiry

/-- Decoders of a table that are judged well have a property, and so do look-ups of strings. -/
structure Refers (table : Table) (J : Judgement Query Query.Reply)
    (P : Judgement Request Request.Reply) : Prop where
  decoder {α : Type} {blames : α → Error → Prop} {decoder : Decoder α} :
    J.Holds blames decoder → P.Holds blames (decoder.on table)
  strings (offset : Nat) : P.Holds Transfer.Blames ((Decode.stringAt offset).on .strings)
  lineStrings (offset : Nat) : P.Holds Transfer.Blames ((Decode.stringAt offset).on .lineStrings)

/-- Everything of which root entries are made has a property. -/
structure Reads (table : Table) (J : Judgement Query Query.Reply)
    (P : Judgement Request Request.Reply) : Prop extends Refers table J P where
  stringOffsets (base index : Nat) (format : Format) :
    P.Step ((Decode.stringOffsetEntry base index format).on .stringOffsets)

/-- Everything of which the headers of line programs are made has a property. -/
structure ReadsLines (J : Judgement Query Query.Reply) (P : Judgement Request Request.Reply) :
    Prop extends Refers .lines J P where
  bytes (count : Nat) : P.Holds Transfer.Blames ((Decode.bytes count).on .lines)

section Lawful

variable {P : Judgement Request Request.Reply} [P.Lawful] {α β : Type}

theorem holds_orFailed {step : Consult Transfer} (each : P.Holds Transfer.Misses step.run) :
    P.Holds Transfer.Blames (Consult.orFailed step) := by
  rw [Consult.orFailed_eq]
  exact each.map _ fun _ _ => Iff.rfl

theorem step_completed {transfer : Inquiry Transfer} (each : P.Holds Transfer.Blames transfer) :
    P.Step (Consult.completed transfer) :=
  each.map _ Transfer.blames_complete

theorem holds_lookup {first : Consult Nat} {next : Nat → Inquiry Transfer} (begins : P.Step first)
    (goes : ∀ offset, P.Holds Transfer.Blames (next offset)) :
    P.Holds Transfer.Blames (Consult.orFailed do
      let offset ← first
      ExceptT.lift (next offset)) := by
  refine holds_orFailed (begins.bindInto (fun offset => ?_) Transfer.misses_error)
  exact (goes offset).map _ fun _ _ => Iff.rfl

theorem step_unlessStopped {first : Consult (Halting α)} {next : α → Consult (Halting β)}
    (begins : P.Step first) (goes : ∀ value, P.Step (next value)) :
    P.Step (first.unlessStopped next) := by
  apply begins.bind
  intro halting
  cases halting with
  | returned value => exact goes value
  | stopped => exact step_pure _

theorem step_onBind {table : Table} {first : Decode α} {next : α → Decode β}
    (begins : P.Step (first.on table)) (goes : ∀ answer, P.Step ((next answer).on table)) :
    P.Step ((first >>= next).on table) := by
  rw [Decode.on_bind]
  exact begins.bind goes

theorem holds_cachedTable
    (tables : ∀ offset, P.Step ((Decode.abbreviations offset).on .abbreviations))
    (cache : TableCache) (offset : Nat) :
    P.Holds (fun result => Blames result.1) (Consult.cachedTable cache offset) := by
  simp only [Consult.cachedTable]
  split
  · exact holds_pure nofun
  · refine Lawful.bind (tables offset) (fun result clean => ?_) ?_
    · cases result with
      | ok table => exact holds_pure nofun
      | error error => exact absurd rfl (clean error)
    · rintro result error ⟨⟩
      exact ⟨_, rfl, fun _ => Iff.rfl⟩

end Lawful

namespace Refers

variable {J : Judgement Query Query.Reply} {P : Judgement Request Request.Reply} {table : Table}

theorem step {α : Type} (h : Refers table J P) {step : Decode α} (obeys : J.Step step) :
    P.Step (step.on table) := h.decoder obeys

/-- The string of a value has the property. -/
theorem stringValue [P.Lawful] [J.LetsKnow] (h : Refers table J P) (form : Form) :
    P.Holds Transfer.Blames (Consult.stringValue table form) := by
  simp only [Consult.stringValue]
  split
  · exact h.decoder Decode.obeys_string
  · exact holds_lookup (h.step Decode.obeys_sectionOffset) h.strings
  · exact holds_lookup (h.step Decode.obeys_sectionOffset) h.lineStrings
  · apply Lawful.done
    rintro _ ⟨⟩
    nofun

end Refers

namespace Reads

open Consult

variable {J : Judgement Query Query.Reply} {P : Judgement Request Request.Reply} [P.Lawful]
variable {table : Table}

theorem indexedString (h : Reads table J P) (base index : Nat) (format : Format) :
    P.Holds Transfer.Blames (Consult.indexedString base index format) :=
  holds_lookup (h.stringOffsets base index format) h.strings

theorem resolveIndices (h : Reads .info J P) (base : Nat) (format : Format)
    (indices : List (UnitText × Nat)) (summary : RootEntry) :
    P.Step (resolveIndices base format indices summary) := by
  induction indices generalizing summary with
  | nil => exact step_pure _
  | cons index rest ih =>
      exact (step_completed (h.indexedString base index.2 format)).bind fun bytes => ih _

section Knowing

variable [J.LetsKnow]

/-- An attribute of a root entry has the property. -/
theorem rootAttribute (h : Reads .info J P) (spec : AttributeSpecification)
    (reading : EntryReading) :
    P.Step (rootAttribute spec reading) := by
  simp only [Consult.rootAttribute]
  split
  · exact h.step (Decode.obeys_plainAttribute spec reading)
  · split
    · exact (step_completed (h.stringValue spec.form)).bind fun bytes => step_pure _
    · split
      · exact (h.step (Decode.obeys_offsetValue spec.form)).bind fun index => step_pure _
      · exact h.step (Decode.obeys_plainAttribute spec reading)

theorem rootAttributes (h : Reads .info J P) (specs : List AttributeSpecification)
    (reading : EntryReading) :
    P.Step (rootAttributes specs reading) := by
  induction specs generalizing reading with
  | nil => exact step_pure _
  | cons spec rest ih => exact (h.rootAttribute spec reading).bind ih

/-- A root entry has the property. -/
theorem rootEntry (h : Reads .info J P) (table : Abbreviations) :
    P.Step (rootEntry table) := by
  apply (h.step (Decode.obeys_uleb128 .word)).bind
  intro code
  split
  · exact step_pure _
  · split
    · exact step_throw nofun
    · apply (h.rootAttributes _ _).bind
      intro reading
      split
      · exact step_pure _
      · exact (h.step LetsKnow.format).bind fun format => h.resolveIndices _ format _ _

/-- What is decoded of a unit behind its header has the property. -/
theorem summary (h : Reads .info J P)
    (tables : ∀ offset, P.Step ((Decode.abbreviations offset).on .abbreviations))
    (header : UnitHeader) (cache : TableCache) :
    P.Holds (fun result => Blames result.1) (do
      match ← cachedTable cache header.abbreviationsOffset with
      | (.error error, cache) => pure (.error error, cache)
      | (.ok table, cache) =>
        match ← (Consult.rootEntry table).run with
        | .error error => pure (.error error, cache)
        | .ok summary => pure (.ok ⟨header, summary⟩, cache) :
      Inquiry (Except Error DecodedUnit × TableCache)) := by
  refine Lawful.bind (holds_cachedTable tables cache header.abbreviationsOffset) ?_ ?_
  · rintro ⟨error | table, cache⟩ clean
    · exact absurd rfl (clean error)
    · refine Lawful.bind (h.rootEntry table) (fun result clean => ?_) ?_
      · cases result with
        | error error => exact absurd rfl (clean error)
        | ok summary => exact holds_pure nofun
      · rintro result error ⟨⟩
        exact ⟨_, rfl, fun other => (blames_error _ _).trans (blames_error _ _).symm⟩
  · rintro ⟨_, cache⟩ error ⟨⟩
    exact ⟨_, rfl, fun other => (blames_error _ _).trans (blames_error _ _).symm⟩

end Knowing

end Reads

namespace ReadsLines

open Consult

variable {J : Judgement Query Query.Reply} {P : Judgement Request Request.Reply} [P.Lawful]

theorem completedBytes (h : ReadsLines J P) (count : Nat) :
    P.Step ((Decode.completed (Decode.bytes count)).on .lines) := by
  have completes := step_completed (h.bytes count)
  rwa [show Consult.completed ((Decode.bytes count).on .lines) =
    (Decode.completed (Decode.bytes count)).on .lines from
      (Decoder.on_map .lines _ (Decode.bytes count)).symm] at completes

section Taking

variable [J.LetsTake]

/-- The parameters of opcodes have the property. -/
theorem opcodeParameters (h : ReadsLines J P) (version : Nat) :
    P.Step ((Decode.opcodeParameters version).on .lines) := by
  have rest (length operations : Nat) : P.Step (Decode.on .lines do
      let defaultIsStatement ← Decode.byte
      let lineBase ← Decode.value (.twosComplement 8)
      let lineRange ← Decode.positiveByte "line_range"
      let opcodeBase ← Decode.positiveByte "opcode_base"
      let operandCounts ← Decode.completed (Decode.bytes (opcodeBase - 1))
      pure (⟨length, operations, defaultIsStatement != 0, lineBase, lineRange, opcodeBase,
        operandCounts⟩ : OpcodeParameters)) := by
    apply step_onBind (h.step Decode.obeys_byte)
    intro statement
    apply step_onBind (h.step (Decode.obeys_value (by decide)))
    intro lineBase
    apply step_onBind (h.step (Decode.obeys_positiveByte _))
    intro lineRange
    apply step_onBind (h.step (Decode.obeys_positiveByte _))
    intro opcodeBase
    exact step_onBind (h.completedBytes _) fun counts => step_pure _
  apply step_onBind (h.step Decode.obeys_byte)
  intro length
  split
  · exact step_onBind (h.step Decode.obeys_byte) fun operations => rest length operations
  · exact rest length 1

/-- The directories and files of a line program before version five have the property. -/
theorem lineLists (h : ReadsLines J P) {version : Nat} (early : ¬ 5 ≤ version) :
    P.Step (lineTables version) := by
  simp only [Consult.lineTables, if_neg early]
  apply (h.step Decode.obeys_directories).bind
  intro directories
  exact (h.step Decode.obeys_files).bind fun files => step_pure _

end Taking

section Knowing

variable [J.LetsKnow]

/-- A value of an entry of a line table that is not a path has the property. -/
theorem plainEntryValue (h : ReadsLines J P) (format : EntryFormat) (entry : SourceFile) :
    P.Step ((Decode.plainEntryValue format entry).on .lines) := by
  simp only [Decode.plainEntryValue]
  split
  · exact step_onBind (h.step (Decode.obeys_offsetValue format.form)) fun _ => step_pure _
  · exact step_onBind (h.step (Decode.obeys_optionalNumber format.form)) fun _ => step_pure _
  · exact step_onBind (h.step (Decode.obeys_optionalNumber format.form)) fun _ => step_pure _
  · split
    · exact step_onBind (h.completedBytes 16) fun _ => step_pure _
    · exact step_onBind (h.step (Decode.obeys_skipValue format.form)) fun _ => step_pure _
  · exact step_onBind (h.step (Decode.obeys_skipValue format.form)) fun _ => step_pure _

theorem entryValue (h : ReadsLines J P) (format : EntryFormat) (entry : SourceFile) :
    P.Step (entryValue format entry) := by
  simp only [Consult.entryValue]
  split
  · exact (step_completed (h.stringValue format.form)).bind fun path => step_pure _
  · exact h.plainEntryValue format entry

theorem entryValues (h : ReadsLines J P) (formats : List EntryFormat) (entry : SourceFile) :
    P.Step (entryValues formats entry) := by
  induction formats generalizing entry with
  | nil => exact step_pure _
  | cons format rest ih => exact (h.entryValue format entry).bind ih

theorem entriesFrom (h : ReadsLines J P) (formats : List EntryFormat) (read : List SourceFile)
    (rest : Nat) : P.Step (entriesFrom formats read rest) := by
  induction rest generalizing read with
  | zero => exact step_pure _
  | succ rest ih => exact (h.entryValues formats .empty).bind fun entry => ih _

/-- A line table has the property. -/
theorem entryTable (h : ReadsLines J P) (field : String) :
    P.Step (entryTable field) := by
  apply (h.step Decode.obeys_entryFormats).bind
  intro formats
  apply (h.step (Decode.obeys_entryCount formats field)).bind
  intro count
  split
  · rw [map_eq_pure_bind]
    exact (h.entriesFrom formats [] count).bind fun entries => step_pure _
  · exact step_pure _

theorem lineTables (h : ReadsLines J P) (version : Nat) :
    P.Step (lineTables version) := by
  by_cases late : 5 ≤ version
  · simp only [Consult.lineTables, if_pos late]
    apply step_unlessStopped (h.entryTable _)
    intro directories
    exact step_unlessStopped (h.entryTable _) fun files => step_pure _
  · exact h.lineLists late

end Knowing

/-- The parameters and tables behind the sizes of a header have the property, if the position may
be looked at and the tables have it. -/
theorem contents [J.LetsTake] (h : ReadsLines J P) (offsets : J.Step Decode.sectionOffset)
    (look : ∀ {α : Type} {f : View → Consult α},
      (∀ (seen : View) capacity context, f { seen with capacity, context } = f seen) →
        (∀ seen, P.Step (f seen)) → P.Step (Decode.view.on .lines >>= f))
    (seeks : J.Seeks) (extent : LineExtent) (sizes : Option TargetSizes)
    (tables : P.Step (Consult.lineTables extent.version)) :
    P.Step (do
      let headerLength ← Decode.sectionOffset.on .lines
      let seen ← Decode.view.on .lines
      let programOffset := Word.saturate (seen.offset + headerLength)
      let parameters ← (Decode.opcodeParameters extent.version).on .lines
      (Consult.lineTables extent.version).unlessStopped fun (directories, files) => do
        (Decode.seek programOffset).on .lines
        pure (.returned (⟨extent, sizes, headerLength, programOffset, parameters, directories,
          files⟩ : LineHeader))) := by
  refine (h.step offsets).bind fun headerLength => ?_
  -- Of what is seen here, only the position is used.
  refine look (fun _ _ _ => rfl) fun seen => ?_
  refine (h.opcodeParameters extent.version).bind fun parameters => ?_
  refine step_unlessStopped tables fun listed => ?_
  exact (h.step (seeks _)).bind fun _ => step_pure _

/-- The header of a line program has the property, if its reader may move and learn the sizes. -/
theorem lineHeader [J.LetsKnow] (h : ReadsLines J P) (learns : J.Learns) (seeks : J.Seeks)
    (narrows : J.Narrows) (look : J.Holds (fun _ _ => False) Decoder.view) (offset : Nat) :
    P.Step (lineHeader offset) := by
  apply (h.step (Decode.lets_lineExtent learns seeks narrows offset)).bind
  intro extent
  apply (h.step (Decode.lets_targetSizes learns extent.version)).bind
  intro sizes
  exact h.contents Decode.obeys_sectionOffset (fun _ each => (h.step look.lift).bind each) seeks
    extent sizes (h.lineTables extent.version)

end ReadsLines

end Inquiry

/-- The licences of the tables that entries refer to suffice for looking up strings. -/
structure Licences.Resolve (licences : Licences) : Prop where
  strings : (licences .strings).seeks = true
  lineStrings : (licences .lineStrings).seeks = true
  stringOffsets : (licences .stringOffsets).seeks = true
  anyWindow : (licences .stringOffsets).narrows = true

/-- The licences of the tables that units consult suffice for walking them. -/
structure Licences.Walk (licences : Licences) : Prop extends Licences.Resolve licences where
  infoSeeks : (licences .info).seeks = true
  infoNarrows : (licences .info).narrows = true
  infoRecords : (licences .info).records = true
  abbreviationsSeek : (licences .abbreviations).seeks = true
  abbreviationsNarrow : (licences .abbreviations).narrows = true

namespace Licences

/-- The licences that walks and line programs need: strings are looked up in the whole section, and
nothing is learnt in the tables that units refer to. -/
def usual : Licences
  | .info | .lines => ⟨true, true, true, true⟩
  | .abbreviations | .stringOffsets => ⟨true, true, false, false⟩
  | .strings | .lineStrings => ⟨true, false, false, false⟩

theorem walk_usual : usual.Walk := ⟨⟨rfl, rfl, rfl, rfl⟩, rfl, rfl, rfl, rfl, rfl⟩

theorem resolve_plain : plain.Resolve := ⟨rfl, rfl, rfl, rfl⟩

theorem walk_plain : plain.Walk := ⟨resolve_plain, rfl, rfl, rfl, rfl, rfl⟩

variable {licences : Licences}

theorem licensed {α : Type} {table : Table} {failed : α → Prop} {decoder : Decoder α}
    (obeys : decoder.Obeys (licences table) failed) : (decoder.on table).Licensed licences :=
  obeys.on.tolerant

theorem Resolve.reads (h : licences.Resolve) (table : Table) :
    Inquiry.Reads table (licences table).discipline.judgement
      (Licences.discipline licences).judgement where
  decoder := Decoder.Obeys.on
  strings offset := Decoder.Obeys.on (Decode.obeys_stringAt offset h.strings)
  lineStrings offset := Decoder.Obeys.on (Decode.obeys_stringAt offset h.lineStrings)
  stringOffsets base index format :=
    (Decode.obeys_stringOffsetEntry base index format h.stringOffsets h.anyWindow).on

/-- Licences that suffice for looking up strings suffice for line programs, if they allow bytes to
be taken in pieces. -/
theorem Resolve.readsLines (h : licences.Resolve) (bulk : (licences .lines).bulk = true) :
    Inquiry.ReadsLines (licences .lines).discipline.judgement
      (Licences.discipline licences).judgement where
  toRefers := (h.reads .lines).toRefers
  bytes count := Decoder.Obeys.on (Decode.obeys_bytes count bulk)

/-- Licences that suffice for looking up strings suffice for headers of line programs, if they allow
everything there. -/
theorem Resolve.lineHeader (h : licences.Resolve) (all : licences .lines = ⟨true, true, true, true⟩)
    (offset : Nat) : Consult.Obeys licences (Consult.lineHeader offset) :=
  (h.readsLines (by rw [all])).lineHeader (Decode.learns (by rw [all]))
    (fun target => Decode.obeys_seek target (by rw [all]))
    (fun stop => Decode.obeys_narrow stop (by rw [all])) (Decode.obeys_viewAlone (by rw [all]))
    offset

namespace Walk

theorem unitExtent (h : licences.Walk) : (Decode.unitExtent.on .info).run.Licensed licences :=
  licensed (Decode.obeys_unitExtent h.infoRecords)

theorem unitHeaderIn (h : licences.Walk) (extent : UnitExtent) :
    ((Decode.unitHeaderIn extent).on .info).run.Licensed licences :=
  licensed (Decode.obeys_unitHeaderIn extent h.infoNarrows h.infoRecords)

theorem abbreviations (h : licences.Walk) (offset : Nat) :
    Consult.Obeys licences ((Decode.abbreviations offset).on .abbreviations) :=
  (Decode.obeys_abbreviations offset h.abbreviationsSeek h.abbreviationsNarrow).on

theorem obeys_decodedUnit (h : licences.Walk) (extent : UnitExtent) (cache : TableCache) :
    (Consult.decodedUnit extent cache).Obeys licences fun result => Failed result.1 := by
  have header : Consult.Obeys licences ((Decode.unitHeaderIn extent).on .info) :=
    (Decode.obeys_unitHeaderIn extent h.infoNarrows h.infoRecords).on
  refine Governs.bind header (fun result => ?_) ?_
  · cases result with
    | error error => exact governs_pure _
    | ok header => exact (h.reads .info).summary h.abbreviations header cache
  · rintro result ⟨error, rfl⟩
    exact ⟨_, rfl, error, rfl⟩

theorem decodedUnit (h : licences.Walk) (extent : UnitExtent) (cache : TableCache) :
    (Consult.decodedUnit extent cache).Licensed licences :=
  (h.obeys_decodedUnit extent cache).tolerant

theorem obeys_leaveUnit (h : licences.Walk) (stop : Nat) :
    Consult.Obeys licences (Consult.leaveUnit stop) := by
  have widens : Consult.Obeys licences (Decode.widen.on .info) :=
    (Decode.obeys_widen h.infoNarrows).on
  have seeks : Consult.Obeys licences ((Decode.seek stop).on .info) :=
    (Decode.obeys_seek stop h.infoSeeks).on
  exact widens.bind fun _ => seeks

theorem leaveUnit (h : licences.Walk) (stop : Nat) :
    (Consult.leaveUnit stop).run.Licensed licences := (h.obeys_leaveUnit stop).tolerant

/-- Licences for a walk suffice for its loop, if they allow all that can be seen of units. -/
theorem visitsFrom (h : licences.Walk) (bulk : (licences .info).bulk = true)
    (made : List Visit) (cache : TableCache) (rest : Nat) :
    (Consult.visitsFrom made cache rest).Licensed licences := by
  induction rest generalizing made cache with
  | zero => exact governs_pure _
  | succ rest ih =>
      apply (licensed (Decode.obeys_viewAlone bulk)).andThen
      intro seen
      split
      · exact governs_pure _
      · apply h.unitExtent.andThen
        intro result
        cases result with
        | error error => exact governs_pure _
        | ok extent =>
            apply (h.decodedUnit extent cache).andThen
            intro result
            apply (h.leaveUnit extent.stop).andThen
            intro left
            cases left with
            | error error => exact governs_pure _
            | ok _ => exact ih _ _

/-- Licences for a walk suffice for beginning it, if they allow all that can be seen of units. -/
theorem rewind (h : licences.Walk) (bulk : (licences .info).bulk = true) :
    (Consult.rewind.on .info).run.Licensed licences := by
  have rewinds : Decode.Obeys (licences .info) Consult.rewind := by
    apply (Decode.obeys_widen h.infoNarrows).bind
    intro _
    exact (Decode.obeys_seekInSection 0 h.infoSeeks).bind fun _ =>
      (Decode.obeys_viewAlone bulk).lift
  exact licensed rewinds

theorem walk (h : licences.Walk) (bulk : (licences .info).bulk = true) :
    Consult.walk.Licensed licences := by
  apply (h.rewind bulk).andThen
  intro result
  cases result with
  | error error => exact governs_pure _
  | ok seen => exact h.visitsFrom bulk [] [] _

end Walk

end Licences

end Dwarf
