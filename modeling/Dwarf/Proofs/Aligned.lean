import Dwarf.Proofs.Declared
import Dwarf.Proofs.LinePrograms
import Dwarf.Proofs.Lookup
import Dwarf.Proofs.Rewalk
import Dwarf.Proofs.RootEntries
/-!
# Root entries stay aligned with their bytes

A root entry that is read behind the header of its unit could be skipped value by value, and ends at
the same place inside the unit.  What is kept of it is what its last attributes mean.

## Implementation notes

A constant that an abbreviation keeps has no bytes in the entry.  Tables that were parsed keep one
exactly for the form that says so, so no attribute can be read as another number of bytes than it is
skipped.
-/

namespace Dwarf

/-- The sizes on which the layouts in a unit depend, as its header tells them. -/
def UnitHeader.sizes (header : UnitHeader) : UnitSizes :=
  ⟨header.format, header.addressSize, some header.version⟩

namespace DirectReader

variable {α : Type} {image : Array UInt8} {reader left : DirectReader}

theorem left_of_onward {step : Decode α} {result : Except Error α} (obeys : step.Obeys .onward)
    (ran : run image step.run reader = (result, left)) :
    left.context = reader.context ∧ left.stop = reader.stop := by
  have leaves := leaves_run obeys image reader
  rw [ran] at leaves
  exact ⟨leaves.context rfl, leaves.stop rfl⟩

theorem run_record (image : Array UInt8) (change : Context → Context) (reader : DirectReader) :
    run image (Decode.record change).run reader =
      (.ok (), { reader with context := change reader.context }) := by
  obtain ⟨_ | place, context⟩ := reader <;> rfl

theorem left_of_narrow {stop : Nat} {answer : Unit}
    (ran : run image (Decode.narrow stop).run reader = (.ok answer, left)) :
    left.stop = some stop := by
  have narrows : run image (Decode.narrow stop).run reader =
      reader.changePlace (Place.narrow stop) := rfl
  obtain ⟨_ | place, context⟩ := reader
  · cases ran
  · rw [narrows] at ran
    simp only [changePlace] at ran
    split at ran
    · cases ran
    · rename_i narrowed made
      cases ran
      obtain ⟨-, -, rfl⟩ := Place.narrow_eq_ok_iff.mp made
      rfl

theorem left_of_format {format : Format}
    (ran : run image Decode.format.run reader = (.ok format, left)) :
    left = reader ∧ left.context.format = some format := by
  obtain ⟨_ | place, _ | known, size, version⟩ := reader <;> cases ran <;> exact ⟨rfl, rfl⟩

theorem context_of_readAddressSize {size : Nat}
    (ran : run image Decode.readAddressSize.run reader = (.ok size, left)) :
    left.context = { reader.context with addressSize := some size } ∧ left.stop = reader.stop := by
  obtain ⟨byte, moved, took, goes⟩ := Dialogue.runStep_bind_ok _ _ ran
  obtain ⟨_, told, records, ends⟩ := Dialogue.runStep_bind_ok _ _ goes
  obtain ⟨kept, stop⟩ := left_of_onward Decode.obeys_byte took
  obtain ⟨checked, still, checks, writes⟩ := Dialogue.runStep_bind_ok _ _ records
  have accepted : checked = byte ∧ still = moved := by
    simp only [Decode.checkAddressSize] at checks
    split at checks
    · cases checks
      exact ⟨rfl, rfl⟩
    · cases checks
  obtain ⟨rfl, rfl⟩ := accepted
  cases (run_record image _ still).symm.trans writes
  cases ends
  exact ⟨by rw [kept], stop⟩

/-- The fields of a header tell the address size, and nothing else is learnt from them. -/
theorem context_of_unitFields {version : Nat} {fields : Decode.UnitFields}
    (ran : run image (Decode.unitFields version).run reader = (.ok fields, left)) :
    left.context = { reader.context with addressSize := some fields.addressSize } ∧
      left.stop = reader.stop := by
  simp only [Decode.unitFields] at ran
  split at ran
  · obtain ⟨offset, moved, took, ran⟩ := Dialogue.runStep_bind_ok _ _ ran
    obtain ⟨size, told, sized, ends⟩ := Dialogue.runStep_bind_ok _ _ ran
    obtain ⟨kept, stop⟩ := left_of_onward Decode.obeys_sectionOffset took
    obtain ⟨known, stop'⟩ := context_of_readAddressSize sized
    cases ends
    exact ⟨by rw [known, kept], stop'.trans stop⟩
  · split at ran
    · obtain ⟨code, moved, took, ran⟩ := Dialogue.runStep_bind_ok _ _ ran
      obtain ⟨size, told, sized, ran⟩ := Dialogue.runStep_bind_ok _ _ ran
      obtain ⟨offset, further, took', ran⟩ := Dialogue.runStep_bind_ok _ _ ran
      obtain ⟨kept, stop⟩ := left_of_onward Decode.obeys_byte took
      obtain ⟨known, stop'⟩ := context_of_readAddressSize sized
      obtain ⟨kept', stop₂⟩ := left_of_onward Decode.obeys_sectionOffset took'
      -- Whatever else a type of unit has is read onward.
      have wide {identity : Nat} {behind : DirectReader}
          (took : run image (Decode.unsigned 8).run further = (.ok identity, behind)) :
          behind.context = further.context ∧ behind.stop = further.stop :=
        left_of_onward (Decode.obeys_unsigned (by decide)) took
      have rest : left.context = further.context ∧ left.stop = further.stop ∧
          fields.addressSize = size := by
        split at ran
        · obtain ⟨identity, behind, took, ends⟩ := Dialogue.runStep_bind_ok _ _ ran
          cases ends
          exact ⟨(wide took).1, (wide took).2, rfl⟩
        · obtain ⟨identity, behind, took, ends⟩ := Dialogue.runStep_bind_ok _ _ ran
          cases ends
          exact ⟨(wide took).1, (wide took).2, rfl⟩
        · obtain ⟨signature, behind, took, ran⟩ := Dialogue.runStep_bind_ok _ _ ran
          obtain ⟨offset', last, took', ends⟩ := Dialogue.runStep_bind_ok _ _ ran
          obtain ⟨kept', stop'⟩ := left_of_onward Decode.obeys_sectionOffset took'
          cases ends
          exact ⟨kept'.trans (wide took).1, stop'.trans (wide took).2, rfl⟩
        · obtain ⟨signature, behind, took, ran⟩ := Dialogue.runStep_bind_ok _ _ ran
          obtain ⟨offset', last, took', ends⟩ := Dialogue.runStep_bind_ok _ _ ran
          obtain ⟨kept', stop'⟩ := left_of_onward Decode.obeys_sectionOffset took'
          cases ends
          exact ⟨kept'.trans (wide took).1, stop'.trans (wide took).2, rfl⟩
        · cases ran
          exact ⟨rfl, rfl, rfl⟩
      obtain ⟨kept₂, stop₃, size'⟩ := rest
      refine ⟨?_, ?_⟩
      · rw [kept₂, kept', known, kept, size']
      · rw [stop₃, stop₂, stop', stop]
    · cases ran

/-- A header that was read leaves its reader where the entries of the unit begin, with the window of
the unit and the sizes that the header tells. -/
theorem stands_of_unitHeader {header : UnitHeader}
    (ran : run image Decode.unitHeader.run reader = (.ok header, left)) :
    ∃ place, left = ⟨some place, header.sizes.context⟩ ∧ place.stop = header.stop ∧
      place.offset = header.entries := by
  obtain ⟨extent, located, locates, ran⟩ := Dialogue.runStep_bind_ok _ _ ran
  obtain ⟨_, entered, narrows, ran⟩ := Dialogue.runStep_bind_ok _ _ ran
  obtain ⟨format, still, knows, ran⟩ := Dialogue.runStep_bind_ok _ _ ran
  obtain ⟨version, behind, took, ran⟩ := Dialogue.runStep_bind_ok _ _ ran
  obtain ⟨_, told, records, ran⟩ := Dialogue.runStep_bind_ok _ _ ran
  obtain ⟨fields, last, reads, ends⟩ := Dialogue.runStep_bind_ok _ _ ran
  have opened := left_of_narrow narrows
  obtain ⟨rfl, known⟩ := left_of_format knows
  obtain ⟨kept, stop⟩ := left_of_onward (Decode.obeys_unsigned (by decide)) took
  cases (run_record image _ behind).symm.trans records
  obtain ⟨sized, stop'⟩ := context_of_unitFields reads
  cases ends
  have stops : left.stop = some extent.stop := stop'.trans (stop.trans opened)
  obtain ⟨place, placed, ended⟩ := Option.map_eq_some_iff.mp stops
  have knows : left.context = ⟨some format, some fields.addressSize, some version⟩ := by
    rw [sized]
    simp only [kept, known]
  obtain ⟨_, context⟩ := left
  cases placed
  cases knows
  exact ⟨place, rfl, ended, rfl⟩

end DirectReader

/-- An abbreviation keeps constants exactly for the attributes whose form has them there. -/
def Abbreviation.Formed (entry : Abbreviation) : Prop := ∀ spec ∈ entry.attributes, spec.Formed

/-- All abbreviations of a table keep constants exactly for the attributes whose form has them
there. -/
def Abbreviations.Formed (table : Abbreviations) : Prop := ∀ entry ∈ table.entries, entry.Formed

namespace Decode

variable {σ : Type} {serve : (query : Query) → σ → query.Reply × σ} {state reached : σ}

/-- Tables that were read keep constants exactly for the attributes whose form has them there. -/
theorem formed_of_abbreviations {offset : Nat} {table : Abbreviations}
    (ran : (abbreviations offset).run.run serve state = (.ok table, reached)) : table.Formed := by
  intro entry member spec member'
  have well := wellFormed_of_abbreviations ran entry member
  exact (well.attributes spec member').formed

/-- Moves past the values of some attributes in order. -/
def skipAttributes : List AttributeSpecification → Decode Unit
  | [] => pure ()
  | spec :: rest => do
    skipValue spec.form
    skipAttributes rest

/-- Reads the code of an entry and moves past the values of its attributes. -/
def skipEntry (attributes : List AttributeSpecification) : Decode Nat := do
  let code ← uleb128 .word
  skipAttributes attributes
  pure code

variable {image : Array UInt8} {base : DirectPool Table} {stop : Nat} {sizes : UnitSizes}

theorem run_skipAttributes {specs : List AttributeSpecification} {place : Place} {finish : Nat}
    {meanings : List AttributeMeaning} (formed : ∀ spec ∈ specs, spec.Formed) (sound : place.Sound)
    (stops : place.stop = stop)
    (row : Grammar.Sequence (AttributeSpecification.Means image base stop sizes) specs
      place.offset meanings finish) :
    DirectReader.run image (skipAttributes specs).run ⟨some place, sizes.context⟩ =
      (.ok (), ⟨some { place with offset := finish }, sizes.context⟩) := by
  induction specs generalizing place meanings with
  | nil =>
      cases row with
      | nil => rfl
  | cons spec rest ih =>
      cases row with
      | @cons _ _ _ middle _ meaning _ there row =>
          have whole := there.whole (formed spec List.mem_cons_self)
          have skips :
              DirectReader.run image (skipValue spec.form).run ⟨some place, sizes.context⟩ =
                (.ok (), ⟨some { place with offset := middle }, sizes.context⟩) :=
            (exact_skipValue spec.form).complete place () middle sound stops whole
          rw [skipAttributes, DirectReader.run_bind_of_ok skips]
          exact ih (fun other later => formed other (List.mem_cons_of_mem _ later))
            (sound.behind skips) stops row

/-- A code and what attributes mean behind it can be skipped. -/
theorem run_skipEntry {specs : List AttributeSpecification} {place : Place}
    {code start finish : Nat} {meanings : List AttributeMeaning}
    (formed : ∀ spec ∈ specs, spec.Formed) (sound : place.Sound) (stops : place.stop = stop)
    (coded : DirectReader.run image (uleb128 .word).run ⟨some place, sizes.context⟩ =
      (.ok code, ⟨some { place with offset := start }, sizes.context⟩))
    (row : Grammar.Sequence (AttributeSpecification.Means image base stop sizes) specs start
      meanings finish) :
    DirectReader.run image (skipEntry specs).run ⟨some place, sizes.context⟩ =
      (.ok code, ⟨some { place with offset := finish }, sizes.context⟩) := by
  have skips := run_skipAttributes formed (sound.behind coded) stops row
  calc DirectReader.run image (skipEntry specs).run ⟨some place, sizes.context⟩
    _ = DirectReader.run image (skipAttributes specs >>= fun _ => pure code : Decode Nat).run
          ⟨some { place with offset := start }, sizes.context⟩ :=
      DirectReader.run_bind_of_ok coded _
    _ = (.ok code, ⟨some { place with offset := finish }, sizes.context⟩) :=
      DirectReader.run_bind_of_ok skips _

theorem obeys_skipAttributes {J : Judgement Query Query.Reply} [J.LetsKnow]
    (specs : List AttributeSpecification) : J.Step (skipAttributes specs) := by
  induction specs with
  | nil => exact Judgement.step_pure _
  | cons spec rest ih => exact (obeys_skipValue spec.form).bind fun _ => ih

theorem obeys_skipEntry {J : Judgement Query Query.Reply} [J.LetsKnow]
    (specs : List AttributeSpecification) : J.Step (skipEntry specs) := by
  apply (obeys_uleb128 .word).bind
  intro code
  exact (obeys_skipAttributes specs).bind fun _ => Judgement.step_pure _

end Decode

/-- An attribute whose constant the abbreviation keeps has no bytes in the entry. -/
theorem AttributeSpecification.Means.finish_eq {image : Array UInt8} {base : DirectPool Table}
    {stop : Nat} {sizes : UnitSizes} {spec : AttributeSpecification} {start finish : Nat}
    {meaning : AttributeMeaning} (h : spec.Means image base stop sizes start meaning finish)
    (formed : spec.Formed) (kept : spec.form = .implicitConst) : finish = start := by
  obtain ⟨layout, known, spans⟩ := h.whole formed
  rw [kept] at known
  cases known
  cases spans
  rfl

theorem Abbreviations.mem_of_find? {table : Abbreviations} {code : Nat} {entry : Abbreviation}
    (h : table.find? code = some entry) : entry ∈ table.entries := by
  rcases find?_eq_some_iff.mp h with ⟨position, -, declared⟩ | ⟨-, position, declared, -⟩
  · exact List.mem_of_getElem? declared.1
  · exact List.mem_of_getElem? declared.1

namespace Session

variable {image : Array UInt8} {before entered session left : Session} {header : UnitHeader}
variable {table : Abbreviations} {summary : RootEntry} {code : Nat}

/-- A table that was read with any reader over any source keeps constants exactly for the attributes
whose form has them there. -/
theorem formed_of_run {source : Source} {parsing : Session} {own : Table} {offset : Nat}
    (parsed : (parsing.run source ((Decode.abbreviations offset).on own).run).1 = .ok table) :
    table.Formed := by
  rw [Decode.on, ExceptT.run_mk, run_on] at parsed
  exact Decode.formed_of_abbreviations (Prod.ext parsed rfl)

theorem stands_behind_header (begun : (before.readers.get .info).Reachable (.ofImage image))
    (headed : before.run (.ofImage image) (Decode.unitHeader.on .info).run =
      (.ok header, entered)) :
    ∃ place, (entered.readers.get .info).direct = ⟨some place, header.sizes.context⟩ ∧
      place.stop = header.stop ∧ place.offset = header.entries := by
  have obeys : Decode.Obeys .plain Decode.unitHeader :=
    (Decode.obeys_unitExtent rfl).bind fun extent => Decode.obeys_unitHeaderIn extent rfl rfl
  exact DirectReader.stands_of_unitHeader (direct_run_on begun obeys headed)

theorem run_rootEntry_direct (reached : session.pool.Reachable (.ofImage image)) :
    session.direct.run image id (Consult.rootEntry table).run =
      ((session.run (.ofImage image) (Consult.rootEntry table).run).1,
        (session.run (.ofImage image) (Consult.rootEntry table).run).2.direct) := by
  have faithful : session.pool.Faithful image :=
    ⟨fun table => (reached table).sound,
      fun table => (reached table).shows (Source.truthful_ofImage image)⟩
  have licensed : (Consult.rootEntry table).run.Licensed .plain :=
    ((Licences.resolve_plain.reads .info).rootEntry table).tolerant
  exact (run_direct faithful (fun _ => rfl) licensed (Prod.eta _).symm).1

theorem at_of_reachable {place : Place} {context : Context}
    (reached : session.pool.Reachable (.ofImage image))
    (stands : (session.readers.get .info).direct = ⟨some place, context⟩) :
    DirectPool.At session.direct place context session.direct :=
  ⟨⟨fun table => (reached table).sound.direct, fun _ _ => .refl _ _⟩, stands⟩

/-- Behind the header of a unit, a root entry with a code that is read could be skipped value by
value with the same end, which lies in the unit.  Its attributes stand one behind another up to
there, a constant that the abbreviation keeps without any bytes, and the summary is what they
mean. -/
theorem rootEntry_aligned {source : Source} {parsing : Session} {own : Table} {offset : Nat}
    (parsed : (parsing.run source ((Decode.abbreviations offset).on own).run).1 = .ok table)
    (begun : (before.readers.get .info).Reachable (.ofImage image))
    (headed : before.run (.ofImage image) (Decode.unitHeader.on .info).run = (.ok header, entered))
    (info : session.readers.get .info = entered.readers.get .info)
    (reached : session.pool.Reachable (.ofImage image))
    (read : session.run (.ofImage image) (Consult.rootEntry table).run = (.ok summary, left))
    (coded : (session.run (.ofImage image) ((Decode.uleb128 .word).on .info).run).1 = .ok code)
    (nonzero : code ≠ 0) :
    let skipped (entry : Abbreviation) :=
      session.run (.ofImage image) ((Decode.skipEntry entry.attributes).on .info).run
    ∃ place entry start meanings finish,
      (session.readers.get .info).direct = ⟨some place, header.sizes.context⟩ ∧
      table.find? code = some entry ∧
      (skipped entry).1 = .ok code ∧
      ((skipped entry).2.readers.get .info).direct = (left.readers.get .info).direct ∧
      (left.readers.get .info).direct =
        ⟨some { place with offset := finish }, header.sizes.context⟩ ∧
      finish ≤ header.stop ∧
      Leb128.Groups.At image header.stop 10 Leb128.unsigned (IntType.word.holds ·) header.entries
        code start ∧
      Grammar.Sequence
        (AttributeSpecification.Means image session.direct header.stop header.sizes)
        entry.attributes start meanings finish ∧
      (∀ spec ∈ entry.attributes, spec.form = .implicitConst → ∀ start meaning finish,
        spec.Means image session.direct header.stop header.sizes start meaning finish →
          finish = start) ∧
      RootEntry.SumsUp image session.direct header.format entry.tag meanings summary := by
  intro skipped
  obtain ⟨place, stands, stops, begins⟩ := stands_behind_header begun headed
  rw [← info] at stands
  have formed := formed_of_run parsed
  have there := at_of_reachable reached stands
  have ran : session.direct.run image id (Consult.rootEntry table).run = _ :=
    run_rootEntry_direct reached
  rw [read] at ran
  obtain ⟨finish, ⟨code', start, named, spelt⟩, behind⟩ :=
    (Consult.exact_rootEntry table).within place summary _ left.direct there stops ran
  rw [begins] at named
  have reads : DirectReader.run image (Decode.uleb128 .word).run
      ⟨some place, header.sizes.context⟩ =
        (.ok code', ⟨some { place with offset := start }, header.sizes.context⟩) :=
    (Decode.exact_uleb128 rfl (by decide)).complete place code' start there.sound rfl
      (by rw [stops, begins]; exact named)
  have coded' := direct_run_on (reached .info) (Decode.obeys_uleb128 .word)
    (Prod.ext coded rfl : session.run _ _ = (.ok code, _))
  rw [stands, reads] at coded'
  cases congrArg Prod.fst coded'
  rcases spelt with ⟨zero, -⟩ | ⟨-, entry, meanings, found, row, sums⟩
  · exact absurd zero nonzero
  have shaped := formed entry (Abbreviations.mem_of_find? found)
  have skips := Decode.run_skipEntry shaped there.sound stops reads row
  have skipped' := direct_run_on (reached .info) (Decode.obeys_skipEntry entry.attributes)
    (Prod.eta (skipped entry)).symm
  rw [stands, skips] at skipped'
  obtain ⟨passed, ends⟩ := Prod.mk.inj skipped'
  have landed : (left.readers.get .info).direct = _ := behind.info
  refine ⟨place, entry, start, meanings, finish, stands, found, passed.symm,
    ends.symm.trans landed.symm, landed, ?_, named, row, ?_, sums⟩
  · rw [← stops]
    exact behind.sound.offset_le_stop
  · intro spec member kept start meaning finish means
    exact means.finish_eq (shaped spec member) kept

/-- Of three attributes, the abbreviation keeps the second as a constant, and the third names its
form in the entry; skipping them ends where reading them does. -/
theorem rootEntry_aligned_kept :
    let image : Array UInt8 := #[12, 0, 0, 0, 4, 0, 0, 0, 0, 0, 8, 1, 0x61, 0, 0x0b, 5,
      1, 0x11, 0, 0x03, 0x08, 0x13, 0x21, 0x1c, 0x10, 0x16, 0, 0, 0]
    let info : Reader := ⟨some ⟨.zeroed 16, 0, 0, 0, 0, 16, 16, 29⟩, .unknown⟩
    let abbreviations : Reader := ⟨some ⟨.zeroed 16, 16, 0, 0, 16, 29, 29, 29⟩, .unknown⟩
    let before : Session :=
      .start ⟨info, abbreviations, .unbound, .unbound, .unbound, .unbound⟩
    let entered := (before.run (.ofImage image) (Decode.unitHeader.on .info).run).2
    let attributes : List AttributeSpecification :=
      [⟨.entryName, .string, none⟩, ⟨.sourceLanguage, .implicitConst, some 0x1c⟩,
        ⟨.lineProgram, .indirect, none⟩]
    let table : Abbreviations := ⟨[⟨1, ⟨0x11⟩, false, attributes⟩]⟩
    let read := entered.run (.ofImage image) (Consult.rootEntry table).run
    let skipped := entered.run (.ofImage image) ((Decode.skipEntry attributes).on .info).run
    read.1 = .ok ⟨some ⟨0x11⟩, some "a", none, none, some ⟨0x1c⟩, some 5, none⟩ ∧
      skipped.1 = .ok 1 ∧
        (skipped.2.readers.get .info).direct = (read.2.readers.get .info).direct := by
  intro image info abbreviations before entered attributes table read skipped
  have parsed : (before.run (.ofImage image)
      ((Decode.abbreviations 0).on .abbreviations).run).1 = .ok table := by
    decide +kernel
  have headed : (before.run (.ofImage image) (Decode.unitHeader.on .info).run).1 =
      .ok ⟨0, 0, 11, 16, 12, .dwarf32, 4, .compile, 0, 8, none, none, none⟩ := by
    decide +kernel
  have summed : read.1 = .ok ⟨some ⟨0x11⟩, some "a", none, none, some ⟨0x1c⟩, some 5, none⟩ := by
    decide +kernel
  have coded : (entered.run (.ofImage image) ((Decode.uleb128 .word).on .info).run).1 = .ok 1 := by
    decide +kernel
  have bound : Reader.bound (.zeroed 16) ⟨0, 16⟩ 29 = .ok info := by rfl
  have bound' : Reader.bound (.zeroed 16) ⟨16, 13⟩ 29 = .ok abbreviations := by rfl
  have started : before.pool.Reachable (.ofImage image) := by
    intro table
    cases table with
    | info => exact .bound bound
    | abbreviations => exact .bound bound'
    | strings | lineStrings | stringOffsets | lines => exact .unbound
  have headers : before.run (.ofImage image) (Decode.unitHeader.on .info).run =
      ((before.run (.ofImage image) (Decode.unitHeader.on .info).run).1, entered) :=
    (Prod.eta _).symm
  have reads : entered.run (.ofImage image) (Consult.rootEntry table).run = (read.1, read.2) :=
    (Prod.eta _).symm
  rw [headed] at headers
  rw [summed] at reads
  have reached : entered.pool.Reachable (.ofImage image) := reachable_run started headers
  clear_value entered before image
  obtain ⟨_, entry, _, _, _, -, found, passed, ends, -⟩ := rootEntry_aligned parsed
    (started .info) headers rfl reached reads coded (by decide)
  cases found
  exact ⟨summed, passed, ends⟩

end Session

end Dwarf
