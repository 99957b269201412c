import Dwarf.Proofs.Consultations
import Dwarf.Proofs.Headers
/-!
# Two runs over one unit

Two pools of readers that stand at the same place in the info section, and whose other readers were
left by the usual licences, read the same root entry, over images that agree on the rest of the unit
and on the other sections.
-/

namespace Dwarf

open Source

/-- A table that a unit refers to. -/
def Table.Consulted (table : Table) : Prop := table ≠ .info ∧ table ≠ .lines
  deriving Decidable

namespace DirectPool

variable {image image' : Array UInt8} {base pool pool' : DirectPool Table} {α : Type}

/-- The readers of the tables that units refer to were left as the usual licences leave them. -/
structure Rested (base pool : DirectPool Table) : Prop where
  sound : pool.Sound
  leaves : ∀ table, table.Consulted → (Licences.usual table).Leaves (base table) (pool table)

/-- Two images have the same bytes in all sections that units refer to. -/
def AgreeInTables (image image' : Array UInt8) (base : DirectPool Table) : Prop :=
  ∀ table, table.Consulted → (base table).AgreeInSection image image'

theorem AgreeInTables.refl (image : Array UInt8) (base : DirectPool Table) :
    AgreeInTables image image base := fun _ _ _ _ => .refl _ _ _

/-- Two pools have rested, and their info readers are the same, over images that agree on the rest
of its window. -/
structure Together (image image' : Array UInt8) (base pool pool' : DirectPool Table) : Prop where
  rested : Rested base pool
  rested' : Rested base pool'
  info : pool' .info = pool .info
  agree : (pool .info).Agree image image'

/-- An inquiry answers two pools that are together alike, and leaves them so. -/
def Consistent (image image' : Array UInt8) (base : DirectPool Table) (α : Type)
    (inquiry : Inquiry α) : Prop :=
  ∀ pool pool', Together image image' base pool pool' →
    (pool.run image id inquiry).1 = (pool'.run image' id inquiry).1 ∧
      Together image image' base (pool.run image id inquiry).2 (pool'.run image' id inquiry).2

/-- Consistency as a judgement, which takes no notice of errors. -/
def consistency (image image' : Array UInt8) (base : DirectPool Table) :
    Judgement Request Request.Reply where
  Holds _ inquiry := Consistent image image' base _ inquiry

/-- Consistent inquiries may go on. -/
instance : (consistency image image' base).Lawful := by
  refine .of_done (fun _ _ _ together => ⟨rfl, together⟩) fun begins goes _ pool pool' together => ?_
  obtain ⟨answers, together'⟩ := begins pool pool' together
  simp only [run, Dialogue.run_bind] at answers together' ⊢
  rw [← answers]
  exact goes _ _ _ together'

/-- A decoder that obeys the usual licence of its table, if units refer to that, lets a pool rest. -/
theorem Rested.decode (table : Table) {failed : α → Prop} {decoder : Decoder α}
    (rested : Rested base pool)
    (obeys : table.Consulted → decoder.Obeys (Licences.usual table) failed)
    (image : Array UInt8) : Rested base (pool.decode image table decoder).2 := by
  simp only [DirectPool.decode]
  constructor
  · intro other
    by_cases same : other = table
    · subst same
      rw [Function.update_self]
      exact (rested.sound other).run image decoder
    · rw [Function.update_of_ne same]
      exact rested.sound other
  · intro other consulted
    by_cases same : other = table
    · subst same
      rw [Function.update_self]
      exact (rested.leaves other consulted).trans (DirectReader.leaves_run (obeys consulted) image _)
    · rw [Function.update_of_ne same]
      exact rested.leaves other consulted

/-- A decoder of the info table that only goes on is consistent. -/
theorem consistent_info {failed : α → Prop} {decoder : Decoder α}
    (obeys : decoder.Obeys .onward failed) :
    Consistent image image' base α (decoder.on .info) := by
  intro pool pool' together
  obtain ⟨same, -, agree⟩ := DirectReader.run_onward (together.rested.sound .info) together.agree
    obeys rfl rfl
  rw [run_on, run_on]
  have elsewhere (consulted : Table.Consulted (id .info)) : decoder.Obeys
      (Licences.usual (id .info)) failed := absurd rfl consulted.1
  refine ⟨?_, together.rested.decode .info elsewhere image,
    together.rested'.decode .info elsewhere image', ?_, ?_⟩
  · simp only [DirectPool.decode, id, together.info, same]
  · simp only [DirectPool.decode, id, together.info, Function.update_self, same]
  · simp only [DirectPool.decode, id, Function.update_self]
    exact agree

/-- A decoder of another table is consistent, if its answer does not depend on where its reader was
left. -/
theorem consistent_lookup {table : Table} {failed : α → Prop} {decoder : Decoder α}
    (consulted : table.Consulted) (obeys : decoder.Obeys (Licences.usual table) failed)
    (same : ∀ reader reader', (Licences.usual table).Leaves (base table) reader →
      (Licences.usual table).Leaves (base table) reader' → reader.Sound → reader'.Sound →
        (reader.run image decoder).1 = (reader'.run image' decoder).1) :
    Consistent image image' base α (decoder.on table) := by
  intro pool pool' together
  rw [run_on, run_on]
  have answers := same _ _ (together.rested.leaves table consulted)
    (together.rested'.leaves table consulted) (together.rested.sound table)
    (together.rested'.sound table)
  refine ⟨answers, together.rested.decode table (fun _ => obeys) image,
    together.rested'.decode table (fun _ => obeys) image', ?_, ?_⟩
  · simp only [DirectPool.decode, id, Function.update_of_ne consulted.1.symm]
    exact together.info
  · simp only [DirectPool.decode, id, Function.update_of_ne consulted.1.symm]
    exact together.agree

theorem AgreeInTables.of_leaves {table : Table} {licence : Licence} {reader : DirectReader}
    (agree : AgreeInTables image image' base) (consulted : table.Consulted)
    (leaves : licence.Leaves (base table) reader) : reader.AgreeInSection image image' := by
  intro place placed
  obtain ⟨before, placed', first, limit, -⟩ := DirectReader.place_of_bounds leaves.bounds placed
  rw [first, limit]
  exact agree table consulted before placed'

/-- Reading entries of the info table is consistent, over images that agree on the sections that
units refer to. -/
theorem reads_consistent (agree : AgreeInTables image image' base) :
    Inquiry.Reads .info Licence.onward.discipline.judgement (consistency image image' base) where
  decoder obeys := consistent_info obeys
  strings offset := by
    have consulted : Table.Consulted .strings := by decide
    refine consistent_lookup consulted (Decode.obeys_stringAt offset rfl) ?_
    intro reader reader' leaves leaves' sound sound'
    exact DirectReader.stringAt_congr (leaves.symm.trans leaves') rfl rfl sound
      (agree.of_leaves consulted leaves) offset
  lineStrings offset := by
    have consulted : Table.Consulted .lineStrings := by decide
    refine consistent_lookup consulted (Decode.obeys_stringAt offset rfl) ?_
    intro reader reader' leaves leaves' sound sound'
    exact DirectReader.stringAt_congr (leaves.symm.trans leaves') rfl rfl sound
      (agree.of_leaves consulted leaves) offset
  stringOffsets base index format := by
    have consulted : Table.Consulted .stringOffsets := by decide
    refine consistent_lookup consulted
      (Decode.obeys_stringOffsetEntry base index format rfl rfl) ?_
    intro reader reader' leaves leaves' sound sound'
    exact DirectReader.stringOffsetEntry_congr (leaves.symm.trans leaves') rfl sound sound'
      (agree.of_leaves consulted leaves) base index format

theorem Rested.run {inquiry : Inquiry α} (rested : Rested base pool)
    (licensed : inquiry.Licensed .usual) (image : Array UInt8) :
    Rested base (pool.run image id inquiry).2 where
  sound := rested.sound.run image inquiry
  leaves table consulted :=
    (rested.leaves table consulted).trans (rested.sound.leaves_run image licensed table)

/-- The table of abbreviations at an offset, read with a fresh reader. -/
def freshTable (image : Array UInt8) (base : DirectPool Table) (offset : Nat) :
    Except Error Abbreviations :=
  ((base .abbreviations).run image (Decode.abbreviations offset).run).1

/-- The cached tables are those that a fresh reader reads. -/
def ValidCache (image : Array UInt8) (base : DirectPool Table) (cache : TableCache) : Prop :=
  ∀ offset table, cache.lookup offset = some table → freshTable image base offset = .ok table

theorem validCache_nil (image : Array UInt8) (base : DirectPool Table) :
    ValidCache image base [] := fun _ _ found => nomatch found

theorem ValidCache.cons {cache : TableCache} {offset : Nat} {table : Abbreviations}
    (valid : ValidCache image base cache) (fresh : freshTable image base offset = .ok table) :
    ValidCache image base ((offset, table) :: cache) := by
  intro other found looked
  rw [List.lookup_cons] at looked
  split at looked
  · rename_i same
    cases looked
    rw [eq_of_beq same]
    exact fresh
  · exact valid other found looked

/-- A rested pool reads the table that a fresh reader reads. -/
theorem Rested.run_abbreviations (start : base.Sound) (agree : AgreeInTables image image' base)
    (rested : Rested base pool) (offset : Nat) :
    ∃ reached,
      pool.run image' id ((Decode.abbreviations offset).on .abbreviations).run =
        (freshTable image base offset, reached) ∧
      Rested base reached ∧ reached .info = pool .info := by
  have consulted : Table.Consulted .abbreviations := by decide
  have reads := DirectReader.abbreviations_congr (rested.leaves .abbreviations consulted) rfl
    (start .abbreviations) (rested.sound .abbreviations) (agree .abbreviations consulted) offset
  have decodes := run_on image' id .abbreviations (Decode.abbreviations offset).run pool
  have rests := rested.decode .abbreviations
    (fun _ => Decode.obeys_abbreviations offset rfl rfl) image'
  refine ⟨_, decodes.trans (Prod.ext reads.symm rfl), rests, ?_⟩
  exact Function.update_of_ne (by decide) _ _

/-- A rested pool takes the table that a fresh reader reads, whether it was cached or not, and
caches no other. -/
theorem run_cachedTable {cache : TableCache} (start : base.Sound)
    (agree : AgreeInTables image image' base) (rested : Rested base pool)
    (valid : ValidCache image base cache) (offset : Nat) :
    ∃ cache' reached,
      pool.run image' id (Consult.cachedTable cache offset) =
        ((freshTable image base offset, cache'), reached) ∧
      ValidCache image base cache' ∧ Rested base reached ∧ reached .info = pool .info := by
  simp only [Consult.cachedTable]
  cases found : cache.lookup offset with
  | some table =>
      rw [valid offset table found]
      exact ⟨cache, pool, rfl, valid, rested, rfl⟩
  | none =>
      obtain ⟨reached, reads, rests, info⟩ := rested.run_abbreviations start agree offset
      simp only [run, Dialogue.run_bind] at reads ⊢
      rw [reads]
      cases fresh : freshTable image base offset with
      | error error => exact ⟨cache, reached, rfl, valid, rests, info⟩
      | ok table => exact ⟨_, reached, rfl, valid.cons fresh, rests, info⟩

/-- A rested pool that decodes a unit rests and caches only what a fresh reader reads. -/
theorem run_decodedUnit {cache : TableCache} (start : base.Sound)
    (agree : AgreeInTables image image' base) (rested : Rested base pool)
    (valid : ValidCache image base cache) (extent : UnitExtent) :
    ValidCache image base (pool.run image' id (Consult.decodedUnit extent cache)).1.2 ∧
      Rested base (pool.run image' id (Consult.decodedUnit extent cache)).2 := by
  refine ⟨?_, rested.run (Licences.walk_usual.decodedUnit extent cache) image'⟩
  have entered := rested.run (Licences.walk_usual.unitHeaderIn extent) image'
  simp only [run, Consult.decodedUnit, Dialogue.run_bind] at entered ⊢
  generalize Dialogue.run (serve image' id) ((Decode.unitHeaderIn extent).on .info).run pool =
    headed at entered ⊢
  obtain ⟨error | header, reached⟩ := headed
  · exact valid
  · obtain ⟨cache', reached', tables, valid', -, -⟩ :=
      run_cachedTable start agree entered valid header.abbreviationsOffset
    simp only [run] at tables
    simp only [Dialogue.run_bind, tables]
    cases freshTable image base header.abbreviationsOffset with
    | error error => exact valid'
    | ok table =>
        simp only [Dialogue.run_bind]
        generalize Dialogue.run (serve image' id) (Consult.rootEntry table).run reached' = read
        obtain ⟨error | summary, final⟩ := read
        · exact valid'
        · exact valid'

/-- Rested pools whose info readers stand behind the same initial length read the same header, and
are together then, over images that agree on the rest of the unit. -/
theorem run_unitHeaderIn_congr {extent : UnitExtent} {place : Place} {context context' : Context}
    (rested : Rested base pool) (rested' : Rested base pool')
    (info : pool .info = ⟨some place, context⟩) (info' : pool' .info = ⟨some place, context'⟩)
    (known : context.SameFormat context') (ahead : place.offset ≤ extent.stop)
    (inside : extent.stop ≤ place.limit)
    (unit : Source.Agree image image' place.offset extent.stop) :
    ∃ result entered entered',
      pool.run image id ((Decode.unitHeaderIn extent).on .info).run = (result, entered) ∧
        pool'.run image' id ((Decode.unitHeaderIn extent).on .info).run = (result, entered') ∧
        Rested base entered ∧ Rested base entered' ∧
        ∀ header, result = .ok header → Together image image' base entered entered' := by
  have sound := rested.sound .info place (congrArg DirectReader.place info)
  obtain ⟨answers, twins⟩ := DirectReader.run_unitHeaderIn_congr sound known ahead inside unit
  have licensed := Licences.walk_usual.unitHeaderIn extent
  have rests := rested.run licensed image
  have rests' := rested'.run licensed image'
  have reads : pool.run image id ((Decode.unitHeaderIn extent).on .info).run = _ :=
    run_on image id .info (Decode.unitHeaderIn extent).run pool
  have reads' : pool'.run image' id ((Decode.unitHeaderIn extent).on .info).run = _ :=
    run_on image' id .info (Decode.unitHeaderIn extent).run pool'
  rw [reads] at rests
  rw [reads'] at rests'
  simp only [decode, id, info, info'] at reads reads' rests rests'
  refine ⟨_, _, _, reads, by rw [reads', answers], rests, rests', fun header read => ?_⟩
  obtain ⟨place', -, agree, known'⟩ := twins header read
  refine ⟨rests, rests', ?_, ?_⟩
  · rw [Function.update_self, Function.update_self]
    exact congrArg₂ DirectReader.mk place' known'.symm
  · rw [Function.update_self]
    exact agree

/-- Rested pools whose info readers stand behind the same initial length decode the same unit,
whatever they know but the format and whatever they cached, over images that agree on the rest of
the unit and on the sections that units refer to. -/
theorem run_decodedUnit_congr {cache cache' : TableCache} {extent : UnitExtent} {place : Place}
    {context context' : Context} (start : base.Sound) (agree : AgreeInTables image image' base)
    (rested : Rested base pool) (rested' : Rested base pool')
    (info : pool .info = ⟨some place, context⟩) (info' : pool' .info = ⟨some place, context'⟩)
    (known : context.SameFormat context') (ahead : place.offset ≤ extent.stop)
    (inside : extent.stop ≤ place.limit)
    (unit : Source.Agree image image' place.offset extent.stop)
    (valid : ValidCache image base cache) (valid' : ValidCache image base cache') :
    (pool.run image id (Consult.decodedUnit extent cache)).1.1 =
      (pool'.run image' id (Consult.decodedUnit extent cache')).1.1 := by
  obtain ⟨result, entered, entered', heads, heads', rests, rests', joins⟩ :=
    run_unitHeaderIn_congr rested rested' info info' known ahead inside unit
  simp only [run] at heads heads'
  simp only [run, Consult.decodedUnit, Dialogue.run_bind, heads, heads']
  cases result with
  | error error => rfl
  | ok header =>
      -- The caches may differ, but both hold only what a fresh reader would read.
      have together := joins header rfl
      obtain ⟨cached, reached, tables, -, rests, info⟩ := run_cachedTable start
        (.refl image base) rests valid header.abbreviationsOffset
      obtain ⟨cached', reached', tables', -, rests', info'⟩ :=
        run_cachedTable start agree rests' valid' header.abbreviationsOffset
      simp only [run] at tables tables'
      simp only [Dialogue.run_bind, tables, tables']
      cases freshTable image base header.abbreviationsOffset with
      | error error => rfl
      | ok table =>
          have together : Together image image' base reached reached' :=
            ⟨rests, rests', (info'.trans together.info).trans info.symm, info ▸ together.agree⟩
          have summaries := ((reads_consistent agree).rootEntry table _ _ together).1
          simp only [run] at summaries
          simp only [Dialogue.run_bind, summaries]
          generalize (Dialogue.run (serve image' id) (Consult.rootEntry table).run reached').1 = read
          cases read with
          | error error => rfl
          | ok summary => rfl

end DirectPool

end Dwarf
