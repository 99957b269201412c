import Dwarf.Proofs.Reports
/-!
# Walks of failing files

An access to a file may fail, or deliver less than was asked for, at any time.  A walk of such a
file makes the first visits of the walk of its image, and all of them if it does not fail itself;
what it decodes is what the walk of the image decodes.

## Implementation notes

The two walks are compared unit by unit.  A failure inside a unit leaves the readers anywhere in
their sections, but leaving the unit brings the info reader to its end whatever happened, and only a
table that was read to its end is cached.
-/

namespace Dwarf

namespace Consult

variable {σ : Type} {serve : (request : Request) → σ → request.Reply × σ}

/-- Decoding a unit caches nothing but the table that was read behind its header. -/
theorem cache_of_decodedUnit {state reached : σ} {extent : UnitExtent} {cache cache' : TableCache}
    {report : Except Error DecodedUnit}
    (h : (decodedUnit extent cache).run serve state = ((report, cache'), reached)) :
    cache' = cache ∨ ∃ header entered table tabled,
      ((Decode.unitHeaderIn extent).on .info).run.run serve state = (.ok header, entered) ∧
        ((Decode.abbreviations header.abbreviationsOffset).on .abbreviations).run.run serve
            entered = (.ok table, tabled) ∧
          cache' = (header.abbreviationsOffset, table) :: cache := by
  simp only [decodedUnit, Dialogue.run_bind] at h
  rcases headed : ((Decode.unitHeaderIn extent).on .info).run.run serve state with
    ⟨error | header, entered⟩
  · rw [headed] at h
    cases h
    exact .inl rfl
  · rw [headed] at h
    -- Whatever the root entry gives, the cache is that of the table.
    have same : ((cachedTable cache header.abbreviationsOffset).run serve entered).1.2 = cache' := by
      simp only [Dialogue.run_bind] at h
      generalize (cachedTable cache header.abbreviationsOffset).run serve entered = tabled at h ⊢
      obtain ⟨⟨error | table, cached⟩, tabled⟩ := tabled
      · cases h
        rfl
      · simp only [Dialogue.run_bind] at h
        generalize (rootEntry table).run.run serve tabled = read at h
        obtain ⟨error | summary, final⟩ := read
        · cases h
          rfl
        · cases h
          rfl
    rw [← same, cachedTable]
    split
    · exact .inl rfl
    · rw [Dialogue.run_bind]
      rcases reads : ((Decode.abbreviations header.abbreviationsOffset).on .abbreviations).run.run
        serve entered with ⟨error | table, tabled⟩
      · exact .inl rfl
      · exact .inr ⟨header, entered, table, tabled, rfl, reads, rfl⟩

end Consult

namespace Session

open DirectPool

variable {image : Array UInt8} {source : Source} {session reached : Session} {α : Type}
variable {inquiry : Inquiry α} {answer : α} {failed : α → Prop}

/-- Over a truthful source, an inquiry that gives up when bytes are missing fails, or answers as the
direct readers do. -/
theorem run_truthful {licences : Licences} (faithful : session.pool.Faithful image)
    (truthful : source.Truthful image) (plain : ∀ table, (licences table).bulk = false)
    (obeys : inquiry.Obeys licences failed)
    (h : inquiry.run (serve source) session = (answer, reached)) :
    (failed answer ∨
      inquiry.run (DirectPool.serve image id) session.direct = (answer, reached.direct)) ∧
      reached.pool.Faithful image := by
  have ran := Pool.run_direct faithful truthful truthful.matches plain obeys id
  have kept := faithful.run truthful id inquiry
  rw [run_pool, show session.run source inquiry = _ from h] at ran kept
  exact ⟨ran.imp_left And.right, kept⟩

theorem run_truthful_ok {licences : Licences} {step : Consult α}
    (faithful : session.pool.Faithful image) (truthful : source.Truthful image)
    (plain : ∀ table, (licences table).bulk = false) (obeys : step.Obeys licences)
    (h : step.run.run (serve source) session = (.ok answer, reached)) :
    step.run.run (DirectPool.serve image id) session.direct = (.ok answer, reached.direct) ∧
      reached.pool.Faithful image := by
  obtain ⟨lost | direct, kept⟩ := run_truthful faithful truthful plain obeys h
  · obtain ⟨error, same⟩ := lost
    cases same
  · exact ⟨direct, kept⟩

variable {base : DirectPool Table} {place : Place} {context : Context} {extent : UnitExtent}
variable {cache cache' : TableCache} {report : Except Error DecodedUnit} {decoded left : Session}

/-- Whatever fails while a unit is decoded over a truthful source, only tables that a fresh reader
reads are cached. -/
theorem validCache_decodedUnit (start : base.Sound) (faithful : session.pool.Faithful image)
    (truthful : source.Truthful image) (rested : Rested base session.direct)
    (valid : ValidCache image base cache)
    (decodes : (Consult.decodedUnit extent cache).run (serve source) session =
      ((report, cache'), decoded)) : ValidCache image base cache' := by
  have plain (table : Table) : (Licences.plain table).bulk = false := rfl
  rcases Consult.cache_of_decodedUnit decodes with
    rfl | ⟨header, entered, table, tabled, heads, reads, rfl⟩
  · exact valid
  · have obeysHeader : Consult.Obeys Licences.plain ((Decode.unitHeaderIn extent).on .info) :=
      (Decode.obeys_unitHeaderIn extent rfl rfl).on
    have obeysTable : Consult.Obeys Licences.plain
        ((Decode.abbreviations header.abbreviationsOffset).on .abbreviations) :=
      (Decode.obeys_abbreviations header.abbreviationsOffset rfl rfl).on
    obtain ⟨heads', faithful'⟩ := run_truthful_ok faithful truthful plain obeysHeader heads
    obtain ⟨reads', -⟩ := run_truthful_ok faithful' truthful plain obeysTable reads
    have rests := rested.run (Licences.walk_usual.unitHeaderIn extent) image
    simp only [DirectPool.run, heads'] at rests
    obtain ⟨reached, fresh, -, -⟩ :=
      rests.run_abbreviations start (.refl image base) header.abbreviationsOffset
    exact valid.cons (congrArg Prod.fst (fresh.symm.trans reads'))

/-- Whatever fails while a unit is decoded over a truthful source, the info reader is poised behind
the unit when that is left. -/
theorem poised_leaveUnit {entered : Session} (faithful : entered.pool.Faithful image)
    (truthful : source.Truthful image)
    (entry : Entered image base place context extent entered.direct)
    (opened : place.stop = place.limit) (sound : place.Sound)
    (decodes : (Consult.decodedUnit extent cache).run (serve source) entered =
      ((report, cache'), decoded))
    (leaves : (Consult.leaveUnit extent.stop).run.run (serve source) decoded = (.ok (), left)) :
    Poised base { place with offset := extent.stop } left.direct ∧ left.pool.Faithful image := by
  have obeys := Licences.walk_plain.obeys_decodedUnit extent cache
  obtain ⟨-, faithful'⟩ := run_truthful faithful truthful (fun _ => rfl) obeys decodes
  obtain ⟨leaves', kept⟩ := run_truthful_ok faithful' truthful (fun _ => rfl)
    (Licences.walk_plain.obeys_leaveUnit extent.stop) leaves
  have rests := leaves_run faithful.sound source (Licences.walk_usual.decodedUnit extent cache)
  rw [show entered.run source (Consult.decodedUnit extent cache) = _ from decodes] at rests
  have rested : Rested base decoded.direct :=
    ⟨fun table => (faithful'.sound table).direct,
      fun table consulted => (entry.rested.leaves table consulted).trans (rests table)⟩
  exact ⟨entry.leaves_of_rested opened sound rested (rests .info).bounds leaves', kept⟩

end Session

/-- A visit gives nothing that another one does not give: it is of the same unit, and what it
decoded the other one decoded. -/
def Visit.Follows (visit visit' : Visit) : Prop :=
  visit'.offset = visit.offset ∧ ∀ unit, visit.report = .ok unit → visit'.report = .ok unit

/-- A walk follows another one: its visits follow the first visits of the other one, and if it
reached the end of the section, then the other one made no more visits and reached it too. -/
def Walk.Follows (walk walk' : Walk) : Prop :=
  ∃ made rest, walk'.visits = made ++ rest ∧ List.Forall₂ Visit.Follows walk.visits made ∧
    (walk.failure = none → rest = [] ∧ walk'.failure = none)

namespace Walk

theorem follows_of_failed (error : Error) (walk : Walk) : Follows ⟨[], some error⟩ walk :=
  ⟨[], walk.visits, rfl, .nil, fun ended => nomatch ended⟩

theorem Follows.cons {visit visit' : Visit} {visits visits' : List Visit}
    {failure failure' : Option Error} (first : visit.Follows visit')
    (h : Follows ⟨visits, failure⟩ ⟨visits', failure'⟩) :
    Follows ⟨visit :: visits, failure⟩ ⟨visit' :: visits', failure'⟩ := by
  obtain ⟨made, rest, rfl, follows, ends⟩ := h
  exact ⟨visit' :: made, rest, rfl, .cons first follows, ends⟩

/-- The number of units that a walk gives is the one that a followed walk gives. -/
theorem Follows.count {walk walk' : Walk} {number : Nat} (h : walk.Follows walk')
    (counts : walk.count = .ok number) : walk'.count = .ok number := by
  obtain ⟨visits, failure⟩ := walk
  obtain ⟨visits', failure'⟩ := walk'
  obtain ⟨made, rest, rfl, follows, ends⟩ := h
  cases failure with
  | some error => cases counts
  | none =>
      obtain ⟨rfl, rfl⟩ := ends rfl
      cases counts
      simp only [Walk.count, List.append_nil, follows.length_eq]

end Walk

namespace Walked

open DirectPool

variable {image : Array UInt8} {source : Source} {base pool final' : DirectPool Table}
variable {session final : Session} {place : Place} {cache cache' : TableCache}
variable {visits visits' : List Visit} {failure failure' : Option Error}

/-- A walk over a truthful source follows the walk of direct readers from the same place. -/
theorem follows (start : base.Sound) (truthful : source.Truthful image)
    (walked : Walked (Session.serve source) session cache visits failure final)
    (walked' : Walked (DirectPool.serve image id) pool cache' visits' failure' final')
    (faithful : session.pool.Faithful image) (poised : Poised base place session.direct)
    (poised' : Poised base place pool) (valid : ValidCache image base cache)
    (valid' : ValidCache image base cache') :
    Walk.Follows ⟨visits, failure⟩ ⟨visits', failure'⟩ := by
  -- What the info reader of the session sees, its direct reader sees.
  have stands {session : Session} {place : Place} (faithful : session.pool.Faithful image)
      (poised : Poised base place session.direct) : session.readers.info.Stands place :=
    ⟨faithful.sound .info, poised.info⟩
  induction walked generalizing place pool cache' visits' with
  | landed sees atEnd =>
      have ended := (Session.ends_iff (stands faithful poised) sees).mp atEnd
      cases walked' with
      | landed _ _ => exact ⟨[], [], rfl, .nil, fun _ => ⟨rfl, rfl⟩⟩
      | broken sees' ahead' _ => exact absurd ended (before poised' sees' ahead')
      | visited sees' ahead' _ _ _ _ => exact absurd ended (before poised' sees' ahead')
  | broken _ _ _ => exact Walk.follows_of_failed _ _
  | visited sees ahead enters decodes leaves rest ih =>
      have further := Session.before_stop (stands faithful poised) sees ahead
      obtain ⟨enters₁, faithful₁⟩ := Session.run_truthful_ok faithful truthful (fun _ => rfl)
        (Decode.Obeys.on (Decode.obeys_unitExtent rfl) : Consult.Obeys Licences.plain _) enters
      have entry := poised.enters enters₁
      cases walked' with
      | landed sees' atEnd' =>
          exact absurd ((ends poised' sees').mp atEnd') (Nat.ne_of_lt further)
      | broken _ _ breaks' => cases (poised'.breaks breaks').symm.trans entry.link
      | visited _ _ enters' decodes' leaves' rest' =>
          have entry' := poised'.enters enters'
          have same := entry.extent_congr entry' (.refl _ _ _)
          obtain ⟨left, faithful₂⟩ := Session.poised_leaveUnit faithful₁ truthful entry
            poised.opened poised.sound decodes leaves
          obtain ⟨left', valid₁'⟩ := entry'.leaves start (.refl image base) poised.opened
            poised.sound valid' decodes' leaves'
          have valid₁ := Session.validCache_decodedUnit start faithful₁ truthful entry.rested valid
            decodes
          rw [same] at decodes' left'
          refine (ih rest' faithful₂ left left' valid₁ valid₁').cons
            ⟨congrArg UnitExtent.sectionOffset same, fun unit succeeds => ?_⟩
          obtain ⟨lost | decodes₁, -⟩ := Session.run_truthful faithful₁ truthful (fun _ => rfl)
            (Licences.walk_plain.obeys_decodedUnit _ _) decodes
          · obtain ⟨error, failed⟩ := lost
            cases failed.symm.trans succeeds
          · have reports := entry.decodedUnit_congr start (.refl image base) entry' (.refl _ _ _)
              valid valid'
            simp only [DirectPool.run, decodes₁, decodes'] at reports
            exact reports.symm.trans succeeds

end Walked

namespace Session

/-- Over a source that delivers bytes of an image or fails, in any pattern, a walk follows the walk
over the image: it visits the first units of that walk, all of them if it reached the end of the
section, and what it decodes of a unit is what that walk decodes.  Neither the capacities of the
buffers nor earlier uses over the same source matter. -/
theorem walk_follows_image {sections : SectionDirectory} {capacities capacities' : List Nat}
    {bank bank' : Bank Reader} (binds : sections.bind capacities = .ok bank)
    (binds' : sections.bind capacities' = .ok bank') {image : Array UInt8} {source : Source}
    (truthful : source.Truthful image) (uses : List Use) :
    let walk := (((start bank).after source uses).run source Consult.walk).1
    let clean := ((start bank').run (.ofImage image) Consult.walk).1
    walk.Follows clean ∧ ∀ number, walk.count = .ok number → clean.count = .ok number := by
  intro walk clean
  have same : (start bank').direct = (start bank).direct := by
    calc (start bank').direct
        = sections.directReader := SectionDirectory.direct_start binds'
      _ = (start bank).direct := (SectionDirectory.direct_start binds).symm
  have used : Used image (start bank).direct ((start bank).after source uses) :=
    Used.afterOver ⟨SectionDirectory.faithful_start image binds, fun _ => .refl _ _⟩ truthful uses
  have fresh : Used image (start bank).direct (start bank') :=
    ⟨SectionDirectory.faithful_start image binds', fun table => same ▸ .refl _ _⟩
  have sound : (start bank).direct.Sound := fun table =>
    ((SectionDirectory.faithful_start image binds).sound table).direct
  have follows : walk.Follows clean := by
    cases placed : ((start bank).direct .info).place with
    | none =>
        rw [show walk = _ from used.walkOver_unbound source placed]
        exact Walk.follows_of_failed _ _
    | some place =>
        obtain ⟨begun, final, faithful, poised, walked⟩ := used.walkedOver truthful placed
        obtain ⟨begun', final', poised', walked'⟩ := fresh.walked placed
        exact walked.follows sound truthful walked' faithful poised poised'
          (DirectPool.validCache_nil image _) (DirectPool.validCache_nil image _)
  exact ⟨follows, fun number counts => follows.count counts⟩

/-- The access for the table of the first of two units fails: the unit is visited with its failure,
and the second is decoded with the table that is read again. -/
theorem walk_follows_image_interrupted :
    let sections : SectionDirectory :=
      ⟨[⟨".debug_info", ⟨0, 24⟩, false⟩, ⟨".debug_abbrev", ⟨24, 6⟩, false⟩], 30⟩
    let image : Array UInt8 := #[8, 0, 0, 0, 4, 0, 0, 0, 0, 0, 8, 1, 8, 0, 0, 0, 4, 0, 0, 0, 0, 0, 8,
      1, 1, 17, 0, 0, 0, 0]
    let source := Source.faulty image ⟨none, 0, [(.call 1, .interrupted)]⟩
    let bank (capacity : Nat) : Bank Reader :=
      ⟨⟨some ⟨.zeroed capacity, 0, 0, 0, 0, 24, 24, 30⟩, .unknown⟩,
        ⟨some ⟨.zeroed capacity, 24, 0, 0, 24, 30, 30, 30⟩, .unknown⟩,
        .unbound, .unbound, .unbound, .unbound⟩
    let walk := (((start (bank 16)).after source []).run source Consult.walk).1
    let clean := ((start (bank 64)).run (.ofImage image) Consult.walk).1
    sections.bind (.replicate 6 16) = .ok (bank 16) ∧
      sections.bind (.replicate 6 64) = .ok (bank 64) ∧ source.Truthful image ∧
        walk.visits.map (fun visit => visit.report.isOk) = [false, true] ∧
          walk.count = .ok 2 ∧ walk.Follows clean ∧ clean.count = .ok 2 := by
  intro sections image source bank walk clean
  have binds : sections.bind (.replicate 6 16) = .ok (bank 16) := by rfl
  have binds' : sections.bind (.replicate 6 64) = .ok (bank 64) := by rfl
  have truthful : source.Truthful image := Source.truthful_faulty image _ rfl
  have reports : walk.visits.map (fun visit => visit.report.isOk) = [false, true] := by
    simp only [walk, source, bank, image]
    decide +kernel
  have counts : walk.count = .ok 2 := by
    simp only [walk, source, bank, image]
    decide +kernel
  obtain ⟨follows, count⟩ := walk_follows_image binds binds' truthful []
  exact ⟨binds, binds', truthful, reports, counts, follows, count 2 counts⟩

end Session

end Dwarf
