import Mathlib.Data.List.Forall2
import Dwarf.Proofs.Chain
import Dwarf.Proofs.Together
/-!
# Two walks over one section

Walks of direct readers that start at the same place make the same visits over images that agree on
the initial lengths and on the other sections; a visit has the same report where the images agree on
its unit.  Over an image, a walk of buffered readers is one of their direct readers.

## Implementation notes

Which units the images must agree on is told by two predicates that the links of the chain carry
along, so the case of one image and the case of an altered unit are one induction.
-/

namespace Dwarf

open UnitExtent

namespace Session

variable {image : Array UInt8} {session reached : Session} {α : Type} {inquiry : Inquiry α}
variable {answer : α}

/-- Over an image, the direct readers of a session answer every licensed inquiry without bulk as the
session does, and stand alike behind it. -/
theorem run_direct {licences : Licences} (faithful : session.pool.Faithful image)
    (plain : ∀ table, (licences table).bulk = false) (licensed : inquiry.Licensed licences)
    (h : inquiry.run (serve (Source.ofImage image)) session = (answer, reached)) :
    inquiry.run (DirectPool.serve image id) session.direct = (answer, reached.direct) ∧
      reached.pool.Faithful image := by
  have ran := Pool.run_ofImage faithful plain licensed id
  have kept := faithful.run (Source.truthful_ofImage image) id inquiry
  rw [run_pool, show session.run (Source.ofImage image) inquiry = _ from h] at ran kept
  exact ⟨ran, kept⟩

end Session

theorem DirectPool.view_info (image : Array UInt8) (pool : DirectPool Table) :
    (Decoder.view.on .info).run (DirectPool.serve image id) pool = ((pool .info).view, pool) := by
  calc (Decoder.view.on .info).run (DirectPool.serve image id) pool
      = pool.decode image .info Decoder.view := DirectPool.run_on image id .info Decoder.view pool
    _ = ((pool .info).view, pool) := congrArg (Prod.mk _) (Function.update_eq_self _ _)

/-- Over an image, a walk of a session is one of its direct readers. -/
theorem Walked.direct {image : Array UInt8} {session final : Session} {cache : TableCache}
    {visits : List Visit} {failure : Option Error} (faithful : session.pool.Faithful image)
    (walked : Walked (Session.serve (Source.ofImage image)) session cache visits failure final) :
    Walked (DirectPool.serve image id) session.direct cache visits failure final.direct := by
  have looks {session : Session} {seen : View}
      (sees : (Decoder.view.on .info).run (Session.serve (Source.ofImage image)) session =
        (seen, session)) : (session.direct .info).view.atEnd = seen.atEnd := by
    cases (Session.view_info _ session).symm.trans sees
    rw [show session.direct .info = session.readers.info.direct from rfl, Reader.view_direct]
    rfl
  have plain (table : Table) : (Licences.plain table).bulk = false := rfl
  induction walked with
  | landed sees atEnd =>
      exact .landed (DirectPool.view_info image _) ((looks sees).trans atEnd)
  | broken sees ahead breaks =>
      obtain ⟨breaks', -⟩ := Session.run_direct faithful plain Licences.walk_plain.unitExtent breaks
      exact .broken (DirectPool.view_info image _) ((looks sees).trans ahead) breaks'
  | visited sees ahead enters decodes leaves rest ih =>
      obtain ⟨enters', faithful₁⟩ :=
        Session.run_direct faithful plain Licences.walk_plain.unitExtent enters
      obtain ⟨decodes', faithful₂⟩ :=
        Session.run_direct faithful₁ plain (Licences.walk_plain.decodedUnit _ _) decodes
      obtain ⟨leaves', faithful₃⟩ :=
        Session.run_direct faithful₂ plain (Licences.walk_plain.leaveUnit _) leaves
      exact .visited (DirectPool.view_info image _) ((looks sees).trans ahead) enters' decodes'
        leaves' (ih faithful₃)

namespace DirectPool

variable {image image' : Array UInt8} {base pool pool' : DirectPool Table} {place : Place}

/-- A rested pool whose info reader stands somewhere in its whole section. -/
structure Poised (base : DirectPool Table) (place : Place) (pool : DirectPool Table) : Prop where
  rested : Rested base pool
  info : (pool .info).place = some place
  opened : place.stop = place.limit

theorem Poised.sound (poised : Poised base place pool) : place.Sound :=
  poised.rested.sound .info place poised.info

/-- A poised pool locates the unit at its position as the image tells.  If it does, its info reader
stands behind the initial length and knows the format. -/
theorem Poised.unitExtent (poised : Poised base place pool) (image : Array UInt8) :
    ∃ entered,
      (Decode.unitExtent.on .info).run.run (serve image id) pool =
        ((link image place.limit place.offset).map fun stop =>
          ⟨place.offset - place.first, place.offset, lengthAt image place.offset, stop⟩, entered) ∧
      Rested base entered ∧
      ∀ stop, link image place.limit place.offset = .ok stop →
        place.offset + lengthSize image place.offset ≤ stop ∧ stop ≤ place.limit ∧
          entered .info = ⟨some (place.advance (lengthSize image place.offset)),
            { (pool .info).context with format := some (formatAt image place.offset) }⟩ := by
  obtain ⟨reached, ran, locates⟩ := DirectReader.run_unitExtent image poised.sound poised.opened
    (pool .info).context
  rw [← show pool .info = ⟨some place, (pool .info).context⟩ by rw [← poised.info]] at ran
  have entered := run_on image id .info Decode.unitExtent.run pool
  have rests := poised.rested.run Licences.walk_usual.unitExtent image
  simp only [decode, id, ran] at entered
  rw [show (Decode.unitExtent.on .info).run = Decode.unitExtent.run.on .info from rfl, entered]
    at rests
  refine ⟨_, entered, rests, fun stop links => ?_⟩
  obtain ⟨fits, there⟩ := locates stop links
  exact ⟨fits, (link_eq_ok links).2, by rw [Function.update_self, there]⟩

/-- A rested pool leaves a unit that ends in its section, and is poised at its end. -/
theorem Rested.leaveUnit (rested : Rested base pool) (stop : Nat)
    (bounds : (pool .info).bounds = some place.bounds) (opened : place.stop = place.limit)
    (behind : place.first ≤ stop) (inside : stop ≤ place.limit) (image : Array UInt8) :
    ∃ left, (Consult.leaveUnit stop).run.run (serve image id) pool = (.ok (), left) ∧
      Poised base { place with offset := stop } left := by
  have rests := rested.run (Licences.walk_usual.leaveUnit stop) image
  have same : DirectReader.bounds ⟨some place, (pool .info).context⟩ = (pool .info).bounds :=
    bounds.symm
  obtain ⟨before, there, first, limit, fileSize⟩ := DirectReader.place_of_bounds same rfl
  have sound := rested.sound .info before there
  have widens := DirectReader.run_widen image sound (pool .info).context
  rw [← show pool .info = ⟨some before, (pool .info).context⟩ by rw [← there]] at widens
  have seeks := DirectReader.run_seek image stop { before with stop := before.limit }
    (pool .info).context
  rw [if_pos ⟨first ▸ behind, limit ▸ inside⟩] at seeks
  have opens := run_on image id .info Decode.widen.run pool
  simp only [DirectPool.decode, id, widens] at opens
  have moves := run_on image id .info (Decode.seek stop).run
    (Function.update pool .info ⟨some { before with stop := before.limit }, (pool .info).context⟩)
  simp only [DirectPool.decode, id, Function.update_self, Function.update_idem, seeks] at moves
  have left := Dialogue.runStep_bind (serve image id) pool (Decode.widen.on .info) fun _ =>
    (Decode.seek stop).on .info
  rw [show (Decode.widen.on .info).run.run (serve image id) pool = _ from opens] at left
  replace left := left.trans moves
  rw [show pool.run image id (Consult.leaveUnit stop).run = _ from left] at rests
  refine ⟨_, left, rests, ?_, opened⟩
  rw [Function.update_self]
  simp only [first, limit, fileSize, opened]

/-- A unit that was located at a place, and a pool behind its initial length. -/
structure Entered (image : Array UInt8) (base : DirectPool Table) (place : Place)
    (context : Context) (extent : UnitExtent) (entered : DirectPool Table) : Prop where
  link : link image place.limit place.offset = .ok extent.stop
  extent_eq : extent =
    ⟨place.offset - place.first, place.offset, lengthAt image place.offset, extent.stop⟩
  fits : place.offset + lengthSize image place.offset ≤ extent.stop
  inside : extent.stop ≤ place.limit
  rested : Rested base entered
  info : entered .info = ⟨some (place.advance (lengthSize image place.offset)),
    { context with format := some (formatAt image place.offset) }⟩

/-- A poised pool that locates a unit enters it. -/
theorem Poised.enters {entered : DirectPool Table} {extent : UnitExtent}
    (poised : Poised base place pool)
    (enters : (Decode.unitExtent.on .info).run.run (serve image id) pool = (.ok extent, entered)) :
    Entered image base place (pool .info).context extent entered := by
  obtain ⟨entered', located, rests, behind⟩ := poised.unitExtent image
  rw [enters] at located
  cases links : UnitExtent.link image place.limit place.offset with
  | error error =>
      rw [links] at located
      cases located
  | ok stop =>
      rw [links] at located
      cases located
      obtain ⟨fits, inside, info⟩ := behind stop links
      exact ⟨links, rfl, fits, inside, rests, info⟩

/-- A poised pool that cannot locate a unit has no link there. -/
theorem Poised.breaks {reached : DirectPool Table} {error : Error}
    (poised : Poised base place pool)
    (breaks : (Decode.unitExtent.on .info).run.run (serve image id) pool =
      (.error error, reached)) :
    UnitExtent.link image place.limit place.offset = .error error := by
  obtain ⟨entered', located, -, -⟩ := poised.unitExtent image
  rw [breaks] at located
  cases links : UnitExtent.link image place.limit place.offset with
  | error error' =>
      rw [links] at located
      cases located
      rfl
  | ok stop =>
      rw [links] at located
      cases located

/-- A rested pool that keeps to the section in which it entered a unit, and leaves the unit, is
poised behind it. -/
theorem Entered.leaves_of_rested {entered decoded left : DirectPool Table} {extent : UnitExtent}
    {context : Context} (entry : Entered image base place context extent entered)
    (opened : place.stop = place.limit) (sound : place.Sound) (rests : Rested base decoded)
    (bounds : (decoded .info).bounds = (entered .info).bounds)
    (leaves : (Consult.leaveUnit extent.stop).run.run (serve image id) decoded = (.ok (), left)) :
    Poised base { place with offset := extent.stop } left := by
  have order := sound.first_le_offset
  have fits := entry.fits
  obtain ⟨left', leaves', poised⟩ := rests.leaveUnit extent.stop
    (bounds.trans (by rw [entry.info]; rfl)) opened (by omega) entry.inside image
  cases leaves'.symm.trans leaves
  exact poised

/-- A pool that entered a unit and leaves it is poised behind it, and caches only what a fresh
reader reads. -/
theorem Entered.leaves {entered decoded left : DirectPool Table} {extent : UnitExtent}
    {context : Context} {cache cache' : TableCache} {report : Except Error DecodedUnit}
    (start : base.Sound) (agree : AgreeInTables image image' base)
    (entry : Entered image' base place context extent entered)
    (opened : place.stop = place.limit) (sound : place.Sound)
    (valid : ValidCache image base cache)
    (decodes : (Consult.decodedUnit extent cache).run (serve image' id) entered =
      ((report, cache'), decoded))
    (leaves : (Consult.leaveUnit extent.stop).run.run (serve image' id) decoded = (.ok (), left)) :
    Poised base { place with offset := extent.stop } left ∧ ValidCache image base cache' := by
  obtain ⟨valid', rests⟩ := run_decodedUnit start agree entry.rested valid extent
  have bounds := (entry.rested.sound.leaves_run image'
    (Licences.walk_usual.decodedUnit extent cache) .info).bounds
  simp only [run, decodes] at valid' rests bounds
  exact ⟨entry.leaves_of_rested opened sound rests bounds leaves, valid'⟩

section

variable {entered entered' : DirectPool Table} {extent extent' : UnitExtent}
variable {context context' : Context}

theorem Entered.sectionOffset (entry : Entered image base place context extent entered) :
    extent.sectionOffset = place.offset - place.first := by
  rw [entry.extent_eq]

/-- Images that agree on the initial length of a unit locate the same unit. -/
theorem Entered.extent_congr (entry : Entered image base place context extent entered)
    (entry' : Entered image' base place context' extent' entered')
    (lengths : Source.Agree image image' place.offset
      (min place.limit (place.offset + lengthSize image place.offset))) : extent' = extent := by
  have fits := entry.fits
  have inside := entry.inside
  have links := link_congr lengths
  rw [entry.link, entry'.link, Except.ok.injEq] at links
  have length := lengths_congr (lengths.mono (Nat.le_refl _) (by omega))
  rw [entry.extent_eq, entry'.extent_eq, links, length.2.1]

/-- Pools that entered the same unit decode it alike, over images that agree on it. -/
theorem Entered.decodedUnit_congr {cache cache' : TableCache} (start : base.Sound)
    (agree : AgreeInTables image image' base)
    (entry : Entered image base place context extent entered)
    (entry' : Entered image' base place context' extent' entered')
    (unit : Source.Agree image image' place.offset extent.stop)
    (valid : ValidCache image base cache) (valid' : ValidCache image base cache') :
    (entered.run image id (Consult.decodedUnit extent cache)).1.1 =
      (entered'.run image' id (Consult.decodedUnit extent cache')).1.1 := by
  have fits := entry.fits
  have lengths := lengths_congr (unit.mono (Nat.le_refl _) fits)
  have info' := entry'.info
  rw [← lengths.1, ← lengths.2.2] at info'
  exact run_decodedUnit_congr start agree entry.rested entry'.rested entry.info info' rfl fits
    entry.inside (unit.mono (Nat.le_add_right _ _) (Nat.le_refl _)) valid valid'

end

end DirectPool

/-- Two images agree on the initial lengths of the units that fit, and on those of them that are not
altered; behind a unit that fits stands another. -/
structure UnitsAgree (image image' : Array UInt8) (limit : Nat) (Fits Altered : Nat → Prop) :
    Prop where
  lengths : ∀ unit, Fits unit →
    Source.Agree image image' unit (min limit (unit + lengthSize image unit))
  follows : ∀ unit stop, Fits unit → link image limit unit = .ok stop → Fits stop
  bodies : ∀ unit stop, Fits unit → link image limit unit = .ok stop →
    Altered unit ∨ Source.Agree image image' unit stop

namespace UnitsAgree

variable {image image' : Array UInt8} {limit unit stop : Nat}

theorem refl (image : Array UInt8) (limit : Nat) :
    UnitsAgree image image limit (fun _ => True) (fun _ => False) where
  lengths _ _ := .refl _ _ _
  follows _ _ _ _ := trivial
  bodies _ _ _ _ := .inr (.refl _ _ _)

/-- The offsets from which a chain leads to a unit, and those behind the unit. -/
def Around (image : Array UInt8) (limit unit stop offset : Nat) : Prop :=
  stop ≤ offset ∨
    ∃ units last failure, UnitChain image limit offset units last failure ∧ unit ∈ units

/-- An offset around a unit is behind it, or at it, or linked to one that is not behind its start. -/
theorem Around.cases {offset : Nat} (around : Around image limit unit stop offset) :
    stop ≤ offset ∨ offset = unit ∨
      ∃ next, link image limit offset = .ok next ∧ next ≤ unit ∧
        Around image limit unit stop next := by
  rcases around with behind | ⟨units, last, failure, chain, member⟩
  · exact .inl behind
  · cases chain with
    | landed | broken => exact nomatch member
    | linked before links rest =>
        rcases List.mem_cons.mp member with same | later
        · exact .inr (.inl same.symm)
        · exact .inr (.inr ⟨_, links, rest.le_of_mem later, .inr ⟨_, _, _, rest, later⟩⟩)

/-- Images that differ in the body of one unit only agree on the initial lengths of all units around
it, and on the bodies of the others. -/
theorem of_body (links : link image limit unit = .ok stop)
    (body : ∀ index, image[index]? ≠ image'[index]? →
      unit + lengthSize image unit ≤ index ∧ index < stop) :
    UnitsAgree image image' limit (Around image limit unit stop) (· = unit) where
  lengths offset around := by
    refine fun index later earlier => by_contra fun differ => ?_
    obtain ⟨inside, before⟩ := body index differ
    rcases around.cases with behind | rfl | ⟨next, links', onward, -⟩
    · omega
    · omega
    · have further := (link_eq_ok links').1
      omega
  follows offset next around links' := by
    rcases around.cases with behind | rfl | ⟨next', links'', -, around'⟩
    · have further := (link_eq_ok links').1
      exact .inl (by omega)
    · cases links'.symm.trans links
      exact .inl (Nat.le_refl _)
    · cases links'.symm.trans links''
      exact around'
  bodies offset next around links' := by
    rcases around.cases with behind | rfl | ⟨next', links'', onward, -⟩
    · refine .inr fun index later earlier => by_contra fun differ => ?_
      have before := (body index differ).2
      omega
    · exact .inl rfl
    · cases links'.symm.trans links''
      refine .inr fun index later earlier => by_contra fun differ => ?_
      have inside := (body index differ).1
      omega

end UnitsAgree

namespace Walked

open DirectPool

variable {image image' : Array UInt8} {base pool pool' final final' : DirectPool Table}
variable {place : Place} {cache cache' : TableCache} {visits visits' : List Visit}
variable {failure failure' : Option Error} {Fits Altered : Nat → Prop}

/-- The info reader of a poised pool sees the end of its section where it stands there. -/
theorem ends {seen : View} (poised : Poised base place pool)
    (sees : (Decoder.view.on .info).run (DirectPool.serve image id) pool = (seen, pool)) :
    seen.atEnd = true ↔ place.offset = place.stop := by
  cases (view_info image pool).symm.trans sees
  rw [show pool .info = ⟨some place, (pool .info).context⟩ by rw [← poised.info]]
  simp only [DirectReader.view, View.atEnd, Bool.true_and, beq_iff_eq]

/-- The info reader of a poised pool that does not see the end of its section stands before it. -/
theorem before {seen : View} (poised : Poised base place pool)
    (sees : (Decoder.view.on .info).run (DirectPool.serve image id) pool = (seen, pool))
    (ahead : seen.atEnd = false) : place.offset ≠ place.stop :=
  fun ended => absurd (ahead.symm.trans ((ends poised sees).mpr ended)) (by decide)

/-- Walks from the same place make visits at the same offsets and end alike, over images that agree
on the units that fit, and units that are not altered have the same reports. -/
theorem congr (start : base.Sound) (agree : AgreeInTables image image' base)
    (walked : Walked (DirectPool.serve image id) pool cache visits failure final)
    (walked' : Walked (DirectPool.serve image' id) pool' cache' visits' failure' final')
    (poised : Poised base place pool) (poised' : Poised base place pool')
    (units : UnitsAgree image image' place.limit Fits Altered)
    (valid : ValidCache image base cache) (valid' : ValidCache image base cache')
    (fits : Fits place.offset) :
    failure' = failure ∧
      List.Forall₂ (fun visit visit' => visit'.offset = visit.offset ∧
        (Altered (place.first + visit.offset) ∨ visit'.report = visit.report)) visits visits' := by
  -- Both walks are poised at one place before each unit, so the second has to follow the first.
  induction walked generalizing place pool' cache' visits' with
  | landed sees atEnd =>
      cases walked' with
      | landed _ _ => exact ⟨rfl, .nil⟩
      | broken sees' ahead' _ =>
          exact absurd ((ends poised sees).mp atEnd) (before poised' sees' ahead')
      | visited sees' ahead' _ _ _ _ =>
          exact absurd ((ends poised sees).mp atEnd) (before poised' sees' ahead')
  | broken sees ahead breaks =>
      cases walked' with
      | landed sees' atEnd' =>
          exact absurd ((ends poised' sees').mp atEnd') (before poised sees ahead)
      | broken _ _ breaks' =>
          have links := link_congr (units.lengths _ fits)
          rw [poised.breaks breaks, poised'.breaks breaks'] at links
          cases links
          exact ⟨rfl, .nil⟩
      | visited _ _ enters' _ _ _ =>
          have links := link_congr (units.lengths _ fits)
          rw [poised.breaks breaks, (poised'.enters enters').link] at links
          cases links
  | visited sees ahead enters decodes leaves rest ih =>
      cases walked' with
      | landed sees' atEnd' =>
          exact absurd ((ends poised' sees').mp atEnd') (before poised sees ahead)
      | broken _ _ breaks' =>
          have links := link_congr (units.lengths _ fits)
          rw [poised'.breaks breaks', (poised.enters enters).link] at links
          cases links
      | visited _ _ enters' decodes' leaves' rest' =>
          have entry := poised.enters enters
          have entry' := poised'.enters enters'
          obtain ⟨left, valid₁⟩ := entry.leaves start (.refl image base) poised.opened
            poised.sound valid decodes leaves
          obtain ⟨left', valid₁'⟩ := entry'.leaves start agree poised.opened poised.sound valid'
            decodes' leaves'
          have same := entry.extent_congr entry' (units.lengths _ fits)
          rw [same] at leaves' decodes' left'
          obtain ⟨ended, tail⟩ := ih rest' left left' units valid₁ valid₁'
            (units.follows _ _ fits entry.link)
          refine ⟨ended, .cons ⟨congrArg UnitExtent.sectionOffset same, ?_⟩ tail⟩
          have here : place.first + (place.offset - place.first) = place.offset :=
            Nat.add_sub_cancel' poised.sound.first_le_offset
          rw [entry.sectionOffset, here]
          apply (units.bodies _ _ fits entry.link).imp_right
          intro unit
          have reports := entry.decodedUnit_congr start agree entry' unit valid valid'
          simp only [DirectPool.run, decodes, decodes'] at reports
          exact reports.symm

end Walked

end Dwarf
