import Dwarf.Proofs.Standing
import Dwarf.Unit.Walk
/-!
# Walks, visit by visit

The loop of a walk as a derivation: it has landed at the end of the section, it breaks where a unit
cannot be located, or it visits a unit and goes on behind it.  Whatever a source answers, the info
reader stands at the end of a unit when the unit is left, so a walk never fails between units and
every visit takes it four bytes further at least.

## Implementation notes

A derivation does not mention the count of visits that bounds the loop, so it holds for every bound
that is large enough.  The server is a parameter, since buffered and direct readers walk alike.
-/

namespace Dwarf

/-- The loop of a walk from a state with the tables that were read before: its visits, the failure
that ends it, and the state behind it. -/
inductive Walked {σ : Type} (serve : (request : Request) → σ → request.Reply × σ) :
    σ → TableCache → List Visit → Option Error → σ → Prop where
  /-- The info reader is at the end of its section. -/
  | landed {state : σ} {cache : TableCache} {seen : View} :
    (Decoder.view.on .info).run serve state = (seen, state) → seen.atEnd = true →
      Walked serve state cache [] none state
  /-- The next unit cannot be located. -/
  | broken {state reached : σ} {cache : TableCache} {seen : View} {error : Error} :
    (Decoder.view.on .info).run serve state = (seen, state) → seen.atEnd = false →
      (Decode.unitExtent.on .info).run.run serve state = (.error error, reached) →
        Walked serve state cache [] (some error) reached
  /-- The next unit is visited and left. -/
  | visited {state entered decoded left final : σ} {cache cache' : TableCache} {seen : View}
    {extent : UnitExtent} {report : Except Error DecodedUnit} {visits : List Visit}
    {failure : Option Error} :
    (Decoder.view.on .info).run serve state = (seen, state) → seen.atEnd = false →
      (Decode.unitExtent.on .info).run.run serve state = (.ok extent, entered) →
        (Consult.decodedUnit extent cache).run serve entered = ((report, cache'), decoded) →
          (Consult.leaveUnit extent.stop).run.run serve decoded = (.ok (), left) →
            Walked serve left cache' visits failure final →
              Walked serve state cache (⟨extent.sectionOffset, report⟩ :: visits) failure final

/-- A loop that may make more visits than a derivation has makes those visits and ends as the
derivation does. -/
theorem Walked.run {σ : Type} {serve : (request : Request) → σ → request.Reply × σ}
    {state final : σ} {cache : TableCache} {visits : List Visit} {failure : Option Error}
    (walked : Walked serve state cache visits failure final) (made : List Visit) {bound : Nat}
    (h : visits.length < bound) :
    (Consult.visitsFrom made cache bound).run serve state =
      (⟨made.reverse ++ visits, failure⟩, final) := by
  obtain ⟨bound, rfl⟩ := Nat.exists_eq_succ_of_ne_zero (Nat.ne_of_gt (Nat.zero_lt_of_lt h))
  induction walked generalizing made bound with
  | landed sees atEnd =>
      simp only [Consult.visitsFrom, Dialogue.run_bind, sees, atEnd, if_true, Dialogue.run_pure,
        List.append_nil]
  | broken sees open' breaks =>
      simp only [Consult.visitsFrom, Dialogue.run_bind, sees, open', Bool.false_eq_true, if_false,
        breaks, Dialogue.run_pure, List.append_nil]
  | visited sees open' enters decodes leaves rest ih =>
      obtain ⟨bound, rfl⟩ := Nat.exists_eq_succ_of_ne_zero
        (Nat.ne_of_gt (Nat.zero_lt_of_lt (Nat.lt_of_succ_lt_succ h)))
      simp only [Consult.visitsFrom, Dialogue.run_bind, sees, open', Bool.false_eq_true, if_false,
        enters, decodes, leaves]
      refine (ih _ bound (Nat.lt_of_succ_lt_succ h)).trans ?_
      rw [List.reverse_cons, List.append_assoc]
      rfl

namespace Session

variable {source : Source} {session entered : Session} {place : Place}

/-- A session with another info reader. -/
def withInfo (session : Session) (reader : Reader) (log : AccessLog) : Session :=
  ⟨{ session.readers with info := reader }, log⟩

theorem run_on_info {α : Type} {decoder : Decoder α} {answer : α} {reader : Reader}
    {log : AccessLog}
    (h : session.readers.info.run source decoder session.log = (answer, reader, log)) :
    (decoder.on .info).run (serve source) session = (answer, session.withInfo reader log) := by
  have ran := run_on source .info decoder session
  rw [show session.readers.get .info = session.readers.info from rfl, h] at ran
  exact ran

theorem of_run_on_info {α : Type} {decoder : Decoder α} {answer : α} {reached : Session}
    (h : (decoder.on .info).run (serve source) session = (answer, reached)) :
    ∃ reader log, session.readers.info.run source decoder session.log = (answer, reader, log) ∧
      reached = session.withInfo reader log := by
  rcases ran : session.readers.info.run source decoder session.log with ⟨answer', reader, log⟩
  cases (run_on_info ran).symm.trans h
  exact ⟨reader, log, rfl, rfl⟩

theorem view_info (source : Source) (session : Session) :
    (Decoder.view.on .info).run (serve source) session =
      (session.readers.info.view, session) := run_on_info rfl

theorem ends_iff {seen : View} (stands : session.readers.info.Stands place)
    (sees : (Decoder.view.on .info).run (serve source) session = (seen, session)) :
    seen.atEnd = true ↔ place.offset = place.stop := by
  cases (view_info source session).symm.trans sees
  rw [stands.view_eq]
  simp only [View.atEnd, Bool.true_and, beq_iff_eq]

theorem before_stop {seen : View} (stands : session.readers.info.Stands place)
    (sees : (Decoder.view.on .info).run (serve source) session = (seen, session))
    (ahead : seen.atEnd = false) : place.offset < place.stop := by
  apply Nat.lt_of_le_of_ne stands.bounds.offset_le_stop
  intro ended
  exact absurd (ahead.symm.trans ((ends_iff stands sees).mpr ended)) (by decide)

theorem keeps_info {α : Type} {Kept : Reader → Prop}
    (step : ∀ query reader log, Kept reader → Kept (Reader.serve source query (reader, log)).2.1)
    (inquiry : Inquiry α) (h : Kept session.readers.info) :
    Kept (inquiry.run (serve source) session).2.readers.info := by
  refine inquiry.run_keeps (fun session : Session => Kept session.readers.info)
    (fun request session kept => ?_) h
  obtain ⟨table, query⟩ := request
  cases table with
  | info => exact step query session.readers.info session.log kept
  | abbreviations | strings | lineStrings | stringOffsets | lines => exact kept

/-- A unit whose extent was read starts where the info reader stood, ends in the section four bytes
further at least, and can be left whatever was read of it: the info reader stands at its end. -/
theorem leaves_unit {extent : UnitExtent} {α : Type}
    (stands : session.readers.info.Stands place) (opened : place.stop = place.limit)
    (enters : (Decode.unitExtent.on .info).run.run (serve source) session = (.ok extent, entered))
    (inquiry : Inquiry α) :
    extent.sectionOffset = place.offset - place.first ∧ place.offset + 4 ≤ extent.stop ∧
      extent.stop ≤ place.limit ∧
      ∃ left, (Consult.leaveUnit extent.stop).run.run (serve source)
          (inquiry.run (serve source) entered).2 = (.ok (), left) ∧
        left.readers.info.Stands { place with offset := extent.stop } := by
  obtain ⟨reader, log, reads, rfl⟩ := of_run_on_info enters
  obtain ⟨starts, further, inside⟩ := stands.unitExtent reads
  refine ⟨starts, further, inside, ?_⟩
  have step (query : Query) (reader : Reader) (log : AccessLog)
      (keeps : reader.Keeps place.bounds) := keeps.serve source query log
  have entered := keeps_info step (Decode.unitExtent.on .info).run stands.keeps
  rw [enters] at entered
  have decoded := keeps_info step inquiry entered
  generalize (inquiry.run (serve source) (session.withInfo reader log)).2 = reached at decoded ⊢
  obtain ⟨place', there, same⟩ := decoded.stands
  obtain ⟨widened, widens, opens, -⟩ := there.widen source reached.log
  have bounds := stands.bounds
  simp only [Place.bounds, Place.Bounds.mk.injEq] at same
  obtain ⟨moved, seeks, behind, -⟩ := opens.seek extent.stop
    (by have := bounds.first_le_offset; dsimp only; omega) (by dsimp only; omega)
    source reached.log
  refine ⟨(reached.withInfo widened reached.log).withInfo moved reached.log, ?_, ?_⟩
  · refine (Dialogue.runStep_bind _ _ _ _).trans ?_
    rw [show (Decode.widen.on .info).run.run (serve source) reached =
      (.ok (), reached.withInfo widened reached.log) from run_on_info widens]
    exact run_on_info seeks
  · refine ⟨behind.sound, behind.direct.trans ?_⟩
    rw [same.1, same.2.1, same.2.2, opened]

end Session

end Dwarf
