import Dwarf.Proofs.Consultations
import Dwarf.Proofs.Operation
import Dwarf.Proofs.Simulation
/-!
# Buffers are transparent

Over an image, every sequence of operations has the same trace on buffered readers as on direct
ones, whatever the capacities of the buffers and whatever they held before.
-/

namespace Dwarf

open Discipline

namespace Outcome

variable {Q : Type} {R : Q → Type} {σ α : Type} {D : Discipline Q R σ}

theorem governs_ofResult {step : ExceptT Error (Dialogue Q R) α} (wrap : α → Value)
    (h : D.GovernsStep step) : D.Governs Fails (ofResult wrap <$> step.run) := by
  refine Governs.map _ h ?_
  rintro result ⟨error, rfl⟩
  exact ⟨error, rfl⟩

theorem governs_ofTransfer {transfer : Dialogue Q R Transfer}
    (h : D.judgement.Holds Transfer.Blames transfer) :
    D.Governs Fails (ofTransfer <$> transfer) := by
  refine Governs.map _ h ?_
  rintro ⟨bytes, failure⟩ ⟨error, rfl⟩
  exact ⟨error, rfl⟩

end Outcome

open Decode in
/-- Every action obeys the plain licence. -/
theorem Action.obeys_decoder (action : Action) : action.decoder.Obeys .plain Outcome.Fails := by
  cases action with
  | setFormat format => exact Outcome.governs_ofResult _ (obeys_record _ rfl)
  | setAddressSize size => exact Outcome.governs_ofResult _ (obeys_recordAddressSize size rfl)
  | setVersion version => exact Outcome.governs_ofResult _ (obeys_record _ rfl)
  | skip count => exact Outcome.governs_ofResult _ (Judgement.LetsKnow.skip count)
  | seek target => exact Outcome.governs_ofResult _ (obeys_seek target rfl)
  | seekInSection offset => exact Outcome.governs_ofResult _ (obeys_seekInSection offset rfl)
  | narrow stop => exact Outcome.governs_ofResult _ (obeys_narrow stop rfl)
  | widen => exact Outcome.governs_ofResult _ (obeys_widen rfl)
  | value fixed => exact Outcome.governs_ofResult _ (obeys_value fixed.fits)
  | unsigned width => exact Outcome.governs_ofResult _ (obeys_unsignedChecked width)
  | uleb128 type => exact Outcome.governs_ofResult _ (obeys_uleb128 type)
  | sleb128 type => exact Outcome.governs_ofResult _ (obeys_sleb128 type)
  | initialLength => exact Outcome.governs_ofResult _ (obeys_initialLength rfl)
  | offset format => exact Outcome.governs_ofResult _ (obeys_offset format)
  | sectionOffset => exact Outcome.governs_ofResult _ obeys_sectionOffset
  | address => exact Outcome.governs_ofResult _ obeys_address
  | readAddressSize => exact Outcome.governs_ofResult _ (obeys_readAddressSize rfl)
  | string => exact Outcome.governs_ofTransfer obeys_string
  | skipString => exact Outcome.governs_ofResult _ (obeys_completed obeys_string)
  | stringAt offset => exact Outcome.governs_ofTransfer (obeys_stringAt offset rfl)
  | skipValue form => exact Outcome.governs_ofResult _ (obeys_skipValue form)
  | offsetValue form => exact Outcome.governs_ofResult _ (obeys_offsetValue form)
  | addressValue form => exact Outcome.governs_ofResult _ (obeys_addressValue form)

namespace Operation

variable {ι : Type} [DecidableEq ι] {source : Source} {image : Array UInt8} {pool : Pool ι}

/-- Every operation keeps a pool faithful, if its source is truthful. -/
theorem faithful_perform (faithful : pool.Faithful image) (truthful : source.Truthful image)
    (operation : Operation ι) : (operation.perform source pool).2.Faithful image := by
  cases operation with
  | bind i scratch range fileSize =>
      obtain ⟨sound, shows⟩ := Reader.sound_shows_bind image scratch.accepted
      exact faithful.update i _ sound shows
  | rebind i range =>
      simp only [perform]
      split
      · rename_i reader h
        obtain ⟨sound, shows⟩ := Reader.sound_shows_rebind image (faithful.sound i) h
        exact faithful.update i _ sound shows
      · exact faithful
  | disable i => exact faithful.update i _ Reader.sound_unbound Reader.shows_unbound
  | act i action =>
      rw [perform, ← Pool.run_on source (fun _ => i) .info]
      exact faithful.run truthful _ _
  | stringValue i strings lineStrings form => exact faithful.run truthful _ _
  | indexedString i strings base index format => exact faithful.run truthful _ _

/-- A direct pool performs an operation as its pool does, unless that loses bytes and fails. -/
theorem perform_direct {lossy : Prop} (faithful : pool.Faithful image)
    (truthful : source.Truthful image) (h : source.Matches lossy image)
    (operation : Operation ι) :
    lossy ∧ (operation.perform source pool).1.Fails ∨
      operation.performDirect image pool.direct =
        ((operation.perform source pool).1, (operation.perform source pool).2.direct) := by
  have inquired {inquiry : Inquiry Outcome} (obeys : inquiry.Obeys .plain Outcome.Fails) :=
    Pool.run_direct faithful truthful h (fun _ => rfl) obeys
  cases operation with
  | bind i scratch range fileSize =>
      refine .inr ?_
      simp only [performDirect, perform, Reader.bind_direct scratch.accepted, Pool.set,
        Pool.direct_update]
  | rebind i range =>
      refine .inr ?_
      have rebound := Reader.rebind_direct range (pool.readers i)
      simp only [performDirect, perform, Pool.direct, rebound]
      cases (pool.readers i).rebind range with
      | ok reader => exact congrArg (Prod.mk _) (Pool.direct_update reader i _).symm
      | error error => rfl
  | disable i => exact .inr (congrArg (Prod.mk _) (Pool.direct_update .unbound i _).symm)
  | act i action =>
      simp only [perform, performDirect, ← Pool.run_on source (fun _ => i) .info,
        ← DirectPool.run_on image (fun _ => i) .info]
      exact inquired (Decoder.Obeys.on action.obeys_decoder) _
  | stringValue i strings lineStrings form =>
      have obeys := (Licences.resolve_plain.reads .info).stringValue form
      exact inquired (Outcome.governs_ofTransfer obeys) _
  | indexedString i strings base index format =>
      have obeys := (Licences.resolve_plain.reads .info).indexedString base index format
      exact inquired (Outcome.governs_ofTransfer obeys) _

/-- Over an image, a faithful pool has the trace of its direct pool. -/
theorem trace_direct (faithful : pool.Faithful image) (operations : List (Operation ι)) :
    trace (Source.ofImage image) operations pool = traceDirect image operations pool.direct := by
  induction operations generalizing pool with
  | nil => rfl
  | cons operation rest ih =>
      have truthful := Source.truthful_ofImage image
      have performed := (perform_direct faithful truthful (Source.matches_ofImage image)
        operation).resolve_left fun lost => lost.1
      rw [trace, traceDirect, performed]
      simp only [Pool.sight_direct]
      rw [ih (faithful_perform faithful truthful operation)]

/-- Over an image, every sequence of operations gives on buffered readers what it gives on direct
ones, and the readers look the same behind every operation. -/
theorem trace_eq_direct (image : Array UInt8) (operations : List (Operation ι)) :
    trace (Source.ofImage image) operations .unbound =
      traceDirect image operations .unbound :=
  trace_direct (Pool.faithful_unbound image) operations

end Operation

end Dwarf
