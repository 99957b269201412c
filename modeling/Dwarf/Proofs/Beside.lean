import Dwarf.Proofs.Consultations
import Dwarf.Proofs.Leaves
import Dwarf.Proofs.Standing
/-!
# Readers side by side

Two readers over an image stand side by side when they stand at the same place and know related
things, whatever their buffers are and hold.  Queries that do not tell the related things apart are
replied to alike and leave them side by side.
-/

namespace Dwarf

namespace Context

/-- Neither of two contexts knows version two. -/
def Unaged (context context' : Context) : Prop :=
  context.version ≠ some 2 ∧ context'.version ≠ some 2

/-- Two contexts know the same format, and not version two. -/
def Formatted (context context' : Context) : Prop :=
  context.Unaged context' ∧ context'.format = context.format

/-- Two contexts know the same format and the same address size, and not version two. -/
def Sized (context context' : Context) : Prop :=
  context.Formatted context' ∧ context'.addressSize = context.addressSize

end Context

/-- The discipline of decoders that take values, move, and record nothing, and that do not tell
related contexts apart. -/
def Licence.veiled (Known : Context → Context → Prop) : Discipline Query Query.Reply Unit where
  permits
    | _, .take count _ => count ≤ Reader.minimumCapacity
    | _, .record _ => False
    | _, _ => True
  after _ _ _ := ()
  alike
    | .view, (view : View), (view' : View) =>
      ∃ capacity context, Known view.context context ∧ view' = { view with capacity, context }
    | _, reply, reply' => reply' = reply
  fatal := Licence.Fatal

namespace Licence

variable {Known : Context → Context → Prop}

theorem veiled_view {α : Type} {blames : Except Error α → Error → Prop} {f : View → Decode α}
    (blind : ∀ (seen : View) capacity context, Known seen.context context →
      f { seen with capacity, context } = f seen)
    (each : ∀ seen, (veiled Known).judgement.Holds blames (f seen).run) :
    (veiled Known).judgement.Holds blames (Decode.view >>= f).run := by
  refine fun _ => ⟨trivial, ?_, fun reply => ⟨False.elim, each reply _⟩⟩
  rintro seen seen' ⟨capacity, context, known, rfl⟩
  exact (congrArg ExceptT.run (blind seen capacity context known)).symm

theorem veiled_seek (target : Nat) : (veiled Known).GovernsStep (Decode.seek target) := by
  refine fun _ => ⟨trivial, ?_, fun reply => ⟨False.elim, trivial⟩⟩
  rintro reply reply' rfl
  rfl

theorem veiled_narrow (stop : Nat) : (veiled Known).GovernsStep (Decode.narrow stop) := by
  refine fun _ => ⟨trivial, ?_, fun reply => ⟨False.elim, trivial⟩⟩
  rintro reply reply' rfl
  rfl

theorem veiled_takeAhead (ahead : Ahead) {count : Nat} (h : count ≤ Reader.minimumCapacity) :
    (veiled Known).GovernsStep (Decode.takeAhead ahead count) := by
  refine fun _ => ⟨h, ?_, fun reply => ⟨fun fatal => ⟨reply, rfl, fatal⟩, trivial⟩⟩
  rintro reply reply' rfl
  rfl

theorem veiled_format (same : ∀ context context', Known context context' →
    context'.format = context.format) : (veiled Known).GovernsStep Decode.format := by
  refine veiled_view (fun seen capacity context known => ?_) fun seen => ?_
  · dsimp only
    rw [same _ _ known]
  · split
    · exact Judgement.step_pure _
    · exact Discipline.governsStep_throw _

/-- Any contexts may be veiled from decoders that take values. -/
instance : (veiled Known).judgement.LetsTake where
  look blind := veiled_view fun seen capacity context _ => blind seen capacity context
  takeAhead ahead _ h := veiled_takeAhead ahead h
  ensureBound := by
    apply veiled_view (fun _ _ _ _ => rfl)
    intro seen
    split
    · exact Judgement.step_pure _
    · exact Discipline.governsStep_throw _

/-- Contexts may be veiled from decoders that know the sizes of a unit, if they agree on these. -/
instance : (veiled Context.Sized).judgement.LetsKnow where
  lookAtSizes blind := by
    apply veiled_view
    rintro seen capacity ⟨format, size, version⟩ ⟨⟨unaged, rfl⟩, rfl⟩
    exact blind seen capacity version
      ⟨fun old => absurd old unaged.2, fun old => absurd old unaged.1⟩
  skip count := veiled_view (fun _ _ _ _ => rfl) fun _ => veiled_seek _
  format := veiled_format fun _ _ sized => sized.1.2
  addressSize := by
    apply veiled_view
    · intro seen capacity context sized
      rw [sized.2]
    · intro seen
      split
      · exact Judgement.step_pure _
      · exact Discipline.governsStep_throw _

end Licence

namespace Reader

/-- Two readers over an image are bound to the same section and know related things; they have the
same capacity where strictness is asked for. -/
structure Akin (strict : Prop) (image : Array UInt8) (Known : Context → Context → Prop)
    (reader reader' : Reader) : Prop where
  sound : reader.Sound
  sound' : reader'.Sound
  shows : reader.Shows image
  shows' : reader'.Shows image
  bounds : reader'.direct.bounds = reader.direct.bounds
  known : Known reader.context reader'.context
  capacity : strict → reader'.view.capacity = reader.view.capacity

/-- Two akin readers whose windows end alike. -/
structure Aligned (strict : Prop) (image : Array UInt8) (Known : Context → Context → Prop)
    (reader reader' : Reader) : Prop extends Akin strict image Known reader reader' where
  stop : reader'.direct.stop = reader.direct.stop

/-- Two akin readers that stand at the same place. -/
structure Beside (strict : Prop) (image : Array UInt8) (Known : Context → Context → Prop)
    (reader reader' : Reader) : Prop extends Akin strict image Known reader reader' where
  place : reader'.direct.place = reader.direct.place

/-- A licence to move, and to do no more that a direct reader cannot do. -/
def moving : Licence := ⟨true, true, false, false⟩

variable {strict : Prop} {image : Array UInt8} {Known : Context → Context → Prop}
variable {reader reader' : Reader}

theorem capacity_changeWindow {change : Window → Except Error Window}
    (h : ∀ w v, change w = .ok v → v.capacity = w.capacity) (reader : Reader) :
    (reader.changeWindow change).2.view.capacity = reader.view.capacity := by
  obtain ⟨_ | w, context⟩ := reader
  · rfl
  · simp only [changeWindow]
    split
    · rfl
    · rename_i v changed
      exact h w v changed

theorem Sound.capacity_serve (sound : reader.Sound) (source : Source) (query : Query)
    (log : AccessLog) :
    (Reader.serve source query (reader, log)).2.1.view.capacity = reader.view.capacity := by
  cases query with
  | view => rfl
  | take count ahead => exact (sound.take rfl).2.1
  | seek target =>
      refine capacity_changeWindow (fun w v changed => ?_) reader
      simp only [Window.seek] at changed
      split at changed
      · split at changed <;> cases changed <;> rfl
      · cases changed
  | narrow stop =>
      refine capacity_changeWindow (fun w v changed => ?_) reader
      simp only [Window.narrow] at changed
      split at changed
      · cases changed
        rfl
      · cases changed
  | record context => obtain ⟨_ | w, context'⟩ := reader <;> rfl

theorem Sound.capacity_run {α : Type} (sound : reader.Sound) (source : Source)
    (decoder : Decoder α) (log : AccessLog) :
    (reader.run source decoder log).2.1.view.capacity = reader.view.capacity :=
  (run_keeps (fun moved => moved.Sound ∧ moved.view.capacity = reader.view.capacity)
    (fun query _ log kept => ⟨kept.1.serve source query log,
      (kept.1.capacity_serve source query log).trans kept.2⟩) decoder log ⟨sound, rfl⟩).2

/-- Decoders that record nothing leave akin readers akin. -/
theorem Akin.after {α : Type} {licence : Licence} {failed : α → Prop} {decoder : Decoder α}
    (akin : reader.Akin strict image Known reader') (obeys : decoder.Obeys licence failed)
    (records : licence.records = false) (log log' : AccessLog) :
    (reader.run (.ofImage image) decoder log).2.1.Akin strict image Known
      (reader'.run (.ofImage image) decoder log').2.1 := by
  have leaves := akin.sound.leaves_run obeys (.ofImage image) log
  have leaves' := akin.sound'.leaves_run obeys (.ofImage image) log'
  have faithful {reader : Reader} (sound : reader.Sound) (shows : reader.Shows image)
      (log : AccessLog) : (reader.run (.ofImage image) decoder log).2.1.Sound ∧
        (reader.run (.ofImage image) decoder log).2.1.Shows image :=
    run_keeps (fun reader => reader.Sound ∧ reader.Shows image)
      (fun query _ log kept => ⟨kept.1.serve _ query log,
        kept.2.serve kept.1 (Source.truthful_ofImage image) query log⟩) decoder log ⟨sound, shows⟩
  refine ⟨(faithful akin.sound akin.shows log).1, (faithful akin.sound' akin.shows' log').1,
    (faithful akin.sound akin.shows log).2, (faithful akin.sound' akin.shows' log').2,
    leaves'.bounds.trans (akin.bounds.trans leaves.bounds.symm), ?_, fun same => ?_⟩
  · have context := leaves.context records
    have context' := leaves'.context records
    simp only [Reader.direct] at context context'
    rw [context, context']
    exact akin.known
  · rw [akin.sound.capacity_run, akin.sound'.capacity_run, akin.capacity same]

theorem Akin.run {α : Type} {failed : α → Prop} {decoder : Decoder α}
    (akin : reader.Akin strict image Known reader') (obeys : decoder.Obeys moving failed)
    (log log' : AccessLog) :
    (reader.run (.ofImage image) decoder log).2.1.Akin strict image Known
        (reader'.run (.ofImage image) decoder log').2.1 ∧
      reader.direct.run image decoder =
        ((reader.run (.ofImage image) decoder log).1,
          (reader.run (.ofImage image) decoder log).2.1.direct) ∧
      reader'.direct.run image decoder =
        ((reader'.run (.ofImage image) decoder log').1,
          (reader'.run (.ofImage image) decoder log').2.1.direct) :=
  ⟨akin.after obeys rfl log log', run_ofImage akin.sound akin.shows rfl obeys log,
    run_ofImage akin.sound' akin.shows' rfl obeys log'⟩

/-- A decoder that does the same at a place whatever is known answers readers side by side alike and
leaves them so. -/
theorem Beside.run {α : Type} {failed : α → Prop} {decoder : Decoder α}
    (beside : reader.Beside strict image Known reader') (obeys : decoder.Obeys moving failed)
    (same : ∀ place context context',
      (DirectReader.run image decoder ⟨place, context'⟩).1 =
          (DirectReader.run image decoder ⟨place, context⟩).1 ∧
        (DirectReader.run image decoder ⟨place, context'⟩).2.place =
          (DirectReader.run image decoder ⟨place, context⟩).2.place) (log log' : AccessLog) :
    (reader'.run (.ofImage image) decoder log').1 = (reader.run (.ofImage image) decoder log).1 ∧
      (reader.run (.ofImage image) decoder log).2.1.Beside strict image Known
        (reader'.run (.ofImage image) decoder log').2.1 := by
  obtain ⟨akin, runs, runs'⟩ := beside.toAkin.run obeys log log'
  obtain ⟨answers, places⟩ := same reader.direct.place reader.direct.context reader'.direct.context
  rw [show (⟨reader.direct.place, reader'.direct.context⟩ : DirectReader) = reader'.direct by
    rw [← beside.place], runs, runs'] at answers places
  exact ⟨answers, akin, places⟩

/-- A change of the place does not depend on what is known. -/
theorem changePlace_congr (change : Place → Except Error Place) (place : Option Place)
    (context context' : Context) :
    (DirectReader.changePlace change ⟨place, context'⟩).1 =
        (DirectReader.changePlace change ⟨place, context⟩).1 ∧
      (DirectReader.changePlace change ⟨place, context'⟩).2.place =
        (DirectReader.changePlace change ⟨place, context⟩).2.place := by
  cases place with
  | none => exact ⟨rfl, rfl⟩
  | some place =>
      simp only [DirectReader.changePlace]
      cases change place <;> exact ⟨rfl, rfl⟩

/-- Aligned readers look alike, but for the position, the capacity and what they know. -/
theorem Aligned.view_eq (aligned : reader.Aligned strict image Known reader') :
    reader'.view = { reader.view with
      offset := reader'.view.offset
      capacity := reader'.view.capacity
      context := reader'.context } := by
  have bounds := aligned.bounds
  have stop := aligned.stop
  obtain ⟨_ | w, context⟩ := reader <;> obtain ⟨_ | w', context'⟩ := reader'
  · rfl
  · cases bounds
  · cases bounds
  · simp only [DirectReader.bounds, DirectReader.stop, Reader.direct, Option.map_some,
      Option.some.injEq, Place.bounds, Window.place, Place.Bounds.mk.injEq] at bounds stop
    simp only [Reader.view, bounds.1, bounds.2.1, stop]

theorem Beside.learnt {Known' : Context → Context → Prop}
    (beside : reader.Beside strict image Known reader')
    (weaker : ∀ context context', Known context context' → Known' context context') :
    reader.Beside strict image Known' reader' :=
  { beside with known := weaker _ _ beside.known }

theorem Beside.aligned (beside : reader.Beside strict image Known reader') :
    reader.Aligned strict image Known reader' :=
  ⟨beside.toAkin, congrArg (Option.map Place.stop) beside.place⟩

theorem Beside.view_eq (beside : reader.Beside strict image Known reader') :
    reader'.view =
      { reader.view with capacity := reader'.view.capacity, context := reader'.context } := by
  have place := beside.place
  obtain ⟨_ | w, context⟩ := reader <;> obtain ⟨_ | w', context'⟩ := reader'
  · rfl
  · cases place
  · cases place
  · simp only [Reader.direct, Option.map_some, Option.some.injEq, Window.place,
      Place.mk.injEq] at place
    obtain ⟨offset, first, stop, limit, -⟩ := place
    simp only [Reader.view, offset, first, stop, limit]

/-- Readers side by side reply alike to veiled queries, and stay side by side. -/
theorem Beside.serve (beside : reader.Beside strict image Known reader') {query : Query}
    (permitted : (Licence.veiled Known).permits () query) (log log' : AccessLog) :
    (Licence.veiled Known).alike query (Reader.serve (.ofImage image) query (reader, log)).1
        (Reader.serve (.ofImage image) query (reader', log')).1 ∧
      (Reader.serve (.ofImage image) query (reader, log)).2.1.Beside strict image Known
        (Reader.serve (.ofImage image) query (reader', log')).2.1 := by
  cases query with
  | view =>
      have context : reader.view.context = reader.context := by
        obtain ⟨_ | w, context⟩ := reader <;> rfl
      exact ⟨⟨reader'.view.capacity, reader'.context, context.symm ▸ beside.known,
        beside.view_eq⟩, beside⟩
  | take count ahead =>
      refine beside.run (Decode.obeys_takeAhead ahead (.inr permitted)) ?_ log log'
      rintro (_ | place) context context'
      · exact ⟨rfl, rfl⟩
      · exact ⟨rfl, rfl⟩
  | seek target =>
      exact beside.run (Decode.obeys_seek target rfl) (changePlace_congr (Place.seek target)) log
        log'
  | narrow stop =>
      exact beside.run (Decode.obeys_narrow stop rfl) (changePlace_congr (Place.narrow stop)) log
        log'
  | record context => exact permitted.elim

end Reader

end Dwarf
