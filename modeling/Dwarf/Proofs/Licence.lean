import Mathlib.Logic.Function.Basic
import Dwarf.Decode.Integer
import Dwarf.Proofs.Discipline
import Dwarf.Tables.Basic
/-!
# What decoders are licensed to do

Every decoder looks at its section and takes bytes.  A licence says what else it may do: move back,
move the end of the window, record what it has learnt, and take as much as the buffer holds.  A
decoder that obeys its licence gives up when it cannot take bytes, and does not know the capacity
of the buffer unless it is licensed to.

## Implementation notes

Moving on needs no licence.  A discipline keeps the offset that was seen last, and every target at
that offset or behind it is a move forward, since taking bytes never moves back.
-/

namespace Dwarf

/-- What a decoder may do besides looking, taking single values and moving on. -/
structure Licence where
  /-- Whether it may move back. -/
  seeks : Bool
  /-- Whether it may move the end of the window. -/
  narrows : Bool
  /-- Whether it may record what it has learnt. -/
  records : Bool
  /-- Whether it may know the capacity, and take more bytes than every buffer holds. -/
  bulk : Bool
  deriving DecidableEq, Repr

/-- One licence per table. -/
abbrev Licences := Table → Licence

namespace Licence

/-- The licence to do nothing but look, take single values and move on. -/
def onward : Licence := ⟨false, false, false, false⟩

/-- The licence to do everything that does not depend on the capacity. -/
def plain : Licence := ⟨true, true, true, false⟩

/-- Whether a query may be asked when a position was seen last. -/
def Permits (licence : Licence) (seen : Nat) : Query → Prop
  | .view => True
  | .take count _ => licence.bulk = true ∨ count ≤ Reader.minimumCapacity
  | .seek target => licence.seeks = true ∨ seen ≤ target
  | .narrow _ => licence.narrows = true
  | .record _ => licence.records = true

/-- The position that was seen last, after one more reply. -/
def seenAfter (seen : Nat) : (query : Query) → query.Reply → Nat
  | .view, view => View.offset view
  | _, _ => seen

/-- Whether a decoder must take two replies alike: views that differ in the capacity, unless it is
licensed to know it. -/
def Alike (licence : Licence) : (query : Query) → query.Reply → query.Reply → Prop
  | .view, (view : View), (view' : View) =>
    view' = view ∨ licence.bulk = false ∧ ∃ capacity, view' = { view with capacity }
  | _, reply, reply' => reply' = reply

/-- Whether a reply is a failure to take bytes. -/
def Fatal : (query : Query) → query.Reply → Prop
  | .take _ _, (reply : Except Error (List UInt8)) => Failed reply
  | _, _ => False

/-- The discipline of decoders with a licence. -/
def discipline (licence : Licence) : Discipline Query Query.Reply Nat where
  permits := licence.Permits
  after := seenAfter
  alike := licence.Alike
  fatal := Fatal

end Licence

/-- A judgement lets decoders look at where they are, and take values that every buffer holds. -/
class Judgement.LetsTake (J : Judgement Query Query.Reply) : Prop extends J.Lawful where
  look {α : Type} {blames : Except Error α → Error → Prop} {f : View → Decode α}
    (blind : ∀ seen capacity context, f { seen with capacity, context } = f seen)
    (each : ∀ seen, J.Holds blames (f seen).run) : J.Holds blames (Decode.view >>= f).run
  takeAhead (ahead : Ahead) {count : Nat} (h : count ≤ Reader.minimumCapacity) :
    J.Step (Decode.takeAhead ahead count)
  ensureBound : J.Step Decode.ensureBound

/-- A judgement lets decoders know the format and the sizes of a unit as well, and move on. -/
class Judgement.LetsKnow (J : Judgement Query Query.Reply) : Prop extends J.LetsTake where
  lookAtSizes {α : Type} {blames : Except Error α → Error → Prop} {f : View → Decode α}
    (blind : ∀ (seen : View) capacity version,
      (version = some 2 ↔ seen.context.version = some 2) →
        f { seen with capacity, context := { seen.context with version } } = f seen)
    (each : ∀ seen, J.Holds blames (f seen).run) : J.Holds blames (Decode.view >>= f).run
  skip (count : Nat) : J.Step (Decode.skip count)
  format : J.Step Decode.format
  addressSize : J.Step Decode.addressSize

/-- A judgement lets decoders move back. -/
abbrev Judgement.Seeks (J : Judgement Query Query.Reply) : Prop :=
  ∀ target, J.Step (Decode.seek target)

/-- A judgement lets decoders move the end of the window. -/
abbrev Judgement.Narrows (J : Judgement Query Query.Reply) : Prop :=
  ∀ stop, J.Step (Decode.narrow stop)

/-- A judgement lets decoders record the format and the address size. -/
structure Judgement.Learns (J : Judgement Query Query.Reply) : Prop where
  format (format : Format) : J.Step (Decode.record ({ · with format := some format }))
  addressSize (size : Nat) : J.Step (Decode.record ({ · with addressSize := some size }))

/-- The plain licence for every table. -/
def Licences.plain : Licences := fun _ => .plain

/-- The discipline of inquiries with one licence per table. -/
def Licences.discipline (licences : Licences) :
    Discipline Request Request.Reply (Table → Nat) where
  permits seen request := (licences request.table).Permits (seen request.table) request.query
  after seen request reply :=
    Function.update seen request.table
      (Licence.seenAfter (seen request.table) request.query reply)
  alike request := (licences request.table).Alike request.query
  fatal request := Licence.Fatal request.query

/-- A decoder obeys a licence, and gives up with failed answers only. -/
abbrev Decoder.Obeys {α : Type} (licence : Licence) (failed : α → Prop) (decoder : Decoder α) :
    Prop :=
  licence.discipline.Governs failed decoder

/-- A decoding step obeys a licence. -/
abbrev Decode.Obeys {α : Type} (licence : Licence) (step : Decode α) : Prop :=
  licence.discipline.GovernsStep step

/-- An inquiry obeys its licences, and gives up with failed answers only. -/
abbrev Inquiry.Obeys {α : Type} (licences : Licences) (failed : α → Prop) (inquiry : Inquiry α) :
    Prop :=
  (Licences.discipline licences).Governs failed inquiry

/-- A step of a consultation obeys its licences. -/
abbrev Consult.Obeys {α : Type} (licences : Licences) (step : Consult α) : Prop :=
  (Licences.discipline licences).GovernsStep step

/-- An inquiry asks only what its licences permit, and may go on behind failures. -/
abbrev Inquiry.Licensed {α : Type} (licences : Licences) (inquiry : Inquiry α) : Prop :=
  (Licences.discipline licences).tolerant.Governs (fun _ => False) inquiry

section On

variable {α : Type} {licences : Licences} {table : Table} {failed : α → Prop}

/-- A decoder that obeys the licence of a table obeys all licences on that table. -/
theorem Decoder.Obeys.on {decoder : Decoder α}
    (h : decoder.Obeys (licences table) failed) :
    Inquiry.Obeys licences failed (decoder.on table) := by
  have follows : ∀ seen : Table → Nat,
      decoder.Follows (licences table).discipline failed (seen table) →
        Dialogue.Follows (Licences.discipline licences) failed (decoder.on table) seen := by
    clear h
    induction decoder with
    | done answer => exact fun _ _ => trivial
    | ask query next ih =>
        rintro seen ⟨permitted, blind, goes⟩
        refine ⟨permitted, fun reply reply' alike => ?_, fun reply => ⟨fun fatal => ?_, ?_⟩⟩
        · exact congrArg (Decoder.on table) (blind reply reply' alike)
        · obtain ⟨answer, ends, bad⟩ := (goes reply).1 fatal
          exact ⟨answer, congrArg (Decoder.on table) ends, bad⟩
        · apply ih
          simp only [Licences.discipline, Function.update_self]
          exact (goes reply).2
  exact fun seen => follows seen (h _)

theorem Decode.Obeys.on {step : Decode α} (h : step.Obeys (licences table)) :
    Consult.Obeys licences (step.on table) :=
  Decoder.Obeys.on h

end On

namespace Decode

variable {α β : Type} {licence : Licence}

theorem obeys_view {blames : Except Error α → Error → Prop} {f : View → Decode α}
    (blind : licence.bulk = false → ∀ seen capacity, f { seen with capacity } = f seen)
    (each : ∀ seen, licence.discipline.judgement.Holds blames (f seen).run) :
    licence.discipline.judgement.Holds blames (view >>= f).run := by
  refine fun position => ⟨trivial, ?_, fun reply => ⟨False.elim, each reply _⟩⟩
  rintro seen seen' (rfl | ⟨plain, capacity, rfl⟩)
  · rfl
  · exact (congrArg ExceptT.run (blind plain seen capacity)).symm

theorem obeys_viewAlone (bulk : licence.bulk = true) :
    licence.discipline.judgement.Holds (fun _ _ => False) Decoder.view := by
  refine fun position => ⟨trivial, ?_, fun reply => ⟨False.elim, trivial⟩⟩
  rintro seen seen' (rfl | ⟨plain, -⟩)
  · rfl
  · exact absurd (bulk.symm.trans plain) (by decide)

theorem obeys_takeAhead {count : Nat} (ahead : Ahead)
    (h : licence.bulk = true ∨ count ≤ Reader.minimumCapacity) :
    Decode.Obeys licence (takeAhead ahead count) := by
  refine fun position => ⟨h, ?_, fun reply => ⟨fun fatal => ⟨reply, rfl, fatal⟩, trivial⟩⟩
  rintro reply reply' rfl
  rfl

theorem obeys_seek (target : Nat) (h : licence.seeks = true) :
    Decode.Obeys licence (seek target) := by
  refine fun position => ⟨.inl h, ?_, fun reply => ⟨False.elim, trivial⟩⟩
  rintro reply reply' rfl
  rfl

theorem obeys_narrow (stop : Nat) (h : licence.narrows = true) :
    Decode.Obeys licence (narrow stop) := by
  refine fun position => ⟨h, ?_, fun reply => ⟨False.elim, trivial⟩⟩
  rintro reply reply' rfl
  rfl

theorem obeys_record (change : Context → Context) (h : licence.records = true) :
    Decode.Obeys licence (record change) := by
  apply obeys_view (fun _ _ _ => rfl)
  intro seen position
  refine ⟨h, ?_, fun reply => ⟨False.elim, trivial⟩⟩
  rintro reply reply' rfl
  rfl

theorem learns (h : licence.records = true) : licence.discipline.judgement.Learns :=
  ⟨fun _ => obeys_record _ h, fun _ => obeys_record _ h⟩

/-- Every licence lets decoders know all but the capacity, take single values and move on. -/
instance (licence : Licence) : licence.discipline.judgement.LetsKnow where
  look blind := obeys_view fun _ seen capacity => blind seen capacity seen.context
  takeAhead ahead _ h := obeys_takeAhead ahead (.inr h)
  ensureBound := by
    apply obeys_view (fun _ _ _ => rfl)
    intro seen
    split
    · exact Judgement.step_pure _
    · exact Discipline.governsStep_throw _
  lookAtSizes blind := obeys_view fun _ seen capacity =>
    blind seen capacity seen.context.version Iff.rfl
  skip count := by
    refine fun position => ⟨trivial, ?_, fun reply => ⟨False.elim, ?_⟩⟩
    · rintro seen seen' (rfl | ⟨-, capacity, rfl⟩) <;> rfl
    · refine ⟨.inr (Nat.le_add_right _ _), ?_, fun reply => ⟨False.elim, trivial⟩⟩
      rintro reply reply' rfl
      rfl
  format := by
    apply obeys_view (fun _ _ _ => rfl)
    intro seen
    split
    · exact Judgement.step_pure _
    · exact Discipline.governsStep_throw _
  addressSize := by
    apply obeys_view (fun _ _ _ => rfl)
    intro seen
    split
    · exact Judgement.step_pure _
    · exact Discipline.governsStep_throw _

theorem lets_seekInSection {J : Judgement Query Query.Reply} [J.LetsTake] (seeks : J.Seeks)
    (offset : Nat) : J.Step (seekInSection offset) :=
  Judgement.LetsTake.look (fun _ _ _ => rfl) fun _ => seeks _

theorem lets_widen {J : Judgement Query Query.Reply} [J.LetsTake] (narrows : J.Narrows) :
    J.Step widen :=
  Judgement.LetsTake.look (fun _ _ _ => rfl) fun _ => narrows _

theorem obeys_seekInSection (offset : Nat) (h : licence.seeks = true) :
    Decode.Obeys licence (seekInSection offset) :=
  lets_seekInSection (fun target => obeys_seek target h) offset

theorem obeys_widen (h : licence.narrows = true) : Decode.Obeys licence widen :=
  lets_widen fun stop => obeys_narrow stop h

end Decode

end Dwarf
