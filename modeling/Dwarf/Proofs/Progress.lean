import Dwarf.Proofs.Walked
/-!
# Progress of walks

Every walk on a bound info reader comes to an end that does not depend on the count that bounds its
loop, whatever the source answers.  Its visits are at least four bytes apart, and it succeeds only
at the end of the whole section.
-/

namespace Dwarf

/-- Offsets in order from one on, with four bytes behind each before the next and before an end. -/
def Spaced (stop : Nat) : Nat → List Nat → Prop
  | start, [] => start ≤ stop
  | start, offset :: rest => start ≤ offset ∧ Spaced stop (offset + 4) rest

namespace Spaced

variable {start stop : Nat} {offsets : List Nat}

theorem of_le {earlier : Nat} (h : Spaced stop start offsets) (le : earlier ≤ start) :
    Spaced stop earlier offsets := by
  cases offsets with
  | nil => exact Nat.le_trans le h
  | cons first rest => exact ⟨Nat.le_trans le h.1, h.2⟩

theorem le_of_mem (h : Spaced stop start offsets) {offset : Nat} (member : offset ∈ offsets) :
    start ≤ offset := by
  induction offsets generalizing start with
  | nil => cases member
  | cons first rest ih =>
      rcases List.mem_cons.mp member with rfl | later
      · exact h.1
      · exact Nat.le_trans h.1 (Nat.le_trans (Nat.le_add_right _ 4) (ih h.2 later))

theorem pairwise (h : Spaced stop start offsets) :
    offsets.Pairwise fun earlier later => earlier + 4 ≤ later := by
  induction offsets generalizing start with
  | nil => exact List.Pairwise.nil
  | cons first rest ih => exact List.Pairwise.cons (fun _ member => le_of_mem h.2 member) (ih h.2)

theorem length_le (h : Spaced stop start offsets) : start + 4 * offsets.length ≤ stop := by
  induction offsets generalizing start with
  | nil => exact h
  | cons first rest ih =>
      have room := ih h.2
      have behind := h.1
      rw [List.length_cons]
      omega

end Spaced

namespace Reader.Stands

variable {source : Source} {reader : Reader} {place : Place}

/-- A reader that is rewound stands at the start of its whole section, and sees all of it. -/
theorem rewind (stands : reader.Stands place) (source : Source) (log : AccessLog) :
    ∃ seen moved, reader.run source Consult.rewind.run log = (.ok seen, moved, log) ∧
      seen.remaining = place.limit - place.first ∧
        moved.Stands { place with offset := place.first, stop := place.limit } := by
  obtain ⟨widened, widens, opened, -⟩ := stands.widen source log
  obtain ⟨moved, seeks, there, -⟩ := opened.seek place.first (Nat.le_refl _)
    (Nat.le_of_lt stands.bounds.first_lt_limit) source log
  refine ⟨moved.view, moved, ?_, ?_, there⟩
  · have sought : widened.run source (Decode.seekInSection 0).run log = (.ok (), moved, log) := by
      have ran : widened.run source (Decode.seekInSection 0).run log =
          widened.run source (Decode.seek (widened.view.first + 0)).run log := rfl
      rw [ran, opened.view_eq]
      exact seeks
    simp only [Reader.run] at widens sought ⊢
    simp only [Consult.rewind, Dialogue.runStep_bind, widens, sought]
    rfl
  · rw [there.view_eq]
    rfl

end Reader.Stands

namespace Session

variable {source : Source} {session : Session} {place : Place}

/-- An info reader whose section is wholly open walks it. -/
theorem exists_walked (source : Source) (stands : session.readers.info.Stands place)
    (opened : place.stop = place.limit) (cache : TableCache) :
    ∃ visits failure final, Walked (serve source) session cache visits failure final := by
  -- Whatever the source answers, leaving a unit takes the reader at least four bytes further.
  generalize measure : place.limit - place.offset = behind
  induction behind using Nat.strongRecOn generalizing session place cache with
  | ind behind ih =>
      have sees := view_info source session
      cases atEnd : session.readers.info.view.atEnd with
      | true => exact ⟨_, _, _, .landed sees atEnd⟩
      | false =>
          rcases enters : (Decode.unitExtent.on .info).run.run (serve source) session with
            ⟨error | extent, entered⟩
          · exact ⟨_, _, _, .broken sees atEnd enters⟩
          · rcases decodes : (Consult.decodedUnit extent cache).run (serve source) entered with
              ⟨⟨report, cache'⟩, decoded⟩
            obtain ⟨-, further, inside, left, leaves, there⟩ := leaves_unit stands opened enters
              (Consult.decodedUnit extent cache)
            rw [decodes] at leaves
            obtain ⟨visits, failure, final, walked⟩ := ih (place.limit - extent.stop) (by omega)
              there opened cache' rfl
            exact ⟨_, _, _, .visited sees atEnd enters decodes leaves walked⟩

end Session

namespace Walked

variable {source : Source} {session final : Session} {place : Place} {cache : TableCache}
variable {visits : List Visit} {failure : Option Error}

/-- The visits of a walk are spaced from the position of the info reader on. -/
theorem spaced (walked : Walked (Session.serve source) session cache visits failure final)
    (stands : session.readers.info.Stands place) (opened : place.stop = place.limit) :
    Spaced (place.limit - place.first) (place.offset - place.first) (visits.map Visit.offset) := by
  induction walked generalizing place with
  | landed _ _ | broken _ _ _ =>
      have bounds := stands.bounds
      have := bounds.offset_le_stop
      have := bounds.stop_le_limit
      exact Nat.sub_le_sub_right (by omega) _
  | visited _ _ enters decodes leaves _ ih =>
      obtain ⟨starts, further, inside, left, left', there⟩ := Session.leaves_unit stands opened
        enters (Consult.decodedUnit _ _)
      rw [decodes] at left'
      cases left'.symm.trans leaves
      rw [List.map_cons]
      have ahead := stands.bounds.first_le_offset
      refine ⟨Nat.le_of_eq starts.symm, (ih there opened).of_le ?_⟩
      rw [starts]
      dsimp only
      omega

/-- A walk that does not fail leaves the info reader at the end of its whole section. -/
theorem landed_of_none (walked : Walked (Session.serve source) session cache visits none final)
    (stands : session.readers.info.Stands place) (opened : place.stop = place.limit) :
    final.readers.info.Stands { place with offset := place.limit } := by
  generalize none : none = failure at walked
  induction walked generalizing place with
  | landed sees atEnd =>
      have ended := (Session.ends_iff stands sees).mp atEnd
      have there : { place with offset := place.limit } = place :=
        congrArg (fun offset => { place with offset }) (ended.trans opened).symm
      rw [there]
      exact stands
  | broken _ _ _ => cases none
  | visited _ _ enters decodes leaves _ ih =>
      obtain ⟨starts, further, inside, left, left', there⟩ := Session.leaves_unit stands opened
        enters (Consult.decodedUnit _ _)
      rw [decodes] at left'
      cases left'.symm.trans leaves
      have ended := ih there opened none
      exact ended

end Walked

end Dwarf
