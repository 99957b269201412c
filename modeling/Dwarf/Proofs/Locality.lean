import Dwarf.Proofs.Inquiries
import Dwarf.Proofs.Leaves
import Dwarf.Proofs.Lengths
/-!
# What readers depend on

A decoder that only goes on depends on the bytes between the position and the end of the window.
The decoders that look something up in another table move to where they read, so they depend on the
section and on the end of its window, and not on where their reader was left.
-/

namespace Dwarf

open Source

theorem Place.take_congr {image image' : Array UInt8} {place : Place}
    (h : Agree image image' place.offset place.stop) (order : place.offset ≤ place.stop)
    (count : Nat) : place.take image count = place.take image' count := by
  simp only [Place.take]
  by_cases few : place.remaining < count
  · rw [if_pos few, if_pos few]
  · simp only [Place.remaining] at few
    have same : imageBytes image place.offset count = imageBytes image' place.offset count :=
      h.imageBytes (Nat.le_refl _) (by omega)
    rw [same]

namespace DirectReader

variable {image image' : Array UInt8} {reader reader' : DirectReader} {licence : Licence}
variable {α : Type} {failed : α → Prop} {decoder : Decoder α}

/-- Two images have the same bytes between the position of a reader and the end of its window. -/
def Agree (image image' : Array UInt8) (reader : DirectReader) : Prop :=
  ∀ place, reader.place = some place → Source.Agree image image' place.offset place.stop

/-- A reader was seen at its position or before, and two images have the same bytes from there to
the end of its window. -/
def Behind (image image' : Array UInt8) (seen : Nat) (reader : DirectReader) : Prop :=
  ∀ place, reader.place = some place →
    seen ≤ place.offset ∧ Source.Agree image image' seen place.stop

theorem Behind.agree {seen : Nat} (behind : reader.Behind image image' seen) :
    reader.Agree image image' :=
  fun place placed => (behind place placed).2.mono (behind place placed).1 (Nat.le_refl _)

theorem serve_congr (sound : reader.Sound) (agree : reader.Agree image image') (query : Query) :
    serve image query reader = serve image' query reader := by
  cases query with
  | view | seek _ | narrow _ | record _ => rfl
  | take count ahead =>
      obtain ⟨_ | place, context⟩ := reader
      · rfl
      · have same := Place.take_congr (agree place rfl) (sound place rfl).offset_le_stop count
        exact congrArg (fun taken => (taken.1, (⟨some taken.2, context⟩ : DirectReader))) same

/-- A query that may neither move back nor move the end of the window keeps a reader behind where it
was seen. -/
theorem Behind.serve {seen : Nat} {query : Query} (behind : reader.Behind image image' seen)
    (permitted : licence.Permits seen query) (seeks : licence.seeks = false)
    (narrows : licence.narrows = false) :
    Behind image image' (Licence.seenAfter seen query (DirectReader.serve image query reader).1)
      (DirectReader.serve image query reader).2 := by
  have leads := leads_serve image query reader
  have stop := leads.stop permitted narrows
  intro place placed
  cases place? : reader.place with
  | none =>
      have bounds := leads.bounds
      rw [DirectReader.bounds, DirectReader.bounds, placed, place?] at bounds
      cases bounds
  | some before =>
      obtain ⟨seen_le, agree⟩ := behind before place?
      obtain ⟨place', placed', ahead⟩ := leads.onward permitted seeks place? seen_le
      cases placed.symm.trans placed'
      rw [DirectReader.stop, DirectReader.stop, placed, place?, Option.map_some, Option.map_some,
        Option.some.injEq] at stop
      rw [stop]
      cases query with
      | view =>
          cases placed.symm.trans place?
          have looks : (DirectReader.serve image .view reader).1.offset = place.offset := by
            obtain ⟨_, context⟩ := reader
            cases place?
            rfl
          simp only [Licence.seenAfter, looks]
          exact ⟨Nat.le_refl _, agree.mono seen_le (Nat.le_refl _)⟩
      | take _ _ | seek _ | narrow _ | record _ => exact ⟨ahead, agree⟩

/-- A decoder that may neither move back nor move the end of the window runs alike on images that
agree on what is in the window, and they agree on what is in it then. -/
theorem run_onward (sound : reader.Sound) (agree : reader.Agree image image')
    (obeys : decoder.Obeys licence failed) (seeks : licence.seeks = false)
    (narrows : licence.narrows = false) :
    reader.run image decoder = reader.run image' decoder ∧
      (reader.run image decoder).2.Sound ∧ (reader.run image decoder).2.Agree image image' := by
  have start : Behind image image' ((reader.place.map Place.offset).getD 0) reader := by
    intro place placed
    rw [placed]
    exact ⟨Nat.le_refl _, agree place placed⟩
  have simulated := (obeys _).simulate (x := reader) (y := reader) False (serve image)
    (serve image') (fun seen x y => y = x ∧ x.Sound ∧ Behind image image' seen x) ?_
    ⟨rfl, sound, start⟩
  · obtain ⟨answers, seen, readers, sound', behind⟩ := simulated.resolve_left fun lost => lost.1
    exact ⟨Prod.ext answers readers.symm, sound', behind.agree⟩
  · rintro seen query x y permitted ⟨rfl, sound, behind⟩
    have same := serve_congr sound behind.agree query
    refine .inr ⟨?_, ?_, (leads_serve image query y).sound sound,
      behind.serve permitted seeks narrows⟩
    · rw [← same]
      cases query with
      | view => exact .inl rfl
      | take _ _ | seek _ | narrow _ | record _ => rfl
    · rw [same]

section Places

variable {place : Place} {context : Context}

theorem run_narrow (image : Array UInt8) {stop : Nat} (ahead : place.offset ≤ stop)
    (inside : stop ≤ place.limit) (context : Context) :
    run image (Decode.narrow stop).run ⟨some place, context⟩ =
      (.ok (), ⟨some { place with stop := stop }, context⟩) := by
  have narrows : place.narrow stop = .ok { place with stop := stop } :=
    Place.narrow_eq_ok_iff.mpr ⟨ahead, inside, rfl⟩
  have ran : run image (Decode.narrow stop).run ⟨some place, context⟩ =
      changePlace (Place.narrow stop) ⟨some place, context⟩ := rfl
  rw [ran]
  simp only [changePlace, narrows]

theorem run_widen (image : Array UInt8) (sound : place.Sound) (context : Context) :
    run image Decode.widen.run ⟨some place, context⟩ =
      (.ok (), ⟨some { place with stop := place.limit }, context⟩) :=
  run_narrow image (Nat.le_trans sound.offset_le_stop sound.stop_le_limit) (Nat.le_refl _) context

theorem run_seek (image : Array UInt8) (target : Nat) (place : Place) (context : Context) :
    run image (Decode.seek target).run ⟨some place, context⟩ =
      if place.first ≤ target ∧ target ≤ place.stop then
        (.ok (), ⟨some { place with offset := target }, context⟩)
      else
        (.error (.outsideWindow (Word.saturate target) place.first place.stop),
          ⟨some place, context⟩) := by
  have ran : run image (Decode.seek target).run ⟨some place, context⟩ =
      changePlace (Place.seek target) ⟨some place, context⟩ := rfl
  rw [ran]
  by_cases inside : place.first ≤ target ∧ target ≤ place.stop
  · simp only [changePlace, Place.seek, if_pos inside]
  · simp only [changePlace, Place.seek, if_neg inside]

/-- A direct reader reads at an offset of its whole section, or fails to move there. -/
theorem run_widened (image : Array UInt8) (sound : place.Sound) (context : Context) (offset : Nat)
    (next : Decode α) :
    run image (ExceptT.run (do Decode.widen; Decode.seekInSection offset; next))
        ⟨some place, context⟩ =
      if place.first + offset ≤ place.limit then
        run image next.run ⟨some ⟨place.first + offset, place.first, place.limit, place.limit,
          place.fileSize⟩, context⟩
      else
        (.error (.outsideWindow (Word.saturate (place.first + offset)) place.first place.limit),
          ⟨some { place with stop := place.limit }, context⟩) := by
  have widens := run_widen image sound context
  have seeks : run image (Decode.seekInSection offset).run
      ⟨some { place with stop := place.limit }, context⟩ = _ :=
    run_seek image (place.first + offset) { place with stop := place.limit } context
  simp only [run, Dialogue.runStep_bind] at widens seeks ⊢
  rw [widens]
  dsimp only
  rw [seeks]
  by_cases inside : place.first + offset ≤ place.limit
  · rw [if_pos inside, if_pos ⟨Nat.le_add_right _ _, inside⟩]
  · rw [if_neg inside, if_neg fun both => inside both.2]

end Places

section Lookups

variable {next : Decode α}

/-- Two images have the same bytes in the section of a reader. -/
def AgreeInSection (image image' : Array UInt8) (reader : DirectReader) : Prop :=
  ∀ place, reader.place = some place → Source.Agree image image' place.first place.limit

/-- What is read at an offset of the whole section does not depend on where the reader was. -/
theorem run_widened_congr (leaves : licence.Leaves reader reader') (records : licence.records = false)
    (sound : reader.Sound) (sound' : reader'.Sound) (agree : reader.AgreeInSection image image')
    (obeys : next.Obeys Licence.onward) (offset : Nat) :
    (reader.run image (ExceptT.run (do Decode.widen; Decode.seekInSection offset; next))).1 =
      (reader'.run image' (ExceptT.run (do Decode.widen; Decode.seekInSection offset; next))).1 := by
  have same := leaves.context records
  have bounds := leaves.bounds
  obtain ⟨_ | place, context⟩ := reader <;> obtain ⟨_ | place', context'⟩ := reader'
  · cases same
    rfl
  · cases bounds
  · cases bounds
  · cases same
    simp only [DirectReader.bounds, Option.map_some, Option.some.injEq, Place.bounds,
      Place.Bounds.mk.injEq] at bounds
    obtain ⟨first, limit, fileSize⟩ := bounds
    rw [run_widened image (sound place rfl), run_widened image' (sound' place' rfl), first, limit,
      fileSize]
    by_cases inside : place.first + offset ≤ place.limit
    · rw [if_pos inside, if_pos inside]
      have there : DirectReader.Sound ⟨some ⟨place.first + offset, place.first, place.limit,
          place.limit, place.fileSize⟩, context⟩ := by
        rintro _ ⟨⟩
        exact { sound place rfl with
          first_le_offset := Nat.le_add_right _ _
          offset_le_stop := inside
          stop_le_limit := Nat.le_refl _ }
      refine congrArg Prod.fst (run_onward there ?_ obeys rfl rfl).1
      rintro _ ⟨⟩
      exact (agree place rfl).mono (Nat.le_add_right _ _) (Nat.le_refl _)
    · rw [if_neg inside, if_neg inside]

/-- A table of abbreviations does not depend on where its reader was. -/
theorem abbreviations_congr (leaves : licence.Leaves reader reader')
    (records : licence.records = false) (sound : reader.Sound) (sound' : reader'.Sound)
    (agree : reader.AgreeInSection image image') (offset : Nat) :
    (reader.run image (Decode.abbreviations offset).run).1 =
      (reader'.run image' (Decode.abbreviations offset).run).1 := by
  have obeys : Decode.Obeys Licence.onward (do
      let seen ← Decode.view
      let entries ← Decode.abbreviationsFrom [] (seen.remaining + 1)
      pure (⟨entries⟩ : Abbreviations)) := by
    apply Decode.obeys_view (fun _ _ _ => rfl)
    intro seen
    exact (Decode.obeys_abbreviationsFrom _ _).bind fun _ => Judgement.step_pure _
  exact run_widened_congr leaves records sound sound' agree obeys offset

/-- An entry of the table of string offsets does not depend on where its reader was. -/
theorem stringOffsetEntry_congr (leaves : licence.Leaves reader reader')
    (records : licence.records = false) (sound : reader.Sound) (sound' : reader'.Sound)
    (agree : reader.AgreeInSection image image') (base index : Nat) (format : Format) :
    (reader.run image (Decode.stringOffsetEntry base index format).run).1 =
      (reader'.run image' (Decode.stringOffsetEntry base index format).run).1 := by
  have widened := run_widened_congr leaves records sound sound' agree
    (Decode.obeys_offset format) (index * format.wordSize + base)
  have same := leaves.context records
  have bounds := leaves.bounds
  obtain ⟨_ | place, context⟩ := reader <;> obtain ⟨_ | place', context'⟩ := reader'
  · cases same
    rfl
  · cases bounds
  · cases bounds
  · cases same
    have ran (image : Array UInt8) (place : Place) :
        run image (Decode.stringOffsetEntry base index format).run ⟨some place, context⟩ =
          run image (ExceptT.run (if index * format.wordSize + base ≤ Word.max then do
              Decode.widen
              Decode.seekInSection (index * format.wordSize + base)
              Decode.offset format
            else throw (.outsideWindow Word.max place.first place.limit)))
            ⟨some place, context⟩ := rfl
    rw [ran, ran]
    by_cases fits : index * format.wordSize + base ≤ Word.max
    · rw [if_pos fits, if_pos fits]
      exact widened
    · rw [if_neg fits, if_neg fits]
      simp only [DirectReader.bounds, Option.map_some, Option.some.injEq, Place.bounds,
        Place.Bounds.mk.injEq] at bounds
      rw [bounds.1, bounds.2.1]
      rfl

/-- A direct reader takes a string at an offset in its section, or fails to move there. -/
theorem run_stringAt (image : Array UInt8) (offset : Nat) (place : Place) (context : Context) :
    (run image (Decode.stringAt offset) ⟨some place, context⟩).1 =
      if place.first + offset < place.stop then
        (run image (Decode.stringAhead Decode.lookupAhead)
          ⟨some { place with offset := place.first + offset }, context⟩).1
      else .failed (.outsideWindow (Word.saturate (place.first + offset)) place.first place.stop) := by
  have ran : run image (Decode.stringAt offset) ⟨some place, context⟩ =
      run image (Decode.orFailed (if place.first + offset < place.stop then do
          Decode.seek (place.first + offset)
          ExceptT.lift (Decode.stringAhead Decode.lookupAhead)
        else throw (.outsideWindow (Word.saturate (place.first + offset)) place.first place.stop)))
        ⟨some place, context⟩ := rfl
  rw [ran]
  by_cases inside : place.first + offset < place.stop
  · have seeks := run_seek image (place.first + offset) place context
    rw [if_pos ⟨Nat.le_add_right _ _, Nat.le_of_lt inside⟩] at seeks
    rw [if_pos inside, if_pos inside]
    simp only [run, Decode.orFailed, Dialogue.run_bind, Dialogue.runStep_bind] at seeks ⊢
    rw [seeks]
    dsimp only
    rw [Dialogue.runStep_lift]
    rfl
  · rw [if_neg inside, if_neg inside]
    rfl

/-- A string does not depend on where its reader was, if the end of the window was left. -/
theorem stringAt_congr (leaves : licence.Leaves reader reader')
    (records : licence.records = false) (narrows : licence.narrows = false) (sound : reader.Sound)
    (agree : reader.AgreeInSection image image') (offset : Nat) :
    (reader.run image (Decode.stringAt offset)).1 =
      (reader'.run image' (Decode.stringAt offset)).1 := by
  have same := leaves.context records
  have bounds := leaves.bounds
  have stops := leaves.stop narrows
  obtain ⟨_ | place, context⟩ := reader <;> obtain ⟨_ | place', context'⟩ := reader'
  · cases same
    rfl
  · cases bounds
  · cases bounds
  · cases same
    simp only [DirectReader.bounds, DirectReader.stop, Option.map_some, Option.some.injEq,
      Place.bounds, Place.Bounds.mk.injEq] at bounds stops
    obtain ⟨first, limit, fileSize⟩ := bounds
    rw [run_stringAt, run_stringAt, first, stops, limit, fileSize]
    by_cases inside : place.first + offset < place.stop
    · rw [if_pos inside, if_pos inside]
      have there : DirectReader.Sound
          ⟨some { place with offset := place.first + offset }, context⟩ := by
        rintro _ ⟨⟩
        exact { sound place rfl with
          first_le_offset := Nat.le_add_right _ _
          offset_le_stop := Nat.le_of_lt inside }
      have obeys : (Licence.discipline .onward).judgement.Holds Transfer.Blames
          (Decode.stringAhead Decode.lookupAhead) := Decode.obeys_stringAhead _
      refine congrArg Prod.fst (run_onward there ?_ obeys rfl rfl).1
      rintro _ ⟨⟩
      exact (agree place rfl).mono (Nat.le_add_right _ _) (sound place rfl).stop_le_limit
    · rw [if_neg inside, if_neg inside]

end Lookups

end DirectReader

end Dwarf
