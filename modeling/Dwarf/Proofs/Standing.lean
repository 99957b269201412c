import Dwarf.Proofs.Decoders
import Dwarf.Proofs.LongReads
import Dwarf.Proofs.Moves
import Dwarf.Unit.Header
/-!
# Where a reader stands

A sound reader stands at the place of its direct reader.  Moves and bytes taken change the place as
they say, whatever the source answers, and no query changes the section.
-/

namespace Dwarf

namespace Format

/-- The width of an initial length in bytes. -/
def lengthSize : Format → Nat
  | .dwarf32 => 4
  | .dwarf64 => 12

theorem four_le_lengthSize (format : Format) : 4 ≤ format.lengthSize := by
  cases format <;> decide

end Format

namespace Reader

/-- The readers that calls over one source can bring about. -/
inductive Reachable (source : Source) : Reader → Prop where
  /-- A reader starts unbound. -/
  | unbound : Reachable source unbound
  /-- A reader is bound to a section of a file that is said to have some size. -/
  | bound {buffer : Buffer} {range : Section} {fileSize : Nat} {reader : Reader} :
    bound buffer range fileSize = .ok reader → Reachable source reader
  /-- A bound reader is bound to another section. -/
  | rebind {range : Section} {reader rebound : Reader} :
    Reachable source reader → reader.rebind range = .ok rebound → Reachable source rebound
  /-- A decoder runs on the reader, whatever accesses were made before. -/
  | run {α : Type} {reader : Reader} (decoder : Decoder α) (log : AccessLog) :
    Reachable source reader → Reachable source (reader.run source decoder log).2.1
  /-- A string is taken as it lies in the buffer. -/
  | takeLoadedString {reader : Reader} (log : AccessLog) :
    Reachable source reader → Reachable source (reader.takeLoadedString source log).2.1

variable {source : Source} {image : Array UInt8} {reader moved : Reader} {log log' : AccessLog}

theorem accepted_of_bound {buffer : Buffer} {range : Section} {fileSize : Nat}
    (h : bound buffer range fileSize = .ok reader) : minimumCapacity ≤ buffer.capacity := by
  simp only [bound, checkCapacity] at h
  split at h
  · cases h
  · rename_i large
    exact Nat.le_of_not_lt large

theorem run_keeps (Kept : Reader → Prop)
    (step : ∀ query reader log, Kept reader → Kept (serve source query (reader, log)).2.1)
    {α : Type} (decoder : Decoder α) (log : AccessLog) (h : Kept reader) :
    Kept (reader.run source decoder log).2.1 :=
  decoder.run_keeps (fun state : Reader × AccessLog => Kept state.1)
    (fun query state => step query state.1 state.2) h

theorem Reachable.sound (h : Reachable source reader) : reader.Sound := by
  induction h with
  | unbound => exact sound_unbound
  | bound h => exact (sound_shows_bound #[] (accepted_of_bound h) h).1
  | rebind _ h ih => exact (sound_shows_rebind #[] ih h).1
  | run decoder log _ ih =>
      exact run_keeps Sound (fun query _ log sound => sound.serve source query log) decoder log ih
  | takeLoadedString log _ ih => exact Sound.takeLoadedString ih rfl

theorem Reachable.shows (h : Reachable source reader) (truthful : source.Truthful image) :
    reader.Shows image := by
  induction h with
  | unbound => exact shows_unbound
  | bound h => exact (sound_shows_bound image (accepted_of_bound h) h).2
  | rebind reached h _ => exact (sound_shows_rebind image reached.sound h).2
  | run decoder log reached ih =>
      have kept := run_keeps (fun reader => reader.Sound ∧ reader.Shows image)
        (fun query _ log kept => ⟨kept.1.serve source query log,
          kept.2.serve kept.1 truthful query log⟩) decoder log ⟨reached.sound, ih⟩
      exact kept.2
  | takeLoadedString log reached ih =>
      exact (Shows.takeLoadedString ih reached.sound truthful rfl).1

/-- A sound reader stands at a place. -/
structure Stands (place : Place) (reader : Reader) : Prop where
  sound : reader.Sound
  direct : reader.direct.place = some place

theorem stands_of_window {w : Window} (sound : reader.Sound) (h : reader.window = some w) :
    reader.Stands w.place :=
  ⟨sound, by rw [Reader.direct, h]; rfl⟩

variable {place : Place}

theorem Stands.bounds (stands : reader.Stands place) : place.Sound :=
  stands.sound.direct place stands.direct

theorem Stands.view_eq (stands : reader.Stands place) :
    reader.view = ⟨true, place.offset, place.first, place.stop, place.limit,
      reader.view.capacity, reader.context⟩ := by
  obtain ⟨_ | w, context⟩ := reader
  · cases stands.direct
  · cases stands.direct
    rfl

/-- A change of the window that succeeds on its place moves the reader there. -/
theorem Stands.changeWindow (stands : reader.Stands place) {place' : Place}
    {change : Window → Except Error Window} {changePlace : Place → Except Error Place}
    (maps : ∀ w, (change w).map Window.place = changePlace w.place)
    (keeps : ∀ w v, w.Sound → change w = .ok v → v.Sound) (h : changePlace place = .ok place') :
    ∃ moved, reader.changeWindow change = (.ok (), moved) ∧ moved.Stands place' ∧
      moved.context = reader.context := by
  obtain ⟨_ | w, context⟩ := reader
  · cases stands.direct
  · cases stands.direct
    obtain ⟨v, changed, rfl⟩ := Window.ok_of_map_place ((maps w).trans h)
    refine ⟨⟨some v, context⟩, ?_, ⟨?_, rfl⟩, rfl⟩
    · simp only [Reader.changeWindow, changed]
    · exact sound_some.mpr (keeps w v (stands.sound w rfl) changed)

/-- A reader whose window was changed stands where that change leads. -/
theorem Stands.changed (stands : reader.Stands place) {change : Window → Except Error Window}
    {changePlace : Place → Except Error Place}
    (maps : ∀ w, (change w).map Window.place = changePlace w.place)
    (keeps : ∀ w v, w.Sound → change w = .ok v → v.Sound)
    (h : reader.changeWindow change = (.ok (), moved)) :
    ∃ place', changePlace place = .ok place' ∧ moved.Stands place' ∧
      moved.context = reader.context := by
  have direct := changeWindow_direct reader maps
  cases changes : changePlace place with
  | ok place' =>
      obtain ⟨_, changed, there⟩ := stands.changeWindow maps keeps changes
      cases h.symm.trans changed
      exact ⟨place', rfl, there⟩
  | error error =>
      rw [h, DirectReader.changePlace, stands.direct] at direct
      simp only [changes] at direct
      cases congrArg Prod.fst direct

theorem run_seek (source : Source) (target : Nat) (reader : Reader) (log : AccessLog) :
    reader.run source (Decode.seek target).run log =
      ((reader.changeWindow (Window.seek target)).1, (reader.changeWindow (Window.seek target)).2,
        log) := rfl

theorem run_narrow (source : Source) (stop : Nat) (reader : Reader) (log : AccessLog) :
    reader.run source (Decode.narrow stop).run log =
      ((reader.changeWindow (Window.narrow stop)).1,
        (reader.changeWindow (Window.narrow stop)).2, log) := rfl

/-- A step that begins by changing the window goes on from what that leads to, or fails as it
does. -/
theorem run_bind_of_change {α : Type} {source : Source} {step : Decode Unit}
    {change : Window → Except Error Window} {w : Window} {context : Context} {log : AccessLog}
    (changes : Reader.run source step.run ⟨some w, context⟩ log =
      ((changeWindow change ⟨some w, context⟩).1, (changeWindow change ⟨some w, context⟩).2, log))
    (next : Decode α) :
    Reader.run source (do step; next : Decode α).run ⟨some w, context⟩ log =
      match change w with
      | .ok v => Reader.run source next.run ⟨some v, context⟩ log
      | .error error => (.error error, ⟨some w, context⟩, log) := by
  rw [Reader.run] at changes ⊢
  rw [Dialogue.runStep_bind, changes]
  simp only [changeWindow]
  cases change w <;> rfl

theorem Stands.seek (stands : reader.Stands place) (target : Nat) (first : place.first ≤ target)
    (stop : target ≤ place.stop) (source : Source) (log : AccessLog) :
    ∃ moved, reader.run source (Decode.seek target).run log = (.ok (), moved, log) ∧
      moved.Stands { place with offset := target } ∧ moved.context = reader.context := by
  obtain ⟨moved, changed, there, context⟩ := stands.changeWindow (Window.map_place_seek target)
    (fun _ _ => Window.Sound.seek) (Place.seek_eq_ok_iff.mpr ⟨first, stop, rfl⟩)
  exact ⟨moved, by rw [run_seek, changed], there, context⟩

/-- A reader that has moved stands at the target, which lies in its window. -/
theorem Stands.sought (stands : reader.Stands place) {target : Nat}
    (h : reader.run source (Decode.seek target).run log = (.ok (), moved, log')) :
    target ≤ place.stop ∧ moved.Stands { place with offset := target } ∧
      moved.context = reader.context := by
  have changed : reader.changeWindow (Window.seek target) = (.ok (), moved) :=
    congrArg (fun ran => (ran.1, ran.2.1)) h
  obtain ⟨place', moves, there⟩ :=
    stands.changed (Window.map_place_seek target) (fun _ _ => Window.Sound.seek) changed
  obtain ⟨-, inside, rfl⟩ := Place.seek_eq_ok_iff.mp moves
  exact ⟨inside, there⟩

theorem Stands.soughtInSection (stands : reader.Stands place) {offset : Nat}
    (h : reader.run source (Decode.seekInSection offset).run log = (.ok (), moved, log')) :
    moved.Stands { place with offset := place.first + offset } ∧
      moved.context = reader.context := by
  have moves : reader.run source (Decode.seek (reader.view.first + offset)).run log =
      (.ok (), moved, log') := h
  rw [show reader.view.first = place.first from congrArg View.first stands.view_eq] at moves
  exact (stands.sought moves).2

/-- A reader that has moved the end of its window stands where it was. -/
theorem Stands.narrowed (stands : reader.Stands place) {stop : Nat}
    (h : reader.run source (Decode.narrow stop).run log = (.ok (), moved, log')) :
    moved.Stands { place with stop } ∧ moved.context = reader.context := by
  have changed : reader.changeWindow (Window.narrow stop) = (.ok (), moved) :=
    congrArg (fun ran => (ran.1, ran.2.1)) h
  obtain ⟨place', moves, there⟩ :=
    stands.changed (Window.map_place_narrow stop) (fun _ _ => Window.Sound.narrow) changed
  obtain ⟨-, -, rfl⟩ := Place.narrow_eq_ok_iff.mp moves
  exact there

/-- A reader opens its window up to the end of its section. -/
theorem Stands.widen (stands : reader.Stands place) (source : Source) (log : AccessLog) :
    ∃ moved, reader.run source Decode.widen.run log = (.ok (), moved, log) ∧
      moved.Stands { place with stop := place.limit } ∧ moved.context = reader.context := by
  have enough := Nat.le_trans stands.bounds.offset_le_stop stands.bounds.stop_le_limit
  obtain ⟨moved, changed, there, context⟩ :=
    stands.changeWindow (Window.map_place_narrow place.limit) (fun _ _ => Window.Sound.narrow)
      (Place.narrow_eq_ok_iff.mpr ⟨enough, Nat.le_refl _, rfl⟩)
  refine ⟨moved, ?_, there, context⟩
  have ran : reader.run source Decode.widen.run log =
      reader.run source (Decode.narrow reader.view.limit).run log := rfl
  rw [ran, run_narrow, stands.view_eq, changed]

/-- A reader that takes bytes stands behind them, and one that fails to stands where it was. -/
theorem Stands.take (stands : reader.Stands place) {count : Nat}
    {result : Except Error (List UInt8)}
    (h : reader.run source (Decode.take count).run log = (result, moved, log')) :
    (∀ bytes, result = .ok bytes → moved.Stands (place.advance count)) ∧
      (Failed result → moved.Stands place) := by
  obtain ⟨sound, -, placed⟩ := stands.sound.take h
  constructor
  · intro bytes taken
    subst taken
    obtain ⟨-, place', direct, behind⟩ := placed
    cases stands.direct.symm.trans direct
    exact ⟨sound, by rw [behind]; rfl⟩
  · rintro ⟨error, rfl⟩
    refine ⟨sound, ?_⟩
    calc moved.direct.place
        = reader.direct.place := congrArg DirectReader.place placed
      _ = some place := stands.direct

/-- A sound reader of a section. -/
structure Keeps (bounds : Place.Bounds) (reader : Reader) : Prop where
  sound : reader.Sound
  bounds : reader.direct.bounds = some bounds

theorem Stands.keeps (stands : reader.Stands place) : reader.Keeps place.bounds :=
  ⟨stands.sound, by rw [DirectReader.bounds, stands.direct]; rfl⟩

theorem Keeps.stands {bounds : Place.Bounds} (keeps : reader.Keeps bounds) :
    ∃ place, reader.Stands place ∧ place.bounds = bounds := by
  have bounded := keeps.bounds
  rw [DirectReader.bounds, Option.map_eq_some_iff] at bounded
  obtain ⟨place, direct, same⟩ := bounded
  exact ⟨place, ⟨keeps.sound, direct⟩, same⟩

theorem Keeps.serve {bounds : Place.Bounds} (keeps : reader.Keeps bounds) (source : Source)
    (query : Query) (log : AccessLog) :
    (Reader.serve source query (reader, log)).2.1.Keeps bounds :=
  ⟨keeps.sound.serve source query log,
    (leads_serve keeps.sound source query log).bounds.trans keeps.bounds⟩

/-- A query that may neither move back nor move the end of the window leaves a reader where it was
or behind, and sees it nowhere before. -/
theorem Stands.served {licence : Licence} {query : Query} {seen offset : Nat}
    (there : reader.Stands { place with offset }) (ahead : seen ≤ offset)
    (permitted : licence.Permits seen query) (seeks : licence.seeks = false)
    (narrows : licence.narrows = false) (source : Source) (log : AccessLog) :
    let served := serve source query (reader, log)
    seen ≤ Licence.seenAfter seen query served.1 ∧
      ∃ offset', Licence.seenAfter seen query served.1 ≤ offset' ∧
        served.2.1.Stands { place with offset := offset' } := by
  intro served
  have leads := leads_serve there.sound source query log
  obtain ⟨place', placed, ahead'⟩ := leads.onward permitted seeks there.direct ahead
  have bounds := leads.bounds
  have stop := leads.stop permitted narrows
  rw [DirectReader.bounds, DirectReader.bounds, placed, there.direct] at bounds
  rw [DirectReader.stop, DirectReader.stop, placed, there.direct] at stop
  have same := Place.eq_of_bounds (Option.some.inj bounds) (Option.some.inj stop)
  have stands' : served.2.1.Stands { place with offset := place'.offset } :=
    ⟨there.sound.serve source query log, by rw [placed, ← same]⟩
  cases query with
  | view =>
      have looks : offset = served.1.offset := (congrArg View.offset there.view_eq).symm
      exact ⟨Nat.le_trans ahead (Nat.le_of_eq looks), offset, Nat.le_of_eq looks.symm, there⟩
  | take _ _ | seek _ | narrow _ | record _ =>
      exact ⟨Nat.le_refl _, place'.offset, ahead', stands'⟩

/-- A decoder that may neither move back nor move the end of the window leaves a reader where it was
or behind. -/
theorem Stands.onward {α : Type} {licence : Licence} {failed : α → Prop} {decoder : Decoder α}
    {answer : α} (stands : reader.Stands place) (obeys : decoder.Obeys licence failed)
    (seeks : licence.seeks = false) (narrows : licence.narrows = false)
    (h : reader.run source decoder log = (answer, moved, log')) :
    ∃ offset, place.offset ≤ offset ∧ moved.Stands { place with offset } := by
  have kept := (obeys place.offset).run_keeps (x := (reader, log)) (serve source)
    (fun seen state => place.offset ≤ seen ∧
      ∃ offset, seen ≤ offset ∧ state.1.Stands { place with offset }) ?_
    ⟨Nat.le_refl _, place.offset, Nat.le_refl _, stands⟩
  · obtain ⟨seen, behind, offset, ahead, there⟩ := kept
    rw [show decoder.run (serve source) (reader, log) = _ from h] at there
    exact ⟨offset, Nat.le_trans behind ahead, there⟩
  · rintro seen query ⟨reader, log⟩ permitted ⟨behind, offset, ahead, there⟩
    obtain ⟨later, there'⟩ := there.served ahead permitted seeks narrows source log
    exact ⟨Nat.le_trans behind later, there'⟩

theorem Stands.unsigned (stands : reader.Stands place) {width value : Nat}
    (h : reader.run source (Decode.unsigned width).run log = (.ok value, moved, log')) :
    moved.Stands (place.advance width) := by
  obtain ⟨bytes, ⟨reached, log₁⟩, took, gave⟩ := Dialogue.runStep_bind_ok _ _ h
  cases gave
  exact (stands.take took).1 bytes rfl

theorem Stands.record (stands : reader.Stands place) (change : Context → Context)
    (source : Source) (log : AccessLog) :
    reader.run source (Decode.record change).run log =
        (.ok (), { reader with context := change reader.context }, log) ∧
      Stands place { reader with context := change reader.context } := by
  refine ⟨?_, stands.sound, stands.direct⟩
  have ran : reader.run source (Decode.record change).run log =
      (.ok (), { reader with context := change reader.view.context }, log) := rfl
  rw [ran, stands.view_eq]

/-- A reader that reads an initial length stands behind it and knows the format that it implies. -/
theorem Stands.initialLength (stands : reader.Stands place) {length : Nat}
    (h : reader.run source Decode.initialLength.run log = (.ok length, moved, log')) :
    ∃ format, moved.context.format = some format ∧
      moved.Stands (place.advance format.lengthSize) := by
  obtain ⟨word, ⟨reached, log₁⟩, first, rest⟩ := Dialogue.runStep_bind_ok _ _ h
  have behind := stands.unsigned first
  split at rest
  · obtain ⟨_, ⟨recorded, log₂⟩, records, gave⟩ := Dialogue.runStep_bind_ok _ _ rest
    obtain ⟨ran, there⟩ := behind.record _ source log₁
    cases ran.symm.trans records
    cases gave
    exact ⟨.dwarf32, rfl, there⟩
  · split at rest
    · obtain ⟨wide, ⟨further, log₂⟩, second, rest⟩ := Dialogue.runStep_bind_ok _ _ rest
      obtain ⟨_, ⟨recorded, log₃⟩, records, gave⟩ := Dialogue.runStep_bind_ok _ _ rest
      obtain ⟨ran, there⟩ := (behind.unsigned second).record _ source log₂
      cases ran.symm.trans records
      cases gave
      rw [Place.advance_advance] at there
      exact ⟨.dwarf64, rfl, there⟩
    · cases rest

/-- A reader that finds the end of a structure stays where it is, and the end is in the section. -/
theorem Stands.stopOf (stands : reader.Stands place) {length stop : Nat}
    (h : reader.run source (Decode.stopOf length).run log = (.ok stop, moved, log')) :
    moved.Stands place ∧ moved.context = reader.context ∧ stop = place.offset + length ∧
      stop ≤ place.limit := by
  obtain ⟨seen, ⟨looked, log₁⟩, looks, ends⟩ := Dialogue.runStep_bind_ok _ _ h
  cases looks
  have sees := stands.view_eq
  dsimp only at ends
  split at ends
  · rename_i inside
    cases ends
    rw [sees] at inside ⊢
    exact ⟨stands, rfl, rfl, inside⟩
  · cases ends

/-- A unit whose extent is read starts where the reader stood, and ends inside the section, four
bytes further at least. -/
theorem Stands.unitExtent (stands : reader.Stands place) {extent : UnitExtent}
    (h : reader.run source Decode.unitExtent.run log = (.ok extent, moved, log')) :
    extent.sectionOffset = place.offset - place.first ∧ place.offset + 4 ≤ extent.stop ∧
      extent.stop ≤ place.limit := by
  obtain ⟨seen, ⟨viewed, log₁⟩, views, rest⟩ := Dialogue.runStep_bind_ok _ _ h
  cases views
  obtain ⟨length, ⟨behind, log₂⟩, reads, rest⟩ := Dialogue.runStep_bind_ok _ _ rest
  obtain ⟨format, -, there⟩ := stands.initialLength reads
  have least := format.four_le_lengthSize
  obtain ⟨stop, ⟨located, log₃⟩, locates, gave⟩ := Dialogue.runStep_bind_ok _ _ rest
  cases gave
  obtain ⟨-, -, rfl, inside⟩ := there.stopOf locates
  rw [stands.view_eq]
  simp only [View.sectionOffset, Place.advance] at inside ⊢
  exact ⟨trivial, by omega, inside⟩

end Reader

end Dwarf
