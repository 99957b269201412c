import Dwarf.Proofs.Contents
/-!
# Buffered readers stand where direct ones do

Every query but a failing take does to a buffered reader what it does to the direct reader at its
place.  Over an image even a failing take does.
-/

namespace Dwarf

/-- What can be seen of a section but for the capacity. -/
def View.sight (view : View) : View := { view with capacity := 0 }

namespace Reader

/-- The window of a reader is sound, if it has one. -/
def Sound (reader : Reader) : Prop := ∀ w, reader.window = some w → w.Sound

/-- The window of a reader shows an image, if it has one. -/
def Shows (image : Array UInt8) (reader : Reader) : Prop :=
  ∀ w, reader.window = some w → w.Shows image

variable {source : Source} {image : Array UInt8} {reader : Reader} {log : AccessLog}

theorem sound_unbound : unbound.Sound := fun _ h => nomatch h

theorem shows_unbound : unbound.Shows image := fun _ h => nomatch h

theorem sound_some {w : Window} {context : Context} :
    Sound ⟨some w, context⟩ ↔ w.Sound :=
  ⟨fun sound => sound w rfl, fun sound _ h => Option.some.inj h ▸ sound⟩

theorem shows_some {w : Window} {context : Context} :
    Shows image ⟨some w, context⟩ ↔ w.Shows image :=
  ⟨fun shows => shows w rfl, fun shows _ h => Option.some.inj h ▸ shows⟩

theorem Sound.direct (sound : reader.Sound) : reader.direct.Sound := by
  obtain ⟨_ | w, context⟩ := reader
  · exact fun _ h => nomatch h
  · intro place h
    cases h
    exact (sound w rfl).toPlace

theorem Sound.offset_in_window (sound : reader.Sound) :
    reader.view.first ≤ reader.view.offset ∧ reader.view.offset ≤ reader.view.stop := by
  obtain ⟨_ | w, context⟩ := reader
  · exact ⟨Nat.le_refl 0, Nat.le_refl 0⟩
  · exact ⟨(sound w rfl).toPlace.first_le_offset, (sound w rfl).toPlace.offset_le_stop⟩

theorem sight_view_direct (reader : Reader) : reader.direct.view.sight = reader.view.sight := by
  obtain ⟨_ | w, context⟩ := reader <;> rfl

theorem view_direct (reader : Reader) :
    reader.direct.view = { reader.view with capacity := reader.direct.view.capacity } := by
  obtain ⟨_ | w, context⟩ := reader <;> rfl

section Change

variable {change : Window → Except Error Window} {changePlace : Place → Except Error Place}

/-- A change of the window is the change of its place. -/
theorem changeWindow_direct (reader : Reader)
    (h : ∀ w, (change w).map Window.place = changePlace w.place) :
    reader.direct.changePlace changePlace =
      ((reader.changeWindow change).1, (reader.changeWindow change).2.direct) := by
  obtain ⟨_ | w, context⟩ := reader
  · rfl
  · have changed := h w
    simp only [changeWindow, DirectReader.changePlace, Reader.direct, Option.map_some]
    rw [← changed]
    cases change w <;> rfl

/-- A change that keeps windows sound keeps readers sound. -/
theorem Sound.changeWindow (sound : reader.Sound)
    (h : ∀ w v, w.Sound → change w = .ok v → v.Sound) : (reader.changeWindow change).2.Sound := by
  obtain ⟨_ | w, context⟩ := reader
  · exact sound
  · simp only [Reader.changeWindow]
    split
    · exact sound
    · rename_i v changed
      exact sound_some.mpr (h w v (sound w rfl) changed)

/-- A change that keeps windows showing an image keeps readers so. -/
theorem Shows.changeWindow (shows : reader.Shows image)
    (h : ∀ w v, w.Shows image → change w = .ok v → v.Shows image) :
    (reader.changeWindow change).2.Shows image := by
  obtain ⟨_ | w, context⟩ := reader
  · exact shows
  · simp only [Reader.changeWindow]
    split
    · exact shows
    · rename_i v changed
      exact shows_some.mpr (h w v (shows w rfl) changed)

end Change

section Bind

variable {buffer : Buffer} {range : Section} {fileSize : Nat}

theorem bound_eq (accepted : minimumCapacity ≤ buffer.capacity) (range : Section)
    (fileSize : Nat) :
    bound buffer range fileSize =
      (Window.open? buffer range fileSize).map fun w => ⟨some w, .unknown⟩ := by
  have large : ¬ buffer.capacity < minimumCapacity := Nat.not_lt_of_le accepted
  simp only [bound, checkCapacity, if_neg large]
  cases Window.open? buffer range fileSize <;> rfl

theorem bind_direct (accepted : minimumCapacity ≤ buffer.capacity) (range : Section)
    (fileSize : Nat) :
    DirectReader.bind range fileSize =
      ((bind buffer range fileSize).1, (bind buffer range fileSize).2.direct) := by
  simp only [bind, bound_eq accepted, DirectReader.bind, ← Window.map_place_open buffer]
  cases Window.open? buffer range fileSize <;> rfl

theorem sound_shows_bound (image : Array UInt8) (accepted : minimumCapacity ≤ buffer.capacity)
    (h : bound buffer range fileSize = .ok reader) : reader.Sound ∧ reader.Shows image := by
  rw [bound_eq accepted] at h
  cases opened : Window.open? buffer range fileSize with
  | error error => simp only [opened, Except.map, reduceCtorEq] at h
  | ok w =>
      simp only [opened, Except.map, Except.ok.injEq] at h
      subst h
      exact ⟨sound_some.mpr (Window.sound_of_open accepted opened),
        shows_some.mpr (Window.shows_of_open opened)⟩

theorem sound_shows_bind (image : Array UInt8) (accepted : minimumCapacity ≤ buffer.capacity) :
    (bind buffer range fileSize).2.Sound ∧ (bind buffer range fileSize).2.Shows image := by
  simp only [bind]
  split
  · rename_i reader h
    exact sound_shows_bound image accepted h
  · exact ⟨sound_unbound, shows_unbound⟩

theorem rebind_direct (range : Section) (reader : Reader) :
    reader.direct.rebind range = (reader.rebind range).map direct := by
  obtain ⟨_ | w, context⟩ := reader
  · rfl
  · have opened : Place.open? range w.place.fileSize =
        (Window.open? w.buffer range w.fileSize).map Window.place :=
      (Window.map_place_open w.buffer range w.fileSize).symm
    simp only [rebind, DirectReader.rebind, Reader.direct, Option.map_some, opened]
    cases Window.open? w.buffer range w.fileSize <;> rfl

/-- A sound reader that is bound to another section is sound and shows every image. -/
theorem sound_shows_rebind (image : Array UInt8) {rebound : Reader} (sound : reader.Sound)
    (h : reader.rebind range = .ok rebound) : rebound.Sound ∧ rebound.Shows image := by
  obtain ⟨_ | w, context⟩ := reader
  · cases h
  · simp only [rebind] at h
    cases opened : Window.open? w.buffer range w.fileSize with
    | error error =>
        rw [opened] at h
        cases h
    | ok v =>
        rw [opened] at h
        cases h
        exact ⟨sound_some.mpr (Window.sound_of_open (sound w rfl).minimum_le_capacity opened),
          shows_some.mpr (Window.shows_of_open opened)⟩

end Bind

section Take

variable {count : Nat} {ahead : Ahead} {result : Except Error (List UInt8)}
variable {moved : Reader} {log' : AccessLog}

theorem take_some {w : Window} {context : Context}
    (h : Reader.take source count ahead ⟨some w, context⟩ log = (result, moved, log')) :
    ∃ v, w.take source count ahead log = (result, v, log') ∧ moved = ⟨some v, context⟩ := by
  rcases taking : w.take source count ahead log with ⟨bytes, v, log₁⟩
  simp only [Reader.take, taking] at h
  cases h
  exact ⟨v, rfl, rfl⟩

/-- Taking keeps a reader sound.  Taken bytes are as many as were asked for and the direct reader
stands behind them then; a failure leaves it where it was. -/
theorem Sound.take (sound : reader.Sound)
    (h : reader.take source count ahead log = (result, moved, log')) :
    moved.Sound ∧ moved.view.capacity = reader.view.capacity ∧
      match result with
      | .ok bytes =>
        bytes.length = count ∧
          ∃ place, reader.direct.place = some place ∧
            moved.direct = ⟨some { place with offset := place.offset + count }, reader.context⟩
      | .error _ => moved.direct = reader.direct := by
  obtain ⟨_ | w, context⟩ := reader
  · cases h
    exact ⟨sound, rfl, rfl⟩
  · obtain ⟨v, taking, rfl⟩ := take_some h
    obtain ⟨v_sound, v_capacity, placed⟩ := (sound w rfl).take taking
    refine ⟨sound_some.mpr v_sound, v_capacity, ?_⟩
    cases result with
    | ok bytes =>
        refine ⟨placed.1, w.place, rfl, ?_⟩
        exact congrArg (fun place => (⟨some place, context⟩ : DirectReader)) placed.2
    | error error => exact congrArg (fun place => (⟨some place, context⟩ : DirectReader)) placed

theorem Shows.take (shows : reader.Shows image) (sound : reader.Sound)
    (truthful : source.Truthful image)
    (h : reader.take source count ahead log = (result, moved, log')) :
    moved.Shows image ∧
      ∀ bytes, result = .ok bytes → reader.direct.take image count = (.ok bytes, moved.direct) := by
  obtain ⟨_ | w, context⟩ := reader
  · cases h
    exact ⟨shows, fun bytes taken => by cases taken⟩
  · obtain ⟨v, taking, rfl⟩ := take_some h
    obtain ⟨v_shows, direct⟩ := (shows w rfl).take (sound w rfl) truthful taking
    refine ⟨shows_some.mpr v_shows, fun bytes taken => ?_⟩
    simp only [DirectReader.take, Reader.direct, Option.map_some, direct bytes taken]

/-- A reader over an image takes what can be taken directly and fails as that does, if its buffer
is large enough. -/
theorem Shows.take_ofImage (shows : reader.Shows image) (sound : reader.Sound)
    (large : ∀ w, reader.window = some w → count ≤ w.capacity)
    (h : reader.take (Source.ofImage image) count ahead log = (result, moved, log')) :
    reader.direct.take image count = (result, moved.direct) := by
  obtain ⟨_ | w, context⟩ := reader
  · cases h
    rfl
  · obtain ⟨v, taking, rfl⟩ := take_some h
    have direct := (shows w rfl).take_ofImage (sound w rfl) (large w rfl) taking
    simp only [DirectReader.take, Reader.direct, Option.map_some, direct]

end Take

theorem context_view (reader : Reader) : reader.view.context = reader.context := by
  obtain ⟨_ | w, context⟩ := reader <;> rfl

/-- A query that records nothing leaves a reader with what it knows. -/
theorem context_serve (reader : Reader) (source : Source) {query : Query}
    (silent : ∀ context, query ≠ .record context) (log : AccessLog) :
    (Reader.serve source query (reader, log)).2.1.context = reader.context := by
  have changes (change : Window → Except Error Window) :
      (reader.changeWindow change).2.context = reader.context := by
    simp only [changeWindow]
    split
    · rfl
    · split <;> rfl
  cases query with
  | view => rfl
  | take count ahead => obtain ⟨_ | w, context⟩ := reader <;> rfl
  | seek target => exact changes _
  | narrow stop => exact changes _
  | record context => exact absurd rfl (silent context)

theorem Sound.serve (sound : reader.Sound) (source : Source) (query : Query) (log : AccessLog) :
    (Reader.serve source query (reader, log)).2.1.Sound := by
  cases query with
  | view => exact sound
  | take count ahead => exact (sound.take rfl).1
  | seek target => exact sound.changeWindow fun _ _ => Window.Sound.seek
  | narrow stop => exact sound.changeWindow fun _ _ => Window.Sound.narrow
  | record context => exact sound

theorem Shows.serve (shows : reader.Shows image) (sound : reader.Sound)
    (truthful : source.Truthful image) (query : Query) (log : AccessLog) :
    (Reader.serve source query (reader, log)).2.1.Shows image := by
  cases query with
  | view => exact shows
  | take count ahead => exact (shows.take sound truthful rfl).1
  | seek target => exact shows.changeWindow fun _ _ => Window.Shows.seek
  | narrow stop => exact shows.changeWindow fun _ _ => Window.Shows.narrow
  | record context => exact shows

end Reader

end Dwarf
