import Dwarf.Proofs.Window
/-!
# Windows that show an image

A window shows an image when its loaded bytes are those of the image at their file offsets.  A
source that claims no byte it has not delivered keeps its windows that way, however often it fails
or falls short; what such a window delivers is what the direct place would have taken.

## Implementation notes

The buffer keeps bytes behind the loaded part, from earlier loads or from failed accesses.  They
never count as loaded here, since a truthful source claims only what it has just written.
-/

namespace Dwarf

namespace Buffer

/-- The byte with an index. -/
def byte (buffer : Buffer) (index : Nat) : UInt8 := buffer.written[index]?.getD 0

theorem getElem?_slice (buffer : Buffer) (start stop index : Nat) :
    (buffer.slice start stop)[index]? =
      if start + index < stop then some (buffer.byte (start + index)) else none := by
  simp only [slice, byte, List.getElem?_append, Array.length_toList, Array.size_extract,
    Array.getElem?_toList, Array.getElem?_extract, List.getElem?_replicate]
  grind

theorem byte_write {buffer : Buffer} {delivered : Array UInt8} {index : Nat} {value : UInt8}
    (h : delivered[index]? = some value) : (buffer.write delivered).byte index = value := by
  have inside : index < delivered.size := (Array.getElem?_eq_some_iff.mp h).1
  simp only [byte, write, Array.getElem?_append_left inside, h, Option.getD_some]

end Buffer

/-- What is claimed of an access are bytes of an image, and they were delivered. -/
def Answer.Reports (image : Array UInt8) (offset length : Nat) : Answer → Prop
  | .failed _ => True
  | .delivered bytes claimed =>
    ∀ index < min claimed length,
      ∃ value, bytes[index]? = some value ∧ image[offset + index]? = some value

namespace Source

/-- A source that claims no byte but those of an image, at any access. -/
def Truthful (image : Array UInt8) (source : Source) : Prop :=
  ∀ earlier offset length, (source.answer earlier offset length).Reports image offset length

theorem getElem?_imageBytes (image : Array UInt8) (start length index : Nat) :
    (imageBytes image start length)[index]? =
      if index < length then image[start + index]? else none := by
  simp only [imageBytes, Array.getElem?_extract]
  grind

theorem size_imageBytes (image : Array UInt8) (start length : Nat) :
    (imageBytes image start length).size = min length (image.size - start) := by
  simp only [imageBytes, Array.size_extract]
  omega

/-- An access to an image, or to part of what it asks for, delivers what it claims. -/
theorem reports_imageBytes (image : Array UInt8) {offset length asked : Nat} :
    (Answer.delivered (imageBytes image offset asked)
      (imageBytes image offset asked).size).Reports image offset length := by
  intro index small
  have inside : index < (imageBytes image offset asked).size := by omega
  refine ⟨(imageBytes image offset asked)[index], Array.getElem?_eq_getElem inside, ?_⟩
  have listed := Array.getElem?_eq_getElem inside
  rw [getElem?_imageBytes] at listed
  split at listed
  · exact listed
  · cases listed

theorem truthful_ofImage (image : Array UInt8) : (ofImage image).Truthful image :=
  fun _ _ _ => reports_imageBytes image

theorem truthful_faulty (image : Array UInt8) (faults : Faults) (honest : faults.extra = 0) :
    (faulty image faults).Truthful image := by
  intro earlier offset length
  simp only [faulty, honest, Nat.add_zero]
  split
  · trivial
  · exact reports_imageBytes image

end Source

namespace Window

/-- The loaded bytes of a window are those of an image. -/
def Shows (image : Array UInt8) (w : Window) : Prop :=
  ∀ index < w.filled, image[w.base + index]? = some (w.buffer.byte index)

variable {image : Array UInt8} {w v : Window} {count : Nat}

theorem shows_of_open {buffer : Buffer} {range : Section} {fileSize : Nat}
    (h : open? buffer range fileSize = .ok w) : w.Shows image := by
  simp only [open?] at h
  split at h
  · cases h
  · cases h
    exact fun index small => absurd small (Nat.not_lt_zero index)

theorem Shows.loaded (shows : w.Shows image) (there : count ≤ w.available) :
    w.loaded count = (Source.imageBytes image w.offset count).toList := by
  simp only [available] at there
  apply List.ext_getElem?
  intro index
  rw [Window.loaded, Buffer.getElem?_slice, Array.getElem?_toList, Source.getElem?_imageBytes]
  by_cases small : index < count
  · have shown := shows (w.cursor + index) (by omega)
    rw [if_pos (by omega), if_pos small, ← shown, offset, Nat.add_assoc]
  · rw [if_neg (by omega), if_neg small]

/-- Bytes that are loaded can be taken directly, and are the same. -/
theorem Shows.take_place (shows : w.Shows image) (sound : w.Sound) (there : count ≤ w.available) :
    w.place.take image count =
      (.ok (w.loaded count), { w.place with offset := w.offset + count }) := by
  have listed := length_loaded sound there
  have loaded_le := sound.loaded_le_stop
  have cursor_le := sound.cursor_le_filled
  rw [shows.loaded there] at listed ⊢
  rw [Array.length_toList] at listed
  have enough : ¬ w.place.remaining < count := by
    simp only [available] at there
    dsimp only [Place.remaining, Window.place, offset]
    omega
  have complete : ¬ (Source.imageBytes image w.offset count).size < count := by omega
  exact (if_neg enough).trans (if_neg complete)

theorem Shows.seek {target : Nat} (shows : w.Shows image) (h : w.seek target = .ok v) :
    v.Shows image := by
  simp only [Window.seek] at h
  split at h
  · split at h
    · cases h
      exact shows
    · cases h
      exact fun index small => absurd small (Nat.not_lt_zero index)
  · cases h

theorem Shows.narrow {stop : Nat} (shows : w.Shows image) (h : w.narrow stop = .ok v) :
    v.Shows image := by
  simp only [Window.narrow] at h
  split at h
  · cases h
    exact fun index small => shows index (Nat.lt_of_lt_of_le small (Nat.min_le_left _ _))
  · cases h

section Load

variable {source : Source} {needed : Nat} {ahead : Ahead} {log log' : AccessLog}

/-- What a truthful source loads is shown, and nothing is after a failure. -/
theorem Shows.load {result : Except Error Unit} (shows : w.Shows image)
    (truthful : source.Truthful image)
    (h : w.load source needed ahead log = (result, v, log')) : v.Shows image := by
  unfold Window.load at h
  split at h
  · cases h
    exact shows
  · split at h
    · cases h
      exact shows
    · simp only at h
      split at h
      · cases h
        exact fun index small => absurd small (Nat.not_lt_zero index)
      · rename_i bytes claimed answered
        cases h
        intro index small
        have reports := truthful log.size w.offset
          (min w.remaining (ahead.limit needed w.capacity))
        rw [answered] at reports
        obtain ⟨value, delivered, stands⟩ := reports index small
        have kept :
            (bytes.extract 0 (min w.remaining (ahead.limit needed w.capacity)))[index]? =
              some value := by
          rw [Array.getElem?_extract, ← delivered]
          grind
        rw [Buffer.byte_write kept]
        exact stands

/-- Taking keeps a window showing its image, and what a truthful source lets it take could have
been taken directly. -/
theorem Shows.take {result : Except Error (List UInt8)} (shows : w.Shows image) (sound : w.Sound)
    (truthful : source.Truthful image)
    (h : w.take source count ahead log = (result, v, log')) :
    v.Shows image ∧
      ∀ bytes, result = .ok bytes → w.place.take image count = (.ok bytes, v.place) := by
  simp only [Window.take] at h
  split at h
  · rename_i there
    cases h
    refine ⟨shows, fun bytes taken => ?_⟩
    cases taken
    simpa only [Window.place, offset, Nat.add_assoc] using shows.take_place sound there
  · split at h
    · rename_i error x log₁ loading
      cases h
      exact ⟨shows.load truthful loading, fun bytes taken => by cases taken⟩
    · rename_i x log₁ loading
      cases h
      obtain ⟨x_sound, x_place, -, there⟩ := sound.load loading
      have x_shows := shows.load truthful loading
      refine ⟨x_shows, fun bytes taken => ?_⟩
      cases taken
      rw [← x_place]
      simpa only [Window.place, offset, Nat.add_assoc] using
        x_shows.take_place x_sound (there rfl)

end Load

/-- A load from an image fails as the direct place fails, if the buffer is large enough. -/
theorem take_of_load_ofImage {ahead : Ahead} {log log' : AccessLog} {error : Error}
    (large : count ≤ w.capacity)
    (h : w.load (Source.ofImage image) count ahead log = (.error error, v, log')) :
    w.place.take image count = (.error error, w.place) := by
  simp only [Window.load] at h
  split at h
  · rename_i few
    cases h
    exact if_pos few
  · rename_i enough
    obtain ⟨needed_le, -⟩ := limit_ahead ahead large
    simp only [if_neg (Nat.not_lt_of_le large), Source.ofImage, Prod.mk.injEq] at h
    obtain ⟨failed, -, -⟩ := h
    split at failed
    · rename_i short
      cases failed
      simp only [Source.size_imageBytes] at short
      have small : (Source.imageBytes image w.offset count).size < count := by
        rw [Source.size_imageBytes]
        omega
      have got : (Source.imageBytes image w.offset count).size =
          min (Source.imageBytes image w.offset
            (min w.remaining (ahead.limit count w.capacity))).size
            (min w.remaining (ahead.limit count w.capacity)) := by
        simp only [Source.size_imageBytes]
        omega
      rw [← got]
      exact (if_neg enough).trans (if_pos small)
    · cases failed

/-- A window over an image takes what can be taken directly and fails as that does, if its buffer
is large enough. -/
theorem Shows.take_ofImage {ahead : Ahead} {log log' : AccessLog}
    {result : Except Error (List UInt8)} (shows : w.Shows image) (sound : w.Sound)
    (large : count ≤ w.capacity)
    (h : w.take (Source.ofImage image) count ahead log = (result, v, log')) :
    w.place.take image count = (result, v.place) := by
  have taken := shows.take sound (Source.truthful_ofImage image) h
  have kept := (sound.take h).2.2
  cases result with
  | ok bytes => exact taken.2 bytes rfl
  | error error =>
      rw [kept]
      simp only [Window.take] at h
      split at h
      · cases h
      · split at h
        · rename_i failure x log₁ loading
          cases h
          exact take_of_load_ofImage large loading
        · cases h

end Window

end Dwarf
