import Dwarf.Proofs.Place
/-!
# Sound windows

A window is sound when its loaded bytes lie inside its bounds and its buffer.  Every window that
is opened is sound, and every query keeps it so, whatever the source answers.
-/

namespace Dwarf

namespace Window

/-- The bounds of a window are in order, and what is loaded lies between them. -/
structure Sound (w : Window) : Prop where
  minimum_le_capacity : Reader.minimumCapacity ≤ w.capacity
  first_lt_limit : w.first < w.limit
  limit_le_fileSize : w.limit ≤ w.fileSize
  limit_le_max : w.limit ≤ Word.max
  first_le_base : w.first ≤ w.base
  cursor_le_filled : w.cursor ≤ w.filled
  filled_le_capacity : w.filled ≤ w.capacity
  loaded_le_stop : w.base + w.filled ≤ w.stop
  stop_le_limit : w.stop ≤ w.limit

theorem Sound.toPlace {w : Window} (sound : w.Sound) : w.place.Sound where
  first_le_offset := Nat.le_add_right_of_le sound.first_le_base
  offset_le_stop :=
    Nat.le_trans (Nat.add_le_add_left sound.cursor_le_filled w.base) sound.loaded_le_stop
  stop_le_limit := sound.stop_le_limit
  first_lt_limit := sound.first_lt_limit
  limit_le_fileSize := sound.limit_le_fileSize
  limit_le_max := sound.limit_le_max

theorem map_place_open (buffer : Buffer) (range : Section) (fileSize : Nat) :
    (open? buffer range fileSize).map place = Place.open? range fileSize := by
  simp only [open?, Place.open?]
  split <;> rfl

/-- A window that is opened over a large enough buffer is sound. -/
theorem sound_of_open {buffer : Buffer} {range : Section} {fileSize : Nat} {w : Window}
    (large : Reader.minimumCapacity ≤ buffer.capacity)
    (h : open? buffer range fileSize = .ok w) : w.Sound := by
  have place_sound : w.place.Sound := by
    have opened : Place.open? range fileSize = .ok w.place := by
      rw [← map_place_open buffer, h]
      rfl
    exact Place.sound_of_open opened
  simp only [open?] at h
  split at h
  · cases h
  · cases h
    exact ⟨large, place_sound.first_lt_limit, place_sound.limit_le_fileSize,
      place_sound.limit_le_max, Nat.le_refl _, Nat.le_refl _, Nat.zero_le _,
      Nat.le_of_lt place_sound.first_lt_limit, Nat.le_refl _⟩

theorem ok_of_map_place {changed : Except Error Window} {place : Place}
    (h : changed.map Window.place = .ok place) : ∃ v, changed = .ok v ∧ v.place = place := by
  cases changed with
  | error error => cases h
  | ok v => exact ⟨v, rfl, Except.ok.inj h⟩

theorem map_place_seek (target : Nat) (w : Window) :
    (w.seek target).map place = w.place.seek target := by
  by_cases inside : w.first ≤ target ∧ target ≤ w.stop
  · by_cases loaded : w.base ≤ target ∧ target ≤ w.base + w.filled
    · have sum : w.base + (target - w.base) = target := Nat.add_sub_cancel' loaded.1
      simp [seek, Place.seek, place, inside, loaded, Except.map, offset, sum]
    · simp [seek, Place.seek, place, inside, loaded, Except.map, offset]
  · simp [seek, Place.seek, place, inside, Except.map]

theorem seek_of_le {w : Window} {target : Nat} (first : w.first ≤ target)
    (stop : target ≤ w.stop) :
    ∃ v, w.seek target = .ok v ∧ v.place = { w.place with offset := target } :=
  ok_of_map_place ((map_place_seek target w).trans (if_pos ⟨first, stop⟩))

theorem seek_of_lt {w : Window} {target : Nat} (stop : w.stop < target) :
    w.seek target = .error (.outsideWindow (Word.saturate target) w.first w.stop) :=
  if_neg fun inside => absurd inside.2 (Nat.not_le_of_lt stop)

theorem map_place_narrow (stop : Nat) (w : Window) :
    (w.narrow stop).map place = w.place.narrow stop := by
  by_cases inside : w.offset ≤ stop ∧ stop ≤ w.limit
  · simp [narrow, Place.narrow, place, inside, Except.map]
    rfl
  · simp [narrow, Place.narrow, place, inside, Except.map]

theorem narrow_of_le {w : Window} {stop : Nat} (offset : w.offset ≤ stop)
    (limit : stop ≤ w.limit) :
    ∃ v, w.narrow stop = .ok v ∧ v.place = { w.place with stop := stop } :=
  ok_of_map_place ((map_place_narrow stop w).trans (if_pos ⟨offset, limit⟩))

theorem Sound.seek {target : Nat} {w moved : Window} (sound : w.Sound)
    (h : w.seek target = .ok moved) : moved.Sound := by
  obtain ⟨_, _, _, _, _, _, _, _, _⟩ := sound
  simp only [Window.seek] at h
  split at h
  · split at h <;> cases h <;> constructor <;> dsimp only [capacity] at * <;> omega
  · cases h

/-- A move inside what is loaded moves the cursor alone. -/
theorem Sound.seek_loaded {w : Window} {count : Nat} (sound : w.Sound) (h : count ≤ w.available) :
    w.seek (w.offset + count) = .ok { w with cursor := w.cursor + count } := by
  obtain ⟨_, _, _, _, _, _, _, _, _⟩ := sound
  simp only [available] at h
  have bounds : w.first ≤ w.offset + count ∧ w.offset + count ≤ w.stop := by
    simp only [offset]
    omega
  have kept : w.base ≤ w.offset + count ∧ w.offset + count ≤ w.base + w.filled := by
    simp only [offset]
    omega
  have cursor : w.offset + count - w.base = w.cursor + count := by
    simp only [offset]
    omega
  rw [Window.seek, if_pos bounds, if_pos kept, cursor]

theorem Sound.narrow {stop : Nat} {w narrowed : Window} (sound : w.Sound)
    (h : w.narrow stop = .ok narrowed) : narrowed.Sound := by
  obtain ⟨_, _, _, _, _, _, _, _, _⟩ := sound
  unfold Window.narrow offset at h
  split at h
  · cases h
    constructor <;> dsimp only [capacity] at * <;> omega
  · cases h

theorem limit_ahead (ahead : Ahead) {needed capacity : Nat} (h : needed ≤ capacity) :
    needed ≤ ahead.limit needed capacity ∧ ahead.limit needed capacity ≤ capacity := by
  cases ahead with
  | buffer => exact ⟨h, Nat.le_refl _⟩
  | atMost count => exact ⟨Nat.le_min.mpr ⟨Nat.le_max_right _ _, h⟩, Nat.min_le_right _ _⟩

section Load

variable {source : Source} {needed : Nat} {ahead : Ahead} {w v : Window} {log log' : AccessLog}
variable {result : Except Error Unit}

/-- Loading keeps the place of a window and its buffer's capacity, and a sound window sound.  If it
succeeds, the bytes that were needed are there. -/
theorem Sound.load (sound : w.Sound) (h : w.load source needed ahead log = (result, v, log')) :
    v.Sound ∧ v.place = w.place ∧ v.capacity = w.capacity ∧
      (result = .ok () → needed ≤ v.available) := by
  obtain ⟨first_le, le_stop, -, -, -, -⟩ := sound.toPlace
  obtain ⟨_, _, _, _, _, _, _, _, _⟩ := sound
  dsimp only [Window.place] at first_le le_stop
  unfold Window.load at h
  split at h
  · cases h
    exact ⟨by constructor <;> assumption, rfl, rfl, by simp⟩
  · split at h
    · cases h
      exact ⟨by constructor <;> assumption, rfl, rfl, by simp⟩
    · rename_i enough large
      obtain ⟨needed_le, le_capacity⟩ := limit_ahead ahead (Nat.le_of_not_lt large)
      simp only at h
      split at h
      · cases h
        refine ⟨?_, ?_, Buffer.capacity_write _ _, by simp⟩
        · constructor <;> dsimp only [capacity, remaining, Buffer.capacity_write] at * <;> omega
        · simp only [Window.place, offset, Nat.add_zero]
      · cases h
        refine ⟨?_, ?_, Buffer.capacity_write _ _, ?_⟩
        · constructor <;> dsimp only [capacity, remaining, Buffer.capacity_write] at * <;> omega
        · simp only [Window.place, offset, Nat.add_zero]
        · split
          · simp
          · rename_i got
            intro _
            exact Nat.le_of_not_lt got

end Load

section Take

variable {source : Source} {count : Nat} {ahead : Ahead} {w v : Window} {log log' : AccessLog}

theorem length_loaded {w : Window} {count : Nat} (sound : w.Sound) (h : count ≤ w.available) :
    (w.loaded count).length = count := by
  have filled := sound.cursor_le_filled
  rw [loaded, Buffer.length_slice]
  simp only [available] at h
  omega

theorem Sound.advance (sound : w.Sound) (h : count ≤ w.available) :
    ({ w with cursor := w.cursor + count } : Window).Sound := by
  obtain ⟨_, _, _, _, _, _, _, _, _⟩ := sound
  simp only [available] at h
  constructor <;> dsimp only [capacity] at * <;> omega

/-- Taking keeps a window sound and its buffer's capacity.  Taken bytes are as many as were asked
for and are behind the position then; a failure leaves the place as it was. -/
theorem Sound.take {result : Except Error (List UInt8)} (sound : w.Sound)
    (h : w.take source count ahead log = (result, v, log')) :
    v.Sound ∧ v.capacity = w.capacity ∧
      match result with
      | .ok bytes =>
        bytes.length = count ∧ v.place = { w.place with offset := w.offset + count }
      | .error _ => v.place = w.place := by
  simp only [Window.take] at h
  split at h
  · rename_i there
    cases h
    refine ⟨sound.advance there, rfl, length_loaded sound there, ?_⟩
    simp only [Window.place, offset, Nat.add_assoc]
  · split at h
    · rename_i error x log₁ loading
      cases h
      obtain ⟨v_sound, v_place, v_capacity, -⟩ := sound.load loading
      exact ⟨v_sound, v_capacity, v_place⟩
    · rename_i x log₁ loading
      cases h
      obtain ⟨x_sound, x_place, x_capacity, there⟩ := sound.load loading
      refine ⟨x_sound.advance (there rfl), x_capacity, length_loaded x_sound (there rfl), ?_⟩
      have x_offset : x.offset = w.offset := congrArg Place.offset x_place
      rw [← x_place, ← x_offset]
      simp only [Window.place, offset, Nat.add_assoc]

end Take

end Window

end Dwarf
