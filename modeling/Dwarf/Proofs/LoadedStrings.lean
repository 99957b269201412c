import Mathlib.Data.List.TakeWhile
import Dwarf.Proofs.Leb128
/-!
# Strings as they lie in the buffer

A string can be taken as it lies in the buffer, or copied over any number of loads.  Over an image
that reaches as far as the file is said to, both give the same text as long as it fits the buffer
with its NUL, wherever the loaded part ends; what is not taken in place is blamed on the buffer
or on the window, whichever ends first.

## Implementation notes

Whether a NUL was loaded depends on the loads before.  After a load at the string itself what is
loaded is the rest of the window, as far as the buffer holds it, so three outcomes are left that
depend on the place alone, and no two of them agree.
-/

namespace Dwarf

open Decode

namespace Window

variable {image : Array UInt8} {w : Window}

/-- Where no string lies in the buffer, no NUL does. -/
theorem nul_notMem_of_loadedString? (h : w.loadedString? = none) :
    0 ∉ w.loaded w.available := by
  have front := List.takeWhile_prefix (l := w.loaded w.available) (· ≠ (0 : UInt8))
  simp only [loadedString?] at h
  split at h
  · cases h
  · rename_i longer
    have same := front.eq_of_length (Nat.le_antisymm front.length_le (Nat.le_of_not_lt longer))
    have plain := List.takeWhile_eq_self_iff.mp same
    intro member
    simpa using plain 0 member

/-- An image that reaches as far as a section loads the rest of its window, as far as the buffer
holds it. -/
theorem load_ofImage (sound : w.Sound) (told : w.fileSize ≤ image.size) (rest : w.remaining ≠ 0)
    (log : AccessLog) :
    ∃ v log', w.load (.ofImage image) 1 .buffer log = (.ok (), v, log') ∧ v.cursor = 0 ∧
      v.filled = min w.remaining w.capacity := by
  have large := sound.minimum_le_capacity
  have inside := Nat.le_trans (Nat.le_trans sound.stop_le_limit sound.limit_le_fileSize) told
  have size : (Source.imageBytes image w.offset (min w.remaining w.capacity)).size =
      min w.remaining w.capacity := by
    rw [Source.size_imageBytes]
    simp only [remaining] at rest ⊢
    omega
  rw [Reader.minimumCapacity] at large
  have enough : ¬ min w.remaining w.capacity < 1 := by omega
  simp only [load, Source.ofImage, Ahead.limit, size, Nat.min_self, if_neg enough,
    if_neg (show ¬ w.remaining < 1 by omega), if_neg (show ¬ w.capacity < 1 by omega)]
  exact ⟨_, _, rfl, rfl, rfl⟩

end Window

/-- Among the bytes behind a text that fits is its NUL. -/
theorem Decode.nul_mem_of_terminated {image : Array UInt8} {stop start finish count : Nat}
    {text : List UInt8} (h : terminated image stop start text finish)
    (fits : text.length + 1 ≤ count) : 0 ∈ (Source.imageBytes image start count).toList := by
  obtain ⟨-, ⟨-, there⟩, -⟩ := h
  have parts := Source.imageBytes_add image start (text.length + 1) (count - (text.length + 1))
  rw [Nat.add_sub_cancel' fits] at parts
  rw [List.length_append, List.length_singleton] at there
  rw [parts, Array.toList_append, there]
  simp

/-- What becomes of taking a string in place where a reader stands: the text that fits the buffer,
or what ends before any NUL. -/
inductive Place.LoadsString (image : Array UInt8) (capacity : Nat) (place : Place) :
    Except Error (List UInt8) → Nat → Prop where
  /-- A text and its NUL stand in the window and fit the buffer. -/
  | fits {text : List UInt8} {finish : Nat} :
    terminated image place.stop place.offset text finish → text.length + 1 ≤ capacity →
      place.LoadsString image capacity (.ok text) finish
  /-- The buffer ends first. -/
  | beyondBuffer :
    capacity ≤ place.remaining →
      0 ∉ (Source.imageBytes image place.offset capacity).toList →
      place.LoadsString image capacity (.error (.stringBeyondBuffer place.offset capacity))
        place.offset
  /-- The window ends first. -/
  | withoutEnd :
    place.remaining < capacity →
      0 ∉ (Source.imageBytes image place.offset place.remaining).toList →
      place.LoadsString image capacity (.error (.stringWithoutEnd place.offset)) place.offset

/-- Only one thing becomes of it. -/
theorem Place.LoadsString.unique {image : Array UInt8} {capacity : Nat} {place : Place}
    {result result' : Except Error (List UInt8)} {finish finish' : Nat}
    (h : place.LoadsString image capacity result finish)
    (h' : place.LoadsString image capacity result' finish') :
    result' = result ∧ finish' = finish := by
  have excluded {text : List UInt8} {finish : Nat}
      (spelt : terminated image place.stop place.offset text finish) :
      text.length + 1 ≤ place.remaining := by
    have inside := spelt.2.1.1
    rw [List.length_append, List.length_singleton] at inside
    simp only [Place.remaining]
    omega
  cases h with
  | fits spelt room =>
      cases h' with
      | fits spelt' _ =>
          cases terminated_unique spelt spelt'
          exact ⟨rfl, spelt'.2.2.trans spelt.2.2.symm⟩
      | beyondBuffer _ absent => exact absurd (nul_mem_of_terminated spelt room) absent
      | withoutEnd _ absent => exact absurd (nul_mem_of_terminated spelt (excluded spelt)) absent
  | beyondBuffer more absent =>
      cases h' with
      | fits spelt room => exact absurd (nul_mem_of_terminated spelt room) absent
      | beyondBuffer _ _ => exact ⟨rfl, rfl⟩
      | withoutEnd fewer _ => exact absurd more (Nat.not_le_of_lt fewer)
  | withoutEnd fewer absent =>
      cases h' with
      | fits spelt _ => exact absurd (nul_mem_of_terminated spelt (excluded spelt)) absent
      | beyondBuffer more _ => exact absurd more (Nat.not_le_of_lt fewer)
      | withoutEnd _ _ => exact ⟨rfl, rfl⟩

namespace Reader

variable {image : Array UInt8} {reader : Reader} {place : Place} {context : Context}

/-- A string that lies in the buffer stands in the window and fits the buffer. -/
theorem loadsString_of_loaded {w : Window} {text : List UInt8} (sound : w.Sound)
    (shows : w.Shows image) (h : w.loadedString? = some text) :
    w.place.LoadsString image w.capacity (.ok text) (w.offset + (text.length + 1)) := by
  have inside := sound.loadedString h
  have filled := sound.filled_le_capacity
  have stop := sound.loaded_le_stop
  have cursor := sound.cursor_le_filled
  obtain ⟨plain, there⟩ := shows.loadedString sound h
  simp only [Window.available] at inside
  refine .fits ⟨plain, ⟨?_, ?_⟩, rfl⟩ (by omega)
  · simp only [Window.place, Window.offset, List.length_append, List.length_singleton]
    omega
  · rw [List.length_append, List.length_singleton]
    exact there

/-- Where the rest of the window was loaded, as far as the buffer holds it, and no string with it,
the buffer ends first if it is full, and the window otherwise. -/
theorem loadsString_of_not_loaded {w : Window} (shows : w.Shows image) (cursor : w.cursor = 0)
    (filled : w.filled = min w.remaining w.capacity) (h : w.loadedString? = none) :
    w.place.LoadsString image w.capacity
      (.error (if w.filled = w.capacity then .stringBeyondBuffer w.offset w.capacity
        else .stringWithoutEnd w.offset)) w.offset := by
  have available : w.available = min w.remaining w.capacity := by
    rw [Window.available, cursor, filled, Nat.sub_zero]
  have absent := Window.nul_notMem_of_loadedString? h
  rw [shows.loaded (Nat.le_refl _), available] at absent
  split
  · rename_i full
    have more : w.capacity ≤ w.remaining := by omega
    rw [Nat.min_eq_right more] at absent
    exact .beyondBuffer more absent
  · rename_i less
    have fewer : w.remaining < w.capacity := by omega
    rw [Nat.min_eq_left (Nat.le_of_lt fewer)] at absent
    exact .withoutEnd fewer absent

/-- Over an image that reaches as far as the file is said to, what becomes of taking a string in
place depends on the place and the capacity alone. -/
theorem takeLoadedString_ofImage {w : Window} (sound : w.Sound) (shows : w.Shows image)
    (told : w.fileSize ≤ image.size) (context : Context) (log : AccessLog) :
    let taken := takeLoadedString (.ofImage image) ⟨some w, context⟩ log
    ∃ finish, w.place.LoadsString image w.capacity taken.1 finish ∧
      taken.2.1.direct = ⟨some { w.place with offset := finish }, context⟩ := by
  intro taken
  have behind (v : Window) (text : List UInt8) :
      Window.place { v with cursor := v.cursor + text.length + 1 } =
        { v.place with offset := v.offset + (text.length + 1) } := by
    simp only [Window.place, Window.offset, Nat.add_assoc]
  cases already : w.loadedString? with
  | some text =>
      refine ⟨w.offset + (text.length + 1), ?_, ?_⟩
      · simp only [taken, takeLoadedString, already]
        exact loadsString_of_loaded sound shows already
      · simp only [taken, takeLoadedString, already, Reader.direct, Option.map_some, behind]
  | none =>
      by_cases rest : w.remaining = 0
      · have fewer : w.place.remaining < w.capacity :=
          Nat.lt_of_lt_of_le (Nat.lt_of_le_of_lt (Nat.le_of_eq rest) (by decide))
            sound.minimum_le_capacity
        refine ⟨w.offset, ?_, ?_⟩
        · simp only [taken, takeLoadedString, already, if_pos rest]
          have nothing : (Source.imageBytes image w.offset w.remaining).size = 0 := by
            rw [Source.size_imageBytes, rest, Nat.zero_min]
          refine .withoutEnd fewer fun member => ?_
          have listed := List.length_pos_of_mem member
          rw [Array.length_toList] at listed
          exact Nat.ne_of_gt listed nothing
        · simp only [taken, takeLoadedString, already, if_pos rest]
          rfl
      · obtain ⟨v, log', loads, cursor, filled⟩ := Window.load_ofImage sound told rest log
        obtain ⟨v_sound, v_place, v_capacity, -⟩ := sound.load loads
        have v_shows := shows.load (Source.truthful_ofImage image) loads
        rw [← v_place, ← v_capacity]
        cases found : v.loadedString? with
        | some text =>
            refine ⟨v.offset + (text.length + 1), ?_, ?_⟩
            · simp only [taken, takeLoadedString, already, if_neg rest, loads, found]
              exact loadsString_of_loaded v_sound v_shows found
            · simp only [taken, takeLoadedString, already, if_neg rest, loads, found,
                Reader.direct, Option.map_some, behind]
        | none =>
            refine ⟨v.offset, ?_, ?_⟩
            · simp only [taken, takeLoadedString, already, if_neg rest, loads, found]
              have same : v.remaining = w.remaining := congrArg Place.remaining v_place
              rw [← same, ← v_capacity] at filled
              exact loadsString_of_not_loaded v_shows cursor filled found
            · simp only [taken, takeLoadedString, already, if_neg rest, loads, found]
              rfl

/-- A reader takes a string in place exactly when it copies one that fits the buffer with its NUL, and
it copies one exactly where a text and a NUL stand; both leave it behind the NUL, and so does a
skip.  A string that is not taken in place leaves the reader where it was: its buffer ends before any
NUL, or its window does, and the error says which. -/
theorem takeLoadedString_agrees (reached : reader.Reachable (.ofImage image))
    (stands : reader.direct = ⟨some place, context⟩) (told : place.fileSize ≤ image.size)
    (log : AccessLog) :
    let capacity := reader.view.capacity
    let lent := reader.takeLoadedString (.ofImage image) log
    let copied := reader.run (.ofImage image) Decode.string log
    let skipped := reader.run (.ofImage image) (Decode.completed Decode.string).run log
    (∀ text left, lent.1 = .ok text ∧ lent.2.1.direct = left ↔
      copied.1 = ⟨text, none⟩ ∧ copied.2.1.direct = left ∧ text.length ≤ capacity - 1) ∧
    (∀ text left, copied.1 = ⟨text, none⟩ ∧ copied.2.1.direct = left ↔
      (∀ byte ∈ text, byte ≠ 0) ∧ Source.Starts image place.stop place.offset (text ++ [0]) ∧
        left = ⟨some (place.advance (text.length + 1)), context⟩) ∧
    (∀ left, (∃ text, skipped.1 = .ok text) ∧ skipped.2.1.direct = left ↔
      (∃ text, copied.1 = ⟨text, none⟩) ∧ copied.2.1.direct = left) ∧
    (∀ error, lent.1 = .error error → lent.2.1.direct = reader.direct) ∧
    (∀ error, lent.1 = .error error ↔
      capacity ≤ place.remaining ∧
          0 ∉ (Source.imageBytes image place.offset capacity).toList ∧
            error = .stringBeyondBuffer place.offset capacity ∨
        place.remaining < capacity ∧
          0 ∉ (Source.imageBytes image place.offset place.remaining).toList ∧
            error = .stringWithoutEnd place.offset) := by
  intro capacity lent copied skipped
  have sound := reached.sound
  have shows := reached.shows (Source.truthful_ofImage image)
  have place_sound : place.Sound := sound.direct place (congrArg DirectReader.place stands)
  have loads : ∃ finish, place.LoadsString image capacity lent.1 finish ∧
      lent.2.1.direct = ⟨some { place with offset := finish }, context⟩ := by
    obtain ⟨_ | w, context'⟩ := reader
    · cases stands
    · cases stands
      exact takeLoadedString_ofImage (sound w rfl) (shows w rfl) told _ log
  have maps : skipped = (copied.1.complete, copied.2) :=
    Dialogue.run_map (serve (.ofImage image)) Transfer.complete Decode.string (reader, log)
  have complete (text : List UInt8) : skipped.1 = .ok text ↔ copied.1 = ⟨text, none⟩ := by
    rw [maps]
    rcases copied.1 with ⟨bytes, _ | error⟩ <;> simp [Transfer.complete]
  have spelt (text : List UInt8) (left : DirectReader) :
      copied.1 = ⟨text, none⟩ ∧ copied.2.1.direct = left ↔
        ∃ finish, terminated image place.stop place.offset text finish ∧
          left = ⟨some { place with offset := finish }, context⟩ := by
    have ran := run_direct reached stands (obeys_completed obeys_string) log
    rw [← complete, show copied.2 = skipped.2 by rw [maps]]
    rw [← exact_string.run_eq_ok_iff place_sound, ran, Prod.mk.injEq]
  have positive : 1 ≤ capacity := by
    obtain ⟨_ | w, context'⟩ := reader
    · cases stands
    · exact Nat.le_trans (by decide) (sound w rfl).minimum_le_capacity
  obtain ⟨finish, outcome, left⟩ := loads
  refine ⟨fun text left' => ?_, fun text left' => ?_, fun left' => ?_, fun error failed => ?_,
    fun error => ?_⟩
  · rw [← and_assoc, spelt]
    constructor
    · rintro ⟨ok, rfl⟩
      rw [ok] at outcome
      cases outcome with
      | fits there room => exact ⟨⟨finish, there, left⟩, by omega⟩
    · rintro ⟨⟨finish', there, rfl⟩, room⟩
      obtain ⟨same, ends⟩ := outcome.unique (.fits there (by omega))
      exact ⟨same.symm, by rw [left, ends]⟩
  · rw [spelt]
    constructor
    · rintro ⟨_, ⟨plain, there, rfl⟩, rfl⟩
      exact ⟨plain, there, rfl⟩
    · rintro ⟨plain, there, rfl⟩
      exact ⟨_, ⟨plain, there, rfl⟩, rfl⟩
  · rw [exists_congr complete, maps]
  · rw [failed] at outcome
    rw [left, stands]
    cases outcome <;> rfl
  · constructor
    · intro failed
      rw [failed] at outcome
      cases outcome with
      | beyondBuffer more absent => exact .inl ⟨more, absent, rfl⟩
      | withoutEnd fewer absent => exact .inr ⟨fewer, absent, rfl⟩
    · rintro (⟨more, absent, rfl⟩ | ⟨fewer, absent, rfl⟩)
      · exact (outcome.unique (.beyondBuffer more absent)).1.symm
      · exact (outcome.unique (.withoutEnd fewer absent)).1.symm

/-- A string that straddles the loaded part of a narrowed window, and ends with it, is taken in
place. -/
theorem takeLoadedString_agrees_straddled :
    let image : Array UInt8 := #[1, 2, 3, 4, 5, 6, 7, 8, 9, 10, 11, 12, 13, 14, 0x61, 0x62, 0x63, 0,
      0x64, 0]
    let fresh : Reader := ⟨some ⟨.zeroed 16, 0, 0, 0, 0, 18, 20, 20⟩, .unknown⟩
    let reader := (fresh.run (.ofImage image) (Decode.take 14).run #[]).2.1
    let lent := reader.takeLoadedString (.ofImage image) #[]
    reader.window.map Window.available = some 2 ∧ lent.1 = .ok [0x61, 0x62, 0x63] ∧
      lent.2.1.direct = ⟨some ⟨18, 0, 18, 20, 20⟩, .unknown⟩ := by
  intro image fresh reader lent
  have bound : Reader.bound (.zeroed 16) ⟨0, 20⟩ 20 =
      .ok ⟨some ⟨.zeroed 16, 0, 0, 0, 0, 20, 20, 20⟩, .unknown⟩ := rfl
  have reached : reader.Reachable (.ofImage image) :=
    .run (Decode.take 14).run #[] (.run (Dialogue.ask (.narrow 18) .done) #[] (.bound bound))
  have stands : reader.direct = ⟨some ⟨14, 0, 18, 20, 20⟩, .unknown⟩ := by decide +kernel
  have loaded : reader.window.map Window.available = some 2 := by decide +kernel
  have fits : [0x61, 0x62, (0x63 : UInt8)].length ≤ reader.view.capacity - 1 := by decide +kernel
  clear_value reader
  obtain ⟨agrees, spelt, -⟩ := takeLoadedString_agrees reached stands (Nat.le_refl 20) #[]
  have there := (spelt [0x61, 0x62, 0x63] ⟨some ⟨18, 0, 18, 20, 20⟩, .unknown⟩).mpr
    ⟨by simp, ⟨by decide, by decide +kernel⟩, rfl⟩
  obtain ⟨took, left⟩ := (agrees _ _).mpr ⟨there.1, there.2, fits⟩
  exact ⟨loaded, took, left⟩

end Reader

end Dwarf
