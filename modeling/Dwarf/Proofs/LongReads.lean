import Mathlib.Algebra.Ring.Nat
import Dwarf.Decode.Bytes
import Dwarf.Proofs.Discipline
import Dwarf.Proofs.Reader
/-!
# Long reads

A read of many bytes is made in pieces whose size depends on the buffer, and a string can be taken
as it lies in the buffer.  When such a read succeeds on a reader that shows an image, the direct
reader makes it too, in pieces of its own.
-/

namespace Dwarf

namespace Source

theorem imageBytes_add (image : Array UInt8) (offset first second : Nat) :
    imageBytes image offset (first + second) =
      imageBytes image offset first ++ imageBytes image (offset + first) second := by
  have lower : min offset (offset + first) = offset := by omega
  have upper : max (offset + first) (offset + first + second) = offset + (first + second) := by
    omega
  rw [imageBytes, imageBytes, imageBytes, Array.extract_append_extract, lower, upper]

end Source

namespace Place

variable {image : Array UInt8} {place moved : Place} {count : Nat}

/-- Whether so many bytes follow a place, in its window and in the image. -/
def Holds (image : Array UInt8) (count : Nat) (place : Place) : Prop :=
  count ≤ place.remaining ∧ count ≤ image.size - place.offset

/-- The place behind a number of bytes. -/
def advance (count : Nat) (place : Place) : Place := { place with offset := place.offset + count }

theorem Sound.advance {place : Place} {count : Nat} (sound : place.Sound)
    (h : place.offset + count ≤ place.stop) : (place.advance count).Sound :=
  { sound with
    first_le_offset := Nat.le_trans sound.first_le_offset (Nat.le_add_right _ _)
    offset_le_stop := h }

theorem advance_advance (first second : Nat) (place : Place) :
    (place.advance first).advance second = place.advance (first + second) := by
  simp only [advance, Nat.add_assoc]

theorem holds_add {first second : Nat} :
    place.Holds image (first + second) ↔
      place.Holds image first ∧ (place.advance first).Holds image second := by
  simp only [Holds, advance, remaining]
  omega

theorem take_of_holds (h : place.Holds image count) :
    place.take image count =
      (.ok (Source.imageBytes image place.offset count).toList, place.advance count) := by
  have complete : ¬ (Source.imageBytes image place.offset count).size < count := by
    have follow := h.2
    rw [Source.size_imageBytes]
    omega
  exact (if_neg (Nat.not_lt_of_le h.1)).trans (if_neg complete)

theorem holds_of_take {bytes : List UInt8}
    (h : place.take image count = (.ok bytes, moved)) : place.Holds image count := by
  simp only [take] at h
  split at h
  · cases h
  · split at h
    · cases h
    · rename_i enough complete
      rw [Source.size_imageBytes] at complete
      exact ⟨Nat.le_of_not_lt enough, by omega⟩

end Place

namespace Decode

theorem sum_pieces (count size : Nat) : (pieces count size).sum = count := by
  have parts := Nat.div_add_mod' count size
  simp only [pieces]
  split
  · simpa [*] using parts
  · simpa using parts

theorem le_of_mem_pieces {count size piece : Nat} (positive : 0 < size)
    (member : piece ∈ pieces count size) : piece ≤ size := by
  simp only [pieces, List.mem_append, List.mem_replicate] at member
  rcases member with ⟨-, rfl⟩ | rest
  · exact Nat.le_refl _
  · split at rest
    · cases rest
    · rw [List.mem_singleton.mp rest]
      exact Nat.le_of_lt (Nat.mod_lt _ positive)

end Decode

namespace DirectReader

variable {image : Array UInt8} {place : Place} {context : Context}

theorem run_takeAhead (image : Array UInt8) (ahead : Ahead) (count : Nat) (place : Place)
    (context : Context) :
    run image (Decode.takeAhead ahead count).run ⟨some place, context⟩ =
      ((place.take image count).1, ⟨some (place.take image count).2, context⟩) := rfl

/-- Pieces that a place holds together are taken, whatever their sizes. -/
theorem run_bytesFrom_of_holds (context : Context) (pieces : List Nat) (taken : List UInt8)
    (h : place.Holds image pieces.sum) :
    run image (Decode.bytesFrom taken pieces) ⟨some place, context⟩ =
      (⟨taken.reverse ++ (Source.imageBytes image place.offset pieces.sum).toList, none⟩,
        ⟨some (place.advance pieces.sum), context⟩) := by
  induction pieces generalizing place taken with
  | nil =>
      have nothing : Source.imageBytes image place.offset 0 = #[] := by
        apply Array.eq_empty_of_size_eq_zero
        rw [Source.size_imageBytes, Nat.zero_min]
      simp only [List.sum_nil, nothing, List.append_nil, Place.advance, Nat.add_zero]
      rfl
  | cons piece rest ih =>
      rw [List.sum_cons, Place.holds_add] at h
      have step := run_takeAhead image .buffer piece place context
      rw [Place.take_of_holds h.1] at step
      simp only [Decode.bytesFrom, run, Dialogue.run_bind]
      simp only [run, Decode.take] at step ⊢
      rw [step]
      refine (ih _ h.2).trans ?_
      rw [Place.advance_advance, List.sum_cons, Source.imageBytes_add, Array.toList_append,
        List.reverse_append, List.reverse_reverse, List.append_assoc]
      rfl

theorem holds_of_run_bytesFrom (pieces : List Nat) (taken : List UInt8)
    (h : (run image (Decode.bytesFrom taken pieces) ⟨some place, context⟩).1.failure = none) :
    place.Holds image pieces.sum := by
  induction pieces generalizing place taken with
  | nil => exact ⟨Nat.zero_le _, Nat.zero_le _⟩
  | cons piece rest ih =>
      simp only [Decode.bytesFrom, run, Dialogue.run_bind] at h
      have step := run_takeAhead image .buffer piece place context
      simp only [run, Decode.take] at step h
      rw [step] at h
      rcases taking : place.take image piece with ⟨result, moved⟩
      rw [taking] at h
      cases result with
      | error error => cases h
      | ok bytes =>
          have held := Place.holds_of_take taking
          have goes := Place.take_of_holds held
          rw [taking] at goes
          cases goes
          rw [List.sum_cons, Place.holds_add]
          exact ⟨held, ih _ h⟩

theorem run_bytesFrom_congr (image : Array UInt8) (place : Option Place)
    (context context' : Context) (pieces : List Nat) (taken : List UInt8) :
    (run image (Decode.bytesFrom taken pieces) ⟨place, context'⟩).1 =
        (run image (Decode.bytesFrom taken pieces) ⟨place, context⟩).1 ∧
      (run image (Decode.bytesFrom taken pieces) ⟨place, context'⟩).2.place =
        (run image (Decode.bytesFrom taken pieces) ⟨place, context⟩).2.place := by
  induction pieces generalizing place taken with
  | nil => exact ⟨rfl, rfl⟩
  | cons piece rest ih =>
      cases place with
      | none => exact ⟨rfl, rfl⟩
      | some place =>
          have step (context : Context) := run_takeAhead image .buffer piece place context
          simp only [run, Decode.bytesFrom, Decode.take, Dialogue.run_bind] at step ⊢
          rw [step context, step context']
          rcases place.take image piece with ⟨_ | bytes, moved⟩
          · exact ⟨rfl, rfl⟩
          · exact ih (some moved) _

/-- A text and its NUL that a place holds are taken as a string. -/
theorem run_stringFrom_of_holds (start : Nat) (ahead : Ahead) (text taken : List UInt8) {rest : Nat}
    (enough : text.length < rest) (plain : ∀ byte ∈ text, byte ≠ 0)
    (held : place.Holds image (text.length + 1))
    (there : (Source.imageBytes image place.offset (text.length + 1)).toList = text ++ [0]) :
    run image (Decode.stringFrom start ahead taken rest) ⟨some place, context⟩ =
      (⟨taken.reverse ++ text, none⟩, ⟨some (place.advance (text.length + 1)), context⟩) := by
  induction text generalizing place taken rest with
  | nil =>
      obtain ⟨rest, rfl⟩ := Nat.exists_eq_succ_of_ne_zero (Nat.ne_of_gt enough)
      have step := run_takeAhead image ahead 1 place context
      simp only [List.length_nil, Nat.zero_add] at held there
      rw [Place.take_of_holds held, there] at step
      simp only [Decode.stringFrom, run, Dialogue.run_bind] at step ⊢
      rw [step]
      simp only [List.nil_append, if_true, List.append_nil]
      rfl
  | cons byte text ih =>
      obtain ⟨rest, rfl⟩ := Nat.exists_eq_succ_of_ne_zero (Nat.ne_of_gt (Nat.zero_lt_of_lt enough))
      rw [List.length_cons, Nat.add_comm (text.length + 1) 1] at held there
      rw [Place.holds_add] at held
      rw [Source.imageBytes_add, Array.toList_append, List.cons_append] at there
      have size : (Source.imageBytes image place.offset 1).size = 1 := by
        have follow := held.1.2
        rw [Source.size_imageBytes]
        omega
      have single : (Source.imageBytes image place.offset 1).toList.length = [byte].length := by
        rw [Array.length_toList, size, List.length_singleton]
      have split := List.append_inj (there.trans List.singleton_append.symm) single
      have step := run_takeAhead image ahead 1 place context
      rw [Place.take_of_holds held.1, split.1] at step
      have distinct : ¬ [byte] = [0] := by
        simpa using plain byte (List.mem_cons_self ..)
      have goes := ih (byte :: taken) (Nat.lt_of_succ_lt_succ enough)
        (fun other member => plain other (List.mem_cons_of_mem _ member)) held.2 split.2
      simp only [Decode.stringFrom, run, Dialogue.run_bind] at step goes ⊢
      rw [step]
      simp only [if_neg distinct]
      refine goes.trans ?_
      rw [Place.advance_advance, Nat.add_comm 1, List.reverse_cons, List.append_assoc]
      rfl

theorem run_stringAhead (image : Array UInt8) (ahead : Ahead) (place : Place) (context : Context) :
    run image (Decode.stringAhead ahead) ⟨some place, context⟩ =
      run image (Decode.stringFrom place.offset ahead [] place.remaining) ⟨some place, context⟩ := by
  have seen : Decode.view.run.run (serve image) ⟨some place, context⟩ =
      (.ok (view ⟨some place, context⟩), ⟨some place, context⟩) := rfl
  simp only [run, Decode.stringAhead, Decode.orFailed, Dialogue.run_bind]
  simp only [Decode.ensureBound, Dialogue.runStep_bind, Dialogue.runStep_lift, seen]
  rfl

end DirectReader

namespace Window

variable {image : Array UInt8} {w : Window}

theorem Sound.loadedString {text : List UInt8} (sound : w.Sound)
    (h : w.loadedString? = some text) : text.length + 1 ≤ w.available := by
  have length := length_loaded sound (Nat.le_refl w.available)
  simp only [loadedString?] at h
  split at h
  · cases h
    omega
  · cases h

/-- A string that lies in the buffer, and its NUL, are bytes of the image. -/
theorem Shows.loadedString {text : List UInt8} (shows : w.Shows image) (sound : w.Sound)
    (h : w.loadedString? = some text) :
    (∀ byte ∈ text, byte ≠ 0) ∧
      (Source.imageBytes image w.offset (text.length + 1)).toList = text ++ [0] := by
  have inside := sound.loadedString h
  have all := shows.loaded (Nat.le_refl w.available)
  simp only [loadedString?] at h
  split at h
  · rename_i shorter
    cases h
    generalize found : (w.loaded w.available).takeWhile (· ≠ 0) = text at *
    constructor
    · intro byte member
      rw [← found] at member
      simpa using List.all_eq_true.mp List.all_takeWhile byte member
    · have whole : text ++ (w.loaded w.available).dropWhile (· ≠ 0) = w.loaded w.available := by
        rw [← found]
        exact List.takeWhile_append_dropWhile
      cases behind : (w.loaded w.available).dropWhile (· ≠ 0) with
      | nil =>
          rw [behind, List.append_nil] at whole
          rw [← whole] at shorter
          exact absurd shorter (Nat.lt_irrefl _)
      | cons byte rest =>
          have nul : byte = 0 := by
            have stopped := List.head?_dropWhile_not (· ≠ (0 : UInt8)) (w.loaded w.available)
            rw [behind] at stopped
            simpa using stopped
          have parts := Source.imageBytes_add image w.offset (text.length + 1)
            (w.available - (text.length + 1))
          rw [Nat.add_sub_cancel' inside] at parts
          have front : (Source.imageBytes image w.offset (text.length + 1)).toList.length =
              (text ++ [0]).length := by
            rw [← shows.loaded inside, length_loaded sound inside, List.length_append,
              List.length_singleton]
          rw [behind, nul, all, parts, Array.toList_append] at whole
          exact (List.append_inj (by simpa using whole.symm) front).1
  · cases h

end Window

namespace Reader

variable {source : Source} {image : Array UInt8} {reader moved : Reader} {log log' : AccessLog}

/-- Pieces that a reader takes one after another can be taken directly. -/
theorem Shows.run_bytesFrom {transfer : Transfer} (shows : reader.Shows image)
    (sound : reader.Sound) (truthful : source.Truthful image) (pieces : List Nat)
    (taken : List UInt8)
    (h : reader.run source (Decode.bytesFrom taken pieces) log = (transfer, moved, log'))
    (complete : transfer.failure = none) :
    reader.direct.run image (Decode.bytesFrom taken pieces) = (transfer, moved.direct) := by
  induction pieces generalizing reader taken log with
  | nil =>
      cases h
      rfl
  | cons piece rest ih =>
      rcases taking : reader.take source piece .buffer log with ⟨result, middle, log₁⟩
      have step : (Decode.takeAhead .buffer piece).run.run (Reader.serve source) (reader, log) =
          (result, middle, log₁) := taking
      simp only [Decode.bytesFrom, Decode.take, Reader.run, Dialogue.run_bind] at h
      rw [step] at h
      cases result with
      | error error =>
          cases h
          cases complete
      | ok bytes =>
          have direct := (shows.take sound truthful taking).2 bytes rfl
          have step' : (Decode.takeAhead .buffer piece).run.run (DirectReader.serve image)
              reader.direct = (.ok bytes, middle.direct) := direct
          simp only [Decode.bytesFrom, Decode.take, DirectReader.run, Dialogue.run_bind]
          rw [step']
          exact ih (shows.take sound truthful taking).1 (sound.take taking).1 _ h

/-- Pieces that fit the buffer are taken from an image as they are taken directly. -/
theorem Shows.run_bytesFrom_ofImage (shows : reader.Shows image) (sound : reader.Sound)
    (pieces : List Nat) (taken : List UInt8)
    (fit : ∀ piece ∈ pieces, ∀ w, reader.window = some w → piece ≤ w.capacity) (log : AccessLog) :
    reader.direct.run image (Decode.bytesFrom taken pieces) =
      ((reader.run (.ofImage image) (Decode.bytesFrom taken pieces) log).1,
        (reader.run (.ofImage image) (Decode.bytesFrom taken pieces) log).2.1.direct) := by
  induction pieces generalizing reader taken log with
  | nil => rfl
  | cons piece rest ih =>
      rcases taking : reader.take (.ofImage image) piece .buffer log with ⟨result, middle, log₁⟩
      have direct := shows.take_ofImage sound (fit piece (List.mem_cons_self ..)) taking
      have step : (Decode.takeAhead .buffer piece).run.run (Reader.serve (.ofImage image))
          (reader, log) = (result, middle, log₁) := taking
      have step' : (Decode.takeAhead .buffer piece).run.run (DirectReader.serve image)
          reader.direct = (result, middle.direct) := direct
      simp only [Decode.bytesFrom, Decode.take, Reader.run, DirectReader.run, Dialogue.run_bind]
      rw [step, step']
      cases result with
      | error error => rfl
      | ok bytes =>
          refine ih (shows.take sound (Source.truthful_ofImage image) taking).1
            (sound.take taking).1 _ (fun piece member v bound => ?_) log₁
          have kept := (sound.take taking).2.1
          obtain ⟨_ | w, context⟩ := reader
          · cases taking
          · have capacity : v.capacity = w.capacity := by simpa only [Reader.view, bound] using kept
            rw [capacity]
            exact fit piece (List.mem_cons_of_mem _ member) w rfl

theorem Shows.run_bytes_ofImage (shows : reader.Shows image) (sound : reader.Sound) (count : Nat)
    (log : AccessLog) :
    reader.direct.run image
        (Decode.bytesFrom [] (Decode.pieces count (max reader.view.capacity 1))) =
      ((reader.run (.ofImage image) (Decode.bytes count) log).1,
        (reader.run (.ofImage image) (Decode.bytes count) log).2.1.direct) := by
  refine shows.run_bytesFrom_ofImage sound _ [] (fun piece member w bound => ?_) log
  have positive := Nat.lt_of_lt_of_le Nat.one_pos (Nat.le_max_right reader.view.capacity 1)
  have small := Decode.le_of_mem_pieces positive member
  have large := (sound w bound).minimum_le_capacity
  have capacity : reader.view.capacity = w.capacity := by rw [Reader.view, bound]
  rw [minimumCapacity] at large
  omega

/-- Bytes that a reader takes in pieces that fit its buffer can be taken directly. -/
theorem Shows.run_bytes {transfer : Transfer} (shows : reader.Shows image) (sound : reader.Sound)
    (truthful : source.Truthful image) (count : Nat)
    (h : reader.run source (Decode.bytes count) log = (transfer, moved, log'))
    (complete : transfer.failure = none) :
    reader.direct.run image (Decode.bytes count) = (transfer, moved.direct) := by
  have pieced := shows.run_bytesFrom sound truthful (Decode.pieces count _) [] h complete
  obtain ⟨_ | w, context⟩ := reader
  · exact pieced
  · have held : w.place.Holds image count := by
      rw [← Decode.sum_pieces count]
      apply DirectReader.holds_of_run_bytesFrom
      exact (congrArg (fun result => result.1.failure) pieced).trans complete
    have same : ∀ size, DirectReader.run image (Decode.bytesFrom [] (Decode.pieces count size))
        ⟨some w.place, context⟩ =
          (⟨(Source.imageBytes image w.place.offset count).toList, none⟩,
            ⟨some (w.place.advance count), context⟩) := by
      intro size
      have taken := DirectReader.run_bytesFrom_of_holds context (Decode.pieces count size) []
        ((Decode.sum_pieces count size).symm ▸ held)
      rw [Decode.sum_pieces] at taken
      exact taken
    calc DirectReader.run image (Decode.bytes count) ⟨some w.place, context⟩
        = (⟨(Source.imageBytes image w.place.offset count).toList, none⟩,
            ⟨some (w.place.advance count), context⟩) := same _
      _ = DirectReader.run image (Decode.bytesFrom [] (Decode.pieces count _))
            ⟨some w.place, context⟩ := (same _).symm
      _ = (transfer, moved.direct) := pieced

/-- A string that lies in the buffer can be taken directly. -/
theorem string_of_loaded {w : Window} (context : Context) {text : List UInt8}
    (shows : w.Shows image) (sound : w.Sound) (h : w.loadedString? = some text) :
    DirectReader.run image Decode.string ⟨some w.place, context⟩ =
      (⟨text, none⟩,
        ⟨some (Window.place { w with cursor := w.cursor + text.length + 1 }), context⟩) := by
  have inside := sound.loadedString h
  obtain ⟨plain, there⟩ := shows.loadedString sound h
  have enough : text.length + 1 ≤ w.place.remaining := by
    have bounds := sound.loaded_le_stop
    have cursor := sound.cursor_le_filled
    simp only [Window.available, Place.remaining, Window.place, Window.offset] at inside ⊢
    omega
  have follow : text.length + 1 ≤ image.size - w.offset := by
    have size := congrArg List.length there
    rw [Array.length_toList, Source.size_imageBytes, List.length_append,
      List.length_singleton] at size
    omega
  have behind : w.place.advance (text.length + 1) =
      Window.place { w with cursor := w.cursor + text.length + 1 } := by
    simp only [Place.advance, Window.place, Window.offset, Nat.add_assoc]
  calc DirectReader.run image Decode.string ⟨some w.place, context⟩
      = DirectReader.run image (Decode.stringFrom w.offset .buffer [] w.place.remaining)
          ⟨some w.place, context⟩ := DirectReader.run_stringAhead image .buffer w.place context
    _ = (⟨text, none⟩, ⟨some (w.place.advance (text.length + 1)), context⟩) :=
        DirectReader.run_stringFrom_of_holds w.offset .buffer text [] enough plain
          ⟨enough, follow⟩ there
    _ = _ := by rw [behind]

/-- What can come of taking a string as it lies in the buffer: it lies there, perhaps only after a
load, or it is not taken, perhaps after a load too. -/
theorem takeLoadedString_cases {w : Window} {context : Context}
    {result : Except Error (List UInt8)}
    (h : takeLoadedString source ⟨some w, context⟩ log = (result, moved, log')) :
    ∃ v, (v = w ∧ log' = log ∨ ∃ loading, w.load source 1 .buffer log = (loading, v, log')) ∧
      ((∃ text, v.loadedString? = some text ∧ result = .ok text ∧
          moved = ⟨some { v with cursor := v.cursor + text.length + 1 }, context⟩) ∨
        Failed result ∧ moved = ⟨some v, context⟩) := by
  simp only [takeLoadedString] at h
  split at h
  · rename_i text loaded
    cases h
    exact ⟨w, .inl ⟨rfl, rfl⟩, .inl ⟨text, loaded, rfl, rfl⟩⟩
  · split at h
    · cases h
      exact ⟨w, .inl ⟨rfl, rfl⟩, .inr ⟨⟨_, rfl⟩, rfl⟩⟩
    · split at h
      · rename_i error v log₁ loading
        cases h
        exact ⟨v, .inr ⟨_, loading⟩, .inr ⟨⟨_, rfl⟩, rfl⟩⟩
      · rename_i v log₁ loading
        split at h
        · rename_i text loaded
          cases h
          exact ⟨v, .inr ⟨_, loading⟩, .inl ⟨text, loaded, rfl, rfl⟩⟩
        · cases h
          exact ⟨v, .inr ⟨_, loading⟩, .inr ⟨⟨_, rfl⟩, rfl⟩⟩

variable {result : Except Error (List UInt8)}

/-- Taking a string as it lies in the buffer keeps a reader sound. -/
theorem Sound.takeLoadedString (sound : reader.Sound)
    (h : reader.takeLoadedString source log = (result, moved, log')) : moved.Sound := by
  obtain ⟨_ | w, context⟩ := reader
  · cases h
    exact sound
  · obtain ⟨v, reached, outcome⟩ := takeLoadedString_cases h
    have v_sound : v.Sound := by
      rcases reached with ⟨rfl, -⟩ | ⟨loading, loads⟩
      · exact sound v rfl
      · exact ((sound w rfl).load loads).1
    rcases outcome with ⟨text, loaded, -, rfl⟩ | ⟨-, rfl⟩
    · exact sound_some.mpr (v_sound.advance (v_sound.loadedString loaded))
    · exact sound_some.mpr v_sound

/-- Taking a string as it lies in the buffer keeps a reader showing its image, and the string can
be taken directly. -/
theorem Shows.takeLoadedString (shows : reader.Shows image) (sound : reader.Sound)
    (truthful : source.Truthful image)
    (h : reader.takeLoadedString source log = (result, moved, log')) :
    moved.Shows image ∧
      ∀ text, result = .ok text →
        reader.direct.run image Decode.string = (⟨text, none⟩, moved.direct) := by
  obtain ⟨_ | w, context⟩ := reader
  · cases h
    exact ⟨shows, fun text taken => by cases taken⟩
  · obtain ⟨v, reached, outcome⟩ := takeLoadedString_cases h
    have v_faithful : v.Sound ∧ v.Shows image ∧ v.place = w.place := by
      rcases reached with ⟨rfl, -⟩ | ⟨loading, loads⟩
      · exact ⟨sound v rfl, shows v rfl, rfl⟩
      · obtain ⟨v_sound, v_place, -⟩ := (sound w rfl).load loads
        exact ⟨v_sound, (shows w rfl).load truthful loads, v_place⟩
    obtain ⟨v_sound, v_shows, v_place⟩ := v_faithful
    rcases outcome with ⟨text, loaded, rfl, rfl⟩ | ⟨⟨error, rfl⟩, rfl⟩
    · refine ⟨shows_some.mpr v_shows, fun text taken => ?_⟩
      cases taken
      have direct := string_of_loaded context v_shows v_sound loaded
      rw [v_place] at direct
      exact direct
    · exact ⟨shows_some.mpr v_shows, fun text taken => by cases taken⟩

end Reader

end Dwarf
