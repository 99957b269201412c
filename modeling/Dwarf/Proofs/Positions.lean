import Dwarf.Line.Header
import Dwarf.Proofs.Codes
import Dwarf.Proofs.PartialReads
import Dwarf.Proofs.Words
import Dwarf.Tables.Strings
import Dwarf.Unit.Header
/-!
# Positions are exact

Offsets, counts, indices, bases and lengths are any words, and a section may end at the largest one.
Binding, moving, looking up strings and entering units and line programs accept exactly what the sum
of the numbers allows, and come to exactly that sum; the words of a reader in memory come to it too.
-/

namespace Dwarf

namespace Decode

/-- Goes to the line program at an offset into the section, and reads its length. -/
def lineLength (offset : Nat) : Decode Nat := do
  widen
  seekInSection offset
  initialLength

/-- Reads the version of a line program with a length and an end. -/
def lineVersion (offset length stop : Nat) : Decode LineExtent := do
  let format ← format
  let version ← unsigned 2
  if 2 ≤ version ∧ version ≤ 5 then pure ⟨offset, length, stop, format, version⟩
  else throw (.unknownVersion version)

theorem lineExtent_eq (offset : Nat) :
    lineExtent offset = (do
      let length ← lineLength offset
      let stop ← stopOf length
      narrow stop
      lineVersion offset length stop) := by
  simp only [lineExtent, lineLength, lineVersion, bind_assoc]

end Decode

namespace Window

variable {w : Window}

/-- A window is opened, in numbers and in words, exactly if the section has a byte in the file, and
ends with the section or the file, whichever is first. -/
theorem open_exact (buffer : Buffer) (offset size fileSize : UInt64) :
    let range : Section := ⟨offset.toNat, size.toNat⟩
    let stop := min (offset.toNat + size.toNat) fileSize.toNat
    let whole : Window := ⟨buffer, offset.toNat, 0, 0, offset.toNat, stop, stop, fileSize.toNat⟩
    (size = 0 ∨ fileSize ≤ offset →
      open? buffer range fileSize.toNat = .error (.emptySection offset.toNat) ∧
        Words.open? offset size fileSize = none) ∧
    (¬ (size = 0 ∨ fileSize ≤ offset) →
      open? buffer range fileSize.toNat = .ok whole ∧
        Words.open? offset size fileSize = some whole.words) := by
  intro range stop whole
  have told := Word.toNat_le_max fileSize
  have saturated : min range.stop fileSize.toNat = stop := by
    simp only [range, stop, Section.stop, Word.saturate]
    omega
  have refused : (range.isEmpty || decide (min range.stop fileSize.toNat ≤ range.offset)) =
      true ↔ size = 0 ∨ fileSize ≤ offset := by
    rw [saturated, Bool.or_eq_true, decide_eq_true_iff, Section.isEmpty, beq_iff_eq,
      UInt64.le_iff_toNat_le, ← UInt64.toNat_inj, UInt64.toNat_zero]
    simp only [range, stop]
    omega
  rw [words_open buffer]
  constructor
  · intro fails
    rw [open?, if_pos (refused.mpr fails)]
    exact ⟨rfl, rfl⟩
  · intro opens
    rw [open?, if_neg (mt refused.mp opens)]
    simp only [saturated]
    exact ⟨rfl, rfl⟩

theorem Sound.narrow_limit (sound : w.Sound) :
    w.narrow w.limit = .ok { w with stop := w.limit } := by
  have inside : w.offset ≤ w.limit ∧ w.limit ≤ w.limit :=
    ⟨Nat.le_trans sound.toPlace.offset_le_stop sound.stop_le_limit, Nat.le_refl _⟩
  have loaded := sound.loaded_le_stop
  have stop := sound.stop_le_limit
  have all : min w.filled (w.limit - w.base) = w.filled := by omega
  rw [Window.narrow, if_pos inside, all]

theorem Sound.take_of_lt (sound : w.Sound) {count : Nat} (few : w.remaining < count)
    (source : Source) (ahead : Ahead) (log : AccessLog) :
    w.take source count ahead log =
      (.error (.tooFewBytes w.offset count w.remaining), w, log) := by
  have unloaded : ¬ count ≤ w.available := by
    have loaded := sound.loaded_le_stop
    simp only [remaining, offset, available] at few ⊢
    omega
  rw [Window.take, if_neg unloaded, Window.load, if_pos few]

/-- A structure of some length behind the position ends, in words, at the exact sum, if that lies in
the section, and nowhere otherwise. -/
def EndsExactly (length : Nat) (w : Window) : Prop :=
  (w.words.lengthEnd (.ofNat length)).map UInt64.toNat =
    if w.offset + length ≤ w.limit then some (w.offset + length) else none

theorem Sound.endsExactly (sound : w.Sound) {length : Nat} (small : length ≤ Word.max) :
    w.EndsExactly length := by
  have ends := sound.words_lengthEnd (.ofNat length)
  rwa [Word.toNat_ofNat_of_le small] at ends

end Window

namespace Reader

variable {source : Source} {image : Array UInt8} {w : Window} {context : Context}
variable {moved : Reader} {log log' : AccessLog}

/-- A move of a bound reader goes exactly to its target or, if that lies behind the end of the
window, changes nothing; and the words do the same. -/
structure MovesExactly (w : Window) (context : Context) (log : AccessLog) (target : Nat)
    (words : Option Words) (ran : Except Error Unit × Reader × AccessLog) : Prop where
  accepted : target ≤ w.stop → ∃ v : Window, v.place = { w.place with offset := target } ∧
    ran = (.ok (), ⟨some v, context⟩, log) ∧ words = some v.words
  refused : w.stop < target →
    ran = (.error (.outsideWindow (Word.saturate target) w.first w.stop), ⟨some w, context⟩, log) ∧
      words = none

/-- A move forwards from the start of the section is exact. -/
theorem movesExactly_seek (source : Source) (context : Context) (log : AccessLog) {target : Nat}
    (first : w.first ≤ target) :
    MovesExactly w context log target ((w.seek target).toOption.map Window.words)
      (Reader.run source (Decode.seek target).run ⟨some w, context⟩ log) := by
  rw [run_seek]
  constructor
  · intro stop
    obtain ⟨v, sought, place⟩ := Window.seek_of_le first stop
    simp only [changeWindow, sought]
    exact ⟨v, place, rfl, rfl⟩
  · intro stop
    have sought := Window.seek_of_lt stop
    have kept : changeWindow (Window.seek target) ⟨some w, context⟩ =
        (.error (.outsideWindow (Word.saturate target) w.first w.stop), ⟨some w, context⟩) := by
      simp only [changeWindow, sought]
    rw [kept, sought]
    exact ⟨rfl, rfl⟩

theorem run_stopOf (source : Source) (length : Nat) (w : Window) (context : Context)
    (log : AccessLog) :
    Reader.run source (Decode.stopOf length).run ⟨some w, context⟩ log =
      (if w.offset + length ≤ w.limit then .ok (w.offset + length)
        else .error (.tooFewBytes w.offset length (w.limit - w.offset)), ⟨some w, context⟩,
        log) := by
  have ran : Reader.run source (Decode.stopOf length).run ⟨some w, context⟩ log =
      Reader.run source (if w.offset + length ≤ w.limit then pure (w.offset + length)
        else throw (.tooFewBytes w.offset length (w.limit - w.offset)) : Decode Nat).run
        ⟨some w, context⟩ log := rfl
  rw [ran]
  split <;> rfl

/-- An entry of the table of string offsets is looked up in the whole section, unless its position
is no word. -/
theorem run_stringOffsetEntry (sound : w.Sound) (source : Source) (context : Context)
    (log : AccessLog) (base index : Nat) (format : Format) :
    Reader.run source (Decode.stringOffsetEntry base index format).run ⟨some w, context⟩ log =
      if index * format.wordSize + base ≤ Word.max then
        Reader.run source (do
          Decode.seek (w.first + (index * format.wordSize + base))
          Decode.offset format : Decode Nat).run ⟨some { w with stop := w.limit }, context⟩ log
      else (.error (.outsideWindow Word.max w.first w.limit), ⟨some w, context⟩, log) := by
  have ran : Reader.run source (Decode.stringOffsetEntry base index format).run
      ⟨some w, context⟩ log =
      Reader.run source (if index * format.wordSize + base ≤ Word.max then do
          Decode.widen
          Decode.seekInSection (index * format.wordSize + base)
          Decode.offset format
        else throw (.outsideWindow Word.max w.first w.limit) : Decode Nat).run
        ⟨some w, context⟩ log := rfl
  rw [ran]
  split
  · have widens : Reader.run source Decode.widen.run ⟨some w, context⟩ log =
        ((changeWindow (Window.narrow w.limit) ⟨some w, context⟩).1,
          (changeWindow (Window.narrow w.limit) ⟨some w, context⟩).2, log) :=
      run_narrow source w.limit ⟨some w, context⟩ log
    rw [run_bind_of_change widens, sound.narrow_limit]
    rfl
  · rfl

/-- An offset that reaches behind the end of the window is not read, and no access is made for
it. -/
theorem run_offset_of_lt (sound : w.Sound) (source : Source) (context : Context) (log : AccessLog)
    {format : Format} (few : w.remaining < format.wordSize) :
    Reader.run source (Decode.offset format).run ⟨some w, context⟩ log =
      (.error (.tooFewBytes w.offset format.wordSize w.remaining), ⟨some w, context⟩, log) := by
  have takes : (Decode.take format.wordSize).run.run (serve source)
      ((⟨some w, context⟩ : Reader), log) =
        Reader.take source format.wordSize .buffer ⟨some w, context⟩ log := rfl
  rw [Reader.run, Decode.offset, Decode.unsigned, Dialogue.runStep_bind, takes]
  simp only [Reader.take, sound.take_of_lt few]

/-- An entry of the table of string offsets is looked up exactly at its position or, if it does not
lie in the section as a whole, refused without an access; and the words do the same. -/
theorem stringOffsetEntry_exact (sound : w.Sound) (source : Source) (context : Context)
    (log : AccessLog) (base index : UInt64) (format : Format) :
    let width := format.wordSize
    let start := w.first + (index.toNat * width + base.toNat)
    let words := w.words.seekEntry base index (.ofNat width)
    let ran := Reader.run source
      (Decode.stringOffsetEntry base.toNat index.toNat format).run ⟨some w, context⟩ log
    (start + width ≤ w.limit →
      ∃ v : Window, v.Sound ∧ (∀ image, w.Shows image → v.Shows image) ∧
        v.place = { w.place with offset := start, stop := w.limit } ∧
        ran = Reader.run source (Decode.offset format).run ⟨some v, context⟩ log ∧
        words = some v.words ∧ v.words.Holds (.ofNat width)) ∧
    (w.limit < start + width →
      (∃ error reached, ran = (.error error, reached, log)) ∧
        ∀ p, words = some p → ¬ p.Holds (.ofNat width)) := by
  intro width start words ran
  have width_eq : (UInt64.ofNat width).toNat = width := by cases format <;> rfl
  have limit_le := sound.limit_le_max
  let widened : Window := { w with stop := w.limit }
  have sought : words = (widened.seek start).toOption.map Window.words := by
    simp only [words, sound.words_seekEntry, width_eq, start, widened]
  have looked : ran = if index.toNat * width + base.toNat ≤ Word.max then
        Reader.run source (do Decode.seek start; Decode.offset format : Decode Nat).run
          ⟨some widened, context⟩ log
      else (.error (.outsideWindow Word.max w.first w.limit), ⟨some w, context⟩, log) :=
    run_stringOffsetEntry sound source context log base.toNat index.toNat format
  have seeks := run_bind_of_change (run_seek source start ⟨some widened, context⟩ log)
    (Decode.offset format)
  by_cases small : start ≤ w.limit
  · have first : widened.first ≤ start := Nat.le_add_right _ _
    obtain ⟨v, moves, place⟩ := Window.seek_of_le first (show start ≤ widened.stop from small)
    have v_sound := sound.widened.seek moves
    have remaining : v.remaining = w.limit - start := congrArg Place.remaining place
    have goes : ran = Reader.run source (Decode.offset format).run ⟨some v, context⟩ log := by
      rw [looked, if_pos (by omega), seeks, moves]
    have arrives : words = some v.words := by
      rw [sought, moves]
      rfl
    have holds : v.words.Holds (.ofNat width) ↔ start + width ≤ w.limit := by
      rw [v_sound.words_holds, width_eq, remaining]
      omega
    have shows (image : Array UInt8) (shows : w.Shows image) : v.Shows image :=
      (show widened.Shows image from shows).seek moves
    refine ⟨fun inside => ⟨v, v_sound, shows, place, goes, arrives, holds.mpr inside⟩,
      fun outside => ⟨?_, ?_⟩⟩
    · exact ⟨_, _, goes.trans (run_offset_of_lt v_sound source context log (by omega))⟩
    · rintro p there held
      cases arrives.symm.trans there
      exact absurd (holds.mp held) (Nat.not_le_of_lt outside)
  · have beyond : widened.stop < start := Nat.lt_of_not_le small
    have missed := Window.seek_of_lt beyond
    refine ⟨fun inside => absurd (Nat.le_trans (Nat.le_add_right _ _) inside) small,
      fun _ => ⟨?_, ?_⟩⟩
    · rw [looked]
      split
      · rw [seeks, missed]
        exact ⟨_, _, rfl⟩
      · exact ⟨_, _, rfl⟩
    · intro p there
      rw [sought, missed] at there
      cases there

/-- An unsigned integer is read from the bytes of the image at the position, and the reader stands
behind them. -/
theorem Shows.unsigned_eq {reader : Reader} {width value : Nat} (shows : reader.Shows image)
    (sound : reader.Sound) (truthful : source.Truthful image)
    (h : reader.run source (Decode.unsigned width).run log = (.ok value, moved, log')) :
    value = littleEndian (Source.imageBytes image reader.view.offset width).toList ∧
      moved.direct = reader.direct.advance width := by
  obtain ⟨bytes, ⟨reached, log₁⟩, takes, gave⟩ := Dialogue.runStep_bind_ok _ _ h
  cases gave
  have taking : reader.take source width .buffer log = (.ok bytes, moved, log') := takes
  have delivers := shows.delivers_take sound truthful taking
  have length : bytes.length = width := (sound.take taking).2.2.1
  have bytes_eq := delivers.bytes_eq
  rw [offset_direct, length] at bytes_eq
  exact ⟨congrArg littleEndian bytes_eq, length ▸ delivers.final_eq⟩

/-- A string at an offset in the section is taken exactly from its start or, if that does not lie in
the window, not looked for; and the words do the same. -/
theorem stringAt_exact (sound : w.Sound) (source : Source) (context : Context) (log : AccessLog)
    (offset : UInt64) :
    let start := w.first + offset.toNat
    let ran := Reader.run source (Decode.stringAt offset.toNat) ⟨some w, context⟩ log
    (start < w.stop →
      (∃ v : Window, v.place = { w.place with offset := start } ∧
        ran = Reader.run source (Decode.stringAhead Decode.lookupAhead) ⟨some v, context⟩ log) ∧
      (w.words.stringStart offset).map UInt64.toNat = some start) ∧
    (w.stop ≤ start →
      ran = (.failed (.outsideWindow (Word.saturate start) w.first w.stop), ⟨some w, context⟩,
        log) ∧
      w.words.stringStart offset = none) := by
  intro start ran
  have words := sound.words_stringStart offset
  constructor
  · intro inside
    obtain ⟨v, -, place, goes⟩ := run_stringAt_inside source context log inside
    rw [if_pos inside] at words
    exact ⟨⟨v, place, goes⟩, words⟩
  · intro outside
    have missed : ¬ w.first + offset.toNat < w.stop := Nat.not_lt_of_le outside
    rw [if_neg missed] at words
    refine ⟨?_, Option.map_eq_none_iff.mp words⟩
    simp only [ran]
    rw [run_stringAt, if_neg missed]
    rfl

theorem Sound.unsigned_lt {reader : Reader} {width value : Nat} (sound : reader.Sound)
    (h : reader.run source (Decode.unsigned width).run log = (.ok value, moved, log')) :
    moved.Sound ∧ value < 256 ^ width := by
  obtain ⟨bytes, ⟨reached, log₁⟩, takes, gave⟩ := Dialogue.runStep_bind_ok _ _ h
  cases gave
  have taking : reader.take source width .buffer log = (.ok bytes, moved, log') := takes
  obtain ⟨moved_sound, -, length, -⟩ := sound.take taking
  exact ⟨moved_sound, length ▸ littleEndian_lt bytes⟩

/-- An initial length is a word. -/
theorem Sound.initialLength_le {reader : Reader} {length : Nat} (sound : reader.Sound)
    (h : reader.run source Decode.initialLength.run log = (.ok length, moved, log')) :
    length ≤ Word.max := by
  obtain ⟨word, ⟨reached, log₁⟩, first, rest⟩ := Dialogue.runStep_bind_ok _ _ h
  obtain ⟨reached_sound, small⟩ := sound.unsigned_lt first
  split at rest
  · obtain ⟨_, _, -, gave⟩ := Dialogue.runStep_bind_ok _ _ rest
    cases gave
    exact Nat.le_trans (Nat.le_of_lt small) (by decide)
  · split at rest
    · obtain ⟨wide, _, second, rest⟩ := Dialogue.runStep_bind_ok _ _ rest
      obtain ⟨_, _, -, gave⟩ := Dialogue.runStep_bind_ok _ _ rest
      cases gave
      exact Nat.le_of_lt_succ (reached_sound.unsigned_lt second).2
    · cases rest

/-- A bound reader that has read a length is bound to the same section behind it. -/
theorem window_of_initialLength {reader : Reader} {place : Place} {length : Nat}
    (stands : reader.Stands place)
    (h : reader.run source Decode.initialLength.run log = (.ok length, moved, log')) :
    ∃ v : Window, v.Sound ∧ moved = ⟨some v, moved.context⟩ ∧
      (v.place = place.advance 4 ∨ v.place = place.advance 12) := by
  obtain ⟨format, -, there⟩ := stands.initialLength h
  obtain ⟨_ | v, context⟩ := moved
  · cases there.direct
  · refine ⟨v, there.sound v rfl, rfl, ?_⟩
    have behind : v.place = place.advance format.lengthSize := Option.some.inj there.direct
    cases format with
    | dwarf32 => exact .inl behind
    | dwarf64 => exact .inr behind

/-- The length of a unit is accepted exactly if the unit ends in the section. -/
theorem unitExtent_exact (sound : w.Sound) {length : Nat}
    (h : Reader.run source Decode.initialLength.run ⟨some w, context⟩ log =
      (.ok length, moved, log')) :
    ∃ v : Window, moved.window = some v ∧ v.limit = w.limit ∧
      (v.offset = w.offset + 4 ∨ v.offset = w.offset + 12) ∧ v.EndsExactly length ∧
      Reader.run source Decode.unitExtent.run ⟨some w, context⟩ log =
        (if v.offset + length ≤ v.limit then
            .ok ⟨w.offset - w.first, w.offset, length, v.offset + length⟩
          else .error (.tooFewBytes v.offset length (v.limit - v.offset)), moved, log') := by
  have stands : Stands w.place ⟨some w, context⟩ := stands_of_window (sound_some.mpr sound) rfl
  obtain ⟨v, v_sound, same, place⟩ := window_of_initialLength stands h
  have ran : Reader.run source Decode.unitExtent.run ⟨some w, context⟩ log =
      Reader.run source (do
        let length ← Decode.initialLength
        let stop ← Decode.stopOf length
        pure ⟨w.offset - w.first, w.offset, length, stop⟩ : Decode UnitExtent).run
        ⟨some w, context⟩ log := rfl
  have ends := run_stopOf source length v moved.context log'
  have small := stands.sound.initialLength_le h
  rw [← same] at ends
  rw [Reader.run] at h ends
  refine ⟨v, congrArg Reader.window same, ?_, place.imp (congrArg Place.offset)
    (congrArg Place.offset), v_sound.endsExactly small, ?_⟩
  · rcases place with place | place <;> exact congrArg Place.limit place
  · rw [ran, Reader.run, Dialogue.runStep_bind, h]
    dsimp only
    rw [Dialogue.runStep_bind, ends]
    by_cases inside : v.offset + length ≤ v.limit
    · simp only [if_pos inside]
      rfl
    · simp only [if_neg inside]

/-- A structure whose end lies in the section is entered, with the window narrowed to it, and one
whose end does not is refused. -/
theorem run_enter {α : Type} (source : Source) (length : Nat) (next : Nat → Decode α) (v : Window)
    (context : Context) (log : AccessLog) :
    let ran := Reader.run source (do
      let stop ← Decode.stopOf length
      Decode.narrow stop
      next stop : Decode α).run ⟨some v, context⟩ log
    (v.offset + length ≤ v.limit →
      ∃ u : Window, u.place = { v.place with stop := v.offset + length } ∧
        ran = Reader.run source (next (v.offset + length)).run ⟨some u, context⟩ log) ∧
    (v.limit < v.offset + length →
      ran = (.error (.tooFewBytes v.offset length (v.limit - v.offset)), ⟨some v, context⟩,
        log)) := by
  have ends := run_stopOf source length v context log
  intro ran
  simp only [ran]
  rw [Reader.run] at ends ⊢
  rw [Dialogue.runStep_bind, ends]
  constructor
  · intro inside
    obtain ⟨u, narrows, place⟩ := Window.narrow_of_le (Nat.le_add_right _ _) inside
    have enters := run_bind_of_change
      (run_narrow source (v.offset + length) ⟨some v, context⟩ log) (next (v.offset + length))
    rw [narrows] at enters
    refine ⟨u, place, ?_⟩
    simp only [if_pos inside]
    exact enters
  · intro outside
    simp only [if_neg (Nat.not_le_of_lt outside)]

/-- The length of a line program is accepted exactly if the program ends in the section. -/
theorem lineExtent_exact (sound : w.Sound) {offset length : Nat}
    (h : Reader.run source (Decode.lineLength offset).run ⟨some w, context⟩ log =
      (.ok length, moved, log')) :
    ∃ v : Window, moved.window = some v ∧ v.limit = w.limit ∧
      (v.offset = w.first + offset + 4 ∨ v.offset = w.first + offset + 12) ∧
      v.EndsExactly length ∧
      let ran := Reader.run source (Decode.lineExtent offset).run ⟨some w, context⟩ log
      (v.offset + length ≤ v.limit →
        ∃ u : Window, u.place = { v.place with stop := v.offset + length } ∧
          ran = Reader.run source (Decode.lineVersion offset length (v.offset + length)).run
            ⟨some u, moved.context⟩ log') ∧
      (v.limit < v.offset + length →
        ran = (.error (.tooFewBytes v.offset length (v.limit - v.offset)), moved, log')) := by
  have stands : Stands w.place ⟨some w, context⟩ := stands_of_window (sound_some.mpr sound) rfl
  obtain ⟨_, ⟨opened, log₁⟩, widens, rest⟩ := Dialogue.runStep_bind_ok _ _ h
  obtain ⟨_, widened, there, -⟩ := stands.widen source log
  cases widened.symm.trans widens
  obtain ⟨_, ⟨sought, log₂⟩, seeks, reads⟩ := Dialogue.runStep_bind_ok _ _ rest
  have at_start := (there.soughtInSection seeks).1
  obtain ⟨v, v_sound, same, place⟩ := window_of_initialLength at_start reads
  refine ⟨v, congrArg Reader.window same, ?_, place.imp (congrArg Place.offset)
    (congrArg Place.offset), v_sound.endsExactly (at_start.sound.initialLength_le reads), ?_⟩
  · rcases place with place | place <;> exact congrArg Place.limit place
  · have enters := run_enter source length (Decode.lineVersion offset length) v moved.context log'
    have ran : Reader.run source (Decode.lineExtent offset).run ⟨some w, context⟩ log =
        Reader.run source (do
          let stop ← Decode.stopOf length
          Decode.narrow stop
          Decode.lineVersion offset length stop : Decode LineExtent).run moved log' := by
      rw [Reader.run] at h
      rw [Decode.lineExtent_eq, Reader.run, Dialogue.runStep_bind, h]
      rfl
    rw [← same] at enters
    rw [ran]
    exact enters

/-- A section is bound exactly if it has a byte inside the file, up to its own end or that of the
file, whichever is first; and the words do the same. -/
structure BindsExactly (offset size fileSize : UInt64) (ran : Except Error Reader) : Prop where
  accepted : ¬ (size = 0 ∨ fileSize ≤ offset) →
    let stop := min (offset.toNat + size.toNat) fileSize.toNat
    ∃ v : Window, v.place = ⟨offset.toNat, offset.toNat, stop, stop, fileSize.toNat⟩ ∧
      ran = .ok ⟨some v, .unknown⟩ ∧ Words.open? offset size fileSize = some v.words
  refused : size = 0 ∨ fileSize ≤ offset →
    ran = .error (.emptySection offset.toNat) ∧ Words.open? offset size fileSize = none

/-- Opening a window with any buffer binds exactly. -/
theorem bindsExactly_open (buffer : Buffer) (offset size fileSize : UInt64) :
    BindsExactly offset size fileSize
      ((Window.open? buffer ⟨offset.toNat, size.toNat⟩ fileSize.toNat).map
        fun v => ⟨some v, .unknown⟩) := by
  obtain ⟨refused, accepted⟩ := Window.open_exact buffer offset size fileSize
  constructor
  · intro opens
    obtain ⟨opened, words⟩ := accepted opens
    rw [opened]
    exact ⟨_, rfl, rfl, words⟩
  · intro fails
    obtain ⟨failed, words⟩ := refused fails
    rw [failed]
    exact ⟨rfl, words⟩

end Reader

namespace Pool

variable {ι : Type} [DecidableEq ι]

/-- A string with an index is looked for at the offset that its entry holds. -/
theorem run_indexedString (source : Source) (seat : Table → ι) (base index : Nat)
    (format : Format) (pool : Pool ι) :
    pool.run source seat (Consult.indexedString base index format) =
      match pool.decode source (seat .stringOffsets)
        (Decode.stringOffsetEntry base index format).run with
      | (.ok offset, pool) => pool.decode source (seat .strings) (Decode.stringAt offset)
      | (.error error, pool) => (.failed error, pool) := by
  have entry : (((Decode.stringOffsetEntry base index format).on .stringOffsets).run).run
      (serve source seat) pool = pool.decode source (seat .stringOffsets)
        (Decode.stringOffsetEntry base index format).run :=
    run_on source seat .stringOffsets _ pool
  rw [Consult.indexedString, Consult.orFailed_eq, run, Dialogue.run_map, Dialogue.runStep_bind,
    entry]
  rcases pool.decode source (seat .stringOffsets)
    (Decode.stringOffsetEntry base index format).run with ⟨error | offset, reached⟩
  · rfl
  · have string : ((Decode.stringAt offset).on .strings).run (serve source seat) reached =
        reached.decode source (seat .strings) (Decode.stringAt offset) :=
      run_on source seat .strings _ reached
    dsimp only
    rw [Dialogue.runStep_lift, string]
    rfl

end Pool

namespace Reader

variable {source : Source} {w : Window}

/-- Positions are exact for all words, on every bound reader.  Binding fails exactly without a byte
inside the file, and ends at the smaller of two exact ends; skipping, moving in the section and
looking up a string go exactly to the sum, or are refused behind the end of the window; an entry of
the table of string offsets is read exactly at its position, and tells where the string is looked
for, or refused unless all of it lies in the section; and a unit or a line program is entered
exactly if the sum of the position behind its length and the length is no further than the end of
the section.  Whatever is computed of wrapping words is the same. -/
theorem Reachable.positions_exact {reader : Reader} (reached : reader.Reachable source)
    (bound : reader.window = some w) (log : AccessLog) :
    (∀ (buffer : Buffer) (offset size fileSize : UInt64), minimumCapacity ≤ buffer.capacity →
      BindsExactly offset size fileSize
        (Reader.bound buffer ⟨offset.toNat, size.toNat⟩ fileSize.toNat)) ∧
    (∀ offset size fileSize : UInt64, w.fileSize = fileSize.toNat →
      BindsExactly offset size fileSize (reader.rebind ⟨offset.toNat, size.toNat⟩)) ∧
    (∀ count : UInt64,
      MovesExactly w reader.context log (w.offset + count.toNat) (w.words.skip count)
        (reader.run source (Decode.skip count.toNat).run log)) ∧
    (∀ offset : UInt64,
      MovesExactly w reader.context log (w.first + offset.toNat) (w.words.seekInSection offset)
        (reader.run source (Decode.seekInSection offset.toNat).run log)) ∧
    (∀ offset : UInt64,
      let start := w.first + offset.toNat
      let ran := reader.run source (Decode.stringAt offset.toNat) log
      (start < w.stop →
        (∃ v : Window, v.place = { w.place with offset := start } ∧
          ran = Reader.run source (Decode.stringAhead Decode.lookupAhead)
            ⟨some v, reader.context⟩ log) ∧
        (w.words.stringStart offset).map UInt64.toNat = some start) ∧
      (w.stop ≤ start →
        ran = (.failed (.outsideWindow (Word.saturate start) w.first w.stop), reader, log) ∧
        w.words.stringStart offset = none)) ∧
    (∀ (base index : UInt64) (format : Format),
      let width := format.wordSize
      let start := w.first + (index.toNat * width + base.toNat)
      let words := w.words.seekEntry base index (.ofNat width)
      let ran := reader.run source
        (Decode.stringOffsetEntry base.toNat index.toNat format).run log
      (start + width ≤ w.limit →
        (∃ v : Window, v.place = { w.place with offset := start, stop := w.limit } ∧
          ran = Reader.run source (Decode.offset format).run ⟨some v, reader.context⟩ log ∧
          words = some v.words ∧ v.words.Holds (.ofNat width)) ∧
        ∀ value moved log', ran = (.ok value, moved, log') →
          (∀ image, source.Truthful image →
            value = littleEndian (Source.imageBytes image start width).toList ∧
              moved.view.offset = start + width) ∧
          ∀ (ι : Type) [DecidableEq ι] (pool : Pool ι) (seat : Table → ι),
            pool.readers (seat .stringOffsets) = reader → pool.log = log →
              pool.run source seat (Consult.indexedString base.toNat index.toNat format) =
                Pool.decode source (seat .strings) (Decode.stringAt value)
                  ⟨Function.update pool.readers (seat .stringOffsets) moved, log'⟩) ∧
      (w.limit < start + width →
        (∀ p, words = some p → ¬ p.Holds (.ofNat width)) ∧
        (∃ error moved, ran = (.error error, moved, log)) ∧
        ∀ (ι : Type) [DecidableEq ι] (pool : Pool ι) (seat : Table → ι),
          pool.readers (seat .stringOffsets) = reader →
            ∃ error, (pool.run source seat
              (Consult.indexedString base.toNat index.toNat format)).1 = .failed error)) ∧
    (∀ length moved log',
      reader.run source Decode.initialLength.run log = (.ok length, moved, log') →
        ∃ v : Window, moved.window = some v ∧ v.limit = w.limit ∧
          (v.offset = w.offset + 4 ∨ v.offset = w.offset + 12) ∧ v.EndsExactly length ∧
          reader.run source Decode.unitExtent.run log =
            (if v.offset + length ≤ v.limit then
                .ok ⟨w.offset - w.first, w.offset, length, v.offset + length⟩
              else .error (.tooFewBytes v.offset length (v.limit - v.offset)), moved, log')) ∧
    ∀ offset length moved log',
      reader.run source (Decode.lineLength offset).run log = (.ok length, moved, log') →
        ∃ v : Window, moved.window = some v ∧ v.limit = w.limit ∧
          (v.offset = w.first + offset + 4 ∨ v.offset = w.first + offset + 12) ∧
          v.EndsExactly length ∧
          let ran := reader.run source (Decode.lineExtent offset).run log
          (v.offset + length ≤ v.limit →
            ∃ u : Window, u.place = { v.place with stop := v.offset + length } ∧
              ran = Reader.run source
                (Decode.lineVersion offset length (v.offset + length)).run
                ⟨some u, moved.context⟩ log') ∧
          (v.limit < v.offset + length →
            ran = (.error (.tooFewBytes v.offset length (v.limit - v.offset)), moved, log')) := by
  obtain ⟨window, context⟩ := reader
  cases bound
  have sound : w.Sound := reached.sound w rfl
  refine ⟨?_, ?_, ?_, ?_, fun offset => stringAt_exact sound source context log offset, ?_,
    fun length moved log' read => unitExtent_exact sound read,
    fun offset length moved log' read => lineExtent_exact sound read⟩
  · intro buffer offset size fileSize accepted
    rw [bound_eq accepted]
    exact bindsExactly_open buffer offset size fileSize
  · intro offset size fileSize told
    have opens := bindsExactly_open w.buffer offset size fileSize
    rw [← told] at opens
    exact opens
  · intro count
    rw [sound.words_skip]
    exact movesExactly_seek source context log
      (Nat.le_trans sound.toPlace.first_le_offset (Nat.le_add_right _ _))
  · intro offset
    rw [sound.words_seekInSection]
    exact movesExactly_seek source context log (Nat.le_add_right _ _)
  · intro base index format width start words ran
    obtain ⟨accepted, refused⟩ :=
      stringOffsetEntry_exact sound source context log base index format
    refine ⟨fun inside => ?_, fun outside => ?_⟩
    · obtain ⟨v, v_sound, shows, place, goes, arrives, holds⟩ := accepted inside
      refine ⟨⟨v, place, goes, arrives, holds⟩, fun value moved log' read => ⟨?_, ?_⟩⟩
      · intro image truthful
        have v_shows : v.Shows image := shows image (reached.shows truthful w rfl)
        have offset_eq : v.offset = start := congrArg Place.offset place
        obtain ⟨value_eq, behind⟩ := Shows.unsigned_eq (shows_some.mpr v_shows)
          (sound_some.mpr v_sound) truthful (goes.symm.trans read)
        refine ⟨offset_eq ▸ value_eq, ?_⟩
        rw [← offset_direct, behind]
        exact congrArg (· + width) offset_eq
      · intro ι _ pool seat seated same
        simp only [ran] at read
        rw [Pool.run_indexedString, Pool.decode, seated, same, read]
    · obtain ⟨fails, missed⟩ := refused outside
      refine ⟨missed, fails, ?_⟩
      intro ι _ pool seat seated
      obtain ⟨error, moved, fails⟩ :=
        ((stringOffsetEntry_exact sound source context pool.log base index format).2 outside).1
      refine ⟨error, ?_⟩
      rw [Pool.run_indexedString, Pool.decode, seated, fails]

/-- In a section of eight bytes that ends at the largest word, moving on by eight ends there, and
neither the largest count nor an index whose product with the width wraps to zero is accepted. -/
theorem positions_exact_top :
    let w : Window := ⟨.zeroed 16, Word.max - 8, 0, 0, Word.max - 8, Word.max, Word.max, Word.max⟩
    let reader : Reader := ⟨some w, .unknown⟩
    let skipped (count : UInt64) := reader.run (.ofImage #[]) (Decode.skip count.toNat).run #[]
    let looked := reader.run (.ofImage #[])
      (Decode.stringOffsetEntry 0 0x4000000000000000 .dwarf32).run #[]
    Reader.bound (.zeroed 16) ⟨Word.max - 8, 100⟩ Word.max = .ok reader ∧
      (∃ v : Window, v.offset = Word.max ∧ skipped 8 = (.ok (), ⟨some v, .unknown⟩, #[]) ∧
        w.words.skip 8 = some v.words) ∧
      skipped Word.top = (.error (.outsideWindow Word.max (Word.max - 8) Word.max), reader, #[]) ∧
      w.words.skip Word.top = none ∧ ∃ error moved, looked = (.error error, moved, #[]) := by
  intro w reader skipped looked
  have bound : Reader.bound (.zeroed 16) ⟨Word.max - 8, 100⟩ Word.max = .ok reader := rfl
  have reached : reader.Reachable (.ofImage #[]) := .bound bound
  obtain ⟨-, -, skips, -, -, entries, -, -⟩ := Reachable.positions_exact reached rfl #[]
  obtain ⟨v, place, ran, words⟩ := (skips 8).accepted (by decide +kernel)
  obtain ⟨kept, refused⟩ := (skips Word.top).refused (by decide +kernel)
  have outside := (entries 0 0x4000000000000000 .dwarf32).2 (by decide +kernel)
  have offset : v.offset = w.offset + (8 : UInt64).toNat := congrArg Place.offset place
  have saturated : Word.saturate (w.offset + Word.top.toNat) = Word.max := by decide +kernel
  rw [saturated] at kept
  exact ⟨bound, ⟨v, offset, ran, words⟩, kept, refused, outside.2.1⟩

end Reader

end Dwarf
