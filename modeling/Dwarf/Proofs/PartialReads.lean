import Dwarf.Proofs.Accesses
import Dwarf.Proofs.Atomicity
import Dwarf.Proofs.Rounds
/-!
# Long reads that stop early

A read of many bytes may fail after some of them.  Over a source that reports bytes of an image
alone, what it delivered are the bytes of the image from where it started to where the reader stands
behind it, none twice and none left out, whatever failed and however often the buffer was loaded.
-/

namespace Dwarf

namespace Transfer

/-- What a destination holds behind a read of as many bytes as it has. -/
def into (destination : List UInt8) (transfer : Transfer) : List UInt8 :=
  transfer.bytes ++ destination.drop transfer.bytes.length

/-- What a text has become behind a read that appends to it. -/
def onto (text : List UInt8) (transfer : Transfer) : List UInt8 := text ++ transfer.bytes

theorem take_into (destination : List UInt8) (transfer : Transfer) :
    (transfer.into destination).take transfer.bytes.length = transfer.bytes :=
  List.take_left' rfl

theorem drop_into (destination : List UInt8) (transfer : Transfer) :
    (transfer.into destination).drop transfer.bytes.length =
      destination.drop transfer.bytes.length :=
  List.drop_left' rfl

end Transfer

/-- No piece of a number of bytes is empty. -/
theorem Decode.pos_of_mem_pieces {count size piece : Nat} (positive : 0 < size)
    (member : piece ∈ pieces count size) : 0 < piece := by
  simp only [pieces, List.mem_append, List.mem_replicate] at member
  rcases member with ⟨-, rfl⟩ | rest
  · exact positive
  · split at rest
    · cases rest
    · rename_i some_left
      rw [List.mem_singleton.mp rest]
      exact Nat.pos_of_ne_zero some_left

namespace DirectReader

variable {image : Array UInt8} {start middle final : DirectReader} {first second : List UInt8}

/-- The reader so many bytes further on. -/
def advance (count : Nat) (reader : DirectReader) : DirectReader :=
  { reader with place := reader.place.map (Place.advance count) }

/-- The reader at another file offset. -/
def sought (offset : Nat) (reader : DirectReader) : DirectReader :=
  { reader with place := reader.place.map fun place => { place with offset := offset } }

/-- Bytes of an image were delivered between two positions of a reader, which changed in nothing
else. -/
structure Delivers (image : Array UInt8) (start final : DirectReader)
    (delivered : List UInt8) : Prop where
  bytes_eq : delivered =
    (Source.imageBytes image start.view.offset delivered.length).toList
  offset_eq : final.view.offset = start.view.offset + delivered.length
  final_eq : final = start.advance delivered.length

theorem delivers_nil (image : Array UInt8) (start : DirectReader) :
    Delivers image start start [] := by
  refine ⟨?_, rfl, ?_⟩
  · symm
    rw [List.length_nil, ← List.length_eq_zero_iff, Array.length_toList, Source.size_imageBytes,
      Nat.zero_min]
  · obtain ⟨_ | place, context⟩ := start <;> rfl

theorem Delivers.trans (h : Delivers image start middle first)
    (goes : Delivers image middle final second) : Delivers image start final (first ++ second) := by
  obtain ⟨first_eq, first_offset, rfl⟩ := h
  obtain ⟨second_eq, second_offset, rfl⟩ := goes
  constructor
  · rw [List.length_append, Source.imageBytes_add, Array.toList_append, ← first_offset,
      ← first_eq, ← second_eq]
  · rw [second_offset, first_offset, List.length_append, Nat.add_assoc]
  · obtain ⟨_ | place, context⟩ := start
    · rfl
    · simp only [advance, Option.map_some, Place.advance_advance, List.length_append]

/-- A read of so many bytes delivered all of them, or fewer and a failure. -/
structure Copies (image : Array UInt8) (start final : DirectReader) (count : Nat)
    (transfer : Transfer) : Prop where
  delivers : Delivers image start final transfer.bytes
  fewer : ∀ error, transfer.failure = some error → transfer.bytes.length < count
  all : transfer.failure = none → transfer.bytes.length = count

/-- A string was delivered up to its NUL, which was taken too, or up to a failure; it has no end
where the window ends. -/
structure Spells (image : Array UInt8) (start final : DirectReader) (transfer : Transfer) :
    Prop where
  plain : ∀ byte ∈ transfer.bytes, byte ≠ 0
  ended : transfer.failure = none → Delivers image start final (transfer.bytes ++ [0])
  cut : ∀ error, transfer.failure = some error → Delivers image start final transfer.bytes
  unended : ∀ position, transfer.failure = some (.stringWithoutEnd position) →
    position = start.view.offset ∧ final.view.offset = final.view.stop

/-- A text to which part of a string was appended goes on with the bytes that were passed. -/
theorem Spells.onto_eq {transfer : Transfer} (spells : Spells image start final transfer)
    {error : Error} (failed : transfer.failure = some error) (text : List UInt8) :
    transfer.onto text = text ++ (Source.imageBytes image start.view.offset
      (final.view.offset - start.view.offset)).toList := by
  obtain ⟨bytes_eq, offset_eq, -⟩ := spells.cut error failed
  rw [offset_eq, Nat.add_sub_cancel_left, ← bytes_eq]
  rfl

end DirectReader

namespace Reader

variable {source : Source} {image : Array UInt8} {reader moved : Reader} {log log' : AccessLog}
variable {count : Nat} {ahead : Ahead}

theorem offset_direct (reader : Reader) : reader.direct.view.offset = reader.view.offset := by
  rw [view_direct]

theorem Shows.delivers_take {bytes : List UInt8} (shows : reader.Shows image)
    (sound : reader.Sound) (truthful : source.Truthful image)
    (h : reader.take source count ahead log = (.ok bytes, moved, log')) :
    DirectReader.Delivers image reader.direct moved.direct bytes := by
  have taken := shows.taken_eq sound truthful h
  obtain ⟨-, -, length, place, stands, direct⟩ := sound.take h
  have start : reader.direct = ⟨some place, reader.context⟩ :=
    congrArg (fun place => (⟨place, reader.context⟩ : DirectReader)) stands
  refine ⟨?_, ?_, ?_⟩
  · rw [offset_direct]
    exact taken
  · rw [direct, start, length]
    rfl
  · rw [direct, start, length]
    rfl

theorem Sound.delivers_failed {error : Error} (sound : reader.Sound) (image : Array UInt8)
    (h : reader.take source count ahead log = (.error error, moved, log')) :
    DirectReader.Delivers image reader.direct moved.direct [] := by
  rw [(sound.take h).2.2]
  exact DirectReader.delivers_nil image reader.direct

/-- A take does not fail for want of a NUL. -/
theorem take_ne_stringWithoutEnd {error : Error} (position : Nat)
    (h : reader.take source count ahead log = (.error error, moved, log')) :
    error ≠ .stringWithoutEnd position := by
  rintro rfl
  obtain ⟨_ | w, context⟩ := reader
  · cases h
  · obtain ⟨v, taking, -⟩ := take_some h
    simp only [Window.take] at taking
    split at taking
    · cases taking
    · split at taking
      · rename_i loading
        cases taking
        simp only [Window.load] at loading
        split at loading
        · cases loading
        · split at loading
          · cases loading
          · split at loading
            · cases loading
            · simp only [Prod.mk.injEq] at loading
              obtain ⟨short, -⟩ := loading
              split at short <;> cases short
      · cases taking

/-- Pieces that are taken one after another are delivered up to one that fails. -/
theorem Shows.delivers_bytesFrom {transfer : Transfer} (shows : reader.Shows image)
    (sound : reader.Sound) (truthful : source.Truthful image) {pieces : List Nat}
    (positive : ∀ piece ∈ pieces, 0 < piece) (taken : List UInt8)
    (h : reader.run source (Decode.bytesFrom taken pieces) log = (transfer, moved, log')) :
    ∃ delivered, transfer.bytes = taken.reverse ++ delivered ∧
      DirectReader.Delivers image reader.direct moved.direct delivered ∧
      (∀ error, transfer.failure = some error → delivered.length < pieces.sum) ∧
      (transfer.failure = none → delivered.length = pieces.sum) := by
  induction pieces generalizing reader taken log with
  | nil =>
      cases h
      exact ⟨[], (List.append_nil _).symm, DirectReader.delivers_nil image _, nofun, fun _ => rfl⟩
  | cons piece rest ih =>
      rw [run_bytesFrom_cons] at h
      rcases taking : reader.take source piece .buffer log with ⟨error | bytes, middle, log₁⟩
      · rw [taking] at h
        cases h
        have some_left : 0 < piece := positive piece (List.mem_cons_self ..)
        refine ⟨[], (List.append_nil _).symm, sound.delivers_failed image taking, ?_, nofun⟩
        intro _ _
        rw [List.sum_cons]
        exact Nat.lt_of_lt_of_le some_left (Nat.le_add_right _ _)
      · rw [taking] at h
        obtain ⟨middle_sound, -, length, -⟩ := sound.take taking
        have middle_shows := (shows.take sound truthful taking).1
        obtain ⟨delivered, all, goes, failed, complete⟩ := ih middle_shows middle_sound
          (fun other member => positive other (List.mem_cons_of_mem _ member)) _ h
        refine ⟨bytes ++ delivered, ?_, (shows.delivers_take sound truthful taking).trans goes,
          fun error lost => ?_, fun whole => ?_⟩
        · rw [all, List.reverse_append, List.reverse_reverse, List.append_assoc]
        · rw [List.length_append, List.sum_cons, length]
          exact Nat.add_lt_add_left (failed error lost) piece
        · rw [List.length_append, List.sum_cons, length, complete whole]

/-- The bytes of a string are delivered up to its NUL, which is taken too, or up to a failure; it
has no end if it takes all bytes that it may. -/
theorem Shows.delivers_stringFrom {transfer : Transfer} (shows : reader.Shows image)
    (sound : reader.Sound) (truthful : source.Truthful image) (start : Nat) (taken : List UInt8)
    {rest : Nat}
    (h : reader.run source (Decode.stringFrom start ahead taken rest) log =
      (transfer, moved, log')) :
    ∃ text, transfer.bytes = taken.reverse ++ text ∧ (∀ byte ∈ text, byte ≠ 0) ∧
      (transfer.failure = none →
        DirectReader.Delivers image reader.direct moved.direct (text ++ [0])) ∧
      ∀ error, transfer.failure = some error →
        DirectReader.Delivers image reader.direct moved.direct text ∧
          ∀ position, error = .stringWithoutEnd position →
            position = start ∧ text.length = rest := by
  induction rest generalizing reader taken log with
  | zero =>
      cases h
      refine ⟨[], (List.append_nil _).symm, nofun, nofun, fun error lost => ?_⟩
      cases lost
      refine ⟨DirectReader.delivers_nil image _, fun position same => ?_⟩
      cases same
      exact ⟨rfl, rfl⟩
  | succ rest ih =>
      rw [run_stringFrom_succ] at h
      rcases taking : reader.take source 1 ahead log with ⟨error | bytes, middle, log₁⟩
      · rw [taking] at h
        cases h
        refine ⟨[], (List.append_nil _).symm, nofun, nofun, fun error lost => ?_⟩
        cases lost
        exact ⟨sound.delivers_failed image taking, fun position same =>
          absurd same (take_ne_stringWithoutEnd position taking)⟩
      · rw [taking] at h
        have step := shows.delivers_take sound truthful taking
        obtain ⟨middle_sound, -, length, -⟩ := sound.take taking
        have middle_shows := (shows.take sound truthful taking).1
        obtain ⟨byte, rfl⟩ := List.length_eq_one_iff.mp length
        by_cases nul : [byte] = [0]
        · simp only [if_pos nul] at h
          cases h
          exact ⟨[], (List.append_nil _).symm, nofun, fun _ => nul ▸ step, nofun⟩
        · simp only [if_neg nul] at h
          obtain ⟨text, all, plain, complete, failed⟩ := ih middle_shows middle_sound _ h
          refine ⟨byte :: text, ?_, ?_, fun whole => step.trans (complete whole),
            fun error lost => ⟨step.trans (failed error lost).1, fun position same => ?_⟩⟩
          · rw [all, List.reverse_append, List.reverse_reverse, List.append_assoc]
            rfl
          · intro other member
            rcases List.mem_cons.mp member with rfl | later
            · exact fun zero => nul (congrArg (fun byte => [byte]) zero)
            · exact plain other later
          · obtain ⟨began, all_taken⟩ := (failed error lost).2 position same
            exact ⟨began, congrArg Nat.succ all_taken⟩

theorem run_orFailed (source : Source) (step : Decode Transfer) (reader : Reader)
    (log : AccessLog) :
    reader.run source (Decode.orFailed step) log =
      (Transfer.ofResult (reader.run source step.run log).1,
        (reader.run source step.run log).2) := by
  rw [Decode.orFailed_eq, Reader.run, Dialogue.run_map]
  rfl

theorem run_stringAt_inside (source : Source) (context : Context) (log : AccessLog) {w : Window}
    {offset : Nat} (inside : w.first + offset < w.stop) :
    ∃ v : Window, w.seek (w.first + offset) = .ok v ∧
      v.place = { w.place with offset := w.first + offset } ∧
      Reader.run source (Decode.stringAt offset) ⟨some w, context⟩ log =
        Reader.run source (Decode.stringAhead Decode.lookupAhead) ⟨some v, context⟩ log := by
  obtain ⟨v, sought, place⟩ := Window.seek_of_le (Nat.le_add_right _ _) (Nat.le_of_lt inside)
  refine ⟨v, sought, place, ?_⟩
  rw [run_stringAt, if_pos inside, run_orFailed, run_bind_of_change (run_seek source _ _ log),
    sought]
  simp only [Reader.run, Dialogue.runStep_lift]
  rfl

/-- A reader takes a string that starts in its window from where a move to its start leads. -/
theorem run_stringAt_sought (source : Source) (log : AccessLog) {offset : Nat}
    (inside : reader.view.first + offset < reader.view.stop) :
    let start := reader.view.first + offset
    let sought := (reader.run source (Decode.seek start).run log).2.1
    sought.direct = reader.direct.sought start ∧ sought.view.offset = start ∧
      reader.run source (Decode.stringAt offset) log =
        sought.run source (Decode.stringAhead Decode.lookupAhead) log := by
  obtain ⟨_ | w, context⟩ := reader
  · exact absurd inside (Nat.not_lt_zero _)
  · obtain ⟨v, moves, place, ran⟩ := run_stringAt_inside source context log inside
    intro start sought
    have arrived : sought = ⟨some v, context⟩ := by
      have changed : changeWindow (Window.seek start) ⟨some w, context⟩ =
          (.ok (), ⟨some v, context⟩) := by
        simp only [changeWindow, start, view, moves]
      simp only [sought, run_seek, changed]
    rw [arrived]
    exact ⟨congrArg (fun place => (⟨some place, context⟩ : DirectReader)) place,
      congrArg Place.offset place, ran⟩

/-- A read of so many bytes delivers them up to the piece that fails. -/
theorem Shows.copies (shows : reader.Shows image) (sound : reader.Sound)
    (truthful : source.Truthful image) (count : Nat) (log : AccessLog) :
    DirectReader.Copies image reader.direct (reader.run source (Decode.bytes count) log).2.1.direct
      count (reader.run source (Decode.bytes count) log).1 := by
  have size : 0 < max reader.view.capacity 1 :=
    Nat.lt_of_lt_of_le Nat.one_pos (Nat.le_max_right _ _)
  have ran : reader.run source (Decode.bytes count) log =
      reader.run source (Decode.bytesFrom [] (Decode.pieces count (max reader.view.capacity 1)))
        log := rfl
  obtain ⟨delivered, all, delivers, fewer, complete⟩ := shows.delivers_bytesFrom sound truthful
    (fun _ => Decode.pos_of_mem_pieces size) [] ran.symm
  rw [List.reverse_nil, List.nil_append] at all
  subst all
  rw [Decode.sum_pieces] at fewer complete
  exact ⟨delivers, fewer, complete⟩

/-- A string that is taken from a position is delivered up to its NUL or a failure. -/
theorem Shows.spells (shows : reader.Shows image) (sound : reader.Sound)
    (truthful : source.Truthful image) (ahead : Ahead) (log : AccessLog) :
    DirectReader.Spells image reader.direct
      (reader.run source (Decode.stringAhead ahead) log).2.1.direct
      (reader.run source (Decode.stringAhead ahead) log).1 := by
  obtain ⟨_ | w, context⟩ := reader
  · exact ⟨nofun, nofun, fun _ _ => DirectReader.delivers_nil image _, nofun⟩
  · rw [run_stringAhead]
    generalize ran : Reader.run source (Decode.stringFrom w.offset ahead [] w.remaining)
      ⟨some w, context⟩ log = reached
    obtain ⟨transfer, moved, log'⟩ := reached
    obtain ⟨text, all, plain, complete, failed⟩ :=
      shows.delivers_stringFrom sound truthful w.offset [] ran
    rw [List.reverse_nil, List.nil_append] at all
    subst all
    refine ⟨plain, complete, fun error lost => (failed error lost).1, fun position lost => ?_⟩
    obtain ⟨delivers, unended⟩ := failed _ lost
    obtain ⟨began, all_taken⟩ := unended position rfl
    have inside : w.offset ≤ w.stop := (sound w rfl).toPlace.offset_le_stop
    have stop : moved.direct.view.stop = w.stop := by
      rw [delivers.final_eq]
      rfl
    have offset : moved.direct.view.offset = w.offset + w.remaining :=
      delivers.offset_eq.trans (congrArg (w.offset + ·) all_taken)
    exact ⟨began, by rw [offset, stop, Window.remaining, Nat.add_sub_cancel' inside]⟩

/-- Whatever is asked of a reader, a long read delivers the bytes of the image that it passes.  A
destination of a number of bytes is filled up to a failure and left as it was behind it; a text is
continued by the bytes up to the first NUL or up to a failure, which is the want of a NUL only at
the end of the window.  Whatever the source answers, the loops over the buffer end, within a round
for each byte and one more. -/
theorem Reachable.transfers_exact (reached : reader.Reachable source) (log : AccessLog) :
    (∀ image, source.Truthful image →
      (∀ destination : List UInt8,
        let ran := reader.run source (Decode.bytes destination.length) log
        let count := ran.1.bytes.length
        DirectReader.Copies image reader.direct ran.2.1.direct destination.length ran.1 ∧
          (ran.1.into destination).take count =
            (Source.imageBytes image reader.view.offset count).toList ∧
          (ran.1.into destination).drop count = destination.drop count) ∧
      (∀ text : List UInt8,
        let ran := reader.run source Decode.string log
        DirectReader.Spells image reader.direct ran.2.1.direct ran.1 ∧
          (ran.1.failure ≠ none →
            ran.1.onto text = text ++ (Source.imageBytes image reader.view.offset
              (ran.2.1.view.offset - reader.view.offset)).toList)) ∧
      ∀ (text : List UInt8) (offset : Nat),
        let start := reader.view.first + offset
        let ran := reader.run source (Decode.stringAt offset) log
        start < reader.view.stop →
          DirectReader.Spells image (reader.direct.sought start) ran.2.1.direct ran.1 ∧
            (ran.1.failure ≠ none →
              ran.1.onto text = text ++ (Source.imageBytes image start
                (ran.2.1.view.offset - start)).toList)) ∧
    (∀ count rounds, count < rounds →
      copyRounds source count rounds [] reader log =
        some (reader.run source (Decode.bytes count) log)) ∧
    (∀ rounds, reader.view.remaining < rounds →
      reader.scanRounds source .buffer rounds log =
        some (reader.run source Decode.string log)) ∧
    ∀ offset rounds,
      let sought := (reader.run source (Decode.seek (reader.view.first + offset)).run log).2.1
      reader.view.first + offset < reader.view.stop → sought.view.remaining < rounds →
        sought.scanRounds source Decode.lookupAhead rounds log =
          some (reader.run source (Decode.stringAt offset) log) := by
  have sound := reached.sound
  refine ⟨fun image truthful => ?_, fun count rounds enough => sound.copyRounds_eq enough,
    fun rounds enough => sound.scanRounds_eq .buffer enough, ?_⟩
  · have shows := reached.shows truthful
    refine ⟨fun destination => ?_, fun text => ?_, fun text offset => ?_⟩
    · have copies := shows.copies sound truthful destination.length log
      have bytes_eq := copies.delivers.bytes_eq
      rw [offset_direct] at bytes_eq
      exact ⟨copies, (Transfer.take_into _ _).trans bytes_eq, Transfer.drop_into _ _⟩
    · have spells := shows.spells sound truthful .buffer log
      refine ⟨spells, fun stopped => ?_⟩
      obtain ⟨error, failed⟩ := Option.ne_none_iff_exists'.mp stopped
      have onto := spells.onto_eq failed text
      rwa [offset_direct, offset_direct] at onto
    · intro start ran inside
      obtain ⟨direct, offset_eq, same⟩ := run_stringAt_sought source log inside
      have there := reached.run (Decode.seek start).run log
      have spells := (there.shows truthful).spells there.sound truthful Decode.lookupAhead log
      rw [← same, direct] at spells
      refine ⟨spells, fun stopped => ?_⟩
      obtain ⟨error, failed⟩ := Option.ne_none_iff_exists'.mp stopped
      have onto := spells.onto_eq failed text
      rwa [offset_direct, ← direct, offset_direct, offset_eq] at onto
  · intro offset rounds sought inside enough
    have there := reached.run (Decode.seek (reader.view.first + offset)).run log
    rw [(run_stringAt_sought source log inside).2.2]
    exact there.sound.scanRounds_eq Decode.lookupAhead enough

/-- A read of twenty bytes whose second load is interrupted has filled sixteen of them, which the
next read goes on behind. -/
theorem transfers_exact_interrupted :
    let image : Array UInt8 := Array.replicate 24 7
    let source := Source.faulty image ⟨none, 0, [(.call 1, .interrupted)]⟩
    let reader : Reader := ⟨some ⟨.zeroed 16, 0, 0, 0, 0, 24, 24, 24⟩, .unknown⟩
    let destination : List UInt8 := List.replicate 20 0
    let ran := reader.run source (Decode.bytes destination.length) #[]
    ran.1.failure = some (.access 16 8 .interrupted) ∧ ran.1.bytes.length = 16 ∧
      ran.2.1.direct = reader.direct.advance 16 ∧
      (ran.1.into destination).take 16 = (Source.imageBytes image 0 16).toList ∧
      (ran.1.into destination).drop 16 = [0, 0, 0, 0] := by
  intro image source reader destination ran
  have bound : Reader.bound (.zeroed 16) ⟨0, 24⟩ 24 = .ok reader := rfl
  have truthful : source.Truthful image := Source.truthful_faulty image _ rfl
  have failed : ran.1.failure = some (.access 16 8 .interrupted) := by decide +kernel
  have filled : ran.1.bytes.length = 16 := by decide +kernel
  have reached : reader.Reachable source := .bound bound
  clear_value image source
  obtain ⟨copies, taken, kept⟩ :=
    ((Reachable.transfers_exact reached #[]).1 image truthful).1 destination
  have advanced := copies.delivers.final_eq
  rw [filled] at advanced taken kept
  exact ⟨failed, filled, advanced, taken, kept⟩

end Reader

end Dwarf
