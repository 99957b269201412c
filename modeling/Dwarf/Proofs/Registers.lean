import Dwarf.Proofs.Task
/-!
# Readers in registers

A reader in memory is a flat record of words.  It adds and subtracts them without looking for an
overflow, and slices its buffer without looking at the ends.  Here every sum, difference and slice
is checked, and a reader that is sound passes all checks: its registers are in order, and running a
dialogue on them is running it on the reader.
-/

namespace Dwarf

namespace Word

/-- The sum of two words, if it is a word. -/
def add? (a b : Nat) : Option Nat := if a + b ≤ max then some (a + b) else none

/-- The difference of two words, if it is a word. -/
def sub? (a b : Nat) : Option Nat := if b ≤ a then some (a - b) else none

theorem add?_of_le {a b : Nat} (h : a + b ≤ max) : add? a b = some (a + b) := if_pos h

theorem sub?_of_le {a b : Nat} (h : b ≤ a) : sub? a b = some (a - b) := if_pos h

end Word

/-- The bytes between two indices, if these lie in the buffer in order. -/
def Buffer.slice? (buffer : Buffer) (start stop : Nat) : Option (List UInt8) :=
  if start ≤ stop ∧ stop ≤ buffer.capacity then some (buffer.slice start stop) else none

theorem Buffer.slice?_of_le {buffer : Buffer} {start stop : Nat} (order : start ≤ stop)
    (inside : stop ≤ buffer.capacity) : buffer.slice? start stop = some (buffer.slice start stop) :=
  if_pos ⟨order, inside⟩

theorem Buffer.slice_eq_take (buffer : Buffer) (start : Nat) {length stop : Nat}
    (h : start + length ≤ stop) :
    buffer.slice start (start + length) = (buffer.slice start stop).take length := by
  apply List.ext_getElem?
  intro index
  rw [getElem?_slice, List.getElem?_take, getElem?_slice]
  by_cases small : index < length
  · rw [if_pos (by omega), if_pos small, if_pos (by omega)]
  · rw [if_neg (by omega), if_neg small]

namespace Dialogue

variable {Q : Type} {R : Q → Type} {α σ τ : Type}

/-- Runs a dialogue against a server that may stop it. -/
def run? (serve? : (query : Q) → σ → Option (R query × σ)) :
    Dialogue Q R α → σ → Option (α × σ)
  | done answer, state => some (answer, state)
  | ask query next, state => do
    let (reply, state) ← serve? query state
    (next reply).run? serve? state

/-- A server that does not stop what another one serves, from states that are kept, runs every
dialogue as that one does. -/
theorem run?_eq {serve : (query : Q) → τ → R query × τ}
    {serve? : (query : Q) → σ → Option (R query × σ)} (embed : τ → σ) (Kept : τ → Prop)
    (step : ∀ query state, Kept state →
      serve? query (embed state) = some ((serve query state).1, embed (serve query state).2) ∧
        Kept (serve query state).2)
    (dialogue : Dialogue Q R α) {state : τ} (kept : Kept state) :
    dialogue.run? serve? (embed state) =
      some ((dialogue.run serve state).1, embed (dialogue.run serve state).2) := by
  induction dialogue generalizing state with
  | done answer => rfl
  | ask query next ih =>
      obtain ⟨served, kept'⟩ := step query state kept
      rw [run?, served]
      exact ih _ kept'

end Dialogue

/-- A reader as it lies in memory. -/
structure Registers where
  /-- The buffer of a bound reader. -/
  buffer : Option Buffer
  /-- The size that the file is said to have. -/
  fileSize : Nat
  /-- The file offset of the first byte of the buffer. -/
  base : Nat
  /-- The index of the next byte in the buffer. -/
  cursor : Nat
  /-- The number of loaded bytes. -/
  filled : Nat
  /-- The file offset of the first byte of the section. -/
  first : Nat
  /-- The end of the window. -/
  stop : Nat
  /-- The end of the section inside the file. -/
  limit : Nat
  /-- What has been learnt about the unit. -/
  context : Context
  deriving DecidableEq, Repr

/-- A window in registers. -/
@[reducible] def Window.registers (context : Context) (w : Window) : Registers :=
  ⟨some w.buffer, w.fileSize, w.base, w.cursor, w.filled, w.first, w.stop, w.limit, context⟩

/-- A reader in registers, which are zero if it is unbound. -/
def Reader.registers (reader : Reader) : Registers :=
  match reader.window with
  | none => ⟨none, 0, 0, 0, 0, 0, 0, 0, reader.context⟩
  | some w => w.registers reader.context

namespace Registers

/-- The registers of an unbound reader. -/
def unbound : Registers := ⟨none, 0, 0, 0, 0, 0, 0, 0, .unknown⟩

/-- The capacity of the buffer, zero without one. -/
def capacity (r : Registers) : Nat := (r.buffer.map Buffer.capacity).getD 0

/-- The registers of a reader are in order: those of an unbound reader are zero, and what a bound
reader has loaded lies in its buffer, in its window, in its section and in the file. -/
structure Ordered (r : Registers) : Prop where
  unbound : r.buffer = none → r = { Registers.unbound with context := r.context }
  minimum_le_capacity : r.buffer ≠ none → Reader.minimumCapacity ≤ r.capacity
  first_lt_limit : r.buffer ≠ none → r.first < r.limit
  limit_le_fileSize : r.limit ≤ r.fileSize
  first_le_base : r.first ≤ r.base
  cursor_le_filled : r.cursor ≤ r.filled
  filled_le_capacity : r.filled ≤ r.capacity
  loaded_le_stop : r.base + r.filled ≤ r.stop
  stop_le_limit : r.stop ≤ r.limit
  limit_le_max : r.limit ≤ Word.max

/-- The file offset of the next byte. -/
def offset? (r : Registers) : Option Nat := Word.add? r.base r.cursor

/-- The number of loaded bytes that were not taken yet. -/
def available? (r : Registers) : Option Nat := Word.sub? r.filled r.cursor

/-- What can be seen, if the differences are words that callers form of it: the offset in the
section, and the bytes up to the end of the window and up to the end of the section. -/
def view? (r : Registers) : Option View := do
  let offset ← r.offset?
  let _ ← Word.sub? offset r.first
  let _ ← Word.sub? r.stop offset
  let _ ← Word.sub? r.limit offset
  pure ⟨r.buffer.isSome, offset, r.first, r.stop, r.limit, r.capacity, r.context⟩

/-- Moves to a file offset. -/
def seek? (target : Nat) (r : Registers) : Option (Except Error Unit × Registers) :=
  if r.buffer.isNone then some (.error .unbound, r)
  else if target < r.first ∨ r.stop < target then
    some (.error (.outsideWindow (Word.saturate target) r.first r.stop), r)
  else do
    let loadedStop ← Word.add? r.base r.filled
    if r.base ≤ target ∧ target ≤ loadedStop then
      let cursor ← Word.sub? target r.base
      pure (.ok (), { r with cursor })
    else
      pure (.ok (), { r with base := target, cursor := 0, filled := 0 })

/-- Moves on by a number of bytes, without leaving the loaded ones if those are enough. -/
def skip? (count : Nat) (r : Registers) : Option (Except Error Unit × Registers) :=
  if r.buffer.isNone then some (.error .unbound, r)
  else do
    let available ← r.available?
    if count ≤ available then
      let cursor ← Word.add? r.cursor count
      pure (.ok (), { r with cursor })
    else
      let offset ← r.offset?
      r.seek? (offset + count)

/-- Moves the end of the window. -/
def narrow? (stop : Nat) (r : Registers) : Option (Except Error Unit × Registers) :=
  if r.buffer.isNone then some (.error .unbound, r)
  else do
    let offset ← r.offset?
    if stop < offset ∨ r.limit < stop then
      pure (.error (.outsideWindow stop offset r.limit), r)
    else
      let loadedStop ← Word.add? r.base r.filled
      if stop < loadedStop then
        let filled ← Word.sub? stop r.base
        pure (.ok (), { r with stop, filled })
      else
        pure (.ok (), { r with stop })

/-- Loads bytes from the position on. -/
def load? (source : Source) (needed : Nat) (ahead : Ahead) (r : Registers) (log : AccessLog) :
    Option (Except Error Unit × Registers × AccessLog) := do
  let position ← r.offset?
  let remaining ← Word.sub? r.stop position
  if remaining < needed then pure (.error (.tooFewBytes position needed remaining), r, log)
  else
    match r.buffer with
    | none => pure (.error .unbound, r, log)
    | some buffer =>
      if buffer.capacity < needed then
        pure (.error (.smallBuffer buffer.capacity needed), r, log)
      else
        let length := min remaining (ahead.limit needed buffer.capacity)
        -- The destination of the access is the first part of the buffer.
        let _ ← buffer.slice? 0 length
        let emptied := { r with base := position, cursor := 0, filled := 0 }
        match source.answer log.size position length with
        | .failed failure =>
          let residue := source.residue log.size position length
          pure (.error (.access position length failure),
            { emptied with buffer := some (buffer.write (residue.extract 0 length)) },
            log.push ⟨position, length, .error failure⟩)
        | .delivered bytes claimed =>
          let got := min claimed length
          let loaded :=
            { emptied with
              buffer := some (buffer.write (bytes.extract 0 length))
              filled := got }
          pure (if got < needed then .error (.shortDelivery position needed got) else .ok (),
            loaded, log.push ⟨position, length, .ok claimed⟩)

/-- Takes bytes that are loaded. -/
def consume? (count : Nat) (r : Registers) : Option (List UInt8 × Registers) := do
  let buffer ← r.buffer
  let stop ← Word.add? r.cursor count
  let bytes ← buffer.slice? r.cursor stop
  pure (bytes, { r with cursor := stop })

/-- Takes bytes, and loads first if too few of them are there. -/
def take? (source : Source) (count : Nat) (ahead : Ahead) (r : Registers) (log : AccessLog) :
    Option (Except Error (List UInt8) × Registers × AccessLog) :=
  if r.buffer.isNone then some (.error .unbound, r, log)
  else do
    let available ← r.available?
    if count ≤ available then
      let (bytes, r) ← r.consume? count
      pure (.ok bytes, r, log)
    else
      match ← r.load? source count ahead log with
      | (.error error, r, log) => pure (.error error, r, log)
      | (.ok (), r, log) =>
        let (bytes, r) ← r.consume? count
        pure (.ok bytes, r, log)

/-- The index of the first NUL among the loaded bytes that were not taken yet, if there is one. -/
def terminator? (r : Registers) : Option (Option Nat) :=
  match r.buffer with
  | none => some none
  | some buffer => do
    let chunk ← buffer.slice? r.cursor r.filled
    let text := chunk.takeWhile (· ≠ 0)
    if text.length < chunk.length then some <$> Word.add? r.cursor text.length else pure none

/-- Takes the loaded bytes up to a NUL, and the NUL itself. -/
def consumeString? (terminator : Nat) (r : Registers) : Option (List UInt8 × Registers) := do
  let buffer ← r.buffer
  let cursor ← Word.add? terminator 1
  let text ← buffer.slice? r.cursor terminator
  pure (text, { r with cursor })

/-- Takes a string and its NUL as they lie in the buffer. -/
def loadedString? (source : Source) (r : Registers) (log : AccessLog) :
    Option (Except Error (List UInt8) × Registers × AccessLog) :=
  if r.buffer.isNone then some (.error .unbound, r, log)
  else do
    let start ← r.offset?
    match ← r.terminator? with
    | some terminator =>
      let (text, r) ← r.consumeString? terminator
      pure (.ok text, r, log)
    | none =>
      let remaining ← Word.sub? r.stop start
      if remaining = 0 then pure (.error (.stringWithoutEnd start), r, log)
      else
        match ← r.load? source 1 .buffer log with
        | (.error error, r, log) => pure (.error error, r, log)
        | (.ok (), r, log) =>
          match ← r.terminator? with
          | some terminator =>
            let (text, r) ← r.consumeString? terminator
            pure (.ok text, r, log)
          | none =>
            let error : Error :=
              if r.filled = r.capacity then .stringBeyondBuffer start r.capacity
              else .stringWithoutEnd start
            pure (.error error, r, log)

/-- Binds the registers to a section, or clears them. -/
def bind (buffer : Buffer) (range : Section) (fileSize : Nat) : Registers :=
  let stop := min range.stop fileSize
  if buffer.capacity < Reader.minimumCapacity then unbound
  else if range.isEmpty || decide (stop ≤ range.offset) then unbound
  else ⟨some buffer, fileSize, range.offset, 0, 0, range.offset, stop, stop, .unknown⟩

/-- Binds the registers of a bound reader to another section, or leaves them as they were. -/
def rebind (range : Section) (r : Registers) : Registers :=
  let stop := min range.stop r.fileSize
  if r.buffer.isNone then r
  else if range.isEmpty || decide (stop ≤ range.offset) then r
  else ⟨r.buffer, r.fileSize, range.offset, 0, 0, range.offset, stop, stop, .unknown⟩

/-- Replies to one query. -/
def serve? (source : Source) : (query : Query) → Registers × AccessLog →
    Option (query.Reply × Registers × AccessLog)
  | .view, (r, log) => do
    let seen ← r.view?
    pure (seen, r, log)
  | .take count ahead, (r, log) => r.take? source count ahead log
  | .seek target, (r, log) => do
    let (reply, r) ← r.seek? target
    pure (reply, r, log)
  | .narrow stop, (r, log) => do
    let (reply, r) ← r.narrow? stop
    pure (reply, r, log)
  | .record context, (r, log) => some ((), { r with context }, log)

end Registers

theorem Window.loadedString?_eq_some {w : Window} {text : List UInt8} :
    w.loadedString? = some text ↔
      ((w.loaded w.available).takeWhile (· ≠ 0)).length < (w.loaded w.available).length ∧
        (w.loaded w.available).takeWhile (· ≠ 0) = text := by
  simp only [Window.loadedString?, Option.ite_none_right_eq_some, Option.some_inj]

namespace Window.Sound

variable {w : Window} {context : Context} {source : Source} {log : AccessLog}

/-- The registers of a sound window are in order. -/
theorem ordered (sound : w.Sound) : (w.registers context).Ordered where
  unbound none := nomatch none
  minimum_le_capacity _ := sound.minimum_le_capacity
  first_lt_limit _ := sound.first_lt_limit
  limit_le_fileSize := sound.limit_le_fileSize
  first_le_base := sound.first_le_base
  cursor_le_filled := sound.cursor_le_filled
  filled_le_capacity := sound.filled_le_capacity
  loaded_le_stop := sound.loaded_le_stop
  stop_le_limit := sound.stop_le_limit
  limit_le_max := sound.limit_le_max

theorem loadedStop_eq (sound : w.Sound) : Word.add? w.base w.filled = some (w.base + w.filled) := by
  have loaded := sound.loaded_le_stop
  have inside := sound.stop_le_limit
  have small := sound.limit_le_max
  exact Word.add?_of_le (by omega)

theorem offset?_eq (sound : w.Sound) : (w.registers context).offset? = some w.offset := by
  have inside := sound.toPlace.offset_le_stop
  have further := sound.stop_le_limit
  have small := sound.limit_le_max
  exact Word.add?_of_le (Nat.le_trans inside (Nat.le_trans further small))

theorem available?_eq (sound : w.Sound) : (w.registers context).available? = some w.available :=
  Word.sub?_of_le sound.cursor_le_filled

/-- All that can be seen are words. -/
theorem view?_eq (sound : w.Sound) :
    (w.registers context).view? = some (Reader.view ⟨some w, context⟩) := by
  have behind := sound.toPlace.first_le_offset
  have inside := sound.toPlace.offset_le_stop
  have further := sound.stop_le_limit
  simp only [Registers.view?, sound.offset?_eq]
  have first : Word.sub? w.offset w.first = some (w.offset - w.first) := Word.sub?_of_le behind
  have stop : Word.sub? w.stop w.offset = some (w.stop - w.offset) := Word.sub?_of_le inside
  have limit : Word.sub? w.limit w.offset = some (w.limit - w.offset) :=
    Word.sub?_of_le (Nat.le_trans inside further)
  simp only [registers, Option.bind_eq_bind, Option.bind_some, first, stop, limit]
  rfl

/-- Moving the registers moves the window. -/
theorem seek?_eq (sound : w.Sound) (target : Nat) :
    (w.registers context).seek? target =
      some ((Reader.changeWindow (Window.seek target) ⟨some w, context⟩).1,
        (Reader.changeWindow (Window.seek target) ⟨some w, context⟩).2.registers) := by
  unfold Registers.seek? Reader.changeWindow Window.seek
  dsimp only [registers]
  rw [sound.loadedStop_eq]
  by_cases inside : w.first ≤ target ∧ target ≤ w.stop
  · have kept : ¬ (target < w.first ∨ w.stop < target) := by omega
    by_cases loaded : w.base ≤ target ∧ target ≤ w.base + w.filled
    · simp only [Option.isNone_some, Bool.false_eq_true, if_false, if_neg kept, if_pos inside,
        Option.bind_eq_bind, Option.bind_some, if_pos loaded, Word.sub?_of_le loaded.1]
      rfl
    · simp only [Option.isNone_some, Bool.false_eq_true, if_false, if_neg kept, if_pos inside,
        Option.bind_eq_bind, Option.bind_some, if_neg loaded]
      rfl
  · have left : target < w.first ∨ w.stop < target := by omega
    simp only [Option.isNone_some, Bool.false_eq_true, if_false, if_pos left, if_neg inside]
    rfl

/-- Narrowing the registers narrows the window. -/
theorem narrow?_eq (sound : w.Sound) (stop : Nat) :
    (w.registers context).narrow? stop =
      some ((Reader.changeWindow (Window.narrow stop) ⟨some w, context⟩).1,
        (Reader.changeWindow (Window.narrow stop) ⟨some w, context⟩).2.registers) := by
  unfold Registers.narrow? Reader.changeWindow Window.narrow
  rw [sound.offset?_eq]
  dsimp only [registers]
  rw [sound.loadedStop_eq]
  by_cases inside : w.offset ≤ stop ∧ stop ≤ w.limit
  · have kept : ¬ (stop < w.offset ∨ w.limit < stop) := by omega
    have behind : w.base ≤ stop := Nat.le_trans (Nat.le_add_right _ _) inside.1
    by_cases forgets : stop < w.base + w.filled
    · have less : min w.filled (stop - w.base) = stop - w.base := by omega
      simp only [Option.isNone_some, Bool.false_eq_true, if_false, Option.bind_eq_bind,
        Option.bind_some, if_neg kept, if_pos inside, if_pos forgets, Word.sub?_of_le behind, less]
      rfl
    · have all : min w.filled (stop - w.base) = w.filled := by omega
      simp only [Option.isNone_some, Bool.false_eq_true, if_false, Option.bind_eq_bind,
        Option.bind_some, if_neg kept, if_pos inside, if_neg forgets, all]
      rfl
  · have left : stop < w.offset ∨ w.limit < stop := by omega
    simp only [Option.isNone_some, Bool.false_eq_true, if_false, Option.bind_eq_bind,
      Option.bind_some, if_pos left, if_neg inside]
    rfl

/-- Moving the registers on moves the window on, whether it leaves what is loaded or not. -/
theorem skip?_eq (sound : w.Sound) (count : Nat) :
    (w.registers context).skip? count =
      some ((Reader.changeWindow (Window.seek (w.offset + count)) ⟨some w, context⟩).1,
        (Reader.changeWindow (Window.seek (w.offset + count)) ⟨some w, context⟩).2.registers) := by
  unfold Registers.skip?
  rw [sound.available?_eq, sound.offset?_eq]
  by_cases there : count ≤ w.available
  · have moved := sound.seek_loaded there
    have loaded := sound.loaded_le_stop
    have filled := sound.cursor_le_filled
    have inside := sound.stop_le_limit
    have small := sound.limit_le_max
    simp only [available] at there
    have sum : Word.add? w.cursor count = some (w.cursor + count) := Word.add?_of_le (by omega)
    simp only [Option.isNone_some, Bool.false_eq_true, if_false, Option.bind_eq_bind,
      Option.bind_some, available, if_pos there, sum, Reader.changeWindow, moved]
    rfl
  · simp only [Option.isNone_some, Bool.false_eq_true, if_false, Option.bind_eq_bind,
      Option.bind_some, if_neg there, sound.seek?_eq]

/-- Loading into the registers loads into the window. -/
theorem load?_eq (sound : w.Sound) (source : Source) (needed : Nat) (ahead : Ahead)
    (log : AccessLog) :
    (w.registers context).load? source needed ahead log =
      some ((w.load source needed ahead log).1,
        (w.load source needed ahead log).2.1.registers context,
        (w.load source needed ahead log).2.2) := by
  have difference : Word.sub? w.stop w.offset = some w.remaining :=
    Word.sub?_of_le sound.toPlace.offset_le_stop
  unfold Registers.load? Window.load
  rw [sound.offset?_eq]
  dsimp only [Option.bind_eq_bind, Option.bind_some]
  rw [difference, show w.buffer.capacity = w.capacity from rfl]
  by_cases few : w.remaining < needed
  · simp only [Option.bind_some, if_pos few]
    rfl
  · by_cases large : w.capacity < needed
    · simp only [Option.bind_some, if_neg few, if_pos large]
      rfl
    · have inside : min w.remaining (ahead.limit needed w.capacity) ≤ w.buffer.capacity :=
        Nat.le_trans (Nat.min_le_right _ _) (limit_ahead ahead (Nat.le_of_not_lt large)).2
      simp only [Option.bind_some, if_neg few, if_neg large,
        Buffer.slice?_of_le (Nat.zero_le _) inside]
      generalize source.answer log.size w.offset (min w.remaining (ahead.limit needed w.capacity)) =
        answer
      cases answer <;> rfl

/-- Taking loaded bytes from the registers takes them from the window. -/
theorem consume?_eq {count : Nat} (sound : w.Sound) (there : count ≤ w.available) :
    (w.registers context).consume? count =
      some (w.loaded count,
        ({ w with cursor := w.cursor + count } : Window).registers context) := by
  have loaded := sound.loaded_le_stop
  have filled := sound.cursor_le_filled
  have room := sound.filled_le_capacity
  have inside := sound.stop_le_limit
  have small := sound.limit_le_max
  simp only [available, capacity] at there room
  have sum : Word.add? w.cursor count = some (w.cursor + count) := Word.add?_of_le (by omega)
  have slice : w.buffer.slice? w.cursor (w.cursor + count) = some (w.loaded count) := by
    rw [Buffer.slice?_of_le (Nat.le_add_right _ _) (by omega), Window.loaded,
      Nat.min_eq_right (by omega)]
  simp only [Registers.consume?, Option.bind_eq_bind, Option.bind_some, sum, slice]
  rfl

/-- Taking from the registers takes from the window. -/
theorem take?_eq (sound : w.Sound) (source : Source) (count : Nat) (ahead : Ahead)
    (log : AccessLog) :
    (w.registers context).take? source count ahead log =
      some ((w.take source count ahead log).1,
        (w.take source count ahead log).2.1.registers context,
        (w.take source count ahead log).2.2) := by
  unfold Registers.take? Window.take
  rw [sound.available?_eq, sound.load?_eq]
  by_cases there : count ≤ w.available
  · simp only [Option.isNone_some, Bool.false_eq_true, if_false, Option.bind_eq_bind,
      Option.bind_some, if_pos there, sound.consume?_eq there]
    rfl
  · rcases loading : w.load source count ahead log with ⟨error | _, v, log'⟩
    · simp only [Option.isNone_some, Bool.false_eq_true, if_false, Option.bind_eq_bind,
        Option.bind_some, if_neg there]
      rfl
    · obtain ⟨sound', -, -, there'⟩ := sound.load loading
      simp only [Option.isNone_some, Bool.false_eq_true, if_false, Option.bind_eq_bind,
        Option.bind_some, if_neg there, sound'.consume?_eq (there' rfl)]
      rfl

theorem loaded_available (sound : w.Sound) :
    w.loaded w.available = w.buffer.slice w.cursor w.filled := by
  rw [Window.loaded, available, Nat.add_sub_cancel' sound.cursor_le_filled, Nat.min_self]

/-- The terminator of the registers ends the loaded string of the window. -/
theorem terminator?_eq (sound : w.Sound) :
    (w.registers context).terminator? =
      some (w.loadedString?.map fun text => w.cursor + text.length) := by
  have chunk : w.buffer.slice? w.cursor w.filled = some (w.loaded w.available) := by
    rw [Buffer.slice?_of_le sound.cursor_le_filled sound.filled_le_capacity,
      sound.loaded_available]
  simp only [Registers.terminator?, Option.bind_eq_bind, chunk, Option.bind_some]
  cases found : w.loadedString? with
  | none =>
      have endless : ¬ ((w.loaded w.available).takeWhile (· ≠ 0)).length <
          (w.loaded w.available).length := by
        intro shorter
        simp only [loadedString?, if_pos shorter] at found
        cases found
      rw [if_neg endless]
      rfl
  | some text =>
      have inside := sound.loadedString found
      have start := sound.cursor_le_filled
      have loaded := sound.loaded_le_stop
      have narrowed := sound.stop_le_limit
      have small := sound.limit_le_max
      simp only [available] at inside
      have sum : Word.add? w.cursor text.length = some (w.cursor + text.length) :=
        Word.add?_of_le (by omega)
      obtain ⟨ends, rfl⟩ := loadedString?_eq_some.mp found
      rw [if_pos ends, sum]
      rfl

/-- Taking the loaded string of the registers takes the one of the window. -/
theorem consumeString?_eq {text : List UInt8} (sound : w.Sound)
    (found : w.loadedString? = some text) :
    (w.registers context).consumeString? (w.cursor + text.length) =
      some (text,
        ({ w with cursor := w.cursor + text.length + 1 } : Window).registers context) := by
  have inside := sound.loadedString found
  have start := sound.cursor_le_filled
  have loaded := sound.loaded_le_stop
  have room := sound.filled_le_capacity
  have narrowed := sound.stop_le_limit
  have small := sound.limit_le_max
  simp only [available, capacity] at inside room
  have sum : Word.add? (w.cursor + text.length) 1 = some (w.cursor + text.length + 1) :=
    Word.add?_of_le (by omega)
  have slice : w.buffer.slice? w.cursor (w.cursor + text.length) = some text := by
    have first : text <+: w.buffer.slice w.cursor w.filled := by
      rw [← sound.loaded_available, ← (loadedString?_eq_some.mp found).2]
      exact List.takeWhile_prefix _
    rw [Buffer.slice?_of_le (Nat.le_add_right _ _) (by omega),
      Buffer.slice_eq_take _ _ (show w.cursor + text.length ≤ w.filled by omega),
      ← List.prefix_iff_eq_take.mp first]
  simp only [Registers.consumeString?, Option.bind_eq_bind, Option.bind_some, sum, slice]
  rfl

/-- Taking a string from the registers as it lies in the buffer takes it so from the window. -/
theorem loadedString?_eq (sound : w.Sound) (source : Source) (log : AccessLog) :
    (w.registers context).loadedString? source log =
      some ((Reader.takeLoadedString source ⟨some w, context⟩ log).1,
        (Reader.takeLoadedString source ⟨some w, context⟩ log).2.1.registers,
        (Reader.takeLoadedString source ⟨some w, context⟩ log).2.2) := by
  have remaining : Word.sub? w.stop w.offset = some w.remaining :=
    Word.sub?_of_le sound.toPlace.offset_le_stop
  unfold Registers.loadedString? Reader.takeLoadedString
  rw [sound.offset?_eq, sound.terminator?_eq, sound.load?_eq]
  cases found : w.loadedString? with
  | some text =>
      simp only [Option.isNone_some, Bool.false_eq_true, if_false, Option.bind_eq_bind,
        Option.bind_some, Option.map_some, sound.consumeString?_eq found, found]
      rfl
  | none =>
      by_cases ended : w.remaining = 0
      · simp only [Option.isNone_some, Bool.false_eq_true, if_false, Option.bind_eq_bind,
          Option.bind_some, Option.map_none, remaining, if_pos ended, found]
        rfl
      · rcases loading : w.load source 1 .buffer log with ⟨error | _, v, log'⟩
        · simp only [Option.isNone_some, Bool.false_eq_true, if_false, Option.bind_eq_bind,
            Option.bind_some, Option.map_none, remaining, if_neg ended, found, loading]
          rfl
        · obtain ⟨sound', place, -, -⟩ := sound.load loading
          have offset : v.offset = w.offset := congrArg Place.offset place
          cases found' : v.loadedString? with
          | some text =>
              simp only [Option.isNone_some, Bool.false_eq_true, if_false, Option.bind_eq_bind,
                Option.bind_some, Option.map_none, Option.map_some, remaining, if_neg ended, found,
                loading, sound'.terminator?_eq, sound'.consumeString?_eq found', found']
              rfl
          | none =>
              simp only [Option.isNone_some, Bool.false_eq_true, if_false, Option.bind_eq_bind,
                Option.bind_some, Option.map_none, remaining, if_neg ended, found, loading,
                sound'.terminator?_eq, found', offset]
              rfl

end Window.Sound

namespace Reader

variable {reader : Reader}

/-- Binding the registers binds the reader. -/
theorem registers_bind (buffer : Buffer) (range : Section) (fileSize : Nat) :
    (Reader.bind buffer range fileSize).2.registers = Registers.bind buffer range fileSize := by
  unfold Reader.bind bound checkCapacity Window.open? Registers.bind
  by_cases small : buffer.capacity < minimumCapacity
  · simp only [if_pos small]
    rfl
  · by_cases empty : range.isEmpty || decide (min range.stop fileSize ≤ range.offset)
    · simp only [if_neg small, if_pos empty]
      rfl
    · simp only [if_neg small, if_neg empty]
      rfl

/-- Binding the registers to another section binds the reader to it. -/
theorem registers_rebind (range : Section) (reader : Reader) :
    (match reader.rebind range with
      | .ok rebound => rebound
      | .error _ => reader).registers = reader.registers.rebind range := by
  obtain ⟨_ | w, context⟩ := reader
  · rfl
  · by_cases empty : range.isEmpty || decide (min range.stop w.fileSize ≤ range.offset)
    · simp only [rebind, Window.open?, if_pos empty]
      exact (if_pos empty).symm
    · simp only [rebind, Window.open?, if_neg empty]
      exact (if_neg empty).symm

namespace Sound

theorem ordered (sound : reader.Sound) : reader.registers.Ordered := by
  obtain ⟨_ | w, context⟩ := reader
  · constructor
    · exact fun _ => rfl
    · exact fun bound => absurd rfl bound
    · exact fun bound => absurd rfl bound
    all_goals exact Nat.zero_le _
  · exact (sound w rfl).ordered

/-- The registers of a sound reader reply as the reader does. -/
theorem serve?_eq (sound : reader.Sound) (source : Source) (query : Query) (log : AccessLog) :
    Registers.serve? source query (reader.registers, log) =
      some ((Reader.serve source query (reader, log)).1,
        (Reader.serve source query (reader, log)).2.1.registers,
        (Reader.serve source query (reader, log)).2.2) := by
  obtain ⟨_ | w, context⟩ := reader
  · cases query <;> rfl
  · have sound := sound w rfl
    cases query with
    | view => 
        simp only [Registers.serve?, registers, sound.view?_eq]
        rfl
    | take count ahead => exact sound.take?_eq source count ahead log
    | seek target =>
        simp only [Registers.serve?, registers, sound.seek?_eq]
        rfl
    | narrow stop =>
        simp only [Registers.serve?, registers, sound.narrow?_eq]
        rfl
    | record context => rfl

theorem loadedString?_eq (sound : reader.Sound) (source : Source) (log : AccessLog) :
    reader.registers.loadedString? source log =
      some ((reader.takeLoadedString source log).1,
        (reader.takeLoadedString source log).2.1.registers,
        (reader.takeLoadedString source log).2.2) := by
  obtain ⟨_ | w, context⟩ := reader
  · rfl
  · exact (sound w rfl).loadedString?_eq source log

/-- A NUL can be looked for in the registers of a sound reader, and the string before it taken. -/
theorem scannable (sound : reader.Sound) :
    ∃ found, reader.registers.terminator? = some found ∧
      ∀ terminator ∈ found, (reader.registers.consumeString? terminator).isSome := by
  obtain ⟨_ | w, context⟩ := reader
  · exact ⟨none, rfl, fun terminator absent => nomatch absent⟩
  · refine ⟨_, (sound w rfl).terminator?_eq, fun terminator there => ?_⟩
    obtain ⟨text, found, rfl⟩ := Option.map_eq_some_iff.mp there
    exact Option.isSome_of_mem ((sound w rfl).consumeString?_eq found)

theorem skip?_eq (sound : reader.Sound) (source : Source) (count : Nat) (log : AccessLog) :
    reader.registers.skip? count =
      some ((reader.run source (Decode.skip count).run log).1,
        (reader.run source (Decode.skip count).run log).2.1.registers) := by
  obtain ⟨_ | w, context⟩ := reader
  · rfl
  · exact (sound w rfl).skip?_eq count

end Sound

end Reader

end Dwarf
