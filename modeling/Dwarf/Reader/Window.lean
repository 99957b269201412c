import Dwarf.Query
import Dwarf.Reader.Buffer
import Dwarf.Section
/-!
# The loaded window of a bound reader

A bound reader keeps part of its section in a buffer and loads more when bytes are needed that
are not there.

## Implementation notes

The buffer keeps its contents between loads: a source that claims more than it delivers makes old
bytes count as loaded.  A load gives up what was loaded before it asks the source, so a failed
load leaves nothing to take.  Moves inside the loaded part keep it, and moves outside it only
note the new position.
-/

namespace Dwarf

/-- A buffer over part of a section, and the window that bounds its reader. -/
structure Window where
  /-- The buffer, of which a first part is loaded. -/
  buffer : Buffer
  /-- The file offset of the first byte of the buffer. -/
  base : Nat
  /-- The index of the next byte in the buffer. -/
  cursor : Nat
  /-- The number of loaded bytes, from the start of the buffer. -/
  filled : Nat
  /-- The file offset of the first byte of the section. -/
  first : Nat
  /-- The end of the window. -/
  stop : Nat
  /-- The end of the section inside the file. -/
  limit : Nat
  /-- The size that the file is said to have. -/
  fileSize : Nat
  deriving DecidableEq, Repr

namespace Window

/-- The capacity of the buffer. -/
def capacity (w : Window) : Nat := w.buffer.capacity

/-- The file offset of the next byte. -/
def offset (w : Window) : Nat := w.base + w.cursor

/-- The number of bytes between the position and the end of the window. -/
def remaining (w : Window) : Nat := w.stop - w.offset

/-- The number of loaded bytes that were not taken yet. -/
def available (w : Window) : Nat := w.filled - w.cursor

/-- A window over a whole section, with nothing loaded.  The section must have a byte inside the
file. -/
def open? (buffer : Buffer) (range : Section) (fileSize : Nat) : Except Error Window :=
  let stop := min range.stop fileSize
  if range.isEmpty || decide (stop ≤ range.offset) then .error (.emptySection range.offset)
  else .ok ⟨buffer, range.offset, 0, 0, range.offset, stop, stop, fileSize⟩

/-- Moves to a file offset between the start of the section and the end of the window. -/
def seek (target : Nat) (w : Window) : Except Error Window :=
  if w.first ≤ target ∧ target ≤ w.stop then
    if w.base ≤ target ∧ target ≤ w.base + w.filled then
      .ok { w with cursor := target - w.base }
    else
      .ok { w with base := target, cursor := 0, filled := 0 }
  else
    .error (.outsideWindow (Word.saturate target) w.first w.stop)

/-- A move that succeeds ends at its target. -/
theorem offset_of_seek {target : Nat} {w moved : Window} (h : w.seek target = .ok moved) :
    moved.offset = target := by
  unfold seek at h
  split at h
  · split at h
    · cases h
      simp only [offset]
      omega
    · cases h
      rfl
  · cases h

/-- Moves the end of the window, which forgets loaded bytes behind it. -/
def narrow (stop : Nat) (w : Window) : Except Error Window :=
  if w.offset ≤ stop ∧ stop ≤ w.limit then
    .ok { w with stop := stop, filled := min w.filled (stop - w.base) }
  else
    .error (.outsideWindow stop w.offset w.limit)

theorem offset_of_narrow {stop : Nat} {w narrowed : Window} (h : w.narrow stop = .ok narrowed) :
    narrowed.offset = w.offset ∧ narrowed.stop = stop := by
  unfold narrow at h
  split at h
  · cases h
    exact ⟨rfl, rfl⟩
  · cases h

/-- Loads bytes from the position on, at least as many as are needed. -/
def load (source : Source) (needed : Nat) (ahead : Ahead) (w : Window) (log : AccessLog) :
    Except Error Unit × Window × AccessLog :=
  if w.remaining < needed then (.error (.tooFewBytes w.offset needed w.remaining), w, log)
  else if w.capacity < needed then (.error (.smallBuffer w.capacity needed), w, log)
  else
    let position := w.offset
    let length := min w.remaining (ahead.limit needed w.capacity)
    let emptied := { w with base := position, cursor := 0, filled := 0 }
    match source.answer log.size position length with
    | .failed failure =>
      let residue := source.residue log.size position length
      (.error (.access position length failure),
        { emptied with buffer := w.buffer.write (residue.extract 0 length) },
        log.push ⟨position, length, .error failure⟩)
    | .delivered bytes claimed =>
      let got := min claimed length
      let loaded :=
        { emptied with
          buffer := w.buffer.write (bytes.extract 0 length)
          filled := got }
      (if got < needed then .error (.shortDelivery position needed got) else .ok (), loaded,
        log.push ⟨position, length, .ok claimed⟩)

/-- The loaded bytes from the position on, at most as many as asked for. -/
def loaded (w : Window) (count : Nat) : List UInt8 :=
  w.buffer.slice w.cursor (min w.filled (w.cursor + count))

/-- Takes bytes, and loads first if too few of them are there. -/
def take (source : Source) (count : Nat) (ahead : Ahead) (w : Window) (log : AccessLog) :
    Except Error (List UInt8) × Window × AccessLog :=
  if count ≤ w.available then (.ok (w.loaded count), { w with cursor := w.cursor + count }, log)
  else
    match w.load source count ahead log with
    | (.error error, w, log) => (.error error, w, log)
    | (.ok (), w, log) => (.ok (w.loaded count), { w with cursor := w.cursor + count }, log)

/-- The loaded bytes before the first NUL, if there is one. -/
def loadedString? (w : Window) : Option (List UInt8) :=
  let bytes := w.loaded w.available
  let text := bytes.takeWhile (· ≠ 0)
  if text.length < bytes.length then some text else none

end Window

end Dwarf
