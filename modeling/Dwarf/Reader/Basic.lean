import Dwarf.Reader.Window
/-!
# Readers

A reader is unbound, or bound to a section through a window.  `Reader.serve` replies to the
queries of a decoder, so running a decoder on a reader is running it against that server.

## Implementation notes

The context is kept apart from the window: it can be recorded on an unbound reader too, and
binding a section forgets it.
-/

namespace Dwarf

/-- A reader of one section. -/
structure Reader where
  /-- The window of a bound reader. -/
  window : Option Window
  /-- What has been learnt about the unit being decoded. -/
  context : Context
  deriving DecidableEq, Repr

namespace Reader

/-- The smallest buffer a reader accepts, which holds the widest value taken at once. -/
def minimumCapacity : Nat := 16

/-- The usual capacity of a buffer, a little less than eight memory pages. -/
def defaultCapacity : Nat := 32 * 1024 - 64

/-- Accepts the capacities that a reader can work with. -/
def checkCapacity (capacity : Nat) : Except Error Nat :=
  if capacity < minimumCapacity then .error (.smallBuffer capacity minimumCapacity)
  else .ok capacity

/-- The reader that is bound to nothing. -/
def unbound : Reader := ⟨none, .unknown⟩

/-- A reader at the start of a section, with a buffer of its own. -/
def bound (buffer : Buffer) (range : Section) (fileSize : Nat) : Except Error Reader := do
  let _ ← checkCapacity buffer.capacity
  let window ← Window.open? buffer range fileSize
  pure ⟨some window, .unknown⟩

/-- Binds a reader anew, whatever it was bound to; a reader that cannot be bound is unbound. -/
def bind (buffer : Buffer) (range : Section) (fileSize : Nat) : Except Error Unit × Reader :=
  match bound buffer range fileSize with
  | .ok reader => (.ok (), reader)
  | .error error => (.error error, unbound)

/-- Binds a bound reader to another section of the same file and forgets the context. -/
def rebind (range : Section) (reader : Reader) : Except Error Reader :=
  match reader.window with
  | none => .error .unbound
  | some w => do
    let window ← Window.open? w.buffer range w.fileSize
    pure ⟨some window, .unknown⟩

/-- What can be seen of a reader; an unbound one stands at zero. -/
def view (reader : Reader) : View :=
  match reader.window with
  | none => ⟨false, 0, 0, 0, 0, 0, reader.context⟩
  | some w => ⟨true, w.offset, w.first, w.stop, w.limit, w.capacity, reader.context⟩

/-- Changes the window of a bound reader, or leaves the reader as it was. -/
def changeWindow (change : Window → Except Error Window) (reader : Reader) :
    Except Error Unit × Reader :=
  match reader.window with
  | none => (.error .unbound, reader)
  | some w =>
    match change w with
    | .error error => (.error error, reader)
    | .ok w => (.ok (), { reader with window := some w })

/-- Takes bytes from a bound reader. -/
def take (source : Source) (count : Nat) (ahead : Ahead) (reader : Reader) (log : AccessLog) :
    Except Error (List UInt8) × Reader × AccessLog :=
  match reader.window with
  | none => (.error .unbound, reader, log)
  | some w =>
    let (bytes, w, log) := w.take source count ahead log
    (bytes, { reader with window := some w }, log)

/-- Replies to one query. -/
def serve (source : Source) : (query : Query) → Reader × AccessLog →
    query.Reply × Reader × AccessLog
  | .view, (reader, log) => (reader.view, reader, log)
  | .take count ahead, (reader, log) => reader.take source count ahead log
  | .seek target, (reader, log) =>
    let (reply, reader) := reader.changeWindow (Window.seek target)
    (reply, reader, log)
  | .narrow stop, (reader, log) =>
    let (reply, reader) := reader.changeWindow (Window.narrow stop)
    (reply, reader, log)
  | .record context, (reader, log) => ((), { reader with context }, log)

/-- Runs a decoder on a reader. -/
def run {α : Type} (source : Source) (decoder : Decoder α) (reader : Reader) (log : AccessLog) :
    α × Reader × AccessLog :=
  decoder.run (serve source) (reader, log)

/-- Takes a string and its NUL as they lie in the buffer, which must hold both. -/
def takeLoadedString (source : Source) (reader : Reader) (log : AccessLog) :
    Except Error (List UInt8) × Reader × AccessLog :=
  match reader.window with
  | none => (.error .unbound, reader, log)
  | some w =>
    let taken (w : Window) (text : List UInt8) : Reader :=
      { reader with window := some { w with cursor := w.cursor + text.length + 1 } }
    match w.loadedString? with
    | some text => (.ok text, taken w text, log)
    | none =>
      if w.remaining = 0 then (.error (.stringWithoutEnd w.offset), reader, log)
      else
        match w.load source 1 .buffer log with
        | (.error error, w, log) => (.error error, { reader with window := some w }, log)
        | (.ok (), w, log) =>
          match w.loadedString? with
          | some text => (.ok text, taken w text, log)
          | none =>
            let error : Error :=
              if w.filled = w.capacity then .stringBeyondBuffer w.offset w.capacity
              else .stringWithoutEnd w.offset
            (.error error, { reader with window := some w }, log)

/-- A short description of the state, for people. -/
def describe (reader : Reader) : String :=
  let seen := reader.view
  let buffered := match reader.window with
    | none => 0
    | some w => w.available
  let some? (text : Option String) : String :=
    match text with
    | none => "None"
    | some text => "Some(" ++ text ++ ")"
  "SectionReader \x7b enabled: " ++ (if seen.isBound then "true" else "false")
    ++ ", offset: " ++ toString seen.offset
    ++ ", begin_offset: " ++ toString seen.first
    ++ ", end_offset: " ++ toString seen.stop
    ++ ", buffered: " ++ toString buffered
    ++ ", offset_size: " ++ some? (seen.context.format.map Format.name)
    ++ ", address_size: " ++ some? (seen.context.addressSize.map toString)
    ++ ", version: " ++ some? (seen.context.version.map toString)
    ++ ", .. \x7d"

end Reader

end Dwarf
