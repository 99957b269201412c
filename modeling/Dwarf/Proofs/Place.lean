import Dwarf.Reader.Basic
/-!
# Reading without a buffer

A place is a position in a section together with the bounds of its reader.  A direct reader keeps
a place and takes bytes straight from an image; it serves the queries that a buffered reader
serves, so it runs the same decoders.
-/

namespace Dwarf

/-- A position in a section, and the bounds around it. -/
structure Place where
  /-- The file offset of the next byte. -/
  offset : Nat
  /-- The file offset of the first byte of the section. -/
  first : Nat
  /-- The end of the window. -/
  stop : Nat
  /-- The end of the section inside the file. -/
  limit : Nat
  /-- The size that the file is said to have. -/
  fileSize : Nat
  deriving DecidableEq, Repr

namespace Place

/-- The number of bytes between the position and the end of the window. -/
def remaining (place : Place) : Nat := place.stop - place.offset

/-- The place at the start of a whole section, which must have a byte inside the file. -/
def open? (range : Section) (fileSize : Nat) : Except Error Place :=
  let stop := min range.stop fileSize
  if range.isEmpty || decide (stop ≤ range.offset) then .error (.emptySection range.offset)
  else .ok ⟨range.offset, range.offset, stop, stop, fileSize⟩

/-- Moves to a file offset between the start of the section and the end of the window. -/
def seek (target : Nat) (place : Place) : Except Error Place :=
  if place.first ≤ target ∧ target ≤ place.stop then .ok { place with offset := target }
  else .error (.outsideWindow (Word.saturate target) place.first place.stop)

/-- Moves the end of the window. -/
def narrow (stop : Nat) (place : Place) : Except Error Place :=
  if place.offset ≤ stop ∧ stop ≤ place.limit then .ok { place with stop := stop }
  else .error (.outsideWindow stop place.offset place.limit)

/-- Takes bytes of an image, all or none. -/
def take (image : Array UInt8) (count : Nat) (place : Place) :
    Except Error (List UInt8) × Place :=
  let bytes := Source.imageBytes image place.offset count
  if place.remaining < count then
    (.error (.tooFewBytes place.offset count place.remaining), place)
  else if bytes.size < count then (.error (.shortDelivery place.offset count bytes.size), place)
  else (.ok bytes.toList, { place with offset := place.offset + count })

/-- The bounds of a place are in order. -/
structure Sound (place : Place) : Prop where
  first_le_offset : place.first ≤ place.offset
  offset_le_stop : place.offset ≤ place.stop
  stop_le_limit : place.stop ≤ place.limit
  first_lt_limit : place.first < place.limit
  limit_le_fileSize : place.limit ≤ place.fileSize
  limit_le_max : place.limit ≤ Word.max

/-- The section of a place, which no query changes. -/
structure Bounds where
  /-- The file offset of the first byte of the section. -/
  first : Nat
  /-- The end of the section inside the file. -/
  limit : Nat
  /-- The size that the file is said to have. -/
  fileSize : Nat
  deriving DecidableEq, Repr

/-- The section of a place. -/
def bounds (place : Place) : Bounds := ⟨place.first, place.limit, place.fileSize⟩

theorem eq_of_bounds {place place' : Place} (bounds : place'.bounds = place.bounds)
    (stop : place'.stop = place.stop) : place' = { place with offset := place'.offset } := by
  obtain ⟨offset', first, stop', limit, fileSize⟩ := place'
  simp only [Place.bounds, Bounds.mk.injEq] at bounds stop
  rw [bounds.1, bounds.2.1, bounds.2.2, stop]

theorem sound_of_open {range : Section} {fileSize : Nat} {place : Place}
    (h : open? range fileSize = .ok place) : place.Sound := by
  have saturated : range.stop ≤ Word.max := Word.saturate_le _
  simp only [open?] at h
  split at h
  · cases h
  · rename_i opened
    simp only [Bool.or_eq_true, decide_eq_true_eq, not_or, Nat.not_le] at opened
    cases h
    constructor <;> dsimp only <;> omega

theorem seek_eq_ok_iff {target : Nat} {place moved : Place} :
    place.seek target = .ok moved ↔
      place.first ≤ target ∧ target ≤ place.stop ∧ moved = { place with offset := target } := by
  simp only [seek]
  split
  · rename_i inside
    simp [inside, eq_comm]
  · rename_i outside
    simp only [reduceCtorEq, false_iff]
    rintro ⟨first_le, le_stop, -⟩
    exact outside ⟨first_le, le_stop⟩

theorem narrow_eq_ok_iff {stop : Nat} {place narrowed : Place} :
    place.narrow stop = .ok narrowed ↔
      place.offset ≤ stop ∧ stop ≤ place.limit ∧ narrowed = { place with stop := stop } := by
  simp only [narrow]
  split
  · rename_i inside
    simp [inside, eq_comm]
  · rename_i outside
    simp only [reduceCtorEq, false_iff]
    rintro ⟨offset_le, le_limit, -⟩
    exact outside ⟨offset_le, le_limit⟩

end Place

/-- The place of a window. -/
def Window.place (w : Window) : Place := ⟨w.offset, w.first, w.stop, w.limit, w.fileSize⟩

/-- A reader of one section without a buffer. -/
structure DirectReader where
  /-- The place of a bound reader. -/
  place : Option Place
  /-- What has been learnt about the unit being decoded. -/
  context : Context
  deriving DecidableEq, Repr

namespace DirectReader

/-- The reader that is bound to nothing. -/
def unbound : DirectReader := ⟨none, .unknown⟩

/-- Binds a reader anew; a reader that cannot be bound is unbound. -/
def bind (range : Section) (fileSize : Nat) : Except Error Unit × DirectReader :=
  match Place.open? range fileSize with
  | .ok place => (.ok (), ⟨some place, .unknown⟩)
  | .error error => (.error error, unbound)

/-- Binds a bound reader to another section of the same file and forgets the context. -/
def rebind (range : Section) (reader : DirectReader) : Except Error DirectReader :=
  match reader.place with
  | none => .error .unbound
  | some place => do
    let opened ← Place.open? range place.fileSize
    pure ⟨some opened, .unknown⟩

/-- What can be seen of a reader; an unbound one stands at zero. -/
def view (reader : DirectReader) : View :=
  match reader.place with
  | none => ⟨false, 0, 0, 0, 0, 0, reader.context⟩
  | some place =>
    ⟨true, place.offset, place.first, place.stop, place.limit, Word.max, reader.context⟩

/-- Changes the place of a bound reader, or leaves the reader as it was. -/
def changePlace (change : Place → Except Error Place) (reader : DirectReader) :
    Except Error Unit × DirectReader :=
  match reader.place with
  | none => (.error .unbound, reader)
  | some place =>
    match change place with
    | .error error => (.error error, reader)
    | .ok place => (.ok (), { reader with place := some place })

/-- Takes bytes with a bound reader. -/
def take (image : Array UInt8) (count : Nat) (reader : DirectReader) :
    Except Error (List UInt8) × DirectReader :=
  match reader.place with
  | none => (.error .unbound, reader)
  | some place =>
    let (bytes, place) := place.take image count
    (bytes, { reader with place := some place })

/-- Replies to one query. -/
def serve (image : Array UInt8) : (query : Query) → DirectReader → query.Reply × DirectReader
  | .view, reader => (reader.view, reader)
  | .take count _, reader => reader.take image count
  | .seek target, reader => reader.changePlace (Place.seek target)
  | .narrow stop, reader => reader.changePlace (Place.narrow stop)
  | .record context, reader => ((), { reader with context })

/-- Runs a decoder on a reader. -/
def run {α : Type} (image : Array UInt8) (decoder : Decoder α) (reader : DirectReader) :
    α × DirectReader :=
  decoder.run (serve image) reader

/-- The section that a reader is bound to. -/
def bounds (reader : DirectReader) : Option Place.Bounds := reader.place.map Place.bounds

/-- Readers that are bound to the same section have places in it alike. -/
theorem place_of_bounds {reader moved : DirectReader} {place' : Place}
    (h : moved.bounds = reader.bounds) (placed : moved.place = some place') :
    ∃ place, reader.place = some place ∧ place'.first = place.first ∧
      place'.limit = place.limit ∧ place'.fileSize = place.fileSize := by
  rw [bounds, bounds, placed] at h
  cases before : reader.place with
  | none =>
      rw [before] at h
      cases h
  | some place =>
      rw [before] at h
      simp only [Option.map_some, Option.some.injEq, Place.bounds, Place.Bounds.mk.injEq] at h
      exact ⟨place, rfl, h⟩

/-- The bounds of a reader are in order, if it has any. -/
def Sound (reader : DirectReader) : Prop := ∀ place, reader.place = some place → place.Sound

end DirectReader

/-- The reader that stands where a buffered reader stands. -/
def Reader.direct (reader : Reader) : DirectReader :=
  ⟨reader.window.map Window.place, reader.context⟩

end Dwarf
