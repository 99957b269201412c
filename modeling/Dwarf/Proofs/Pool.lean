import Dwarf.Proofs.Licence
import Dwarf.Proofs.Reader
/-!
# Pools of readers

A pool holds any number of readers over one file.  A seating tells which reader serves which table
of an inquiry; the direct pool holds the direct readers.  Inquiries that obey licences without bulk
are served by both alike.
-/

namespace Dwarf

/-- Readers over one file, and the accesses they made. -/
structure Pool (ι : Type) where
  /-- The readers. -/
  readers : ι → Reader
  /-- The accesses of all readers, oldest first. -/
  log : AccessLog

/-- Direct readers over one file. -/
abbrev DirectPool (ι : Type) := ι → DirectReader

variable {ι : Type} [DecidableEq ι] {α : Type}

namespace Pool

/-- Replies to one request, by the reader that is seated at its table. -/
def serve (source : Source) (seat : Table → ι) (request : Request) (pool : Pool ι) :
    request.Reply × Pool ι :=
  let (reply, reader, log) :=
    Reader.serve source request.query (pool.readers (seat request.table), pool.log)
  (reply, ⟨Function.update pool.readers (seat request.table) reader, log⟩)

/-- Runs an inquiry on the readers that are seated at the tables. -/
def run (source : Source) (seat : Table → ι) (inquiry : Inquiry α) (pool : Pool ι) :
    α × Pool ι :=
  inquiry.run (serve source seat) pool

/-- Runs a decoder on one reader. -/
def decode (source : Source) (reader : ι) (decoder : Decoder α) (pool : Pool ι) : α × Pool ι :=
  let (answer, moved, log) := Reader.run source decoder (pool.readers reader) pool.log
  (answer, ⟨Function.update pool.readers reader moved, log⟩)

/-- The direct readers that stand where the readers stand. -/
def direct (pool : Pool ι) : DirectPool ι := fun i => (pool.readers i).direct

/-- All readers are sound. -/
def Sound (pool : Pool ι) : Prop := ∀ i, (pool.readers i).Sound

/-- All readers are sound and show an image. -/
structure Faithful (image : Array UInt8) (pool : Pool ι) : Prop where
  sound : pool.Sound
  shows : ∀ i, (pool.readers i).Shows image

end Pool

namespace DirectPool

/-- Replies to one request, by the reader that is seated at its table. -/
def serve (image : Array UInt8) (seat : Table → ι) (request : Request) (pool : DirectPool ι) :
    request.Reply × DirectPool ι :=
  let (reply, reader) := DirectReader.serve image request.query (pool (seat request.table))
  (reply, Function.update pool (seat request.table) reader)

/-- Runs an inquiry on the readers that are seated at the tables. -/
def run (image : Array UInt8) (seat : Table → ι) (inquiry : Inquiry α) (pool : DirectPool ι) :
    α × DirectPool ι :=
  inquiry.run (serve image seat) pool

/-- Runs a decoder on one reader. -/
def decode (image : Array UInt8) (reader : ι) (decoder : Decoder α) (pool : DirectPool ι) :
    α × DirectPool ι :=
  let (answer, moved) := (pool reader).run image decoder
  (answer, Function.update pool reader moved)

theorem decode_map {β : Type} (image : Array UInt8) (reader : ι) (f : α → β) (decoder : Decoder α)
    (pool : DirectPool ι) :
    pool.decode image reader (f <$> decoder) =
      (f (pool.decode image reader decoder).1, (pool.decode image reader decoder).2) := by
  simp only [decode, DirectReader.run, Dialogue.run_map]

theorem run_on (image : Array UInt8) (seat : Table → ι) (table : Table) (decoder : Decoder α)
    (pool : DirectPool ι) :
    run image seat (decoder.on table) pool = decode image (seat table) decoder pool := by
  induction decoder generalizing pool with
  | done answer =>
      exact congrArg (Prod.mk answer) (Function.update_eq_self (seat table) pool).symm
  | ask query next ih =>
      have step := ih (DirectReader.serve image query (pool (seat table))).1
        (serve image seat ⟨table, query⟩ pool).2
      simp only [decode, serve, Function.update_self, Function.update_idem] at step
      exact step

end DirectPool

namespace Pool

variable {source : Source} {image : Array UInt8} {seat : Table → ι} {pool : Pool ι}

theorem decode_map {β : Type} (source : Source) (reader : ι) (f : α → β) (decoder : Decoder α)
    (pool : Pool ι) :
    pool.decode source reader (f <$> decoder) =
      (f (pool.decode source reader decoder).1, (pool.decode source reader decoder).2) := by
  simp only [decode, Reader.run, Dialogue.run_map]

/-- Running a decoder on a table runs it on the reader that is seated there. -/
theorem run_on (source : Source) (seat : Table → ι) (table : Table) (decoder : Decoder α)
    (pool : Pool ι) :
    pool.run source seat (decoder.on table) = pool.decode source (seat table) decoder := by
  induction decoder generalizing pool with
  | done answer =>
      have same : Function.update pool.readers (seat table) (pool.readers (seat table)) =
          pool.readers := Function.update_eq_self _ _
      simp only [decode, Reader.run, Decoder.on]
      exact congrArg (fun readers => (answer, (⟨readers, pool.log⟩ : Pool ι))) same.symm
  | ask query next ih =>
      have step := ih (Reader.serve source query (pool.readers (seat table), pool.log)).1
        (serve source seat ⟨table, query⟩ pool).2
      simp only [decode, serve, Function.update_self, Function.update_idem] at step
      exact step

theorem Sound.update {reader : Reader} (sound : pool.Sound) (i : ι) (log : AccessLog)
    (h : reader.Sound) : Sound ⟨Function.update pool.readers i reader, log⟩ := by
  intro j
  by_cases same : j = i
  · subst same
    simpa only [Function.update_self] using h
  · simpa only [Function.update_of_ne same] using sound j

/-- A pool stays faithful when one of its readers is replaced by a faithful one. -/
theorem Faithful.update {reader : Reader} (faithful : pool.Faithful image) (i : ι)
    (log : AccessLog) (sound : reader.Sound) (shows : reader.Shows image) :
    Faithful image ⟨Function.update pool.readers i reader, log⟩ := by
  constructor
  · exact faithful.sound.update i log sound
  · intro j
    by_cases same : j = i
    · subst same
      simpa only [Function.update_self] using shows
    · simpa only [Function.update_of_ne same] using faithful.shows j

theorem direct_update (reader : Reader) (i : ι) (log : AccessLog) :
    direct ⟨Function.update pool.readers i reader, log⟩ =
      Function.update pool.direct i reader.direct := by
  ext j : 1
  by_cases same : j = i
  · subst same
    simp only [direct, Function.update_self]
  · simp only [direct, Function.update_of_ne same]

theorem Faithful.serve (faithful : pool.Faithful image) (truthful : source.Truthful image)
    (seat : Table → ι) (request : Request) :
    (Pool.serve source seat request pool).2.Faithful image :=
  faithful.update _ _ ((faithful.sound _).serve source request.query _)
    ((faithful.shows _).serve (faithful.sound _) truthful request.query _)

theorem Faithful.run (faithful : pool.Faithful image) (truthful : source.Truthful image)
    (seat : Table → ι) (inquiry : Inquiry α) : (pool.run source seat inquiry).2.Faithful image :=
  inquiry.run_keeps (Faithful image)
    (fun request _ faithful => faithful.serve truthful seat request) faithful

end Pool

end Dwarf
