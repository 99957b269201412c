import Dwarf.Proofs.Delivery
import Dwarf.Proofs.Standing
/-!
# Tasks

Readers are bound, bound again and disabled, they take strings as these lie in their buffers, and
they answer inquiries.  Everything that is done with the readers of a pool is a sequence of such
tasks, and every sequence leads to readers that can be reached.

## Implementation notes

An inquiry may be any: one action of one reader, a table of abbreviations, a walk or a header of a
line program.  So what holds behind all tasks holds between the queries of a decoder too, which are
the end of a shorter inquiry.
-/

namespace Dwarf

namespace Reader

variable {source : Source}

/-- Whatever a buffer holds, binding a reader brings about one that can be reached: a buffer that is
too small leaves it unbound. -/
theorem reachable_bind (buffer : Buffer) (range : Section) (fileSize : Nat) :
    Reachable source (Reader.bind buffer range fileSize).2 := by
  simp only [bind]
  split
  · rename_i reader bound
    exact .bound bound
  · exact .unbound

theorem Reachable.serve {reader : Reader} (reached : Reachable source reader) (query : Query)
    (log : AccessLog) : Reachable source (Reader.serve source query (reader, log)).2.1 :=
  reached.run (Dialogue.ask query .done) log

end Reader

variable {ι : Type} {source : Source} {pool : Pool ι}

namespace Pool

/-- All readers can be reached. -/
def Reachable (source : Source) (pool : Pool ι) : Prop :=
  ∀ i, (pool.readers i).Reachable source

theorem Reachable.sound (reached : pool.Reachable source) : pool.Sound := fun i => (reached i).sound

theorem reachable_unbound : Reachable source (unbound : Pool ι) := fun _ => .unbound

variable [DecidableEq ι]

theorem Reachable.update {reader : Reader} (reached : pool.Reachable source) (i : ι)
    (log : AccessLog) (h : reader.Reachable source) :
    Reachable source ⟨Function.update pool.readers i reader, log⟩ := by
  intro j
  by_cases same : j = i
  · subst same
    simpa only [Function.update_self] using h
  · simpa only [Function.update_of_ne same] using reached j

theorem Reachable.serve (reached : pool.Reachable source) (seat : Table → ι) (request : Request) :
    (Pool.serve source seat request pool).2.Reachable source :=
  reached.update _ _ ((reached _).serve request.query _)

theorem Reachable.run {α : Type} (reached : pool.Reachable source) (seat : Table → ι)
    (inquiry : Inquiry α) : (pool.run source seat inquiry).2.Reachable source :=
  inquiry.run_keeps (Reachable source) (fun request _ reached => reached.serve seat request) reached

end Pool

/-- An inquiry whose answer is dropped. -/
def Inquiry.silent {α : Type} (inquiry : Inquiry α) : Inquiry Unit := (fun _ => ()) <$> inquiry

/-- What is done with the readers of a pool. -/
inductive Task (ι : Type) where
  /-- Binds a reader to a section of a file that is said to have some size, or leaves it unbound. -/
  | bind (reader : ι) (buffer : Buffer) (range : Section) (fileSize : Nat)
  /-- Binds a bound reader to another section. -/
  | rebind (reader : ι) (range : Section)
  /-- Makes a reader unbound. -/
  | disable (reader : ι)
  /-- Takes a string as it lies in the buffer of a reader. -/
  | loadedString (reader : ι)
  /-- Puts an inquiry to the readers that are seated at the tables. -/
  | inquire (seat : Table → ι) (inquiry : Inquiry Unit)

variable [DecidableEq ι]

namespace Task

/-- Performs a task on a pool. -/
def perform (source : Source) : Task ι → Pool ι → Pool ι
  | .bind i buffer range fileSize, pool => pool.set i (Reader.bind buffer range fileSize).2
  | .rebind i range, pool =>
    match (pool.readers i).rebind range with
    | .ok reader => pool.set i reader
    | .error _ => pool
  | .disable i, pool => pool.set i .unbound
  | .loadedString i, pool =>
    let (_, reader, log) := (pool.readers i).takeLoadedString source pool.log
    ⟨Function.update pool.readers i reader, log⟩
  | .inquire seat inquiry, pool => (pool.run source seat inquiry).2

/-- Performs tasks in order. -/
def performAll (source : Source) (tasks : List (Task ι)) (pool : Pool ι) : Pool ι :=
  tasks.foldl (fun pool task => task.perform source pool) pool

/-- Every task leads to readers that can be reached. -/
theorem reachable_perform (reached : pool.Reachable source) (task : Task ι) :
    (task.perform source pool).Reachable source := by
  cases task with
  | bind i buffer range fileSize =>
      exact reached.update i pool.log (Reader.reachable_bind buffer range fileSize)
  | rebind i range =>
      simp only [perform]
      split
      · rename_i rebound h
        exact reached.update i pool.log ((reached i).rebind h)
      · exact reached
  | disable i => exact reached.update i pool.log .unbound
  | loadedString i => exact reached.update i _ ((reached i).takeLoadedString pool.log)
  | inquire seat inquiry => exact reached.run seat inquiry

theorem reachable_performAll (reached : pool.Reachable source) (tasks : List (Task ι)) :
    (performAll source tasks pool).Reachable source := by
  induction tasks generalizing pool with
  | nil => exact reached
  | cons task rest ih => exact ih (reachable_perform reached task)

end Task

namespace Call

/-- A call as a task. -/
def task : Call ι → Task ι
  | .plain (.bind i scratch range fileSize) => .bind i scratch.buffer range fileSize
  | .plain (.rebind i range) => .rebind i range
  | .plain (.disable i) => .disable i
  | .plain (.act i action) => .inquire (fun _ => i) (Inquiry.silent (action.decoder.on .info))
  | .plain (.stringValue i strings lineStrings form) =>
    .inquire (seating i strings lineStrings) (Inquiry.silent (Consult.stringValue .info form))
  | .plain (.indexedString i strings base index format) =>
    .inquire (seating i strings i) (Inquiry.silent (Consult.indexedString base index format))
  | .bytes i count => .inquire (fun _ => i) (Inquiry.silent ((Decode.bytes count).on .info))
  | .loadedString i => .loadedString i

/-- A call does to a pool what its task does. -/
theorem perform_task (source : Source) (call : Call ι) (pool : Pool ι) :
    call.task.perform source pool = (call.perform source pool).2 := by
  have silent {α β : Type} (seat : Table → ι) (f : α → β) (inquiry : Inquiry α) :
      (pool.run source seat inquiry.silent).2 = (pool.run source seat (f <$> inquiry)).2 := by
    simp only [Pool.run, Inquiry.silent, Dialogue.run_map]
  have decoded {α : Type} (i : ι) (decoder : Decoder α) :
      (pool.run source (fun _ => i) (Inquiry.silent (decoder.on .info))).2 =
        (pool.decode source i decoder).2 := by
    rw [silent _ id, id_map, Pool.run_on]
  cases call with
  | plain operation =>
      cases operation with
      | bind i scratch range fileSize => rfl
      | rebind i range =>
          simp only [task, Task.perform, perform, Operation.perform]
          cases (pool.readers i).rebind range with
          | ok reader => rfl
          | error error => rfl
      | disable i => rfl
      | act i action => exact decoded i action.decoder
      | stringValue i strings lineStrings form => exact silent _ Outcome.ofTransfer _
      | indexedString i strings base index format => exact silent _ Outcome.ofTransfer _
  | bytes i count =>
      refine (decoded i (Decode.bytes count)).trans ?_
      simp only [perform, Pool.decode_map]
  | loadedString i => rfl

end Call

end Dwarf
