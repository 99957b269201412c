import Dwarf.Proofs.Registers
import Dwarf.Proofs.Shifts
/-!
# Pools in registers

A register file holds the registers of all readers of a pool.  Tasks on it are checked at every sum,
difference and slice, and no check ever fails: after any tasks, over any source, the register file
is that of the pool, and the registers of every reader are in order.

## Implementation notes

The source may fail, fall short, and claim more than it was asked for.  A register file that is not
that of a pool of sound readers cannot arise, so nothing is said of one.
-/

namespace Dwarf

/-- The registers of readers over one file, and the accesses they made. -/
structure RegisterFile (ι : Type) where
  /-- The registers of the readers. -/
  readers : ι → Registers
  /-- The accesses of all readers, oldest first. -/
  log : AccessLog

variable {ι : Type} [DecidableEq ι] {source : Source} {pool : Pool ι}

/-- A pool in registers. -/
def Pool.registers (pool : Pool ι) : RegisterFile ι :=
  ⟨fun i => (pool.readers i).registers, pool.log⟩

namespace RegisterFile

/-- The registers of unbound readers. -/
def unbound : RegisterFile ι := ⟨fun _ => .unbound, #[]⟩

/-- A register file with other registers in one place. -/
def set (file : RegisterFile ι) (i : ι) (registers : Registers) (log : AccessLog) :
    RegisterFile ι :=
  ⟨Function.update file.readers i registers, log⟩

/-- Replies to one request, by the registers that are seated at its table. -/
def serve? (source : Source) (seat : Table → ι) (request : Request) (file : RegisterFile ι) :
    Option (request.Reply × RegisterFile ι) := do
  let (reply, registers, log) ←
    Registers.serve? source request.query (file.readers (seat request.table), file.log)
  pure (reply, file.set (seat request.table) registers log)

/-- Performs a task. -/
def perform? (source : Source) : Task ι → RegisterFile ι → Option (RegisterFile ι)
  | .bind i buffer range fileSize, file =>
    some (file.set i (Registers.bind buffer range fileSize) file.log)
  | .rebind i range, file => some (file.set i ((file.readers i).rebind range) file.log)
  | .disable i, file => some (file.set i .unbound file.log)
  | .loadedString i, file => do
    let (_, registers, log) ← (file.readers i).loadedString? source file.log
    pure (file.set i registers log)
  | .inquire seat inquiry, file => do
    let (_, file) ← inquiry.run? (serve? source seat) file
    pure file

/-- Performs tasks in order. -/
def performAll? (source : Source) (tasks : List (Task ι)) (file : RegisterFile ι) :
    Option (RegisterFile ι) :=
  tasks.foldlM (fun file task => file.perform? source task) file

end RegisterFile

namespace Pool

theorem registers_update (pool : Pool ι) (i : ι) (reader : Reader) (log : AccessLog) :
    registers ⟨Function.update pool.readers i reader, log⟩ =
      pool.registers.set i reader.registers log := by
  have readers : (fun j => (Function.update pool.readers i reader j).registers) =
      Function.update (fun j => (pool.readers j).registers) i reader.registers :=
    Function.comp_update Reader.registers pool.readers i reader
  simp only [registers, RegisterFile.set, readers]

namespace Reachable

theorem serve?_eq (reached : pool.Reachable source) (seat : Table → ι) (request : Request) :
    RegisterFile.serve? source seat request pool.registers =
      some ((Pool.serve source seat request pool).1,
        (Pool.serve source seat request pool).2.registers) := by
  simp only [RegisterFile.serve?, registers,
    (reached (seat request.table)).sound.serve?_eq source request.query pool.log,
    Option.bind_eq_bind, Option.bind_some]
  exact congrArg (fun file => some (_, file)) (registers_update pool _ _ _).symm

theorem run?_eq {α : Type} (reached : pool.Reachable source) (seat : Table → ι)
    (inquiry : Inquiry α) :
    inquiry.run? (RegisterFile.serve? source seat) pool.registers =
      some ((pool.run source seat inquiry).1, (pool.run source seat inquiry).2.registers) :=
  Dialogue.run?_eq registers (Pool.Reachable source)
    (fun request _ reached => ⟨reached.serve?_eq seat request, reached.serve seat request⟩)
    inquiry reached

/-- A task does to the registers of readers that can be reached what it does to the pool. -/
theorem perform?_eq (reached : pool.Reachable source) (task : Task ι) :
    pool.registers.perform? source task = some (task.perform source pool).registers := by
  cases task with
  | bind i buffer range fileSize =>
      rw [Task.perform, Pool.set, registers_update, Reader.registers_bind]
      rfl
  | rebind i range =>
      have rebound := Reader.registers_rebind range (pool.readers i)
      rw [RegisterFile.perform?, Task.perform,
        show pool.registers.readers i = (pool.readers i).registers from rfl, ← rebound]
      cases (pool.readers i).rebind range with
      | ok reader => exact congrArg some (registers_update pool i reader pool.log).symm
      | error error =>
          have same : Function.update pool.registers.readers i (pool.readers i).registers =
              pool.registers.readers := Function.update_eq_self i pool.registers.readers
          rw [RegisterFile.set, same]
  | disable i =>
      rw [Task.perform, Pool.set, registers_update]
      rfl
  | loadedString i =>
      simp only [RegisterFile.perform?, Task.perform, registers_update]
      rw [show pool.registers.readers i = (pool.readers i).registers from rfl,
        (reached i).sound.loadedString?_eq source]
      rfl
  | inquire seat inquiry =>
      rw [RegisterFile.perform?, reached.run?_eq]
      rfl

/-- Tasks do to the registers of readers that can be reached what they do to the pool. -/
theorem performAll?_eq (reached : pool.Reachable source) (tasks : List (Task ι)) :
    pool.registers.performAll? source tasks =
      some (Task.performAll source tasks pool).registers := by
  induction tasks generalizing pool with
  | nil => rfl
  | cons task rest ih =>
      rw [RegisterFile.performAll?, List.foldlM_cons, reached.perform?_eq]
      exact ih (Task.reachable_perform reached task)

end Reachable

end Pool

namespace Task

/-- Whatever is done with readers and whatever the source answers, no sum and no difference leaves
the range of a word, no slice leaves its buffer and no shift is too far: checked at each of them,
the registers go through all tasks to those of the pool, and they are in order there.  So the
position lies in the window. -/
theorem registers_in_order (source : Source) (tasks : List (Task ι)) :
    let pool := performAll source tasks Pool.unbound
    RegisterFile.unbound.performAll? source tasks = some pool.registers ∧
      ∀ i, (pool.registers.readers i).Ordered ∧
        ((pool.readers i).view.first ≤ (pool.readers i).view.offset ∧
          (pool.readers i).view.offset ≤ (pool.readers i).view.stop) ∧
        (∃ found, (pool.registers.readers i).terminator? = some found ∧
          ∀ terminator ∈ found,
            ((pool.registers.readers i).consumeString? terminator).isSome) ∧
        (∀ count, (pool.registers.readers i).skip? count =
          some (((pool.readers i).run source (Decode.skip count).run pool.log).1,
            ((pool.readers i).run source (Decode.skip count).run pool.log).2.1.registers)) ∧
        ∀ start,
          (pool.readers i).run source (Decode.unsignedShifts start 10 0 0).run pool.log =
              (pool.readers i).run source (some <$> Decode.unsignedGroups start 9).run pool.log ∧
            (pool.readers i).run source (Decode.signedShifts start 10 0 0).run pool.log =
              (pool.readers i).run source (some <$> Decode.signedGroups start 9).run pool.log := by
  intro pool
  have reached : pool.Reachable source := reachable_performAll Pool.reachable_unbound tasks
  have sound (i : ι) : (pool.readers i).Sound := (reached i).sound
  refine ⟨Pool.reachable_unbound.performAll?_eq tasks, fun i =>
    ⟨(sound i).ordered, (sound i).offset_in_window, (sound i).scannable, ?_, ?_⟩⟩
  · exact fun count => (sound i).skip?_eq source count pool.log
  · exact fun offset => ⟨Decode.alike_unsigned offset source _ pool.log (sound i),
      Decode.alike_signed offset source _ pool.log (sound i)⟩

end Task

end Dwarf
