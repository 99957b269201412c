import Dwarf.Proofs.Accesses
/-!
# Lazy and thrifty actions

Moves, changes of the window and recorded sizes are lazy: they make no access, and leave all loading
to the next read.  A read of a fixed width is thrifty: it makes one access at most, and none when
its bytes are loaded.
-/

namespace Dwarf

/-- Whether an action leaves all loading to others. -/
def Action.IsLazy : Action → Prop
  | .setFormat _ | .setAddressSize _ | .setVersion _ => True
  | .skip _ | .seek _ | .seekInSection _ | .narrow _ | .widen => True
  | _ => False

/-- Whether an operation leaves all loading to others. -/
def Operation.IsLazy {ι : Type} : Operation ι → Prop
  | .bind _ _ _ _ | .rebind _ _ | .disable _ => True
  | .act _ action => action.IsLazy
  | _ => False

/-- The number of bytes that an action reads at once, in a context, if it reads no others. -/
def Action.width? (context : Context) : Action → Option Nat
  | .value fixed => some fixed.type.bytes
  | .unsigned width => some width
  | .offset format => some format.wordSize
  | .sectionOffset => some ((context.format.map Format.wordSize).getD 0)
  | .address => some (context.addressSize.getD 0)
  | .readAddressSize => some 1
  | _ => none

namespace Decode

/-- A step that makes no access. -/
def Idle {α : Type} (step : Decode α) : Prop :=
  ∀ (source : Source) (reader : Reader) (log : AccessLog),
    (reader.run source step.run log).2.2 = log

/-- A step that makes one access at most, and none if so many bytes are loaded. -/
def Thrifty {α : Type} (width : Context → Nat) (step : Decode α) : Prop :=
  ∀ (source : Source) (reader : Reader) (log : AccessLog), reader.Sound →
    (reader.run source step.run log).2.2 = log ∨
      reader.available < width reader.context ∧
        ∃ access, (reader.run source step.run log).2.2 = log.push access

variable {α β : Type} {width : Context → Nat}

section Idle

theorem idle_pure (answer : α) : Idle (pure answer) := fun _ _ _ => rfl

theorem Idle.bind {first : Decode α} {next : α → Decode β} (h : Idle first)
    (each : ∀ answer, Idle (next answer)) : Idle (first >>= next) := by
  intro source reader log
  have kept := h source reader log
  simp only [Reader.run, Dialogue.runStep_bind] at kept ⊢
  rcases ran : first.run.run (Reader.serve source) (reader, log) with
    ⟨error | answer, reached, log'⟩
  · rw [ran] at kept
    exact kept
  · rw [ran] at kept
    exact (each answer source reached log').trans kept

theorem idle_throw (error : Error) : Idle (throw error : Decode α) := fun _ _ _ => rfl

theorem idle_seek (target : Nat) : Idle (seek target) := fun _ _ _ => rfl

theorem idle_narrow (stop : Nat) : Idle (narrow stop) := fun _ _ _ => rfl

theorem idle_record (change : Context → Context) : Idle (record change) := fun _ _ _ => rfl

theorem idle_view {next : View → Decode α} (h : ∀ seen, Idle (next seen)) : Idle (view >>= next) :=
  fun source reader log => h reader.view source reader log

end Idle

theorem Idle.thrifty {step : Decode α} (h : Idle step) : Thrifty width step :=
  fun source reader log _ => .inl (h source reader log)

theorem thrifty_take (count : Nat) : Thrifty (fun _ => count) (take count) := by
  intro source reader log sound
  rcases taking : reader.take source count .buffer log with ⟨result, moved, log'⟩
  have ran : reader.run source (take count).run log = (result, moved, log') := taking
  rw [ran]
  exact (sound.take_log taking).imp_right fun ⟨missing, access, made, _⟩ => ⟨missing, access, made⟩

theorem thrifty_view {next : View → Decode α}
    (h : ∀ seen, Thrifty (fun _ => width seen.context) (next seen)) :
    Thrifty width (view >>= next) := by
  intro source reader log sound
  have context : reader.view.context = reader.context := by
    obtain ⟨_ | w, context⟩ := reader <;> rfl
  have thrifty := h reader.view source reader log sound
  rw [context] at thrifty
  exact thrifty

theorem Thrifty.bind {first : Decode α} {next : α → Decode β} (h : Thrifty width first)
    (idle : ∀ answer, Idle (next answer)) : Thrifty width (first >>= next) := by
  intro source reader log sound
  have same : (reader.run source (first >>= next).run log).2.2 =
      (reader.run source first.run log).2.2 := by
    simp only [Reader.run, Dialogue.runStep_bind]
    rcases first.run.run (Reader.serve source) (reader, log) with ⟨error | answer, reached, log'⟩
    · rfl
    · exact idle answer source reached log'
  rw [same]
  exact h source reader log sound

theorem thrifty_unsigned (count : Nat) : Thrifty (fun _ => count) (unsigned count) :=
  (thrifty_take count).bind fun _ => idle_pure _

theorem thrifty_unsignedChecked (count : Nat) :
    Thrifty (fun _ => count) (unsignedChecked count) := by
  unfold unsignedChecked
  split
  · exact thrifty_unsigned count
  · exact (idle_throw _).thrifty

theorem thrifty_sectionOffset :
    Thrifty (fun context => (context.format.map Format.wordSize).getD 0) sectionOffset := by
  simp only [sectionOffset, format, bind_assoc]
  refine thrifty_view fun seen => ?_
  cases seen.context.format with
  | some format => exact thrifty_unsigned format.wordSize
  | none => exact (idle_throw _).thrifty

theorem thrifty_address : Thrifty (fun context => context.addressSize.getD 0) address := by
  simp only [address, addressSize, bind_assoc]
  refine thrifty_view fun seen => ?_
  cases seen.context.addressSize with
  | some size => exact thrifty_unsignedChecked size
  | none => exact (idle_throw _).thrifty

theorem idle_recordAddressSize (size : Nat) : Idle (recordAddressSize size) := by
  intro source reader log
  simp only [recordAddressSize, Reader.run, Dialogue.runStep_bind]
  cases checkAddressSize size <;> rfl

end Decode

theorem Outcome.log_ofStep {α : Type} (source : Source) (wrap : α → Value) (step : Decode α)
    (reader : Reader) (log : AccessLog) :
    (reader.run source (Outcome.ofStep wrap step) log).2.2 =
      (reader.run source step.run log).2.2 := by
  simp only [Outcome.ofStep, Reader.run, Dialogue.run_map]

namespace Action

variable {action : Action}

theorem IsLazy.log_eq (lazy : action.IsLazy) (source : Source) (reader : Reader)
    (log : AccessLog) : (reader.run source action.decoder log).2.2 = log := by
  have idle {step : Decode Unit} (h : step.Idle) :
      (reader.run source (Outcome.ofSilent step) log).2.2 = log :=
    (Outcome.log_ofStep source _ step reader log).trans (h source reader log)
  cases action with
  | setFormat format => exact idle (Decode.idle_record _)
  | setAddressSize size => exact idle (Decode.idle_recordAddressSize size)
  | setVersion version => exact idle (Decode.idle_record _)
  | skip count => exact idle (Decode.idle_view fun _ => Decode.idle_seek _)
  | seek target => exact idle (Decode.idle_seek target)
  | seekInSection offset => exact idle (Decode.idle_view fun _ => Decode.idle_seek _)
  | narrow stop => exact idle (Decode.idle_narrow stop)
  | widen => exact idle (Decode.idle_view fun _ => Decode.idle_narrow _)
  | _ => exact lazy.elim

/-- An action of a fixed width makes one access at most, and none if so many bytes are loaded. -/
theorem log_of_width {reader : Reader} {width : Nat} (h : action.width? reader.context = some width)
    (sound : reader.Sound) (source : Source) (log : AccessLog) :
    (reader.run source action.decoder log).2.2 = log ∨
      reader.available < width ∧
        ∃ access, (reader.run source action.decoder log).2.2 = log.push access := by
  have thrifty {α : Type} (wrap : α → Value) {step : Decode α} {widthOf : Context → Nat}
      (h : step.Thrifty widthOf) :
      (reader.run source (Outcome.ofStep wrap step) log).2.2 = log ∨
        reader.available < widthOf reader.context ∧
          ∃ access, (reader.run source (Outcome.ofStep wrap step) log).2.2 = log.push access := by
    rw [Outcome.log_ofStep]
    exact h source reader log sound
  cases action with
  | value fixed =>
      cases h
      exact thrifty _ ((Decode.thrifty_unsigned _).bind fun _ => Decode.idle_pure _)
  | unsigned count =>
      cases h
      exact thrifty _ (Decode.thrifty_unsignedChecked _)
  | offset format =>
      cases h
      exact thrifty _ (Decode.thrifty_unsigned _)
  | sectionOffset =>
      cases h
      exact thrifty _ Decode.thrifty_sectionOffset
  | address =>
      cases h
      exact thrifty _ Decode.thrifty_address
  | readAddressSize =>
      cases h
      refine thrifty _ ((Decode.thrifty_unsigned 1).bind fun size => ?_)
      exact (Decode.idle_recordAddressSize size).bind fun _ => Decode.idle_pure _
  | _ => cases h

end Action

variable {ι : Type} [DecidableEq ι]

theorem Operation.IsLazy.log_eq {operation : Operation ι} (lazy : operation.IsLazy)
    (source : Source) (pool : Pool ι) : (operation.perform source pool).2.log = pool.log := by
  cases operation with
  | bind i scratch range fileSize => rfl
  | rebind i range =>
      simp only [Operation.perform]
      split <;> rfl
  | disable i => rfl
  | act i action => exact Action.IsLazy.log_eq lazy source (pool.readers i) pool.log
  | _ => exact lazy.elim

/-- Whatever is done with readers and whatever the source answers, every access starts at the
position of its reader and stays within the window that is in force, and so do the bytes that a
query delivers.  Behind any tasks, lazy operations make no access, and reads of a fixed width make
one at most, and none for bytes that are loaded. -/
theorem Task.accesses_confined (source : Source) (tasks : List (Task ι)) :
    let notebook := Notebook.unbound.performAll source tasks
    let pool := performAll source tasks Pool.unbound
    notebook.pool = pool ∧ pool.log.toList = notebook.moments.flatMap Moment.accesses ∧
      (∀ moment ∈ notebook.moments, moment.Confined ∧
        ∀ image, source.Truthful image → moment.Shows image) ∧
      (∀ operation : Operation ι, operation.IsLazy →
        (operation.perform source pool).2.log = pool.log) ∧
      ∀ i action width, action.width? (pool.readers i).context = some width →
        let log := (Operation.perform source (.act i action) pool).2.log
        log = pool.log ∨
          (pool.readers i).available < width ∧ ∃ access, log = pool.log.push access := by
  intro notebook pool
  have same : notebook.pool = pool := Notebook.pool_performAll source tasks Notebook.unbound
  have accounts : notebook.Accounts source := Notebook.accounts_unbound.performAll tasks
  refine ⟨same, same ▸ accounts.log_eq, fun moment noted => ⟨accounts.confined moment noted,
    fun image truthful => accounts.shows image truthful moment noted⟩, ?_, ?_⟩
  · exact fun operation lazy => lazy.log_eq source pool
  · intro i action width takes
    have reached : pool.Reachable source := same ▸ accounts.reached
    exact Action.log_of_width takes (reached i).sound source pool.log

end Dwarf
