import Dwarf.Proofs.Delivery
import Dwarf.Proofs.Thrift
/-!
# What a failure leaves as it was

A move, a change of the window, a recorded size and a new section either succeed or change nothing
at all.  A read that takes its bytes at once fails with every position and size where it was, though
what was loaded may be gone, so it can be tried again.  A read that judges what it took keeps the
sizes, and a reader that cannot be bound is bound to nothing.

## Implementation notes

An aspect is any function of the state of a reader, so what keeps the whole state and what keeps the
sizes alone goes by the same lemmas.  A part that keeps an aspect whatever comes of it may go on
with parts that keep it only by failing; that is how a read with two parts keeps the sizes.
-/

namespace Dwarf

/-- A change of the window that fails leaves the reader as it was. -/
theorem Reader.changeWindow_of_error {change : Window → Except Error Window} {reader : Reader}
    {error : Error} (h : (reader.changeWindow change).1 = .error error) :
    (reader.changeWindow change).2 = reader := by
  obtain ⟨_ | w, context⟩ := reader
  · rfl
  · simp only [changeWindow] at h ⊢
    cases changed : change w with
    | error error => rfl
    | ok moved =>
        rw [changed] at h
        cases h

namespace Decode

variable {α β ρ : Type} {aspect : Reader × AccessLog → ρ}

/-- A step that keeps an aspect of the state, however it ends. -/
def Spares (aspect : Reader × AccessLog → ρ) (step : Decode α) : Prop :=
  ∀ (source : Source) (state : Reader × AccessLog),
    aspect (step.run.run (Reader.serve source) state).2 = aspect state

/-- A step that keeps an aspect of the state when it fails. -/
def Restores (aspect : Reader × AccessLog → ρ) (step : Decode α) : Prop :=
  ∀ (source : Source) (state : Reader × AccessLog),
    Failed (step.run.run (Reader.serve source) state).1 →
      aspect (step.run.run (Reader.serve source) state).2 = aspect state

theorem Spares.restores {step : Decode α} (spares : Spares aspect step) : Restores aspect step :=
  fun source state _ => spares source state

theorem restores_throw (error : Error) : Restores aspect (throw error : Decode α) :=
  fun _ _ _ => rfl

theorem restores_view {next : View → Decode α} (each : ∀ seen, Restores aspect (next seen)) :
    Restores aspect (view >>= next) :=
  fun source state failed => each state.1.view source state failed

theorem restores_record (change : Context → Context) : Restores aspect (record change) :=
  fun _ _ ⟨_, failed⟩ => nomatch failed

theorem restores_seek (target : Nat) : Restores aspect (seek target) := by
  rintro source ⟨reader, log⟩ ⟨error, failed⟩
  exact congrArg aspect (congrArg (·, log) (Reader.changeWindow_of_error failed))

theorem restores_narrow (stop : Nat) : Restores aspect (narrow stop) := by
  rintro source ⟨reader, log⟩ ⟨error, failed⟩
  exact congrArg aspect (congrArg (·, log) (Reader.changeWindow_of_error failed))

theorem Restores.bind_pure {step : Decode α} (restores : Restores aspect step) (f : α → β) :
    Restores aspect (step >>= fun answer => pure (f answer)) := by
  intro source state failed
  have ran := restores source state
  rw [Dialogue.runStep_bind] at failed ⊢
  generalize step.run.run (Reader.serve source) state = reached at failed ran ⊢
  obtain ⟨_ | answer, moved⟩ := reached
  · exact ran ⟨_, rfl⟩
  · obtain ⟨error, lost⟩ := failed
    cases lost

theorem Spares.restores_bind {first : Decode α} {next : α → Decode β}
    (spares : Spares aspect first) (each : ∀ answer, Restores aspect (next answer)) :
    Restores aspect (first >>= next) := by
  intro source state failed
  have kept := spares source state
  rw [Dialogue.runStep_bind] at failed ⊢
  rcases ran : first.run.run (Reader.serve source) state with ⟨error | answer, reached⟩
  · rw [ran] at kept
    exact kept
  · rw [ran] at kept failed
    exact (each answer source reached failed).trans kept

theorem restores_recordAddressSize (size : Nat) : Restores aspect (recordAddressSize size) := by
  rintro source state failed
  simp only [recordAddressSize, Dialogue.runStep_bind] at failed ⊢
  cases checked : checkAddressSize size with
  | error error => rfl
  | ok size =>
      rw [checked] at failed
      exact restores_record _ source state failed

section Context

/-- What a reader has learnt. -/
def learnt (state : Reader × AccessLog) : Context := state.1.context

/-- Reading an unsigned integer teaches a reader nothing. -/
theorem spares_unsigned (width : Nat) : Spares learnt (unsigned width) := by
  rintro source ⟨reader, log⟩
  have silent : ∀ context, Query.take width .buffer ≠ .record context := fun _ => nofun
  have taken : learnt ((take width).run.run (Reader.serve source) (reader, log)).2 =
      learnt (reader, log) :=
    reader.context_serve source silent log
  rw [unsigned, Dialogue.runStep_bind]
  generalize (take width).run.run (Reader.serve source) (reader, log) = reached at taken ⊢
  obtain ⟨_ | bytes, moved⟩ := reached <;> exact taken

theorem restores_initialLength : Restores learnt initialLength := by
  refine (spares_unsigned 4).restores_bind fun word => ?_
  split
  · exact (restores_record _).bind_pure fun _ => word
  · split
    · exact (spares_unsigned 8).restores_bind fun length => (restores_record _).bind_pure _
    · exact restores_throw _

theorem restores_readAddressSize : Restores learnt readAddressSize :=
  (spares_unsigned 1).restores_bind fun size => (restores_recordAddressSize size).bind_pure _

end Context

theorem steady_view {next : View → Decode α} (each : ∀ seen, Steady (next seen)) :
    Steady (view >>= next) :=
  fun source reader log sound failed => each reader.view source reader log sound failed

theorem steady_sectionOffset : Steady sectionOffset := by
  simp only [sectionOffset, format, bind_assoc]
  refine steady_view fun seen => ?_
  cases seen.context.format with
  | some format => exact steady_unsigned format.wordSize
  | none => exact steady_throw _

theorem steady_address : Steady address := by
  simp only [address, addressSize, bind_assoc]
  refine steady_view fun seen => ?_
  cases seen.context.addressSize with
  | some size => exact steady_unsignedChecked size
  | none => exact steady_throw _

end Decode

theorem Reader.run_stringAt (source : Source) (offset : Nat) (w : Window) (context : Context)
    (log : AccessLog) :
    Reader.run source (Decode.stringAt offset) ⟨some w, context⟩ log =
      Reader.run source (Decode.orFailed (if w.first + offset < w.stop then do
          Decode.seek (w.first + offset)
          ExceptT.lift (Decode.stringAhead Decode.lookupAhead)
        else throw (.outsideWindow (Word.saturate (w.first + offset)) w.first w.stop)))
        ⟨some w, context⟩ log := rfl

theorem Reader.run_stringAt_outside (source : Source) (reader : Reader) (log : AccessLog)
    {offset : Nat} (outside : reader.view.stop ≤ reader.view.first + offset) :
    ∃ error, reader.run source (Decode.stringAt offset) log = (.failed error, reader, log) := by
  obtain ⟨_ | w, context⟩ := reader
  · exact ⟨.unbound, rfl⟩
  · have missed : ¬ w.first + offset < w.stop := Nat.not_lt_of_le outside
    rw [run_stringAt, if_neg missed]
    exact ⟨_, rfl⟩

namespace Outcome

variable {α ρ : Type} {step : Decode α}

theorem appended_ofStep (source : Source) (wrap : α → Value) (step : Decode α) (reader : Reader)
    (log : AccessLog) : (reader.run source (ofStep wrap step) log).1.appended = [] := by
  simp only [ofStep, Reader.run, Dialogue.run_map]
  rfl

/-- What a step keeps when it fails, its operation keeps. -/
theorem kept_of_fails {aspect : Reader × AccessLog → ρ} (restores : step.Restores aspect)
    (wrap : α → Value) (source : Source) (reader : Reader) (log : AccessLog)
    (fails : (reader.run source (ofStep wrap step) log).1.Fails) :
    aspect (reader.run source (ofStep wrap step) log).2 = aspect (reader, log) := by
  have ran := restores source (reader, log)
  simp only [Reader.run, ofStep, Dialogue.run_map] at fails ran ⊢
  generalize step.run.run (Reader.serve source) (reader, log) = reached at fails ran ⊢
  obtain ⟨_ | answer, moved⟩ := reached
  · exact ran ⟨_, rfl⟩
  · obtain ⟨error, lost⟩ := fails
    cases lost

end Outcome

namespace Action

variable {action : Action} {source : Source} {reader : Reader} {log : AccessLog}

/-- Whether an action of a reader that looks so is over before any byte is taken, if it fails. -/
def IsMove (seen : View) : Action → Prop
  | .stringAt position => seen.stop ≤ seen.first + position
  | action => action.IsLazy

/-- Whether an action takes all its bytes at once and accepts whatever they are. -/
def IsRead : Action → Prop
  | .value _ | .unsigned _ | .offset _ | .sectionOffset | .address => True
  | _ => False

/-- Whether an action reads what later reads depend on. -/
def Establishes : Action → Prop
  | .initialLength | .readAddressSize => True
  | _ => False

/-- A move that fails appends nothing and changes nothing. -/
theorem IsMove.run_eq (moves : action.IsMove reader.view)
    (fails : (reader.run source action.decoder log).1.Fails) :
    (reader.run source action.decoder log).1.appended = [] ∧
      (reader.run source action.decoder log).2 = (reader, log) := by
  have silent {step : Decode Unit} (restores : step.Restores id)
      (fails : (reader.run source (Outcome.ofSilent step) log).1.Fails) :
      (reader.run source (Outcome.ofSilent step) log).1.appended = [] ∧
        (reader.run source (Outcome.ofSilent step) log).2 = (reader, log) :=
    ⟨Outcome.appended_ofStep source _ step reader log,
      Outcome.kept_of_fails restores _ source reader log fails⟩
  cases action with
  | setFormat format => exact silent (Decode.restores_record _) fails
  | setAddressSize size => exact silent (Decode.restores_recordAddressSize size) fails
  | setVersion version => exact silent (Decode.restores_record _) fails
  | skip count => exact silent (Decode.restores_view fun _ => Decode.restores_seek _) fails
  | seek target => exact silent (Decode.restores_seek target) fails
  | seekInSection offset =>
      exact silent (Decode.restores_view fun _ => Decode.restores_seek _) fails
  | narrow stop => exact silent (Decode.restores_narrow stop) fails
  | widen => exact silent (Decode.restores_view fun _ => Decode.restores_narrow _) fails
  | stringAt offset =>
      obtain ⟨error, ran⟩ := reader.run_stringAt_outside source log moves
      simp only [decoder, Reader.run, Dialogue.run_map] at ran ⊢
      rw [ran]
      exact ⟨rfl, rfl⟩
  | _ => exact moves.elim

/-- A read that fails appends nothing and leaves the direct reader where it was. -/
theorem IsRead.direct_eq (reads : action.IsRead) (sound : reader.Sound)
    (fails : (reader.run source action.decoder log).1.Fails) :
    (reader.run source action.decoder log).1.appended = [] ∧
      (reader.run source action.decoder log).2.1.direct = reader.direct := by
  have steady {α : Type} {step : Decode α} (steady : step.Steady) (wrap : α → Value)
      (fails : (reader.run source (Outcome.ofStep wrap step) log).1.Fails) :
      (reader.run source (Outcome.ofStep wrap step) log).1.appended = [] ∧
        (reader.run source (Outcome.ofStep wrap step) log).2.1.direct = reader.direct :=
    ⟨Outcome.appended_ofStep source wrap step reader log,
      Outcome.direct_of_fails steady wrap sound log fails⟩
  cases action with
  | value type => exact steady ((Decode.steady_unsigned _).bind_pure _) _ fails
  | unsigned width => exact steady (Decode.steady_unsignedChecked width) _ fails
  | offset format => exact steady (Decode.steady_unsigned _) _ fails
  | sectionOffset => exact steady Decode.steady_sectionOffset _ fails
  | address => exact steady Decode.steady_address _ fails
  | _ => exact reads.elim

theorem Establishes.context_eq (establishes : action.Establishes)
    (fails : (reader.run source action.decoder log).1.Fails) :
    (reader.run source action.decoder log).2.1.context = reader.context := by
  cases action with
  | initialLength =>
      exact Outcome.kept_of_fails Decode.restores_initialLength _ source reader log fails
  | readAddressSize =>
      exact Outcome.kept_of_fails Decode.restores_readAddressSize _ source reader log fails
  | _ => exact establishes.elim

end Action

/-- A string that is not taken from the buffer leaves the direct reader where it was. -/
theorem Reader.Sound.direct_of_takeLoadedString {source : Source} {reader moved : Reader}
    {log log' : AccessLog} {error : Error} (sound : reader.Sound)
    (h : reader.takeLoadedString source log = (.error error, moved, log')) :
    moved.direct = reader.direct := by
  obtain ⟨_ | w, context⟩ := reader
  · cases h
    rfl
  · obtain ⟨v, reached, ⟨text, -, taken, -⟩ | ⟨-, rfl⟩⟩ := takeLoadedString_cases h
    · cases taken
    · have place : v.place = w.place := by
        rcases reached with ⟨rfl, -⟩ | ⟨loading, loads⟩
        · rfl
        · exact ((sound w rfl).load loads).2.1
      exact congrArg (fun place => (⟨some place, context⟩ : DirectReader)) place

namespace Call

variable {ι : Type} [DecidableEq ι] {source : Source} {pool : Pool ι}

/-- Whether a call is over before anything changes, if it fails. -/
def IsMove (pool : Pool ι) : Call ι → Prop
  | .plain (.rebind _ _) => True
  | .plain (.act i action) => action.IsMove (pool.readers i).view
  | _ => False

/-- Whether a call takes all its bytes at once and accepts whatever they are. -/
def IsRead : Call ι → Prop
  | .plain (.act _ action) => action.IsRead
  | .loadedString _ => True
  | _ => False

/-- A move that fails appends nothing and changes nothing. -/
theorem IsMove.perform_eq {call : Call ι} (moves : call.IsMove pool)
    (fails : (call.perform source pool).1.Fails) :
    (call.perform source pool).1.appended = [] ∧ (call.perform source pool).2 = pool := by
  cases call with
  | plain operation =>
      cases operation with
      | rebind i range =>
          simp only [perform, Operation.perform] at fails ⊢
          cases rebound : (pool.readers i).rebind range with
          | error error => exact ⟨rfl, rfl⟩
          | ok reader =>
              rw [rebound] at fails
              obtain ⟨error, failed⟩ := fails
              cases failed
      | act i action =>
          obtain ⟨appended, same⟩ := Action.IsMove.run_eq moves fails
          refine ⟨appended, ?_⟩
          simp only [perform, Operation.perform, Pool.decode, same]
          exact congrArg (fun readers => (⟨readers, pool.log⟩ : Pool ι))
            (Function.update_eq_self i pool.readers)
      | _ => exact moves.elim
  | _ => exact moves.elim

/-- A read that fails appends nothing and leaves the direct readers where they were. -/
theorem IsRead.direct_eq {call : Call ι} (reads : call.IsRead) (sound : pool.Sound)
    (fails : (call.perform source pool).1.Fails) :
    (call.perform source pool).1.appended = [] ∧
      (call.perform source pool).2.direct = pool.direct := by
  cases call with
  | plain operation =>
      cases operation with
      | act i action =>
          obtain ⟨appended, stays⟩ := Action.IsRead.direct_eq reads (sound i) fails
          refine ⟨appended, ?_⟩
          simp only [perform, Operation.perform, Pool.decode, Pool.direct_update, stays]
          exact Function.update_eq_self i pool.direct
      | _ => exact reads.elim
  | loadedString i =>
      rcases taking : (pool.readers i).takeLoadedString source pool.log with ⟨result, moved, log⟩
      simp only [perform, taking] at fails ⊢
      cases result with
      | ok text =>
          obtain ⟨error, failed⟩ := fails
          cases failed
      | error error =>
          refine ⟨rfl, ?_⟩
          rw [Pool.direct_update, (sound i).direct_of_takeLoadedString taking]
          exact Function.update_eq_self i pool.direct
  | _ => exact reads.elim

theorem context_of_fails (i : ι) {action : Action} (establishes : action.Establishes)
    (fails : (perform source (.plain (.act i action)) pool).1.Fails) (j : ι) :
    ((perform source (.plain (.act i action)) pool).2.readers j).context =
      (pool.readers j).context := by
  have kept := establishes.context_eq fails
  simp only [perform, Operation.perform, Pool.decode]
  by_cases same : j = i
  · subst same
    simpa only [Function.update_self] using kept
  · simp only [Function.update_of_ne same]

/-- Whatever a source answers, failures are atomic.  A move, a change of the window, a recorded
size, a new section or a string outside the window that fails appends nothing and changes nothing.
A read at once that fails appends nothing and leaves every position and size, so that over truthful
sources a later success is the one from where the first attempt stood.  A failed initial length or
address size leaves what was learnt, and a reader that cannot be bound is unbound. -/
theorem failures_atomic (source : Source) (sound : pool.Sound) :
    (∀ call : Call ι, call.IsMove pool → (call.perform source pool).1.Fails →
      (call.perform source pool).1.appended = [] ∧ (call.perform source pool).2 = pool) ∧
    (∀ call : Call ι, call.IsRead → (call.perform source pool).1.Fails →
      let failed := (call.perform source pool).2
      (call.perform source pool).1.appended = [] ∧ failed.direct = pool.direct ∧
        ∀ (image : Array UInt8) (retry : Source) (value : Value),
          source.Truthful image → retry.Truthful image → pool.Faithful image →
            (call.perform retry failed).1.result = .ok value →
              call.performDirect image pool.direct =
                ((call.perform retry failed).1, (call.perform retry failed).2.direct)) ∧
    (∀ (i : ι) (action : Action), action.Establishes →
      let call : Call ι := .plain (.act i action)
      (call.perform source pool).1.Fails → ∀ j,
        ((call.perform source pool).2.readers j).context = (pool.readers j).context) ∧
    ∀ (buffer : Buffer) (range : Section) (fileSize : Nat),
      Failed (Reader.bind buffer range fileSize).1 →
        (Reader.bind buffer range fileSize).2 = .unbound := by
  refine ⟨fun call moves fails => moves.perform_eq fails, ?_, ?_, ?_⟩
  · intro call reads fails failed
    obtain ⟨appended, stays⟩ := reads.direct_eq sound fails
    refine ⟨appended, stays, fun image retry value truthful truthful' faithful success => ?_⟩
    rw [← stays]
    exact direct_of_ok (faithful_perform faithful truthful call) truthful' call success
  · exact fun i action establishes fails => context_of_fails i establishes fails
  · rintro buffer range fileSize ⟨error, failed⟩
    simp only [Reader.bind] at failed ⊢
    cases bound : Reader.bound buffer range fileSize with
    | error error => rfl
    | ok reader =>
        rw [bound] at failed
        cases failed

/-- An interrupted read of two bytes leaves the reader at its position, where the second attempt
takes them; a move past the end of the section that is tried first changes nothing. -/
theorem failures_atomic_interrupted :
    let image : Array UInt8 := #[1, 2, 3, 4]
    let source := Source.faulty image ⟨none, 0, [(.call 0, .interrupted)]⟩
    let past : List (Call Unit) :=
      [.plain (.bind () ⟨.zeroed 16, Nat.le_refl 16⟩ ⟨0, 4⟩ 4), .plain (.act () (.skip 1))]
    let pool := performAll source past .unbound
    let move : Call Unit := .plain (.act () (.skip 4))
    let read : Call Unit := .plain (.act () (.unsigned 2))
    (move.perform source pool).2 = pool ∧
      (read.perform source pool).1.result = .error (.access 1 3 .interrupted) ∧
      (read.perform source pool).2.direct = pool.direct ∧
        (read.performDirect image pool.direct).1.result = .ok (.number 770) := by
  intro image source past pool move read
  have truthful : source.Truthful image := Source.truthful_faulty image _ rfl
  have faithful : pool.Faithful image :=
    faithful_performAll (Pool.faithful_unbound image) truthful past
  have refused : (move.perform source pool).1.result = .error (.outsideWindow 5 0 4) := by
    simp only [move, pool, past, source, image]
    decide +kernel
  have failed : (read.perform source pool).1.result = .error (.access 1 3 .interrupted) := by
    simp only [read, pool, past, source, image]
    decide +kernel
  have retried : (read.perform source (read.perform source pool).2).1.result =
      .ok (.number 770) := by
    simp only [read, pool, past, source, image]
    decide +kernel
  clear_value pool source
  obtain ⟨moves, reads, -, -⟩ := failures_atomic source faithful.sound
  obtain ⟨-, stays, again⟩ := reads read trivial ⟨_, failed⟩
  refine ⟨(moves move trivial ⟨_, refused⟩).2, failed, stays, ?_⟩
  rw [again image source _ truthful truthful faithful retried]
  exact retried

end Call

end Dwarf
