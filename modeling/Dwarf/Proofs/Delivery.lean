import Dwarf.Proofs.LongReads
import Dwarf.Proofs.Transparency
/-!
# What is delivered is what the file holds

Over a truthful source, which may fail or fall short at any access, every call that succeeds does
so on the direct readers too, with the same outcome and the same positions.  A fixed-width read that
fails leaves the direct readers where they were, so a later success is that of the first attempt.
-/

namespace Dwarf

/-- The outcome of a read that delivers all of a string or nothing. -/
def Outcome.ofString : Except Error (List UInt8) → Outcome
  | .ok text => ⟨.ok .nothing, text⟩
  | .error error => ⟨.error error, []⟩

/-- Whether an action reads a value of a fixed width. -/
def Action.IsFixedWidth : Action → Prop
  | .value _ | .unsigned _ | .offset _ => True
  | _ => False

/-- All that callers can do with the readers of a pool. -/
inductive Call (ι : Type) where
  /-- An operation. -/
  | plain (operation : Operation ι)
  /-- Reads a number of bytes. -/
  | bytes (reader : ι) (count : Nat)
  /-- Reads a string as it lies in the buffer. -/
  | loadedString (reader : ι)

namespace Decode

/-- A step that leaves the direct reader where it was when it fails. -/
def Steady {α : Type} (step : Decode α) : Prop :=
  ∀ (source : Source) (reader : Reader) (log : AccessLog), reader.Sound →
    Failed (reader.run source step.run log).1 →
      (reader.run source step.run log).2.1.direct = reader.direct

variable {α β : Type}

theorem steady_take (count : Nat) : Steady (take count) := by
  rintro source reader log sound ⟨error, failed⟩
  rcases taking : reader.take source count .buffer log with ⟨result, moved, log'⟩
  have ran : reader.run source (take count).run log = (result, moved, log') := taking
  rw [ran] at failed ⊢
  subst failed
  exact (sound.take taking).2.2

theorem steady_throw (error : Error) : Steady (throw error : Decode α) := fun _ _ _ _ _ => rfl

theorem Steady.bind_pure {step : Decode α} (steady : Steady step) (f : α → β) :
    Steady (step >>= fun answer => pure (f answer)) := by
  intro source reader log sound failed
  have ran := steady source reader log sound
  simp only [Reader.run, Dialogue.runStep_bind] at failed ran ⊢
  generalize step.run.run (Reader.serve source) (reader, log) = reached at failed ran ⊢
  obtain ⟨_ | answer, moved⟩ := reached
  · exact ran ⟨_, rfl⟩
  · obtain ⟨error, lost⟩ := failed
    cases lost

theorem steady_unsigned (width : Nat) : Steady (unsigned width) := (steady_take width).bind_pure _

theorem steady_unsignedChecked (width : Nat) : Steady (unsignedChecked width) := by
  simp only [unsignedChecked]
  split
  · exact steady_unsigned width
  · exact steady_throw _

end Decode

theorem Outcome.direct_of_fails {α : Type} {step : Decode α} (steady : step.Steady)
    (wrap : α → Value) {source : Source} {reader : Reader} (sound : reader.Sound) (log : AccessLog)
    (fails : (reader.run source (ofStep wrap step) log).1.Fails) :
    (reader.run source (ofStep wrap step) log).2.1.direct = reader.direct := by
  have ran := steady source reader log sound
  simp only [Reader.run, ofStep, Dialogue.run_map] at fails ran ⊢
  generalize step.run.run (Reader.serve source) (reader, log) = reached at fails ran ⊢
  obtain ⟨_ | answer, moved⟩ := reached
  · exact ran ⟨_, rfl⟩
  · obtain ⟨error, lost⟩ := fails
    cases lost

theorem Action.direct_of_fails {action : Action} (fixed : action.IsFixedWidth) {source : Source}
    {reader : Reader} (sound : reader.Sound) (log : AccessLog)
    (fails : (reader.run source action.decoder log).1.Fails) :
    (reader.run source action.decoder log).2.1.direct = reader.direct := by
  cases action with
  | value type =>
      exact Outcome.direct_of_fails ((Decode.steady_unsigned _).bind_pure _) _ sound log fails
  | unsigned width =>
      exact Outcome.direct_of_fails (Decode.steady_unsignedChecked width) _ sound log fails
  | offset format =>
      exact Outcome.direct_of_fails (Decode.steady_unsigned _) _ sound log fails
  | _ => exact absurd fixed id

namespace Call

variable {ι : Type} [DecidableEq ι] {source : Source} {image : Array UInt8} {pool : Pool ι}

/-- Performs a call on a pool. -/
def perform (source : Source) : Call ι → Pool ι → Outcome × Pool ι
  | .plain operation, pool => operation.perform source pool
  | .bytes i count, pool => pool.decode source i (Outcome.ofTransfer <$> Decode.bytes count)
  | .loadedString i, pool =>
    let (result, reader, log) := (pool.readers i).takeLoadedString source pool.log
    (.ofString result, ⟨Function.update pool.readers i reader, log⟩)

/-- Performs a call on a direct pool, which has no buffers for a string to lie in. -/
def performDirect (image : Array UInt8) : Call ι → DirectPool ι → Outcome × DirectPool ι
  | .plain operation, pool => operation.performDirect image pool
  | .bytes i count, pool => pool.decode image i (Outcome.ofTransfer <$> Decode.bytes count)
  | .loadedString i, pool => pool.decode image i (Outcome.ofTransfer <$> Decode.string)

/-- Performs calls in order. -/
def performAll (source : Source) (calls : List (Call ι)) (pool : Pool ι) : Pool ι :=
  calls.foldl (fun pool call => (call.perform source pool).2) pool

theorem faithful_perform (faithful : pool.Faithful image) (truthful : source.Truthful image)
    (call : Call ι) : (call.perform source pool).2.Faithful image := by
  cases call with
  | plain operation => exact Operation.faithful_perform faithful truthful operation
  | bytes i count =>
      rw [perform, ← Pool.run_on source (fun _ => i) .info]
      exact faithful.run truthful _ _
  | loadedString i =>
      rcases taking : (pool.readers i).takeLoadedString source pool.log with ⟨result, moved, log⟩
      have sound := (faithful.sound i).takeLoadedString taking
      have shows := ((faithful.shows i).takeLoadedString (faithful.sound i) truthful taking).1
      simp only [perform, taking]
      exact faithful.update i log sound shows

theorem faithful_performAll (faithful : pool.Faithful image) (truthful : source.Truthful image)
    (calls : List (Call ι)) : (performAll source calls pool).Faithful image := by
  induction calls generalizing pool with
  | nil => exact faithful
  | cons call rest ih => exact ih (faithful_perform faithful truthful call)

/-- Over a truthful source, a call that succeeds does so on the direct readers, with the same
outcome and the same positions behind it. -/
theorem direct_of_ok (faithful : pool.Faithful image) (truthful : source.Truthful image)
    (call : Call ι) {value : Value} (success : (call.perform source pool).1.result = .ok value) :
    call.performDirect image pool.direct =
      ((call.perform source pool).1, (call.perform source pool).2.direct) := by
  cases call with
  | plain operation =>
      have performed := Operation.perform_direct faithful truthful truthful.matches operation
      refine performed.resolve_left ?_
      rintro ⟨-, error, failed⟩
      exact absurd (failed.symm.trans success) (by simp)
  | bytes i count =>
      rcases taking : (pool.readers i).run source (Decode.bytes count) pool.log with
        ⟨⟨bytes, failure⟩, moved, log⟩
      have performed : perform source (.bytes i count) pool =
          (.ofTransfer ⟨bytes, failure⟩, ⟨Function.update pool.readers i moved, log⟩) := by
        rw [perform, Pool.decode_map, Pool.decode, taking]
      rw [performed] at success ⊢
      cases failure with
      | some error => cases success
      | none =>
          have direct : (pool.direct i).run image (Decode.bytes count) =
              (⟨bytes, none⟩, moved.direct) :=
            (faithful.shows i).run_bytes (faithful.sound i) truthful count taking rfl
          rw [performDirect, DirectPool.decode_map, DirectPool.decode, direct, Pool.direct_update]
  | loadedString i =>
      rcases taking : (pool.readers i).takeLoadedString source pool.log with ⟨result, moved, log⟩
      have performed : perform source (.loadedString i) pool =
          (.ofString result, ⟨Function.update pool.readers i moved, log⟩) := by
        simp only [perform, taking]
      rw [performed] at success ⊢
      cases result with
      | error error => cases success
      | ok text =>
          have direct : (pool.direct i).run image Decode.string = (⟨text, none⟩, moved.direct) :=
            ((faithful.shows i).takeLoadedString (faithful.sound i) truthful taking).2 text rfl
          rw [performDirect, DirectPool.decode_map, DirectPool.decode, direct, Pool.direct_update]
          rfl

theorem direct_of_fails (sound : pool.Sound) (i : ι) {action : Action}
    (fixed : action.IsFixedWidth)
    (fails : (perform source (.plain (.act i action)) pool).1.Fails) :
    (perform source (.plain (.act i action)) pool).2.direct = pool.direct := by
  have stays := Action.direct_of_fails fixed (sound i) pool.log fails
  simp only [perform, Operation.perform, Pool.decode, Pool.direct_update, stays]
  exact Function.update_eq_self i pool.direct

/-- Fixed-width reads that fail one after another leave the direct readers where they were. -/
theorem direct_performAll_of_fails (faithful : pool.Faithful image)
    (truthful : source.Truthful image) (i : ι) {action : Action} (fixed : action.IsFixedWidth)
    (attempts : Nat)
    (fails : ∀ earlier < attempts, (perform source (.plain (.act i action))
      (performAll source (List.replicate earlier (.plain (.act i action))) pool)).1.Fails) :
    (performAll source (List.replicate attempts (.plain (.act i action))) pool).direct =
      pool.direct := by
  induction attempts generalizing pool with
  | zero => rfl
  | succ attempts ih =>
      let read : Call ι := .plain (.act i action)
      calc (performAll source (List.replicate (attempts + 1) read) pool).direct
          = (perform source read pool).2.direct :=
            ih (faithful_perform faithful truthful read)
              fun earlier small => fails (earlier + 1) (Nat.succ_lt_succ small)
        _ = pool.direct :=
            direct_of_fails faithful.sound i fixed (fails 0 (Nat.succ_pos attempts))

/-- Over a truthful source, whatever was done to the readers before: a call that succeeds does so
on the direct readers too, with the same outcome and the same positions behind it, and a fixed-width
read that succeeds behind any number of failed attempts does so from where the first attempt
stood. -/
theorem ok_eq_direct (truthful : source.Truthful image) (past : List (Call ι)) :
    let pool := performAll source past .unbound
    (∀ (call : Call ι) (value : Value), (call.perform source pool).1.result = .ok value →
      call.performDirect image pool.direct =
        ((call.perform source pool).1, (call.perform source pool).2.direct)) ∧
      ∀ (i : ι) (action : Action) (attempts : Nat) (value : Value), action.IsFixedWidth →
        let read : Call ι := .plain (.act i action)
        let tried (count : Nat) : Pool ι := performAll source (List.replicate count read) pool
        (∀ earlier < attempts, (read.perform source (tried earlier)).1.Fails) →
          (read.perform source (tried attempts)).1.result = .ok value →
            read.performDirect image pool.direct =
              ((read.perform source (tried attempts)).1,
                (read.perform source (tried attempts)).2.direct) := by
  have faithful : (performAll source past .unbound).Faithful image :=
    faithful_performAll (Pool.faithful_unbound image) truthful past
  refine ⟨fun call value success => direct_of_ok faithful truthful call success, ?_⟩
  intro i action attempts value fixed read tried fails success
  have stood : (tried attempts).direct = (performAll source past .unbound).direct :=
    direct_performAll_of_fails faithful truthful i fixed attempts fails
  rw [← stood]
  exact direct_of_ok (faithful_performAll faithful truthful _) truthful read success

/-- A read of two bytes that is interrupted first and tried again gives what it would have given
directly from where it stood. -/
theorem ok_eq_direct_interrupted :
    let image : Array UInt8 := #[1, 2, 3, 4]
    let source := Source.faulty image ⟨none, 0, [(.call 0, .interrupted)]⟩
    let past : List (Call Unit) :=
      [.plain (.bind () ⟨.zeroed 16, Nat.le_refl 16⟩ ⟨0, 4⟩ 4), .plain (.act () (.skip 1))]
    let pool := performAll source past .unbound
    let read : Call Unit := .plain (.act () (.unsigned 2))
    source.Truthful image ∧
      (read.perform source pool).1.result = .error (.access 1 3 .interrupted) ∧
        (read.performDirect image pool.direct).1.result = .ok (.number 770) := by
  intro image source past pool read
  have truthful : source.Truthful image := Source.truthful_faulty image _ rfl
  have failed : (read.perform source pool).1.result = .error (.access 1 3 .interrupted) := by
    simp only [read, pool, past, source, image]
    decide +kernel
  have succeeded : (read.perform source (performAll source [read] pool)).1.result =
      .ok (.number 770) := by
    simp only [read, pool, past, source, image]
    decide +kernel
  clear_value source past
  have retried := (ok_eq_direct truthful past).2 () (.unsigned 2) 1 (.number 770) trivial
    (fun earlier small => Nat.lt_one_iff.mp small ▸ ⟨_, failed⟩) succeeded
  refine ⟨truthful, failed, ?_⟩
  rw [retried]
  exact succeeded

end Call

end Dwarf
