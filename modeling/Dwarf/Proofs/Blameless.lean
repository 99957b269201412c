import Dwarf.Proofs.Beside
import Dwarf.Proofs.LongReads
/-!
# Decoders that are not driven wrongly

A decoder on a bound reader fails by no misuse, if the reader knows what the decoder asks for.  What
a decoder records is known behind it, so decoders that learn come before the ones that need what was
learnt.

## Implementation notes

Whatever fails, a reader stays bound.  So there are three conditions on readers: one before, one
behind every end, and one behind success, which may say what was learnt.
-/

namespace Dwarf

open Judgement

namespace Dialogue

variable {Q : Type} {R : Q → Type} {α β X : Type} {serve : (query : Q) → X → R query × X}
variable {Before Anyway Middle After : X → Prop}
variable {blames : α → Error → Prop} {blames' : β → Error → Prop}

/-- From every state as told, a dialogue fails by no misuse; it leaves a state as told anyway, and
one as told unless it fails. -/
def Blameless (serve : (query : Q) → X → R query × X) (Before Anyway After : X → Prop)
    (blames : α → Error → Prop) (dialogue : Dialogue Q R α) : Prop :=
  ∀ x, Before x →
    Anyway (dialogue.run serve x).2 ∧
      (∀ error, blames (dialogue.run serve x).1 error → error.category ≠ .misuse) ∧
        ((∀ error, ¬ blames (dialogue.run serve x).1 error) → After (dialogue.run serve x).2)

namespace Blameless

theorem done {answer : α} (anyway : ∀ x, Before x → Anyway x)
    (allowed : ∀ error, blames answer error → error.category ≠ .misuse) :
    Blameless serve Before Anyway Before blames (pure answer : Dialogue Q R α) :=
  fun x before => ⟨anyway x before, allowed, fun _ => before⟩

theorem fails {answer : α} {error : Error} (anyway : ∀ x, Before x → Anyway x)
    (blamed : blames answer error)
    (allowed : ∀ error, blames answer error → error.category ≠ .misuse) :
    Blameless serve Before Anyway After blames (pure answer : Dialogue Q R α) :=
  fun x before => ⟨anyway x before, allowed, fun clean => absurd blamed (clean error)⟩

/-- A blameless dialogue may go on with some behind its failures and others behind its success. -/
theorem bindEach {first : Dialogue Q R α} {next : α → Dialogue Q R β}
    (begins : first.Blameless serve Before Anyway Middle blames)
    (goes : ∀ answer, (∀ error, ¬ blames answer error) →
      (next answer).Blameless serve Middle Anyway After blames')
    (ends : ∀ answer error, blames answer error →
      (∀ error, blames answer error → error.category ≠ .misuse) →
        (next answer).Blameless serve Anyway Anyway After blames') :
    (first >>= next).Blameless serve Before Anyway After blames' := by
  intro x before
  obtain ⟨anyway, allowed, succeeds⟩ := begins x before
  rw [run_bind]
  by_cases blamed : ∃ error, blames (first.run serve x).1 error
  · obtain ⟨error, blamed⟩ := blamed
    exact ends _ error blamed allowed _ anyway
  · exact goes _ (not_exists.mp blamed) _ (succeeds (not_exists.mp blamed))

theorem andThen {first : Dialogue Q R α} {next : α → Dialogue Q R β}
    (begins : first.Blameless serve Before Anyway Anyway blames)
    (goes : ∀ answer, (∀ error, blames answer error → error.category ≠ .misuse) →
      (next answer).Blameless serve Anyway Anyway After blames') :
    (first >>= next).Blameless serve Before Anyway After blames' :=
  begins.bindEach (fun answer clean => goes answer fun error blamed => absurd blamed (clean error))
    fun answer _ _ => goes answer

theorem bind {first : Dialogue Q R α} {next : α → Dialogue Q R β}
    (begins : first.Blameless serve Before Anyway Middle blames)
    (goes : ∀ answer, (∀ error, ¬ blames answer error) →
      (next answer).Blameless serve Middle Anyway After blames')
    (passes : ∀ answer error, blames answer error → ∃ answer', next answer = .done answer' ∧
      ∀ other, blames' answer' other ↔ blames answer other) :
    (first >>= next).Blameless serve Before Anyway After blames' := by
  refine begins.bindEach goes fun answer error blamed allowed => ?_
  obtain ⟨answer', ends, same⟩ := passes answer error blamed
  rw [ends]
  exact fails (fun _ => id) ((same error).mpr blamed) fun other blamed' =>
    allowed other ((same other).mp blamed')

theorem weaken {Before' Anyway' After' : X → Prop} {dialogue : Dialogue Q R α}
    (h : dialogue.Blameless serve Before Anyway After blames)
    (before : ∀ x, Before' x → Before x) (anyway : ∀ x, Anyway x → Anyway' x)
    (after : ∀ x, After x → After' x) :
    dialogue.Blameless serve Before' Anyway' After' blames :=
  fun x ready => (h x (before x ready)).imp (anyway _) (And.imp_right fun ends clean =>
    after _ (ends clean))

/-- A blameless step may go on with dialogues that blame its errors. -/
theorem stepInto {first : ExceptT Error (Dialogue Q R) α}
    {next : α → ExceptT Error (Dialogue Q R) β} {blames : Except Error β → Error → Prop}
    (begins : first.run.Blameless serve Before Anyway Middle Blames)
    (goes : ∀ answer, (next answer).run.Blameless serve Middle Anyway After blames)
    (errors : ∀ error other, blames (.error error) other ↔ other = error) :
    (first >>= next).run.Blameless serve Before Anyway After blames := by
  refine begins.bind (fun result clean => ?_) ?_
  · cases result with
    | ok answer => exact goes answer
    | error error => exact absurd rfl (clean error)
  · rintro result error ⟨⟩
    exact ⟨.error error, rfl, fun other => (errors error other).trans (blames_error _ _).symm⟩

theorem throw {error : Error} (anyway : ∀ x, Before x → Anyway x)
    (allowed : error.category ≠ .misuse) :
    (MonadExcept.throw error : ExceptT Error (Dialogue Q R) α).run.Blameless serve Before Anyway
      After Blames := by
  refine fails anyway rfl ?_
  rintro _ ⟨⟩
  exact allowed

theorem stepBind {first : ExceptT Error (Dialogue Q R) α}
    {next : α → ExceptT Error (Dialogue Q R) β}
    (begins : first.run.Blameless serve Before Anyway Middle Blames)
    (goes : ∀ answer, (next answer).run.Blameless serve Middle Anyway After Blames) :
    (first >>= next).run.Blameless serve Before Anyway After Blames :=
  begins.stepInto goes blames_error

end Blameless

/-- Being blameless and keeping a condition, as a judgement. -/
def steady (serve : (query : Q) → X → R query × X) (Kept : X → Prop) : Judgement Q R where
  Holds blames dialogue := dialogue.Blameless serve Kept Kept Kept blames

/-- What keeps a condition goes on with what keeps it. -/
instance (Kept : X → Prop) : (steady serve Kept).Lawful where
  done allowed := .done (fun _ => id) allowed
  bind begins goes passes := Blameless.bind begins goes passes

end Dialogue

namespace Window

variable {source : Source} {needed count : Nat} {ahead : Ahead} {w v : Window}
variable {log log' : AccessLog} {error : Error}

/-- Loading no more than the buffer holds fails by no misuse. -/
theorem category_of_load (large : needed ≤ w.capacity)
    (h : w.load source needed ahead log = (.error error, v, log')) : error.category ≠ .misuse := by
  unfold load at h
  split at h
  · cases h
    nofun
  · rw [if_neg (Nat.not_lt_of_le large)] at h
    dsimp only at h
    split at h
    · cases h
      nofun
    · split at h <;> cases h
      nofun

/-- Taking no more than the buffer holds fails by no misuse. -/
theorem category_of_take (large : count ≤ w.capacity)
    {log' : AccessLog} (h : w.take source count ahead log = (.error error, v, log')) :
    error.category ≠ .misuse := by
  unfold take at h
  split at h
  · cases h
  · split at h
    · rename_i failed
      cases h
      exact category_of_load large failed
    · cases h

end Window

namespace Reader

variable {source : Source} {Knows Learns : Context → Prop} {reader : Reader} {log : AccessLog}

/-- A bound reader that knows something. -/
structure Apt (Knows : Context → Prop) (reader : Reader) : Prop where
  sound : reader.Sound
  bound : reader.view.isBound = true
  knows : Knows reader.context

namespace Apt

theorem mono (apt : reader.Apt Knows) (weaker : ∀ context, Knows context → Learns context) :
    reader.Apt Learns := ⟨apt.sound, apt.bound, weaker _ apt.knows⟩

/-- Every query leaves a reader bound, which knows what it knew unless something is recorded. -/
theorem serve (apt : reader.Apt Knows) (source : Source) {query : Query}
    (silent : ∀ context, query ≠ .record context) (log : AccessLog) :
    (Reader.serve source query (reader, log)).2.1.Apt Knows := by
  have leads := leads_serve apt.sound source query log
  have permitted : Licence.Permits ⟨true, true, false, true⟩ 0 query := by
    cases query with
    | record context => exact absurd rfl (silent context)
    | view => trivial
    | take => exact .inl rfl
    | seek => exact .inl rfl
    | narrow => rfl
  have context : (Reader.serve source query (reader, log)).2.1.context = reader.context :=
    leads.context permitted rfl
  refine ⟨apt.sound.serve source query log, ?_, ?_⟩
  · have bound (reader : Reader) : reader.view.isBound = reader.direct.bounds.isSome := by
      obtain ⟨_ | w, context⟩ := reader <;> rfl
    rw [bound, leads.bounds, ← bound]
    exact apt.bound
  · rw [context]
    exact apt.knows

/-- A bound reader takes what its buffer holds, or fails to by no misuse. -/
theorem category_of_take (apt : reader.Apt Knows) {count : Nat} {ahead : Ahead} {error : Error}
    (large : count ≤ reader.view.capacity)
    (h : (reader.take source count ahead log).1 = .error error) : error.category ≠ .misuse := by
  obtain ⟨_ | w, context⟩ := reader
  · cases apt.bound
  · rcases taking : w.take source count ahead log with ⟨result, v, log'⟩
    simp only [take, taking] at h
    subst h
    exact Window.category_of_take large taking

/-- A bound reader has its window changed, or refuses that by no misuse. -/
theorem category_of_changeWindow (apt : reader.Apt Knows) {change : Window → Except Error Window}
    {error : Error} (each : ∀ w, change w = .error error → error.category ≠ .misuse)
    (h : (reader.changeWindow change).1 = .error error) : error.category ≠ .misuse := by
  obtain ⟨_ | w, context⟩ := reader
  · cases apt.bound
  · simp only [changeWindow] at h
    split at h
    · rename_i failed
      cases h
      exact each w failed
    · cases h

theorem minimum_le_capacity (apt : reader.Apt Knows) :
    minimumCapacity ≤ reader.view.capacity := by
  obtain ⟨_ | w, context⟩ := reader
  · cases apt.bound
  · exact (apt.sound w rfl).minimum_le_capacity

theorem record (apt : reader.Apt Knows) {context : Context} (learns : Learns context) :
    Apt Learns { reader with context } where
  sound := apt.sound
  bound := by
    obtain ⟨_ | w, context'⟩ := reader
    · exact apt.bound
    · rfl
  knows := learns

end Apt

/-- A bound reader that knows something, beside its accesses. -/
def Knowing (Knows : Context → Prop) (x : Reader × AccessLog) : Prop := x.1.Apt Knows

end Reader

/-- Whether a context knows the format. -/
def Context.HasFormat (context : Context) : Prop := ∃ format, context.format = some format

/-- Whether a context knows the format and the address size. -/
def Context.HasSizes (context : Context) : Prop :=
  context.HasFormat ∧ ∃ size, context.addressSize = some size

/-- A decoder is blameless on bound readers that know something, and teaches them something unless
it fails. -/
abbrev Decoder.Teaches {α : Type} (source : Source) (Knows Learns : Context → Prop)
    (blames : α → Error → Prop) (decoder : Decoder α) : Prop :=
  decoder.Blameless (Reader.serve source) (Reader.Knowing Knows) (Reader.Knowing fun _ => True)
    (Reader.Knowing Learns) blames

/-- Blameless decoders that record nothing, for readers that know something. -/
def Judgement.knowing (source : Source) (Knows : Context → Prop) : Judgement Query Query.Reply :=
  Dialogue.steady (Reader.serve source) (Reader.Knowing Knows)

namespace Decode

variable {source : Source} {Knows Learns : Context → Prop} {α : Type}

/-- Judged decoders of readers that know something are lawful. -/
instance : (knowing source Knows).Lawful :=
  inferInstanceAs (Dialogue.steady (Reader.serve source) (Reader.Knowing Knows)).Lawful

theorem knowing_ask {query : Query} {blames : query.Reply → Error → Prop}
    (silent : ∀ context, query ≠ .record context)
    (allowed : ∀ reader log, reader.Apt Knows → ∀ error,
      blames (Reader.serve source query (reader, log)).1 error → error.category ≠ .misuse) :
    (knowing source Knows).Holds blames (Dialogue.ask query .done : Decoder query.Reply) := by
  rintro ⟨reader, log⟩ (apt : reader.Apt Knows)
  have kept := apt.serve source silent log
  exact ⟨kept, allowed reader log apt, fun _ => kept⟩

/-- What looks at a bound reader goes on blamelessly if it does so behind everything that a bound
reader shows. -/
theorem blameless_view {Anyway After : Reader × AccessLog → Prop}
    {blames : Except Error α → Error → Prop} {f : View → Decode α}
    (each : ∀ seen, seen.isBound = true → Knows seen.context →
      (f seen).run.Blameless (Reader.serve source) (Reader.Knowing Knows) Anyway After blames) :
    (view >>= f).run.Blameless (Reader.serve source) (Reader.Knowing Knows) Anyway After
      blames := by
  rintro ⟨reader, log⟩ (apt : reader.Apt Knows)
  have knows : Knows reader.view.context := reader.context_view ▸ apt.knows
  exact each reader.view apt.bound knows (reader, log) apt

theorem knowing_viewAlone : (knowing source Knows).Holds (fun _ _ => False) Decoder.view :=
  fun _ apt => ⟨apt, nofun, fun _ => apt⟩

theorem knowing_seeks : (knowing source Knows).Seeks := by
  refine fun target => knowing_ask nofun fun reader log apt error => ?_
  refine apt.category_of_changeWindow fun w refused => ?_
  unfold Window.seek at refused
  split at refused
  · split at refused <;> cases refused
  · cases refused
    nofun

theorem knowing_narrows : (knowing source Knows).Narrows := by
  refine fun stop => knowing_ask nofun fun reader log apt error => ?_
  refine apt.category_of_changeWindow fun w refused => ?_
  unfold Window.narrow at refused
  split at refused
  · cases refused
  · cases refused
    nofun

/-- Bound readers are let take values. -/
instance : (knowing source Knows).LetsTake where
  look _ each := blameless_view fun seen _ _ => each seen
  takeAhead ahead count h := knowing_ask nofun fun reader log apt error =>
    apt.category_of_take (Nat.le_trans h apt.minimum_le_capacity)
  ensureBound := by
    refine blameless_view fun seen bound _ => ?_
    rw [if_pos bound]
    exact step_pure (J := knowing source Knows) _

theorem knowing_format (knows : ∀ context, Knows context → context.HasFormat) :
    (knowing source Knows).Step format := by
  refine blameless_view fun seen _ known => ?_
  obtain ⟨format, known⟩ := knows _ known
  rw [known]
  exact step_pure (J := knowing source Knows) _

/-- Bound readers that know all sizes are let know them. -/
instance : (knowing source Context.HasSizes).LetsKnow where
  lookAtSizes _ each := blameless_view fun seen _ _ => each seen
  skip count := blameless_view fun seen _ _ => knowing_seeks _
  format := knowing_format fun _ => And.left
  addressSize := by
    refine blameless_view fun seen _ known => ?_
    obtain ⟨size, known⟩ := known.2
    rw [known]
    exact step_pure (J := knowing source Context.HasSizes) _

theorem teaches_of_knowing {blames : α → Error → Prop} {decoder : Decoder α}
    (h : (knowing source Knows).Holds blames decoder) :
    decoder.Teaches source Knows Knows blames :=
  Dialogue.Blameless.weaken h (fun _ => id) (fun _ apt => apt.mono fun _ _ => trivial) fun _ => id

theorem teaches_pure (answer : α) :
    (pure answer : Decode α).run.Teaches source Knows Knows Blames :=
  teaches_of_knowing (step_pure answer)

theorem teaches_throw {error : Error} (allowed : error.category ≠ .misuse) :
    (throw error : Decode α).run.Teaches source Knows Learns Blames :=
  .throw (fun _ apt => apt.mono fun _ _ => trivial) allowed

theorem teaches_record {change : Context → Context}
    (learns : ∀ context, Knows context → Learns (change context)) :
    (record change).run.Teaches source Knows Learns Blames := by
  refine blameless_view fun seen _ knows => ?_
  rintro ⟨reader, log⟩ (apt : reader.Apt Knows)
  have learnt : Reader.Apt Learns { reader with context := change seen.context } :=
    apt.record (learns _ knows)
  exact ⟨learnt.mono fun _ _ => trivial, nofun, fun _ => learnt⟩

theorem teaches_initialLength :
    initialLength.run.Teaches source Knows Context.HasFormat Blames := by
  have learns (format : Format) (length : Nat) : (ExceptT.run do
      record ({ · with format := some format })
      pure length).Teaches source Knows Context.HasFormat Blames :=
    (teaches_record fun _ _ => ⟨format, rfl⟩).stepBind fun _ => teaches_pure length
  refine (teaches_of_knowing (obeys_unsigned (by decide))).stepBind fun word => ?_
  split
  · exact learns .dwarf32 word
  · split
    · exact (teaches_of_knowing (obeys_unsigned (by decide))).stepBind (learns .dwarf64)
    · exact teaches_throw nofun

theorem teaches_readAddressSize :
    readAddressSize.run.Teaches source Context.HasFormat Context.HasSizes Blames := by
  refine (teaches_of_knowing obeys_byte).stepBind fun size => ?_
  refine Dialogue.Blameless.stepBind ?_ fun _ => teaches_pure size
  refine (teaches_of_knowing (obeys_checkAddressSize size)).stepBind fun size => ?_
  exact teaches_record fun _ format => ⟨format, size, rfl⟩

theorem teaches_unitExtent : unitExtent.run.Teaches source Knows Context.HasFormat Blames := by
  refine blameless_view fun seen _ _ => ?_
  refine teaches_initialLength.stepBind fun length => ?_
  exact (teaches_of_knowing (obeys_stopOf length)).stepBind fun stop => teaches_pure _

theorem knowing_sectionOffset : (knowing source Context.HasFormat).Step sectionOffset :=
  (knowing_format fun _ => id).bind obeys_offset

/-- The fields of a header teach the address size. -/
theorem teaches_unitFields (version : Nat) :
    (unitFields version).run.Teaches source Context.HasFormat Context.HasSizes Blames := by
  simp only [unitFields]
  split
  · refine (teaches_of_knowing knowing_sectionOffset).stepBind fun offset => ?_
    exact teaches_readAddressSize.stepBind fun size => teaches_pure _
  · split
    · refine (teaches_of_knowing obeys_byte).stepBind fun code => ?_
      refine teaches_readAddressSize.stepBind fun size => ?_
      refine teaches_of_knowing ?_
      apply obeys_sectionOffset.bind
      intro offset
      split
      · exact (obeys_unsigned (by decide)).bind fun _ => step_pure _
      · exact (obeys_unsigned (by decide)).bind fun _ => step_pure _
      · apply (obeys_unsigned (by decide)).bind
        intro signature
        exact obeys_sectionOffset.bind fun _ => step_pure _
      · apply (obeys_unsigned (by decide)).bind
        intro signature
        exact obeys_sectionOffset.bind fun _ => step_pure _
      · exact step_pure _
    · refine teaches_throw fun misuse => ?_
      cases misuse

theorem teaches_unitHeaderIn (extent : UnitExtent) :
    (unitHeaderIn extent).run.Teaches source Context.HasFormat Context.HasSizes Blames := by
  refine (teaches_of_knowing (knowing_narrows extent.stop)).stepBind fun _ => ?_
  refine (teaches_of_knowing (knowing_format fun _ => id)).stepBind fun format => ?_
  refine (teaches_of_knowing (obeys_unsigned (by decide))).stepBind fun version => ?_
  have records : (record ({ · with version := some version })).run.Teaches source
      Context.HasFormat Context.HasFormat Blames := teaches_record fun _ => id
  refine records.stepBind fun _ => ?_
  refine (teaches_unitFields version).stepBind fun fields => ?_
  exact blameless_view fun seen _ _ => teaches_pure _

theorem teaches_lineExtent (offset : Nat) :
    (lineExtent offset).run.Teaches source Knows Context.HasFormat Blames := by
  refine (teaches_of_knowing (lets_widen knowing_narrows)).stepBind fun _ => ?_
  refine (teaches_of_knowing (lets_seekInSection knowing_seeks offset)).stepBind fun _ => ?_
  refine teaches_initialLength.stepBind fun length => ?_
  refine teaches_of_knowing ?_
  apply (obeys_stopOf length).bind
  intro stop
  apply (knowing_narrows stop).bind
  intro _
  apply (knowing_format fun _ => id).bind
  intro format
  apply (obeys_unsigned (by decide)).bind
  intro version
  split
  · exact step_pure _
  · exact step_throw nofun

theorem teaches_targetSizes {version : Nat} (late : 5 ≤ version) :
    (targetSizes version).run.Teaches source Context.HasFormat Context.HasSizes Blames := by
  rw [targetSizes, if_pos late]
  refine teaches_readAddressSize.stepBind fun size => ?_
  exact (teaches_of_knowing obeys_byte).stepBind fun selector => teaches_pure _

/-- Bytes may be taken in pieces that the buffer holds. -/
theorem knowing_bytes (count : Nat) :
    (knowing source Knows).Holds Transfer.Blames (bytes count) := by
  rintro ⟨reader, log⟩ (apt : reader.Apt Knows)
  -- Taking does not change the capacity, so all pieces that the first look allows are allowed.
  let Fits (x : Reader × AccessLog) : Prop :=
    x.1.Apt Knows ∧ x.1.view.capacity = reader.view.capacity
  have takes (piece : Nat) (small : piece ≤ reader.view.capacity) :
      (Dialogue.steady (Reader.serve source) Fits).Step (take piece) := by
    rintro ⟨moved, log⟩ ⟨apt, same⟩
    have silent (context : Context) : Query.take piece .buffer ≠ .record context := nofun
    have kept : Fits (Reader.serve source (.take piece .buffer) (moved, log)).2 :=
      ⟨apt.serve source silent log, (apt.sound.capacity_serve source _ log).trans same⟩
    exact ⟨kept, fun error => apt.category_of_take (same ▸ small), fun _ => kept⟩
  have fits : Fits (reader, log) := ⟨apt, rfl⟩
  have positive : 1 ≤ reader.view.capacity := Nat.le_trans (by decide) apt.minimum_le_capacity
  have small (piece : Nat) (member : piece ∈ pieces count (max reader.view.capacity 1)) :
      piece ≤ reader.view.capacity := by
    rw [Nat.max_eq_left positive] at member
    exact le_of_mem_pieces positive member
  obtain ⟨kept, allowed, succeeds⟩ := obeys_bytesFrom
    (J := Dialogue.steady (Reader.serve source) Fits) [] (pieces count (max reader.view.capacity 1))
    (fun piece member => takes piece (small piece member)) _ fits
  exact ⟨kept.1, allowed, fun clean => (succeeds clean).1⟩

end Decode

end Dwarf
