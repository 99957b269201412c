import Dwarf.Proofs.Beside
import Dwarf.Proofs.Locality
/-!
# Decoders run alongside

A decoder that is run with two readers over an image, related in some way, answers both alike and
leaves them related, perhaps in another way; so decoders are put together from steps that bring
readers side by side, steps that keep them so, and steps that teach them something.

## Implementation notes

Bytes that are taken in pieces may fail differently with different capacities.  So two runs match
when both fail, and the failures are asked to be the same only where the capacities are.
-/

namespace Dwarf

/-- Two runs match if both fail, and do so alike where strictness is asked for, or if both give the
same answer and leave related states. -/
def Matched {α X : Type} (strict : Prop) (failed : α → Prop) (Related : X → X → Prop)
    (ran ran' : α × X) : Prop :=
  (failed ran.1 ∧ failed ran'.1 ∧ (strict → ran.1 = ran'.1)) ∨
    (ran.1 = ran'.1 ∧ Related ran.2 ran'.2)

namespace Dialogue

variable {Q : Type} {R : Q → Type} {α β X : Type} {strict : Prop}
variable {serve : (query : Q) → X → R query × X} {Related Related' Related'' : X → X → Prop}
variable {failed : α → Prop} {failed' : β → Prop}

/-- A dialogue that is run from related states matches, with other relations behind it. -/
def Parallel (strict : Prop) (serve : (query : Q) → X → R query × X)
    (Related Related' : X → X → Prop) (failed : α → Prop) (dialogue : Dialogue Q R α) : Prop :=
  ∀ x x', Related x x' →
    Matched strict failed Related' (dialogue.run serve x) (dialogue.run serve x')

namespace Parallel

theorem done (answer : α) :
    Parallel strict serve Related Related failed (pure answer : Dialogue Q R α) :=
  fun _ _ related => .inr ⟨rfl, related⟩

/-- A matched dialogue may go on with matched ones that do not forget a failure. -/
theorem bind {first : Dialogue Q R α} {next : α → Dialogue Q R β}
    (h : first.Parallel strict serve Related Related' failed)
    (each : ∀ answer, (next answer).Parallel strict serve Related' Related'' failed')
    (fails : ∀ answer, failed answer → ∃ answer', next answer = .done answer' ∧ failed' answer') :
    (first >>= next).Parallel strict serve Related Related'' failed' := by
  intro x x' related
  rw [run_bind, run_bind]
  rcases h x x' related with ⟨bad, bad', same⟩ | ⟨same, leaves⟩
  · obtain ⟨answer, ends, lost⟩ := fails _ bad
    obtain ⟨answer', ends', lost'⟩ := fails _ bad'
    refine .inl ⟨by rwa [ends], by rwa [ends'], fun strictly => ?_⟩
    have both := ends.symm.trans (congrArg next (same strictly) |>.trans ends')
    rw [ends, ends', Dialogue.done.inj both]
    rfl
  · rw [same]
    exact each _ _ _ leaves

theorem fails {answer : α} (h : failed answer) :
    Parallel strict serve Related Related' failed (pure answer : Dialogue Q R α) :=
  fun _ _ _ => .inl ⟨h, h, fun _ => rfl⟩

theorem map {dialogue : Dialogue Q R α} (f : α → β)
    (h : dialogue.Parallel strict serve Related Related' failed)
    (fails : ∀ answer, failed answer → failed' (f answer)) :
    (f <$> dialogue).Parallel strict serve Related Related' failed' := by
  rw [map_eq_pure_bind]
  exact bind h (fun answer => done _) fun answer bad => ⟨_, rfl, fails answer bad⟩

theorem ask {query : Q} {next : R query → Dialogue Q R α}
    (same : ∀ x x', Related x x' → next (serve query x').1 = next (serve query x).1)
    (leaves : ∀ x x', Related x x' → Related' (serve query x).2 (serve query x').2)
    (each : ∀ reply, (next reply).Parallel strict serve Related' Related'' failed) :
    (Dialogue.ask query next).Parallel strict serve Related Related'' failed := by
  intro x x' related
  rw [run_ask, run_ask, same x x' related]
  exact each _ _ _ (leaves x x' related)

/-- A matched step may go on with matched dialogues that take its errors for failures. -/
theorem stepInto {ε : Type} {first : ExceptT ε (Dialogue Q R) α}
    {next : α → ExceptT ε (Dialogue Q R) β} {failed : Except ε β → Prop}
    (h : first.run.Parallel strict serve Related Related' Failed)
    (each : ∀ answer, (next answer).run.Parallel strict serve Related' Related'' failed)
    (errors : ∀ error, failed (.error error)) :
    (first >>= next).run.Parallel strict serve Related Related'' failed := by
  refine bind h (fun result => ?_) ?_
  · cases result with
    | ok answer => exact each answer
    | error error => exact fails (errors error)
  · rintro result ⟨error, rfl⟩
    exact ⟨.error error, rfl, errors error⟩

theorem stepBind {ε : Type} {first : ExceptT ε (Dialogue Q R) α}
    {next : α → ExceptT ε (Dialogue Q R) β}
    (h : first.run.Parallel strict serve Related Related' Failed)
    (each : ∀ answer, (next answer).run.Parallel strict serve Related' Related'' Failed) :
    (first >>= next).run.Parallel strict serve Related Related'' Failed :=
  stepInto h each fun error => ⟨error, rfl⟩

/-- States that are related more closely behind a dialogue are related less closely too. -/
theorem weaken {dialogue : Dialogue Q R α}
    (h : dialogue.Parallel strict serve Related Related' failed)
    (weaker : ∀ x x', Related' x x' → Related'' x x') :
    dialogue.Parallel strict serve Related Related'' failed :=
  fun x x' related => (h x x' related).imp_right fun same => ⟨same.1, weaker _ _ same.2⟩

end Parallel

end Dialogue

namespace DirectReader

variable {image : Array UInt8} {reader reader' : DirectReader}

/-- Readers of one section whose windows are widened end alike. -/
theorem widen_congr (image : Array UInt8) (sound : reader.Sound) (sound' : reader'.Sound)
    (bounds : reader'.bounds = reader.bounds) :
    (reader'.run image Decode.widen.run).1 = (reader.run image Decode.widen.run).1 ∧
      (reader'.run image Decode.widen.run).2.stop = (reader.run image Decode.widen.run).2.stop := by
  obtain ⟨_ | place, context⟩ := reader <;> obtain ⟨_ | place', context'⟩ := reader'
  · exact ⟨rfl, rfl⟩
  · cases bounds
  · cases bounds
  · obtain ⟨_, ⟨⟩, -, limit, -⟩ := place_of_bounds bounds rfl
    rw [run_widen image (sound place rfl), run_widen image (sound' place' rfl)]
    exact ⟨rfl, congrArg some limit⟩

/-- Readers of one section whose windows end alike move to the same place, or fail to alike. -/
theorem seek_congr (image : Array UInt8) (bounds : reader'.bounds = reader.bounds)
    (stop : reader'.stop = reader.stop) (target : Nat) :
    (∃ error, (reader.run image (Decode.seek target).run).1 = .error error ∧
        (reader'.run image (Decode.seek target).run).1 = .error error) ∨
      (reader.run image (Decode.seek target).run).1 = .ok () ∧
        (reader'.run image (Decode.seek target).run).1 = .ok () ∧
          (reader'.run image (Decode.seek target).run).2.place =
            (reader.run image (Decode.seek target).run).2.place := by
  obtain ⟨_ | place, context⟩ := reader <;> obtain ⟨_ | place', context'⟩ := reader'
  · exact .inl ⟨.unbound, rfl, rfl⟩
  · cases bounds
  · cases bounds
  · obtain ⟨_, ⟨⟩, first, limit, fileSize⟩ := place_of_bounds bounds rfl
    have stop : place'.stop = place.stop := Option.some.inj stop
    rw [run_seek, run_seek, first, stop]
    by_cases inside : place.first ≤ target ∧ target ≤ place.stop
    · rw [if_pos inside, if_pos inside]
      refine .inr ⟨rfl, rfl, ?_⟩
      simp only [limit, fileSize]
    · rw [if_neg inside, if_neg inside]
      exact .inl ⟨_, rfl, rfl⟩

/-- Bytes at one place come alike in pieces of any sizes, unless both readers fail to take them. -/
theorem run_pieces (image : Array UInt8) (place : reader'.place = reader.place) (count : Nat)
    {size size' : Nat} (unbound : reader.place = none → size = size') :
    Matched (size = size') Transfer.Incomplete (fun moved moved' => moved'.place = moved.place)
      (reader.run image (Decode.bytesFrom [] (Decode.pieces count size)))
      (reader'.run image (Decode.bytesFrom [] (Decode.pieces count size'))) := by
  obtain ⟨here, context⟩ := reader
  obtain ⟨_, context'⟩ := reader'
  cases place
  have congr := run_bytesFrom_congr image here context context' (Decode.pieces count size) []
  cases here with
  | none =>
      rw [← unbound rfl]
      exact .inr ⟨congr.1.symm, congr.2⟩
  | some place =>
      -- Whether all bytes can be taken does not depend on their pieces, but the failure does.
      by_cases held : place.Holds image count
      · have taken (context : Context) (size : Nat) :=
          run_bytesFrom_of_holds context (Decode.pieces count size) []
            ((Decode.sum_pieces count size).symm ▸ held)
        rw [taken, taken, Decode.sum_pieces, Decode.sum_pieces]
        exact .inr ⟨rfl, rfl⟩
      · have lost (context : Context) (size : Nat) :
            (run image (Decode.bytesFrom [] (Decode.pieces count size))
              ⟨some place, context⟩).1.Incomplete := by
          refine Option.ne_none_iff_exists'.mp fun complete => held ?_
          rw [← Decode.sum_pieces count size]
          exact holds_of_run_bytesFrom _ _ complete
        refine .inl ⟨lost context size, lost context' size', ?_⟩
        rintro rfl
        exact congr.1.symm

end DirectReader

namespace Decoder

open Dialogue.Parallel

variable {α : Type} {strict alike : Prop} {image : Array UInt8} {failed : α → Prop}

/-- The two readers of two states are related. -/
def Sides (Related : Reader → Reader → Prop) (x x' : Reader × AccessLog) : Prop :=
  Related x.1 x'.1

/-- A decoder that is run with related readers over an image matches, with readers behind it that
are related as told. -/
abbrev Alongside (strict : Prop) (image : Array UInt8) (Related Related' : Reader → Reader → Prop)
    (failed : α → Prop) (decoder : Decoder α) : Prop :=
  decoder.Parallel strict (Reader.serve (.ofImage image)) (Sides Related) (Sides Related') failed

variable {Known Known' : Context → Context → Prop}

theorem alongside_veiled {blames : α → Error → Prop} {decoder : Decoder α}
    (obeys : (Licence.veiled Known).judgement.Holds blames decoder) :
    decoder.Alongside strict image (Reader.Beside alike image Known)
      (Reader.Beside alike image Known) fun answer => ∃ error, blames answer error := by
  intro x x' beside
  have simulated := (obeys ()).simulate (x := x) (y := x') False
    (Reader.serve (.ofImage image)) (Reader.serve (.ofImage image))
    (fun _ x x' => Sides (Reader.Beside alike image Known) x x') ?_ beside
  · obtain ⟨answers, -, kept⟩ := simulated.resolve_left fun lost => lost.1
    exact .inr ⟨answers, kept⟩
  · rintro _ query ⟨reader, log⟩ ⟨reader', log'⟩ permitted beside
    exact .inr (Reader.Beside.serve beside permitted log log')

/-- What is recorded with readers side by side is known alike. -/
theorem alongside_record {change : Context → Context}
    (learn : ∀ context context', Known context context' →
      Known' (change context) (change context')) :
    (Decode.record change).run.Alongside strict image (Reader.Beside alike image Known)
      (Reader.Beside alike image Known') Failed := by
  rintro ⟨⟨window, context⟩, log⟩ ⟨⟨window', context'⟩, log'⟩ beside
  have records (window : Option Window) (context : Context) (log : AccessLog) :
      (Decode.record change).run.run (Reader.serve (.ofImage image)) (⟨window, context⟩, log) =
        (.ok (), ⟨window, change context⟩, log) := by
    cases window <;> rfl
  have capacity (window : Option Window) (context : Context) :
      (⟨window, change context⟩ : Reader).view.capacity =
        (⟨window, context⟩ : Reader).view.capacity := by
    cases window <;> rfl
  rw [records, records]
  refine .inr ⟨rfl, { beside with known := learn _ _ beside.known, capacity := fun same => ?_ }⟩
  rw [capacity, capacity, beside.capacity same]

theorem alongside_widen :
    Decode.widen.run.Alongside strict image (Reader.Akin alike image Known)
      (Reader.Aligned alike image Known) Failed := by
  rintro ⟨reader, log⟩ ⟨reader', log'⟩ (akin : reader.Akin alike image Known reader')
  obtain ⟨kept, runs, runs'⟩ := akin.run (Decode.obeys_widen rfl) log log'
  obtain ⟨answers, stops⟩ :=
    DirectReader.widen_congr image akin.sound.direct akin.sound'.direct akin.bounds
  rw [runs, runs'] at answers stops
  exact .inr ⟨answers.symm, kept, stops⟩

theorem alongside_seek (target : Nat) :
    (Decode.seek target).run.Alongside strict image (Reader.Aligned alike image Known)
      (Reader.Beside alike image Known) Failed := by
  rintro ⟨reader, log⟩ ⟨reader', log'⟩ (aligned : reader.Aligned alike image Known reader')
  obtain ⟨kept, runs, runs'⟩ := aligned.toAkin.run (Decode.obeys_seek target rfl) log log'
  rcases DirectReader.seek_congr image aligned.bounds aligned.stop target with
    ⟨error, lost, lost'⟩ | ⟨moves, moves', places⟩
  · rw [runs] at lost
    rw [runs'] at lost'
    exact .inl ⟨⟨error, lost⟩, ⟨error, lost'⟩, fun _ => lost.trans lost'.symm⟩
  · rw [runs] at moves places
    rw [runs'] at moves' places
    exact .inr ⟨moves.trans moves'.symm, kept, places⟩

/-- What looks at aligned readers, and tells neither their positions nor their buffers nor what they
know apart, goes on alike with both. -/
theorem alongside_look {Related : Reader → Reader → Prop} {f : View → Decode α}
    {failed : Except Error α → Prop}
    (blind : ∀ (seen : View) offset capacity context,
      f { seen with offset, capacity, context } = f seen)
    (each : ∀ seen, (f seen).run.Alongside strict image (Reader.Aligned alike image Known) Related
      failed) :
    (Decode.view >>= f).run.Alongside strict image (Reader.Aligned alike image Known) Related
      failed := by
  have asks : (Decode.view >>= f).run = Dialogue.ask .view fun seen => (f seen).run := rfl
  rw [asks]
  refine ask (fun x x' (aligned : x.1.Aligned alike image Known x'.1) => ?_)
    (fun _ _ aligned => aligned) each
  refine congrArg ExceptT.run ?_
  rw [show (Reader.serve (.ofImage image) .view x').1 = x'.1.view from rfl, aligned.view_eq]
  exact blind x.1.view _ _ _

/-- Aligned readers that move to an offset in their section stand side by side, or stay where they
are. -/
theorem alongside_seekInSection (offset : Nat) :
    (Decode.seekInSection offset).run.Alongside strict image (Reader.Aligned alike image Known)
      (Reader.Beside alike image Known) Failed :=
  alongside_look (fun _ _ _ _ => rfl) fun _ => alongside_seek _

theorem alongside_orFailed {Related Related' : Reader → Reader → Prop} {step : Decode Transfer}
    (h : step.run.Alongside strict image Related Related' Transfer.Missing) :
    (Decode.orFailed step).Alongside strict image Related Related' Transfer.Incomplete := by
  rw [Decode.orFailed_eq]
  exact map _ h fun _ => id

/-- The string at an offset is the same for aligned readers, which stay aligned. -/
theorem alongside_stringAt (offset : Nat) :
    (Decode.stringAt offset).Alongside strict image (Reader.Aligned alike image Known)
      (Reader.Aligned alike image Known) Transfer.Incomplete := by
  have bounded : Decode.ensureBound.run.Alongside strict image (Reader.Aligned alike image Known)
      (Reader.Aligned alike image Known) Failed := by
    apply alongside_look (fun _ _ _ _ => rfl)
    intro seen
    cases seen.isBound with
    | false => exact fails ⟨.unbound, rfl⟩
    | true => exact done _
  have text : (ExceptT.lift (Decode.stringAhead Decode.lookupAhead) : Decode Transfer).run.Alongside
      strict image (Reader.Beside alike image Known) (Reader.Beside alike image Known)
      Transfer.Missing :=
    alongside_veiled (Decode.obeys_lift (Decode.obeys_stringAhead _))
  refine alongside_orFailed (stepInto bounded (fun _ => ?_) fun error => ⟨error, rfl⟩)
  apply alongside_look (fun _ _ _ _ => rfl)
  intro seen
  dsimp only
  split
  · have moves : (Decode.seek (seen.first + offset)).run.Alongside strict image
        (Reader.Aligned alike image Known) (Reader.Beside alike image Known) Failed :=
      alongside_seek _
    exact stepInto moves (fun _ => text.weaken fun _ _ => Reader.Beside.aligned)
      fun error => ⟨error, rfl⟩
  · exact fails ⟨_, rfl⟩

/-- Bytes in pieces come alike to readers side by side, unless both fail to take them. -/
theorem alongside_bytes (count : Nat) :
    (Decode.bytes count).Alongside strict image (Reader.Beside strict image Known)
      (Reader.Beside strict image Known) Transfer.Incomplete := by
  rintro ⟨reader, log⟩ ⟨reader', log'⟩ (beside : reader.Beside strict image Known reader')
  have obeys : (Decode.bytes count).Obeys ⟨false, false, false, true⟩ Transfer.Incomplete :=
    Decode.obeys_bytes count rfl
  have unbound (nowhere : reader.direct.place = none) :
      max reader.view.capacity 1 = max reader'.view.capacity 1 := by
    have nowhere' := beside.place.trans nowhere
    rw [Reader.view, Reader.view, Option.map_eq_none_iff.mp nowhere,
      Option.map_eq_none_iff.mp nowhere']
  have matched := DirectReader.run_pieces image beside.place count unbound
  rw [beside.shows.run_bytes_ofImage beside.sound count log,
    beside.shows'.run_bytes_ofImage beside.sound' count log'] at matched
  rcases matched with ⟨lost, lost', same⟩ | ⟨same, places⟩
  · exact .inl ⟨lost, lost', fun strictly => same (by rw [beside.capacity strictly])⟩
  · exact .inr ⟨same, beside.toAkin.after obeys rfl log log', places⟩

end Decoder

namespace Session

/-- The readers of two sessions are related, table by table. -/
def Sides (Related : Table → Reader → Reader → Prop) (session session' : Session) : Prop :=
  ∀ table, Related table (session.readers.get table) (session'.readers.get table)

/-- A decoder that goes alongside on the readers of a table does so on their sessions, and leaves
the readers of the other tables as they were related. -/
theorem parallel_on {α : Type} {strict : Prop} {image : Array UInt8} {failed : α → Prop}
    {decoder : Decoder α} {table : Table} {Related Related' : Table → Reader → Reader → Prop}
    (h : decoder.Alongside strict image (Related table) (Related' table) failed)
    (others : ∀ other, other ≠ table → Related' other = Related other) :
    (decoder.on table).Parallel strict (serve (.ofImage image)) (Sides Related) (Sides Related')
      failed := by
  intro session session' sides
  have matched := h (session.readers.get table, session.log)
    (session'.readers.get table, session'.log) (sides table)
  have runs := run_on (.ofImage image) table decoder session
  have runs' := run_on (.ofImage image) table decoder session'
  rw [show (decoder.on table).run (serve (.ofImage image)) session = _ from runs,
    show (decoder.on table).run (serve (.ofImage image)) session' = _ from runs']
  refine matched.imp_right fun same => ⟨same.1, fun other => ?_⟩
  by_cases here : other = table
  · subst here
    rw [Bank.get_set_self, Bank.get_set_self]
    exact same.2
  · rw [Bank.get_set_of_ne _ _ here, Bank.get_set_of_ne _ _ here, others other here]
    exact sides other

end Session

end Dwarf
