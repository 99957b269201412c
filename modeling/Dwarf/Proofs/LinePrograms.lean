import Dwarf.Proofs.Alongside
import Dwarf.Proofs.Reservations
import Dwarf.Proofs.Task
/-!
# Line programs do not depend on their readers

The header of a line program is decided by the image, the section and the offset.  Whatever readers
of the same sections were used for before, they all read the same header and stand at the same place
behind it, or they all fail.

## Implementation notes

Entering a program overwrites where its reader was left, and the format; a header of version five
overwrites the address size, and an older one does not look at it.  Only the version is never
overwritten, so it must not be two, which changes the size of references.
-/

namespace Dwarf

namespace LineHeader

/-- The number of bytes from the start of a program up to the end of its header length. -/
def lengthEnd (header : LineHeader) : Nat :=
  header.extent.format.lengthSize + 2 + (if 5 ≤ header.extent.version then 2 else 0) +
    header.extent.format.wordSize

end LineHeader

namespace Reader

variable {source : Source} {reader moved : Reader} {place : Place} {log log' : AccessLog}

/-- A reader that knows a format tells it. -/
theorem Stands.format (stands : reader.Stands place) {format : Format}
    (h : reader.run source Decode.format.run log = (.ok format, moved, log')) :
    moved.Stands place ∧ moved.context = reader.context ∧ reader.context.format = some format := by
  obtain ⟨seen, ⟨looked, log₁⟩, looks, tells⟩ := Dialogue.runStep_bind_ok _ _ h
  cases looks
  rw [stands.view_eq] at tells
  dsimp only at tells
  split at tells
  · rename_i known
    cases tells
    exact ⟨stands, rfl, known⟩
  · cases tells

theorem stop_of_open (h : reader.view.stop = reader.view.limit) :
    reader.direct.stop = reader.direct.bounds.map Place.Bounds.limit := by
  obtain ⟨_ | w, context⟩ := reader
  · rfl
  · exact congrArg some h

/-- A reader that enters a line program stands behind its version, in a window that ends with the
program, and knows its format. -/
theorem Stands.lineExtent (stands : reader.Stands place) {offset : Nat} {extent : LineExtent}
    (h : reader.run source (Decode.lineExtent offset).run log = (.ok extent, moved, log')) :
    moved.Stands { place with
        offset := place.first + offset + extent.format.lengthSize + 2
        stop := extent.stop } ∧
      moved.context.format = some extent.format ∧ extent.stop ≤ place.limit := by
  obtain ⟨_, ⟨widened, log₁⟩, widens, rest⟩ := Dialogue.runStep_bind_ok _ _ h
  obtain ⟨_, ran, wide, -⟩ := stands.widen source log
  cases ran.symm.trans widens
  obtain ⟨_, ⟨entered, log₂⟩, enters, rest⟩ := Dialogue.runStep_bind_ok _ _ rest
  obtain ⟨there, -⟩ := wide.soughtInSection enters
  obtain ⟨length, ⟨measured, log₃⟩, measures, rest⟩ := Dialogue.runStep_bind_ok _ _ rest
  obtain ⟨format, knows, behind⟩ := there.initialLength measures
  obtain ⟨stop, ⟨ended, log₄⟩, ends, rest⟩ := Dialogue.runStep_bind_ok _ _ rest
  obtain ⟨behind, keeps, -, inside⟩ := behind.stopOf ends
  obtain ⟨_, ⟨narrowed, log₅⟩, narrows, rest⟩ := Dialogue.runStep_bind_ok _ _ rest
  obtain ⟨within, keeps'⟩ := behind.narrowed narrows
  obtain ⟨known, ⟨told, log₆⟩, tells, rest⟩ := Dialogue.runStep_bind_ok _ _ rest
  obtain ⟨within, keeps'', told⟩ := within.format tells
  obtain ⟨version, ⟨reached, log₇⟩, reads, rest⟩ := Dialogue.runStep_bind_ok _ _ rest
  have behind := within.unsigned reads
  have obeys : Decode.Obeys .onward (Decode.unsigned 2) := Decode.obeys_unsigned (by decide)
  have context := within.sound.context_run obeys rfl reads
  split at rest
  · cases rest
    rw [keeps', keeps, knows, Option.some.injEq] at told
    subst told
    exact ⟨behind, by rw [context, keeps'', keeps', keeps, knows], inside⟩
  · cases rest

theorem Stands.byte (stands : reader.Stands place) {value : Nat}
    (h : reader.run source Decode.byte.run log = (.ok value, moved, log')) :
    moved.Stands (place.advance 1) ∧ moved.context = reader.context := by
  have obeys : Decode.Obeys .onward Decode.byte := Decode.obeys_byte
  exact ⟨stands.unsigned h, stands.sound.context_run obeys rfl h⟩

/-- A reader that reads an address size stands behind it and knows the format that it knew. -/
theorem Stands.readAddressSize (stands : reader.Stands place) {size : Nat}
    (h : reader.run source Decode.readAddressSize.run log = (.ok size, moved, log')) :
    moved.Stands (place.advance 1) ∧ moved.context.format = reader.context.format := by
  obtain ⟨value, ⟨reached, log₁⟩, reads, rest⟩ := Dialogue.runStep_bind_ok _ _ h
  obtain ⟨behind, keeps⟩ := stands.byte reads
  obtain ⟨_, ⟨recorded, log₂⟩, checks, gave⟩ := Dialogue.runStep_bind_ok _ _ rest
  cases gave
  obtain ⟨checked, ⟨same, log₃⟩, accepts, records⟩ := Dialogue.runStep_bind_ok _ _ checks
  cases congrArg Prod.snd accepts
  obtain ⟨ran, there⟩ := behind.record ({ · with addressSize := some checked }) source log₁
  cases ran.symm.trans records
  have knows : reached.context.format = reader.context.format := congrArg Context.format keeps
  exact ⟨there, knows⟩

/-- A reader that reads the sizes of a version stands behind them and knows the format that it
knew. -/
theorem Stands.targetSizes (stands : reader.Stands place) {version : Nat}
    {sizes : Option TargetSizes}
    (h : reader.run source (Decode.targetSizes version).run log = (.ok sizes, moved, log')) :
    moved.Stands (place.advance (if 5 ≤ version then 2 else 0)) ∧
      moved.context.format = reader.context.format := by
  simp only [Decode.targetSizes] at h
  split at h
  · obtain ⟨size, ⟨recorded, log₁⟩, records, rest⟩ := Dialogue.runStep_bind_ok _ _ h
    obtain ⟨selector, ⟨reached, log₂⟩, reads, gave⟩ := Dialogue.runStep_bind_ok _ _ rest
    cases gave
    obtain ⟨there, keeps⟩ := stands.readAddressSize records
    obtain ⟨behind, keeps'⟩ := there.byte reads
    rename_i late
    rw [if_pos late, ← keeps]
    exact ⟨behind, congrArg Context.format keeps'⟩
  · rename_i early
    cases h
    rw [if_neg early]
    exact ⟨stands, rfl⟩

theorem Stands.sectionOffset (stands : reader.Stands place) {format : Format} {offset : Nat}
    (knows : reader.context.format = some format)
    (h : reader.run source Decode.sectionOffset.run log = (.ok offset, moved, log')) :
    moved.Stands (place.advance format.wordSize) := by
  obtain ⟨told, ⟨looked, log₁⟩, tells, reads⟩ := Dialogue.runStep_bind_ok _ _ h
  obtain ⟨there, -, known⟩ := stands.format tells
  rw [knows, Option.some.injEq] at known
  exact known ▸ there.unsigned reads

end Reader

namespace Consult

/-- Reads the header of the line program at an offset into the section, and stays behind its
tables. -/
def lineContents (offset : Nat) : Consult (Halting LineHeader) := do
  let extent ← (Decode.lineExtent offset).on .lines
  let sizes ← (Decode.targetSizes extent.version).on .lines
  let headerLength ← Decode.sectionOffset.on .lines
  let seen ← Decode.view.on .lines
  let programOffset := Word.saturate (seen.offset + headerLength)
  let parameters ← (Decode.opcodeParameters extent.version).on .lines
  (lineTables extent.version).unlessStopped fun (directories, files) =>
    pure (.returned ⟨extent, sizes, headerLength, programOffset, parameters, directories, files⟩)

theorem lineHeader_eq (offset : Nat) :
    lineHeader offset = (lineContents offset).unlessStopped (fun header => do
      (Decode.seek header.programOffset).on .lines
      pure (.returned header)) := by
  simp only [lineHeader, lineContents, bind_unlessStopped, unlessStopped_assoc,
    returned_unlessStopped]

end Consult

/-- The licences for the contents of a header: its reader stays in the program. -/
def Licences.contents : Licences
  | .lines => ⟨false, false, false, true⟩
  | _ => ⟨true, true, true, true⟩

theorem Licences.resolve_contents : contents.Resolve := ⟨rfl, rfl, rfl, rfl⟩

namespace Session

variable {source : Source} {session session' : Session} {header : LineHeader}

theorem view_on {table : Table} {seen : View}
    (h : session.run source (Decode.view.on table).run = (.ok seen, session')) :
    seen = (session.readers.get table).view ∧
      session.readers.get table = session'.readers.get table := by
  have viewed := step_on h
  exact ⟨Except.ok.inj (congrArg Prod.fst viewed).symm, congrArg (fun ran => ran.2.1) viewed⟩

theorem reachable_run {α : Type} {inquiry : Inquiry α} {answer : α}
    (reached : session.pool.Reachable source)
    (h : session.run source inquiry = (answer, session')) : session'.pool.Reachable source := by
  have ran := Pool.Reachable.run reached id inquiry
  rw [run_pool, h] at ran
  exact ran

/-- What obeys the licences for the contents of a header leaves the line reader where it was or
behind, in the same window. -/
theorem Stands.stays {α : Type} {inquiry : Inquiry α} {failed : α → Prop} {answer : α}
    {place : Place} (stands : session.readers.lines.Stands place)
    (obeys : inquiry.Obeys .contents failed) (h : session.run source inquiry = (answer, session')) :
    ∃ offset, place.offset ≤ offset ∧ session'.readers.lines.Stands { place with offset } := by
  have kept := (obeys fun _ => place.offset).run_keeps (x := session) (serve source)
    (fun seen session => place.offset ≤ seen .lines ∧
      ∃ offset, seen .lines ≤ offset ∧ session.readers.lines.Stands { place with offset }) ?_
    ⟨Nat.le_refl _, place.offset, Nat.le_refl _, stands⟩
  · obtain ⟨seen, behind, offset, ahead, there⟩ := kept
    rw [show inquiry.run (serve source) session = _ from h] at there
    exact ⟨offset, Nat.le_trans behind ahead, there⟩
  · rintro seen ⟨table, query⟩ session permitted ⟨behind, offset, ahead, there⟩
    cases table with
    | lines =>
        obtain ⟨later, there'⟩ := there.served ahead permitted rfl rfl source session.log
        exact ⟨Nat.le_trans behind later, there'⟩
    | info | abbreviations | strings | lineStrings | stringOffsets =>
        exact ⟨behind, offset, ahead, there⟩

/-- A reader whose session reads the header of a line program is left behind the tables, which begin
behind the header length, in a window that ends with the program. -/
theorem lineContents_placed {place : Place} {offset : Nat}
    (stands : session.readers.lines.Stands place)
    (h : session.run source (Consult.lineContents offset).run =
      (.ok (.returned header), session')) :
    let opening := place.first + offset + header.lengthEnd
    header.programOffset = Word.saturate (opening + header.headerLength) ∧
      ∃ closing, opening ≤ closing ∧ session'.readers.lines.Stands { place with
          offset := closing
          stop := header.extent.stop } ∧
        header.extent.stop ≤ place.limit := by
  obtain ⟨extent, entered, enters, rest⟩ := Dialogue.runStep_bind_ok _ _ h
  obtain ⟨there, knows, inside⟩ := stands.lineExtent (step_on enters)
  obtain ⟨sizes, sized, reads, rest⟩ := Dialogue.runStep_bind_ok _ _ rest
  obtain ⟨there, keeps⟩ := there.targetSizes (step_on reads)
  obtain ⟨headerLength, measured, measures, rest⟩ := Dialogue.runStep_bind_ok _ _ rest
  have there : measured.readers.lines.Stands _ :=
    there.sectionOffset (keeps.trans knows) (step_on measures)
  obtain ⟨seen, looked, looks, rest⟩ := Dialogue.runStep_bind_ok _ _ rest
  obtain ⟨sees, (same : measured.readers.lines = looked.readers.lines)⟩ := view_on looks
  obtain ⟨parameters, taken, takes, rest⟩ := Dialogue.runStep_bind_ok _ _ rest
  obtain ⟨tables, listed, lists, gave⟩ := run_unlessStopped_returned rest
  have contents := Licences.resolve_contents.readsLines rfl
  obtain ⟨behind, ahead, within⟩ := Stands.stays (same ▸ there)
    (contents.opcodeParameters extent.version) takes
  obtain ⟨closing, ahead', within⟩ := Stands.stays within (contents.lineTables extent.version) lists
  have gives := Halting.returned.inj (Except.ok.inj (congrArg Prod.fst gave))
  have ends : listed = session' := congrArg Prod.snd gave
  subst gives ends
  have start : seen.offset = place.first + offset + extent.format.lengthSize + 2 +
      (if 5 ≤ extent.version then 2 else 0) + extent.format.wordSize := by
    rw [sees]
    exact congrArg View.offset there.view_eq
  have opening : place.first + offset + (extent.format.lengthSize + 2 +
      (if 5 ≤ extent.version then 2 else 0) + extent.format.wordSize) = seen.offset := by
    omega
  dsimp only [LineHeader.lengthEnd]
  rw [opening]
  refine ⟨rfl, closing, ?_, within, inside⟩
  rw [start]
  exact Nat.le_trans ahead ahead'

/-- A reader whose session parses the header of a line program is left at its first opcode, in a
window that ends with the program. -/
theorem lineHeader_placed {place : Place} {offset : Nat}
    (stands : session.readers.lines.Stands place)
    (addressable : place.limit < Word.max)
    (h : session.run source (Consult.lineHeader offset).run =
      (.ok (.returned header), session')) :
    session'.readers.lines.Stands { place with
        offset := header.programOffset
        stop := header.extent.stop } ∧
      header.programOffset = place.first + offset + header.lengthEnd + header.headerLength ∧
        header.programOffset ≤ header.extent.stop ∧ header.extent.stop ≤ place.limit := by
  rw [Consult.lineHeader_eq] at h
  obtain ⟨read, listed, reads, rest⟩ := run_unlessStopped_returned h
  obtain ⟨_, moved, moves, gave⟩ := Dialogue.runStep_bind_ok _ _ rest
  cases gave
  obtain ⟨sum, closing, -, within, inside⟩ := lineContents_placed stands reads
  obtain ⟨before, behind, -⟩ := within.sought (step_on moves)
  -- The move succeeded, so the target lies in the section and its sum was not saturated.
  rw [sum] at before
  have fits := Word.saturate_of_lt (Nat.lt_of_le_of_lt (Nat.le_trans before inside) addressable)
  exact ⟨behind, sum.trans fits, sum ▸ before, inside⟩

end Session

namespace Decoder

open Dialogue.Parallel

variable {strict : Prop} {image : Array UInt8}

/-- Reading an initial length teaches readers side by side the same format. -/
theorem alongside_initialLength :
    Decode.initialLength.run.Alongside strict image
      (Reader.Beside strict image Context.Unaged) (Reader.Beside strict image Context.Formatted)
      Failed := by
  have learn {α : Type} (format : Format) (answer : α) : (ExceptT.run (do
      Decode.record ({ · with format := some format })
      pure answer)).Alongside strict image (Reader.Beside strict image Context.Unaged)
        (Reader.Beside strict image Context.Formatted) Failed :=
    stepBind (alongside_record fun _ _ unaged => ⟨unaged, rfl⟩) fun _ => done _
  refine stepBind (alongside_veiled (Decode.obeys_unsigned (by decide))) fun word => ?_
  split
  · exact learn .dwarf32 word
  · split
    · exact stepBind (alongside_veiled (Decode.obeys_unsigned (by decide))) (learn .dwarf64)
    · exact fails ⟨_, rfl⟩

/-- Entering a line program brings akin readers side by side and teaches them its format. -/
theorem alongside_lineExtent (offset : Nat) :
    (Decode.lineExtent offset).run.Alongside strict image
      (Reader.Akin strict image Context.Unaged) (Reader.Beside strict image Context.Formatted)
      Failed := by
  have rest (length : Nat) : (Licence.veiled Context.Formatted).GovernsStep (do
      let stop ← Decode.stopOf length
      Decode.narrow stop
      let format ← Decode.format
      let version ← Decode.unsigned 2
      if 2 ≤ version ∧ version ≤ 5 then
        pure (⟨offset, length, stop, format, version⟩ : LineExtent)
      else throw (.unknownVersion version)) := by
    apply (Decode.obeys_stopOf length).bind
    intro stop
    apply (Licence.veiled_narrow stop).bind
    intro _
    apply (Licence.veiled_format fun _ _ => And.right).bind
    intro format
    apply (Decode.obeys_unsigned (by decide)).bind
    intro version
    split
    · exact Judgement.step_pure _
    · exact Discipline.governsStep_throw _
  refine stepBind alongside_widen fun _ => ?_
  refine stepBind (alongside_seekInSection offset) fun _ => ?_
  exact stepBind alongside_initialLength fun length => alongside_veiled (rest length)

theorem alongside_readAddressSize :
    Decode.readAddressSize.run.Alongside strict image
      (Reader.Beside strict image Context.Formatted) (Reader.Beside strict image Context.Sized)
      Failed := by
  refine stepBind (alongside_veiled Decode.obeys_byte) fun size => ?_
  refine stepBind ?_ fun _ => done _
  refine stepBind (alongside_veiled (Decode.obeys_checkAddressSize _)) fun size => ?_
  exact alongside_record fun _ _ formatted => ⟨formatted, rfl⟩

theorem alongside_targetSizes {version : Nat} (late : 5 ≤ version) :
    (Decode.targetSizes version).run.Alongside strict image
      (Reader.Beside strict image Context.Formatted) (Reader.Beside strict image Context.Sized)
      Failed := by
  rw [Decode.targetSizes, if_pos late]
  refine stepBind alongside_readAddressSize fun size => ?_
  exact stepBind (alongside_veiled Decode.obeys_byte) fun selector => done _

end Decoder

/-- How the readers of two sessions are related that read line programs: those of the lines as told,
and those of the strings so that strings are found alike. -/
def lineSides (image : Array UInt8) (Lines : Reader → Reader → Prop) :
    Table → Reader → Reader → Prop
  | .lines => Lines
  | .strings | .lineStrings => Reader.Aligned False image fun _ _ => True
  | _ => fun _ _ => True

theorem lineSides_mono {image : Array UInt8} {Lines Lines' : Reader → Reader → Prop}
    (h : ∀ reader reader', Lines reader reader' → Lines' reader reader') (table : Table)
    (reader reader' : Reader) (sides : lineSides image Lines table reader reader') :
    lineSides image Lines' table reader reader' := by
  cases table with
  | lines => exact h reader reader' sides
  | info | abbreviations | strings | lineStrings | stringOffsets => exact sides

namespace Session

open Dialogue.Parallel

variable {strict : Prop} {image : Array UInt8} {Known : Context → Context → Prop}

/-- An inquiry that is run with related sessions over an image matches, with sessions behind it
whose line readers are related as told. -/
abbrev Alongside {α : Type} (strict : Prop) (image : Array UInt8)
    (Lines Lines' : Reader → Reader → Prop) (failed : α → Prop) (inquiry : Inquiry α) : Prop :=
  inquiry.Parallel strict (serve (.ofImage image)) (Sides (lineSides image Lines))
    (Sides (lineSides image Lines')) failed

theorem alongside_on_lines {α : Type} {Lines Lines' : Reader → Reader → Prop} {failed : α → Prop}
    {decoder : Decoder α} (h : decoder.Alongside strict image Lines Lines' failed) :
    Alongside strict image Lines Lines' failed (decoder.on .lines) := by
  refine parallel_on h fun other different => ?_
  cases other with
  | lines => exact absurd rfl different
  | info | abbreviations | strings | lineStrings | stringOffsets => rfl

/-- What keeps line readers side by side, as a judgement. -/
def beside (strict : Prop) (image : Array UInt8) (Known : Context → Context → Prop) :
    Judgement Request Request.Reply where
  Holds blames inquiry :=
    Alongside strict image (Reader.Beside strict image Known) (Reader.Beside strict image Known)
      (fun answer => ∃ error, blames answer error) inquiry

/-- Inquiries that keep line readers side by side go on with others. -/
instance : (beside strict image Known).Lawful :=
  .of_done Dialogue.Parallel.done Dialogue.Parallel.bind

/-- What is veiled of what line readers know is enough for what line programs are made of. -/
theorem readsLines (strict : Prop) (image : Array UInt8) (Known : Context → Context → Prop) :
    Inquiry.ReadsLines (Licence.veiled Known).judgement (beside strict image Known) where
  decoder obeys := alongside_on_lines (Decoder.alongside_veiled obeys)
  strings offset := parallel_on (Decoder.alongside_stringAt offset) fun _ _ => rfl
  lineStrings offset := parallel_on (Decoder.alongside_stringAt offset) fun _ _ => rfl
  bytes count := alongside_on_lines (Decoder.alongside_bytes count)

/-- What looks at line readers side by side, and tells neither their buffers nor what they know
apart, goes on alike with both. -/
theorem beside_look {α : Type} {f : View → Consult α}
    (blind : ∀ (seen : View) capacity context, f { seen with capacity, context } = f seen)
    (each : ∀ seen, (beside strict image Known).Step (f seen)) :
    (beside strict image Known).Step (Decode.view.on .lines >>= f) := by
  have asks : (Decode.view.on .lines >>= f).run =
      Dialogue.ask ⟨.lines, .view⟩ fun seen => (f seen).run := rfl
  rw [Judgement.Step, asks]
  refine ask (fun session session' sides => ?_) (fun _ _ sides => sides) each
  have beside : session.readers.lines.Beside strict image Known session'.readers.lines :=
    sides .lines
  refine congrArg ExceptT.run ?_
  rw [show (serve (.ofImage image) ⟨.lines, .view⟩ session').1 = session'.readers.lines.view
    from rfl, beside.view_eq]
  exact blind session.readers.lines.view _ _

/-- The header of a line program is the same for akin line readers, which it brings side by side. -/
theorem alongside_lineHeader (offset : Nat) :
    Alongside strict image (Reader.Akin strict image Context.Unaged)
      (Reader.Beside strict image Context.Formatted) Failed (Consult.lineHeader offset).run := by
  refine stepBind (alongside_on_lines (Decoder.alongside_lineExtent offset)) fun extent => ?_
  -- A header of version five reads its address size; an older one never looks at any.
  by_cases late : 5 ≤ extent.version
  · have sizes : Alongside strict image (Reader.Beside strict image Context.Formatted)
        (Reader.Beside strict image Context.Sized) Failed
        ((Decode.targetSizes extent.version).on .lines).run :=
      alongside_on_lines (Decoder.alongside_targetSizes late)
    have reads := readsLines strict image Context.Sized
    have contents (sizes : Option TargetSizes) := reads.contents Decode.obeys_sectionOffset
      beside_look Licence.veiled_seek extent sizes (reads.lineTables extent.version)
    refine weaken (stepBind sizes contents) fun session session' sides table => ?_
    exact lineSides_mono (fun _ _ beside => beside.learnt fun _ _ => And.left) _ _ _ (sides table)
  · have sizes : Alongside strict image (Reader.Beside strict image Context.Formatted)
        (Reader.Beside strict image Context.Formatted) Failed
        ((Decode.targetSizes extent.version).on .lines).run := by
      rw [Decode.targetSizes, if_neg late]
      exact done _
    have reads := readsLines strict image Context.Formatted
    exact stepBind sizes fun sizes => reads.contents
      ((Licence.veiled_format fun _ _ => And.right).bind Decode.obeys_offset) beside_look
      Licence.veiled_seek extent sizes (reads.lineLists late)

/-- A session over an image is ready for line programs in a section: its readers can be reached in
any way, the line reader is bound to the section and does not know version two, and the readers of
strings have their windows open. -/
structure ReadyForLines (image : Array UInt8) (bounds : Place.Bounds) (session : Session) :
    Prop where
  reached : session.pool.Reachable (.ofImage image)
  bounded : session.readers.lines.direct.bounds = some bounds
  unaged : session.readers.lines.context.version ≠ some 2
  strings : session.readers.strings.view.stop = session.readers.strings.view.limit
  lineStrings : session.readers.lineStrings.view.stop = session.readers.lineStrings.view.limit

variable {bounds : Place.Bounds} {session session' : Session}

/-- The line readers of sessions that are ready are akin, and their strings are found alike. -/
theorem ReadyForLines.sides (ready : session.ReadyForLines image bounds)
    (ready' : session'.ReadyForLines image bounds)
    (strings : session'.readers.strings.direct.bounds = session.readers.strings.direct.bounds)
    (lineStrings :
      session'.readers.lineStrings.direct.bounds = session.readers.lineStrings.direct.bounds) :
    let same := session'.readers.lines.view.capacity = session.readers.lines.view.capacity
    Sides (lineSides image (Reader.Akin same image Context.Unaged)) session session' := by
  have truthful := Source.truthful_ofImage image
  have aligned (table : Table)
      (opened : (session.readers.get table).view.stop = (session.readers.get table).view.limit)
      (opened' : (session'.readers.get table).view.stop = (session'.readers.get table).view.limit)
      (bounds : (session'.readers.get table).direct.bounds =
        (session.readers.get table).direct.bounds) :
      (session.readers.get table).Aligned False image (fun _ _ => True)
        (session'.readers.get table) :=
    { sound := ready.reached.sound table
      sound' := ready'.reached.sound table
      shows := (ready.reached table).shows truthful
      shows' := (ready'.reached table).shows truthful
      bounds := bounds
      known := trivial
      capacity := False.elim
      stop := by rw [Reader.stop_of_open opened', bounds, ← Reader.stop_of_open opened] }
  intro same table
  cases table with
  | lines =>
      exact {
        sound := ready.reached.sound .lines
        sound' := ready'.reached.sound .lines
        shows := (ready.reached .lines).shows truthful
        shows' := (ready'.reached .lines).shows truthful
        bounds := ready'.bounded.trans ready.bounded.symm
        known := ⟨ready.unaged, ready'.unaged⟩
        capacity := id }
  | strings => exact aligned .strings ready.strings ready'.strings strings
  | lineStrings => exact aligned .lineStrings ready.lineStrings ready'.lineStrings lineStrings
  | info | abbreviations | stringOffsets => trivial

/-- A session that is ready and parses the header of a line program is left at its first opcode. -/
theorem ReadyForLines.placed {offset : Nat} {header : LineHeader}
    (ready : session.ReadyForLines image bounds) (told : bounds.fileSize ≤ 2 ^ 63 - 1)
    (h : (session.run (.ofImage image) (Consult.lineHeader offset).run).1 =
      .ok (.returned header)) :
    let left := (session.run (.ofImage image) (Consult.lineHeader offset).run).2.readers.lines
    header.programOffset = bounds.first + offset + header.lengthEnd + header.headerLength ∧
      header.programOffset ≤ header.extent.stop ∧ header.extent.stop ≤ bounds.limit ∧
        left.view.offset = header.programOffset ∧ left.view.stop = header.extent.stop := by
  intro left
  have keeps : session.readers.lines.Keeps bounds := ⟨ready.reached.sound .lines, ready.bounded⟩
  obtain ⟨place, stands, rfl⟩ := keeps.stands
  have addressable : place.limit < Word.max := by
    have limit := stands.bounds.limit_le_fileSize
    simp only [Place.bounds, Word.max] at told ⊢
    omega
  obtain ⟨there, sum, before, inside⟩ := lineHeader_placed stands addressable (Prod.ext h rfl)
  have sees : left.view = _ := there.view_eq
  exact ⟨sum, before, inside, congrArg View.offset sees, congrArg View.stop sees⟩

/-- The header of a line program depends on the image, the section and the offset only: with line
readers of any capacities that were used in any way, parsing fails, or gives the same header and
leaves both at its first opcode, in windows that end with the program.  Or parsing stops the whole
program with both, as memory cannot be reserved for so many entries as the section is told to have
bytes. -/
theorem lineHeader_independent (ready : session.ReadyForLines image bounds)
    (ready' : session'.ReadyForLines image bounds)
    (strings : session'.readers.strings.direct.bounds = session.readers.strings.direct.bounds)
    (lineStrings :
      session'.readers.lineStrings.direct.bounds = session.readers.lineStrings.direct.bounds)
    (told : bounds.fileSize ≤ 2 ^ 63 - 1) (offset : Nat) :
    let parsed := session.run (.ofImage image) (Consult.lineHeader offset).run
    let parsed' := session'.run (.ofImage image) (Consult.lineHeader offset).run
    (Failed parsed.1 ∧ Failed parsed'.1 ∧
        (session'.readers.lines.view.capacity = session.readers.lines.view.capacity →
          parsed'.1 = parsed.1)) ∨
      (∃ header, parsed.1 = .ok (.returned header) ∧ parsed'.1 = .ok (.returned header) ∧
        header.programOffset = bounds.first + offset + header.lengthEnd + header.headerLength ∧
          header.programOffset ≤ header.extent.stop ∧ header.extent.stop ≤ bounds.limit ∧
            ∀ moved ∈ [parsed.2.readers.lines, parsed'.2.readers.lines],
              moved.view.offset = header.programOffset ∧
                moved.view.stop = header.extent.stop) ∨
      (parsed.1 = .ok .stopped ∧ parsed'.1 = .ok .stopped ∧
        ¬ Memory.Reserves (bounds.limit - bounds.first) SourceFile.footprint) := by
  intro parsed parsed'
  rcases alongside_lineHeader offset session session' (ready.sides ready' strings lineStrings) with
    ⟨lost, lost', same⟩ | ⟨same, -⟩
  · exact .inl ⟨lost, lost', fun capacity => (same capacity).symm⟩
  · have same : parsed.1 = parsed'.1 := same
    cases gives : parsed.1 with
    | error error =>
        have gives' := same.symm.trans gives
        exact .inl ⟨⟨error, rfl⟩, ⟨error, gives'⟩, fun _ => gives'⟩
    | ok halting =>
        have gives' := same.symm.trans gives
        cases halting with
        | returned header =>
            obtain ⟨sum, before, inside, there⟩ := ready.placed told gives
            obtain ⟨-, -, -, there'⟩ := ready'.placed told gives'
            refine .inr (.inl ⟨header, rfl, gives', sum, before, inside, fun moved member => ?_⟩)
            rcases List.mem_cons.mp member with rfl | last
            · exact there
            · cases List.mem_singleton.mp last
              exact there'
        | stopped =>
            have keeps : session.readers.lines.Keeps bounds :=
              ⟨ready.reached.sound .lines, ready.bounded⟩
            exact .inr (.inr ⟨rfl, gives', not_reserves_of_lineHeader keeps (Prod.ext gives rfl)⟩)

/-- Forty-two bytes of a line program stop the program that reads them, if the file is told to go on
behind them: they announce 2^60 directories of a byte each, which fit the window but no memory. -/
example :
    let image : Array UInt8 := #[255, 255, 255, 255, 0, 0, 0, 0, 0, 0, 0, 0x20, 5, 0, 8, 0,
      18, 0, 0, 0, 0, 0, 0, 0, 1, 1, 1, 251, 14, 1, 1, 1, 8,
      0x80, 0x80, 0x80, 0x80, 0x80, 0x80, 0x80, 0x80, 0x10]
    let lines : Reader :=
      ⟨some ⟨.zeroed 64, 0, 0, 0, 0, 1 <<< 62, 1 <<< 62, 1 <<< 62⟩, .unknown⟩
    let session : Session := .start ⟨.unbound, .unbound, .unbound, .unbound, .unbound, lines⟩
    (session.run (.ofImage image) (Consult.lineHeader 0).run).1 = .ok .stopped := by
  decide +kernel

/-- A line reader that was left in a narrowed window by a failed parse reads the header that a fresh
one with another capacity reads. -/
theorem lineHeader_independent_narrowed :
    let image : Array UInt8 := #[15, 0, 0, 0, 4, 0, 8, 0, 0, 0, 1, 1, 1, 0, 1, 1, 0, 0, 9]
    let start (capacity : Nat) : Session :=
      .start ⟨.unbound, .unbound, .unbound, .unbound, .unbound,
        ⟨some ⟨.zeroed capacity, 0, 0, 0, 0, 19, 19, 19⟩, .unknown⟩⟩
    let used := ((start 64).run (.ofImage image) (Consult.lineHeader 6).run).2
    let parsed := (start 16).run (.ofImage image) (Consult.lineHeader 0).run
    let parsed' := used.run (.ofImage image) (Consult.lineHeader 0).run
    used.readers.lines.view.stop = 18 ∧ parsed'.1 = parsed.1 ∧
      parsed.1 = .ok (.returned
        ⟨⟨0, 15, 19, .dwarf32, 4⟩, none, 8, 18, ⟨1, 1, true, 0, 1, 1, []⟩, [], []⟩) := by
  intro image start used parsed parsed'
  have narrowed : used.readers.lines.view.stop = 18 := by
    simp only [used, start, image]
    decide +kernel
  have reads : parsed.1 = .ok (.returned
      ⟨⟨0, 15, 19, .dwarf32, 4⟩, none, 8, 18, ⟨1, 1, true, 0, 1, 1, []⟩, [], []⟩) := by
    simp only [parsed, start, image]
    decide +kernel
  have bounded : used.readers.lines.direct.bounds = some ⟨0, 19, 19⟩ := by
    simp only [used, start, image]
    decide +kernel
  have unaged : used.readers.lines.context.version ≠ some 2 := by
    simp only [used, start, image]
    decide +kernel
  have unbound : used.readers.strings = .unbound ∧ used.readers.lineStrings = .unbound := by
    simp only [used, start, image]
    decide +kernel
  have reached (capacity : Nat)
      (binds : Reader.bound (.zeroed capacity) ⟨0, 19⟩ 19 = .ok (start capacity).readers.lines) :
      (start capacity).pool.Reachable (.ofImage image) := by
    intro table
    cases table with
    | lines => exact .bound binds
    | info | abbreviations | strings | lineStrings | stringOffsets => exact .unbound
  have fresh : (start 16).ReadyForLines image ⟨0, 19, 19⟩ :=
    ⟨reached 16 rfl, rfl, by decide, rfl, rfl⟩
  have reached' : used.pool.Reachable (.ofImage image) :=
    reachable_run (reached 64 rfl) (Prod.eta _).symm
  have ready : used.ReadyForLines image ⟨0, 19, 19⟩ :=
    ⟨reached', bounded, unaged, unbound.1 ▸ rfl, unbound.2 ▸ rfl⟩
  clear_value used
  refine ⟨narrowed, ?_, reads⟩
  rcases lineHeader_independent fresh ready (unbound.1 ▸ rfl) (unbound.2 ▸ rfl) (by decide) 0 with
    ⟨⟨error, lost⟩, -⟩ | ⟨header, gives, gives', -⟩ | ⟨stops, stops', -⟩
  · have lost : parsed.1 = .error error := lost
    rw [lost] at reads
    cases reads
  · exact gives'.trans gives.symm
  · exact stops'.trans stops.symm

end Session

end Dwarf
