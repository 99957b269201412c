import Dwarf.Proofs.LinePrograms
import Dwarf.Proofs.Reports
/-!
# Line programs read one after another

A session may read any number of line programs.  Whatever it has read, the header that it reads next
is the one that it would have read first; its buffers are the same, so the failures are too.

## Implementation notes

The sizes that a line reader knows are those of the program it read last, and only the version is
never recorded.  So it is the version that readings keep, besides the section and the capacity.
-/

namespace Dwarf

open Judgement

/-- Dialogues that keep something about the state of their server. -/
def Dialogue.keeping {Q : Type} {R : Q → Type} {X β : Type} (serve : (query : Q) → X → R query × X)
    (kept : X → β) : Judgement Q R where
  Holds _ dialogue := ∀ x, kept (dialogue.run serve x).2 = kept x

/-- Dialogues that keep something go on with others that do. -/
instance {Q : Type} {R : Q → Type} {X β : Type} (serve : (query : Q) → X → R query × X)
    (kept : X → β) : (Dialogue.keeping serve kept).Lawful :=
  .of_done (fun _ _ => rfl) fun begins goes _ x => by
    rw [Dialogue.run_bind]
    exact (goes _ _).trans (begins x)

/-- Decoders that keep the version that a reader knows. -/
abbrev Judgement.keepingVersion (source : Source) : Judgement Query Query.Reply :=
  Dialogue.keeping (Reader.serve source) fun x => x.1.context.version

namespace Decode

variable {source : Source}

theorem keepingVersion_ask {query : Query} {blames : query.Reply → Error → Prop}
    (silent : ∀ context, query ≠ .record context) :
    (keepingVersion source).Holds blames (Dialogue.ask query .done : Decoder query.Reply) :=
  fun x => congrArg Context.version (x.1.context_serve source silent x.2)

theorem keepingVersion_view {α : Type} {blames : Except Error α → Error → Prop}
    {f : View → Decode α} (each : ∀ seen, (keepingVersion source).Holds blames (f seen).run) :
    (keepingVersion source).Holds blames (view >>= f).run :=
  fun x => each x.1.view x

/-- Readers that keep their version may know all their sizes. -/
instance : (keepingVersion source).LetsKnow where
  look _ each := keepingVersion_view each
  takeAhead _ _ _ := keepingVersion_ask nofun
  ensureBound := by
    apply keepingVersion_view
    intro seen
    split
    · exact step_pure _
    · exact fun _ => rfl
  lookAtSizes _ each := keepingVersion_view each
  skip _ := keepingVersion_view fun _ => keepingVersion_ask nofun
  format := by
    apply keepingVersion_view
    intro seen
    split
    · exact step_pure _
    · exact fun _ => rfl
  addressSize := by
    apply keepingVersion_view
    intro seen
    split
    · exact step_pure _
    · exact fun _ => rfl

theorem keepingVersion_record {change : Context → Context}
    (keeps : ∀ context, (change context).version = context.version) :
    (keepingVersion source).Step (record change) := by
  rintro ⟨reader, log⟩
  calc (change reader.view.context).version
      = reader.view.context.version := keeps _
    _ = reader.context.version := by rw [reader.context_view]

theorem keepingVersion_learns : (keepingVersion source).Learns :=
  ⟨fun _ => keepingVersion_record fun _ => rfl, fun _ => keepingVersion_record fun _ => rfl⟩

theorem keepingVersion_bytes (count : Nat) :
    (keepingVersion source).Holds Transfer.Blames (bytes count) :=
  fun x => obeys_bytesFrom (J := keepingVersion source) []
    (pieces count (max x.1.view.capacity 1)) (fun _ _ => keepingVersion_ask nofun) x

end Decode

/-- The usual licences, but for a walk, which does not use the line reader. -/
def Licences.walking : Licences
  | .lines => .onward
  | table => usual table

theorem Licences.walk_walking : walking.Walk := ⟨⟨rfl, rfl, rfl, rfl⟩, rfl, rfl, rfl, rfl, rfl⟩

namespace Session

variable {source : Source} {image : Array UInt8} {origin session : Session}

/-- Inquiries that keep the version that the line reader knows. -/
abbrev keepingVersion (source : Source) : Judgement Request Request.Reply :=
  Dialogue.keeping (serve source) fun session => session.readers.lines.context.version

theorem keepingVersion_on {α : Type} {blames : α → Error → Prop} {table : Table}
    {decoder : Decoder α}
    (h : table = .lines → (Judgement.keepingVersion source).Holds blames decoder) :
    (keepingVersion source).Holds blames (decoder.on table) := by
  intro session
  have ran : (((decoder.on table).run (serve source) session).2.readers.lines) = _ :=
    congrArg (fun ran => ran.2.readers.lines) (run_on source table decoder session)
  refine (congrArg (fun reader => reader.context.version) ran).trans ?_
  cases table with
  | lines => exact h rfl (session.readers.lines, session.log)
  | info | abbreviations | strings | lineStrings | stringOffsets => rfl

theorem keepingVersion_readsLines (source : Source) :
    Inquiry.ReadsLines (Judgement.keepingVersion source) (keepingVersion source) where
  decoder h := keepingVersion_on fun _ => h
  strings _ := keepingVersion_on nofun
  lineStrings _ := keepingVersion_on nofun
  bytes count := keepingVersion_on fun _ => Decode.keepingVersion_bytes count

/-- Reading the header of a line program keeps the version that the line reader knows. -/
theorem version_lineHeader (source : Source) (offset : Nat) :
    (keepingVersion source).Step (Consult.lineHeader offset) :=
  (keepingVersion_readsLines source).lineHeader Decode.keepingVersion_learns
    (fun _ => Decode.keepingVersion_ask nofun) (fun _ => Decode.keepingVersion_ask nofun)
    (Decode.keepingVersion_ask nofun) offset

theorem context_walk (sound : session.pool.Sound) (source : Source) :
    (session.run source Consult.walk).2.readers.lines.context = session.readers.lines.context :=
  (leaves_run sound source (Licences.walk_walking.walk rfl) .lines).context rfl

/-- No inquiry changes the capacities of sound readers. -/
theorem capacity_run {α : Type} (sound : session.pool.Sound) (source : Source)
    (inquiry : Inquiry α) (table : Table) :
    ((session.run source inquiry).2.readers.get table).view.capacity =
      (session.readers.get table).view.capacity := by
  let Kept (moved : Session) : Prop := ∀ table, (moved.readers.get table).Sound ∧
    (moved.readers.get table).view.capacity = (session.readers.get table).view.capacity
  have step (request : Request) (moved : Session) (kept : Kept moved) :
      Kept (serve source request moved).2 := by
    intro table
    obtain ⟨sound, same⟩ := kept request.table
    by_cases here : table = request.table
    · rw [here, serve, Bank.get_set_self]
      exact ⟨sound.serve source request.query _, (sound.capacity_serve source _ _).trans same⟩
    · rw [serve, Bank.get_set_of_ne _ _ here]
      exact kept table
  have kept : Kept (session.run source inquiry).2 :=
    inquiry.run_keeps Kept step fun table => ⟨sound table, rfl⟩
  exact (kept table).2

/-- A session was left by line programs that were read since another. -/
structure Resumed (image : Array UInt8) (origin session : Session) : Prop
    extends Used image origin.direct session where
  version : session.readers.lines.context.version = origin.readers.lines.context.version
  capacity : session.readers.lines.view.capacity = origin.readers.lines.view.capacity

namespace Resumed

theorem refl (faithful : origin.pool.Faithful image) : Resumed image origin origin :=
  ⟨.refl faithful, rfl, rfl⟩

theorem lineHeader (resumed : Resumed image origin session) (offset : Nat) :
    Resumed image origin (session.run (.ofImage image) (Consult.lineHeader offset).run).2 where
  toUsed := resumed.run (Licences.walk_usual.lineHeader rfl offset).tolerant
  version := (version_lineHeader _ offset session).trans resumed.version
  capacity := (capacity_run resumed.faithful.sound _ _ .lines).trans resumed.capacity

/-- The line readers of a session and of one that it was resumed from are akin, and their strings
are found alike, unless they know version two. -/
theorem sides (resumed : Resumed image origin session) (faithful : origin.pool.Faithful image)
    (unaged : origin.readers.lines.context.version ≠ some 2) :
    Sides (lineSides image (Reader.Akin True image Context.Unaged)) origin session := by
  have akin (table : Table) {strict : Prop} {Known : Context → Context → Prop}
      (known : Known (origin.readers.get table).context (session.readers.get table).context)
      (capacity : strict → (session.readers.get table).view.capacity =
        (origin.readers.get table).view.capacity) :
      (origin.readers.get table).Akin strict image Known (session.readers.get table) :=
    { sound := faithful.sound table
      sound' := resumed.faithful.sound table
      shows := faithful.shows table
      shows' := resumed.faithful.shows table
      bounds := (resumed.leaves table).bounds
      known := known
      capacity := capacity }
  intro table
  cases table with
  | lines => exact akin .lines ⟨unaged, resumed.version ▸ unaged⟩ fun _ => resumed.capacity
  | strings => exact ⟨akin .strings trivial False.elim, (resumed.leaves .strings).stop rfl⟩
  | lineStrings =>
      exact ⟨akin .lineStrings trivial False.elim, (resumed.leaves .lineStrings).stop rfl⟩
  | info | abbreviations | stringOffsets => trivial

/-- Whatever line programs were read before, a header is read as if it were the first. -/
theorem header_eq (resumed : Resumed image origin session) (faithful : origin.pool.Faithful image)
    (unaged : origin.readers.lines.context.version ≠ some 2) (offset : Nat) :
    (session.run (.ofImage image) (Consult.lineHeader offset).run).1 =
      (origin.run (.ofImage image) (Consult.lineHeader offset).run).1 := by
  rcases alongside_lineHeader offset origin session (resumed.sides faithful unaged) with
    ⟨-, -, same⟩ | ⟨same, -⟩
  · exact (same trivial).symm
  · exact same.symm

end Resumed

end Session

end Dwarf
