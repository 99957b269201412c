import Dwarf.Line.Entry
import Dwarf.Proofs.Standing
/-!
# Where line programs stop the program

Memory is reserved for as many entries as a table announces.  An accepted count is no more than the
bytes that remain, so a table stops the program only where memory cannot be reserved for as many
entries as the section is told to have bytes.
-/

namespace Dwarf

namespace Reader

variable {source : Source} {reader moved : Reader} {log log' : AccessLog}

theorem Keeps.remaining_le {bounds : Place.Bounds} (keeps : reader.Keeps bounds) :
    reader.view.remaining ≤ bounds.limit - bounds.first := by
  obtain ⟨place, stands, rfl⟩ := keeps.stands
  have first := stands.bounds.first_le_offset
  have limit := stands.bounds.stop_le_limit
  rw [stands.view_eq]
  simp only [View.remaining, Place.bounds]
  omega

/-- A count of entries that is accepted is no more than the bytes that remain. -/
theorem le_remaining_of_entryCount {formats : List EntryFormat} {field : String} {count : Nat}
    (h : reader.run source (Decode.entryCount formats field).run log = (.ok count, moved, log')) :
    count ≤ moved.view.remaining := by
  obtain ⟨number, ⟨behind, log₁⟩, -, rest⟩ := Dialogue.runStep_bind_ok _ _ h
  split at rest
  · cases rest
    exact Nat.zero_le _
  · obtain ⟨seen, ⟨looked, log₂⟩, looks, rest⟩ := Dialogue.runStep_bind_ok _ _ rest
    cases looks
    dsimp only at rest
    split at rest
    · cases rest
    · rename_i accepted
      cases rest
      exact Nat.le_trans (Nat.le_of_not_lt (not_or.mp accepted).2) (Nat.div_le_self _ _)

end Reader

namespace Consult

variable {α β γ : Type}

theorem bind_unlessStopped (step : Consult α) (first : α → Consult (Halting β))
    (next : β → Consult (Halting γ)) :
    (step >>= first).unlessStopped next =
      step >>= fun answer => (first answer).unlessStopped next :=
  bind_assoc step first _

theorem returned_unlessStopped (value : α) (next : α → Consult (Halting β)) :
    unlessStopped (pure (.returned value)) next = next value :=
  pure_bind _ _

theorem unlessStopped_assoc (first : Consult (Halting α)) (next : α → Consult (Halting β))
    (last : β → Consult (Halting γ)) :
    (first.unlessStopped next).unlessStopped last =
      first.unlessStopped fun value => (next value).unlessStopped last := by
  refine (bind_assoc first _ _).trans (congrArg (first >>= ·) (funext fun halting => ?_))
  cases halting with
  | returned value => rfl
  | stopped => exact pure_bind _ _

end Consult

namespace Session

variable {source : Source} {session session' : Session} {bounds : Place.Bounds}

theorem keeps_run {α : Type} {inquiry : Inquiry α} {answer : α}
    (keeps : session.readers.lines.Keeps bounds)
    (h : session.run source inquiry = (answer, session')) :
    session'.readers.lines.Keeps bounds := by
  have step (request : Request) (moved : Session) (kept : moved.readers.lines.Keeps bounds) :
      (serve source request moved).2.readers.lines.Keeps bounds := by
    obtain ⟨table, query⟩ := request
    cases table with
    | lines => exact kept.serve source query moved.log
    | info | abbreviations | strings | lineStrings | stringOffsets => exact kept
  have kept : (session.run source inquiry).2.readers.lines.Keeps bounds :=
    inquiry.run_keeps (fun moved : Session => moved.readers.lines.Keeps bounds) step keeps
  rwa [h] at kept

/-- A step that goes on unless the program stopped stops with its first part, or goes on from what
that returned. -/
theorem run_unlessStopped {α β : Type} {first : Consult (Halting α)}
    {next : α → Consult (Halting β)} {halting : Halting β}
    (h : session.run source (first.unlessStopped next).run = (.ok halting, session')) :
    (session.run source first.run = (.ok .stopped, session') ∧ halting = .stopped) ∨
      ∃ value reached, session.run source first.run = (.ok (.returned value), reached) ∧
        reached.run source (next value).run = (.ok halting, session') := by
  obtain ⟨between, reached, begins, goes⟩ := Dialogue.runStep_bind_ok _ _ h
  cases between with
  | returned value => exact .inr ⟨value, reached, begins, goes⟩
  | stopped =>
      cases goes
      exact .inl ⟨begins, rfl⟩

theorem run_unlessStopped_returned {α β : Type} {first : Consult (Halting α)}
    {next : α → Consult (Halting β)} {answer : β}
    (h : session.run source (first.unlessStopped next).run =
      (.ok (.returned answer), session')) :
    ∃ value reached, session.run source first.run = (.ok (.returned value), reached) ∧
      reached.run source (next value).run = (.ok (.returned answer), session') :=
  (run_unlessStopped h).resolve_left fun ends => by cases ends.2

theorem run_unlessStopped_eq {α β : Type} {first : Consult (Halting α)}
    {next : α → Consult (Halting β)} {value : α}
    (h : session.run source first.run = (.ok (.returned value), session')) :
    session.run source (first.unlessStopped next).run = session'.run source (next value).run := by
  simp only [run] at h ⊢
  rw [Consult.unlessStopped, Dialogue.runStep_bind, h]

theorem length_of_entriesFrom {formats : List EntryFormat} {read entries : List SourceFile}
    {count : Nat} {session left : Session}
    (h : session.run source (Consult.entriesFrom formats read count).run = (.ok entries, left)) :
    entries.length = read.length + count := by
  induction count generalizing read session with
  | zero =>
      cases h
      exact List.length_reverse
  | succ count ih =>
      obtain ⟨entry, reached, -, goes⟩ := Dialogue.runStep_bind_ok _ _ h
      rw [ih goes, List.length_cons]
      omega

/-- Entries were read for an accepted count, as many as that, unless no memory could be reserved for
it. -/
theorem entries_cases {formats : List EntryFormat} {field : String}
    {halting : Halting (List SourceFile)}
    (h : session.run source (Consult.entries formats field).run = (.ok halting, session')) :
    ∃ count reached,
      session.run source ((Decode.entryCount formats field).on .lines).run =
        (.ok count, reached) ∧
      ((¬ Memory.Reserves count SourceFile.footprint ∧ halting = .stopped) ∨
        ∃ entries, halting = .returned entries ∧ entries.length = count) := by
  obtain ⟨count, reached, counts, rest⟩ := Dialogue.runStep_bind_ok _ _ h
  refine ⟨count, reached, counts, ?_⟩
  split at rest
  · rw [map_eq_pure_bind] at rest
    obtain ⟨entries, listed, loops, gave⟩ := Dialogue.runStep_bind_ok _ _ rest
    cases gave
    exact .inr ⟨entries, rfl, by rw [length_of_entriesFrom loops, List.length_nil, Nat.zero_add]⟩
  · rename_i unreserved
    cases rest
    exact .inl ⟨unreserved, rfl⟩

/-- A table stops the program only if memory cannot be reserved for as many entries as its section
has bytes. -/
theorem not_reserves_of_entryTable {field : String} (keeps : session.readers.lines.Keeps bounds)
    (h : session.run source (Consult.entryTable field).run = (.ok .stopped, session')) :
    ¬ Memory.Reserves (bounds.limit - bounds.first) SourceFile.footprint := by
  obtain ⟨formats, told, tells, reads⟩ := Dialogue.runStep_bind_ok _ _ h
  obtain ⟨count, counted, counts, ⟨unreserved, -⟩ | ⟨entries, gives, -⟩⟩ := entries_cases reads
  · have few : count ≤ counted.readers.lines.view.remaining :=
      Reader.le_remaining_of_entryCount (step_on counts)
    have within := (keeps_run (keeps_run keeps tells) counts).remaining_le
    exact fun reserves => unreserved (reserves.mono (Nat.le_trans few within))
  · cases gives

/-- The tables of a version stop the program only in such a section. -/
theorem not_reserves_of_lineTables {version : Nat} (keeps : session.readers.lines.Keeps bounds)
    (h : session.run source (Consult.lineTables version).run = (.ok .stopped, session')) :
    ¬ Memory.Reserves (bounds.limit - bounds.first) SourceFile.footprint := by
  by_cases late : 5 ≤ version
  · rw [Consult.lineTables, if_pos late] at h
    rcases run_unlessStopped h with ⟨stops, -⟩ | ⟨directories, listed, lists, rest⟩
    · exact not_reserves_of_entryTable keeps stops
    · rcases run_unlessStopped rest with ⟨stops, -⟩ | ⟨files, listed', lists', gave⟩
      · exact not_reserves_of_entryTable (keeps_run keeps lists) stops
      · cases gave
  · rw [Consult.lineTables, if_neg late] at h
    obtain ⟨directories, listed, lists, rest⟩ := Dialogue.runStep_bind_ok _ _ h
    obtain ⟨files, listed', lists', gave⟩ := Dialogue.runStep_bind_ok _ _ rest
    cases gave

/-- The header of a line program stops the program only in such a section. -/
theorem not_reserves_of_lineHeader {offset : Nat} (keeps : session.readers.lines.Keeps bounds)
    (h : session.run source (Consult.lineHeader offset).run = (.ok .stopped, session')) :
    ¬ Memory.Reserves (bounds.limit - bounds.first) SourceFile.footprint := by
  obtain ⟨extent, entered, enters, rest⟩ := Dialogue.runStep_bind_ok _ _ h
  obtain ⟨sizes, sized, reads, rest⟩ := Dialogue.runStep_bind_ok _ _ rest
  obtain ⟨headerLength, measured, measures, rest⟩ := Dialogue.runStep_bind_ok _ _ rest
  obtain ⟨seen, looked, looks, rest⟩ := Dialogue.runStep_bind_ok _ _ rest
  obtain ⟨parameters, taken, takes, rest⟩ := Dialogue.runStep_bind_ok _ _ rest
  have sized := keeps_run (keeps_run keeps enters) reads
  have taken := keeps_run (keeps_run (keeps_run sized measures) looks) takes
  rcases run_unlessStopped rest with ⟨stops, -⟩ | ⟨tables, listed, lists, rest⟩
  · exact not_reserves_of_lineTables taken stops
  · obtain ⟨_, moved, moves, gave⟩ := Dialogue.runStep_bind_ok _ _ rest
    cases gave

end Session

end Dwarf
