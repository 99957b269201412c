import Dwarf.Command.Run
import Dwarf.Proofs.Resumed
/-!
# Listings of line programs

A listing of line programs is made of blocks, one for each unit that has a program.  Asking for one
unit only gives the block of that unit as it stands in the full listing, or an error if the full
listing has none.  Nothing is asked of how the sections of a file are found.

## Implementation notes

Both listings walk the units first and read the programs then, from the same session.  The full
listing reads the earlier programs before the one that is wanted, so blocks are told by what is read
right behind the walk.
-/

namespace Dwarf.Command

/-- What is listed of a unit: its line program, and the header that was read of it. -/
structure Block where
  program : LineProgram
  header : Except Error (Halting LineHeader)

namespace Block

/-- What comes of listing a block: the heading of the unit, and the header or why it is skipped. -/
def outcome (block : Block) : Outcome := .ofLineProgram block.program block.header

/-- The block of a line program that a session reads first. -/
def read (source : Source) (session : Session) (program : LineProgram) : Block :=
  ⟨program, (session.run source (Consult.lineHeader program.offset).run).1⟩

theorem find?_read (source : Source) (session : Session) (programs : List LineProgram)
    (unit : Nat) :
    ((programs.map (read source session)).find? fun block => block.program.unit == unit) =
      (programs.find? fun program => program.unit == unit).map (read source session) :=
  List.find?_map

end Block

namespace Outcome

/-- What comes of listing blocks in order. -/
def ofBlocks (blocks : List Block) : Outcome :=
  blocks.foldr (fun block later => block.outcome.andThen later) ⟨[], none⟩

theorem andThen_nothing (outcome : Outcome) : outcome.andThen ⟨[], none⟩ = outcome := by
  obtain ⟨lines, failure⟩ := outcome
  cases failure with
  | none => exact congrArg (Outcome.mk · none) (List.append_nil lines)
  | some failure => rfl

/-- Where blocks are listed to the end each of them is, one behind the other. -/
theorem ofBlocks_finished {blocks : List Block} (h : (ofBlocks blocks).failure = none) :
    (ofBlocks blocks).lines = blocks.flatMap (·.outcome.lines) ∧
      ∀ block ∈ blocks, block.outcome.failure = none := by
  induction blocks with
  | nil => exact ⟨rfl, nofun⟩
  | cons block rest ih =>
      rw [ofBlocks, List.foldr_cons, ← ofBlocks, andThen] at h ⊢
      cases ends : block.outcome.failure with
      | some failure =>
          rw [ends] at h
          cases h
      | none =>
          rw [ends] at h
          obtain ⟨lines, finished⟩ := ih h
          rw [List.flatMap_cons, ← lines]
          exact ⟨rfl, List.forall_mem_cons.mpr ⟨ends, finished⟩⟩

end Outcome

section Programs

variable {visits : List Visit} {visit : Visit} {program : LineProgram}

theorem unit_of_lineProgram? (h : lineProgram? visit = some program) :
    program.unit = visit.offset := by
  simp only [lineProgram?] at h
  split at h
  · cases h
  · obtain ⟨offset, -, rfl⟩ := Option.map_eq_some_iff.mp h
    rfl

theorem linePrograms_none (visits : List Visit) :
    linePrograms none visits = visits.filterMap lineProgram? :=
  congrArg (List.filterMap lineProgram?) (List.filter_true visits)

/-- The line programs of one unit are the ones among all that belong to it. -/
theorem linePrograms_some (unit : Nat) (visits : List Visit) :
    linePrograms (some unit) visits =
      (linePrograms none visits).filter fun program => program.unit == unit := by
  rw [linePrograms_none, linePrograms]
  induction visits with
  | nil => rfl
  | cons visit rest ih =>
      rw [List.filter_cons, List.filterMap_cons]
      cases reads : lineProgram? visit with
      | none =>
          rw [← ih]
          split
          · rw [List.filterMap_cons, reads]
          · rfl
      | some program =>
          dsimp only
          rw [List.filter_cons, ← ih, unit_of_lineProgram? reads, Option.all_some,
            BEq.comm (a := unit)]
          split
          · rw [List.filterMap_cons, reads]
          · rfl

theorem pairwise_linePrograms
    (h : visits.Pairwise fun earlier later => earlier.offset < later.offset) :
    (linePrograms none visits).Pairwise fun earlier later => earlier.unit < later.unit := by
  rw [linePrograms_none]
  refine h.filterMap lineProgram? fun earlier later before program read program' read' => ?_
  rw [unit_of_lineProgram? read, unit_of_lineProgram? read']
  exact before

/-- Of programs in order, those of one unit are at most one, the first that is found. -/
theorem filter_unit {programs : List LineProgram}
    (ordered : programs.Pairwise fun earlier later => earlier.unit < later.unit) (unit : Nat) :
    (programs.filter fun program => program.unit == unit) =
      (programs.find? fun program => program.unit == unit).toList := by
  induction ordered with
  | nil => rfl
  | @cons program rest before _ ih =>
      rw [List.filter_cons, List.find?_cons]
      cases here : program.unit == unit with
      | false => exact ih
      | true =>
          have others : ∀ later ∈ rest, ¬ (later.unit == unit) = true := fun later member same => by
            have behind := before later member
            rw [beq_iff_eq] at here same
            omega
          rw [if_pos rfl, List.filter_eq_nil_iff.mpr others]
          rfl

end Programs

section Sessions

variable {image : Array UInt8} {origin session : Session}

/-- Programs that a session lists have the blocks of programs that are read first. -/
theorem listPrograms_eq (faithful : origin.pool.Faithful image)
    (unaged : origin.readers.lines.context.version ≠ some 2)
    (resumed : Session.Resumed image origin session) (programs : List LineProgram) :
    listPrograms (.ofImage image) programs session =
      .ofBlocks (programs.map (Block.read (.ofImage image) origin)) := by
  induction programs generalizing session with
  | nil => rfl
  | cons program rest ih =>
      have reads := resumed.header_eq faithful unaged program.offset
      rw [List.map_cons, Outcome.ofBlocks, List.foldr_cons, ← Outcome.ofBlocks,
        ← ih (resumed.lineHeader program.offset)]
      rw [listPrograms, Block.outcome, Block.read, ← reads]

end Sessions

theorem worded_eq_ok_iff {α : Type} {result : Except Error α} {value : α} :
    worded result = .ok value ↔ result = .ok value := by
  cases result <;> simp [worded]

/-- Opened readers were bound and have made no access. -/
theorem openReaders_eq_ok {sections : SectionDirectory} {capacity : Nat} {session : Session}
    (h : openReaders sections capacity = .ok session) :
    ∃ capacities bank, sections.bind capacities = .ok bank ∧ session = .start bank := by
  simp only [openReaders, bind, Except.bind] at h
  split at h
  · cases h
  · split at h
    · split at h
      · cases h
      · rename_i bank binds
        cases h
        exact ⟨_, bank, worded_eq_ok_iff.mp binds, rfl⟩
    · cases h

/-- A walk of opened readers makes its visits in order, and leaves a session that reads any number
of line programs alike. -/
theorem walk_of_bind {sections : SectionDirectory} {capacities : List Nat} {bank : Bank Reader}
    (binds : sections.bind capacities = .ok bank) {image : Array UInt8} {walk : Walk}
    {origin : Session}
    (walks : (Session.start bank).run (.ofImage image) Consult.walk = (walk, origin)) :
    walk.visits.Pairwise (fun earlier later => earlier.offset < later.offset) ∧
      origin.pool.Faithful image ∧ origin.readers.lines.context.version ≠ some 2 := by
  have used := Session.Used.refl (SectionDirectory.faithful_start image binds)
  have ordered := used.pairwise_visits
  have left := used.run (Licences.walk_usual.walk rfl)
  have kept := Session.context_walk used.faithful.sound (.ofImage image)
  have fresh : (Session.start bank).readers.lines.context.version = none :=
    SectionDirectory.version_of_bind binds .lines
  rw [walks] at ordered left kept
  refine ⟨ordered, left.faithful, ?_⟩
  rw [kept, fresh]
  exact (Option.some_ne_none 2).symm

/-- Listing line programs fails whatever is wanted, or lists programs of ordered visits from a
session that reads any number of them alike. -/
theorem listLines_cases (host : Host) (capacity : Nat) (path : String) :
    (∃ failure, ∀ only, listLines host capacity path only = .error failure) ∨
      ∃ image visits origin,
        visits.Pairwise (fun earlier later => earlier.offset < later.offset) ∧
          origin.pool.Faithful image ∧ origin.readers.lines.context.version ≠ some 2 ∧
            ∀ only, listLines host capacity path only =
              match only, linePrograms only visits with
              | some wanted, [] => .error (.reason
                ("no compile unit with a line program at offset " ++ Numeral.hex wanted))
              | _, programs => .ok (listPrograms (.ofImage image) programs origin) := by
  simp only [listLines, bind, Except.bind]
  cases opens : openObject host path with
  | error failure => exact .inl ⟨failure, fun _ => rfl⟩
  | ok opened =>
      obtain ⟨image, sections⟩ := opened
      dsimp only
      cases binds : openReaders sections capacity with
      | error failure => exact .inl ⟨failure, fun _ => rfl⟩
      | ok session =>
          obtain ⟨capacities, bank, bound, rfl⟩ := openReaders_eq_ok binds
          rcases walks : (Session.start bank).run (.ofImage image) Consult.walk with
            ⟨⟨visits, failure⟩, origin⟩
          obtain ⟨ordered, faithful, unaged⟩ := walk_of_bind bound walks
          dsimp only
          by_cases lines : (Session.start bank).readers.lines.view.isBound = true
          · cases failure with
            | some error =>
                exact .inl ⟨.reason error.message, fun only => by rw [if_pos lines, walks]; rfl⟩
            | none =>
                refine .inr ⟨image, visits, origin, ordered, faithful, unaged, fun only => ?_⟩
                rw [if_pos lines, walks]
                cases only with
                | none => rfl
                | some wanted =>
                    dsimp only [worded, Walk.count]
                    cases linePrograms (some wanted) visits <;> rfl
          · refine .inl ⟨.reason (path ++ ": no readable .debug_line section"), fun only => ?_⟩
            rw [if_neg lines]
            rfl

/-- Asking for the line program of one unit filters the listing of all: either both fail before
anything is listed, and alike, or the full listing is made of blocks in the order of their units,
and what comes of asking for a unit is what comes of its block and nothing else, or the failure that
it has none.  A full listing that succeeds has the lines of all blocks, each of which is listed to
its end. -/
theorem run_lines_filtered (host : Host) (invocation : Invocation) (path : String) :
    let listed (only : Option Nat) := run host { invocation with action := .lines path only }
    (∃ failure, ∀ only, listed only = ⟨[], some failure⟩) ∨
      ∃ blocks : List Block,
        blocks.Pairwise (fun earlier later => earlier.program.unit < later.program.unit) ∧
          listed none = .ofBlocks blocks ∧
            ((listed none).failure = none →
              (listed none).lines = blocks.flatMap (·.outcome.lines) ∧
                ∀ block ∈ blocks, block.outcome.failure = none) ∧
            ∀ unit, listed (some unit) =
              match blocks.find? fun block => block.program.unit == unit with
              | some block => block.outcome
              | none => ⟨[], some (.reason
                ("no compile unit with a line program at offset " ++ Numeral.hex unit))⟩ := by
  intro listed
  rcases listLines_cases host invocation.bufferSize path with
    ⟨failure, fails⟩ | ⟨image, visits, origin, ordered, faithful, unaged, lists⟩
  · exact .inl ⟨failure, fun only => congrArg Outcome.ofExcept (fails only)⟩
  · have programs := pairwise_linePrograms ordered
    have reads := listPrograms_eq faithful unaged (.refl faithful)
    let blocks := (linePrograms none visits).map (Block.read (.ofImage image) origin)
    have all : listed none = .ofBlocks blocks := by
      refine (congrArg Outcome.ofExcept (lists none)).trans ?_
      exact reads (linePrograms none visits)
    refine .inr ⟨blocks, List.pairwise_map.mpr programs, all, fun succeeds => ?_, fun unit => ?_⟩
    · rw [all] at succeeds ⊢
      exact Outcome.ofBlocks_finished succeeds
    · refine (congrArg Outcome.ofExcept (lists (some unit))).trans ?_
      rw [linePrograms_some, filter_unit programs, Block.find?_read]
      cases found : (linePrograms none visits).find? fun program => program.unit == unit with
      | none => rfl
      | some program => exact (reads [program]).trans (Outcome.andThen_nothing _)

end Dwarf.Command
