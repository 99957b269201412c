import Dwarf.Command.Arguments
import Dwarf.Command.Listing
import Dwarf.Line.Entry
/-!
# Running commands

A command turns a file into a listing and may fail behind part of it.

## Implementation notes

The file is opened and its sections are found before the capacity of the buffers is looked at.  What
a command asks of its surroundings is a parameter, so nothing here depends on how an object file
says where its sections are.
-/

namespace Dwarf.Command

/-- Why a command ended before its time. -/
inductive Failure where
  /-- It failed, and says why. -/
  | reason (message : String)
  /-- It asked for more memory than can be reserved, and the program stopped. -/
  | stopped
  deriving DecidableEq, Repr

/-- What a command wrote, and what it failed with. -/
structure Outcome where
  /-- The lines that were written. -/
  lines : Listing
  /-- The failure behind them. -/
  failure : Option Failure
  deriving DecidableEq, Repr

namespace Outcome

/-- The outcome of a command that may fail before it writes anything. -/
def ofExcept (result : Except Failure Outcome) : Outcome :=
  match result with
  | .ok outcome => outcome
  | .error failure => ⟨[], some failure⟩

/-- One outcome and then another, unless the first is a failure. -/
def andThen (first next : Outcome) : Outcome :=
  match first.failure with
  | none => ⟨first.lines ++ next.lines, next.failure⟩
  | some failure => ⟨first.lines, some failure⟩

/-- The text on standard output. -/
def standardOutput (outcome : Outcome) : String :=
  String.join (outcome.lines.map (· ++ "\n"))

/-- The text on standard error. -/
def standardError (outcome : Outcome) : Option String :=
  outcome.failure.map fun failure =>
    match failure with
    | .reason message => "Error: " ++ message ++ "\n"
    | .stopped => "capacity overflow\n"

/-- The exit code of the program. -/
def exitCode (outcome : Outcome) : UInt32 :=
  match outcome.failure with
  | none => 0
  | some (.reason _) => 1
  | some .stopped => 101

end Outcome

/-- What a command asks of its surroundings. -/
structure Host where
  /-- The bytes of a file, or why it cannot be read. -/
  file : String → Except String (Array UInt8)
  /-- Where the sections of an object file are. -/
  sections : Array UInt8 → Except Error SectionDirectory

/-- The line program of a unit. -/
structure LineProgram where
  /-- The offset of the unit in its section. -/
  unit : Nat
  /-- The name of the unit. -/
  name : Option String
  /-- The offset of the program in its section. -/
  offset : Nat
  deriving DecidableEq, Repr

/-- An error of the library in its own words. -/
def worded {α : Type} (result : Except Error α) : Except Failure α :=
  match result with
  | .ok a => .ok a
  | .error error => .error (.reason error.message)

/-- The bytes of an object file and its debug sections. -/
def openObject (host : Host) (path : String) :
    Except Failure (Array UInt8 × SectionDirectory) := do
  match host.file path with
  | .error reason => throw (.reason (path ++ ": " ++ reason))
  | .ok image => pure (image, ← worded (host.sections image))

/-- The readers of an object file, with buffers of one capacity. -/
def openReaders (sections : SectionDirectory) (capacity : Nat) : Except Failure Session := do
  let capacity ← worded (Reader.checkCapacity capacity)
  unless Memory.Reserves capacity 1 do throw .stopped
  let bank ← worded (sections.bind (List.replicate Table.all.length capacity))
  pure (Session.start bank)

/-- Lists the sections of a file. -/
def listSections (host : Host) (path : String) : Except Failure Outcome := do
  let (_, sections) ← openObject host path
  pure ⟨Listing.ofSections sections, none⟩

/-- Lists the units of a file. -/
def listUnits (host : Host) (capacity : Nat) (path : String) : Except Failure Outcome := do
  let (image, sections) ← openObject host path
  let session ← openReaders sections capacity
  unless session.readers.info.view.isBound do
    throw (.reason (path ++ ": no readable .debug_info section"))
  let (walk, _) := session.run (Source.ofImage image) Consult.walk
  pure ⟨walk.visits.flatMap Listing.ofVisit,
    walk.failure.map fun error => .reason error.message⟩

/-- The line program of a visited unit, if it was decoded and has one. -/
def lineProgram? (visit : Visit) : Option LineProgram :=
  match visit.report with
  | .error _ => none
  | .ok report =>
    report.summary.lineProgram.map fun offset => ⟨visit.offset, report.summary.name, offset⟩

/-- The line programs of the visited units, or of the only one that is wanted. -/
def linePrograms (only : Option Nat) (visits : List Visit) : List LineProgram :=
  (visits.filter fun visit => only.all (· == visit.offset)).filterMap lineProgram?

/-- The heading of a unit and the header of its line program, or why that is skipped; only the
heading where the program stopped. -/
def Outcome.ofLineProgram (program : LineProgram) (header : Except Error (Halting LineHeader)) :
    Outcome :=
  let heading := Listing.unitHeading program.unit ++ " " ++ program.name.getD "<unnamed>"
  ⟨heading :: Listing.ofLineProgram program.offset header,
    match header with
    | .ok .stopped => some .stopped
    | _ => none⟩

/-- Lists line programs in order. -/
def listPrograms (source : Source) : List LineProgram → Session → Outcome
  | [], _ => ⟨[], none⟩
  | program :: rest, session =>
    let (header, session) := session.run source (Consult.lineHeader program.offset).run
    (Outcome.ofLineProgram program header).andThen (listPrograms source rest session)

/-- Lists the line programs of a file, or of the only unit that is wanted. -/
def listLines (host : Host) (capacity : Nat) (path : String) (only : Option Nat) :
    Except Failure Outcome := do
  let (image, sections) ← openObject host path
  let session ← openReaders sections capacity
  unless session.readers.lines.view.isBound do
    throw (.reason (path ++ ": no readable .debug_line section"))
  let source := Source.ofImage image
  let (walk, session) := session.run source Consult.walk
  let _ ← worded walk.count
  let programs := linePrograms only walk.visits
  match only, programs with
  | some wanted, [] =>
    throw (.reason ("no compile unit with a line program at offset " ++ Numeral.hex wanted))
  | _, _ => pure (listPrograms source programs session)

/-- Shows the name of a constant. -/
def showName (family : Family) (value : Nat) : Except Failure Outcome :=
  match family.name? value with
  | some name => .ok ⟨[name], none⟩
  | none =>
    .error (.reason ("no " ++ family.label ++ " constant with value " ++ Numeral.hex value))

/-- Runs a command. -/
def run (host : Host) (invocation : Invocation) : Outcome :=
  Outcome.ofExcept <|
    match invocation.action with
    | .sections path => listSections host path
    | .units path => listUnits host invocation.bufferSize path
    | .lines path only => listLines host invocation.bufferSize path only
    | .name family value => showName family value

end Dwarf.Command
