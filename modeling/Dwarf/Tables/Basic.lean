import Dwarf.Reader.Basic
/-!
# The tables of one file

Units and line programs are spread over six sections.  A bank holds one thing per table, a
consultation is a dialogue with all of them, and a session is the state of their readers together
with the accesses they made.

Each query of a consultation names its table, so it changes the reader of that table only, and the
accesses of all readers stand in one log in the order in which they were made.
-/

namespace Dwarf

/-- The sections that units and line programs consult. -/
inductive Table where
  | info
  | abbreviations
  | strings
  | lineStrings
  | stringOffsets
  | lines
  deriving DecidableEq, Repr

namespace Table

/-- All tables, in the order in which their readers are bound. -/
def all : List Table := [.info, .abbreviations, .strings, .lineStrings, .stringOffsets, .lines]

/-- The section that holds a table. -/
def sectionName : Table → String
  | .info => ".debug_info"
  | .abbreviations => ".debug_abbrev"
  | .strings => ".debug_str"
  | .lineStrings => ".debug_line_str"
  | .stringOffsets => ".debug_str_offsets"
  | .lines => ".debug_line"

end Table

/-- One thing per table. -/
structure Bank (ρ : Type) where
  info : ρ
  abbreviations : ρ
  strings : ρ
  lineStrings : ρ
  stringOffsets : ρ
  lines : ρ
  deriving DecidableEq, Repr

namespace Bank

variable {ρ : Type}

/-- The same thing for every table. -/
def replicate (item : ρ) : Bank ρ := ⟨item, item, item, item, item, item⟩

/-- What a bank holds for a table. -/
def get (bank : Bank ρ) : Table → ρ
  | .info => bank.info
  | .abbreviations => bank.abbreviations
  | .strings => bank.strings
  | .lineStrings => bank.lineStrings
  | .stringOffsets => bank.stringOffsets
  | .lines => bank.lines

/-- A bank with another thing for one table. -/
def set (bank : Bank ρ) (item : ρ) : Table → Bank ρ
  | .info => { bank with info := item }
  | .abbreviations => { bank with abbreviations := item }
  | .strings => { bank with strings := item }
  | .lineStrings => { bank with lineStrings := item }
  | .stringOffsets => { bank with stringOffsets := item }
  | .lines => { bank with lines := item }

/-- What a bank holds, in the order of the tables. -/
def toList (bank : Bank ρ) : List ρ := Table.all.map bank.get

@[simp] theorem get_set_self (bank : Bank ρ) (item : ρ) (table : Table) :
    (bank.set item table).get table = item := by
  cases table <;> rfl

theorem get_set_of_ne (bank : Bank ρ) (item : ρ) {table other : Table} (h : other ≠ table) :
    (bank.set item table).get other = bank.get other := by
  cases table <;> cases other <;> first | rfl | exact absurd rfl h

end Bank

/-- A query to one of the tables. -/
structure Request where
  /-- The table that is asked. -/
  table : Table
  /-- What it is asked. -/
  query : Query
  deriving DecidableEq, Repr

/-- The type of the reply to a request. -/
def Request.Reply (request : Request) : Type := request.query.Reply

/-- A dialogue with the tables of one file. -/
abbrev Inquiry := Dialogue Request Request.Reply

/-- A dialogue with the tables of one file that may fail. -/
abbrev Consult := ExceptT Error Inquiry

namespace Decoder

/-- Puts all queries of a decoder to one table. -/
def on {α : Type} (table : Table) : Decoder α → Inquiry α
  | .done answer => .done answer
  | .ask query next => .ask ⟨table, query⟩ fun reply => on table (next reply)

end Decoder

namespace Decode

/-- Puts all queries of a decoding step to one table. -/
def on {α : Type} (table : Table) (step : Decode α) : Consult α :=
  ExceptT.mk (Decoder.on table step.run)

end Decode

/-- The readers of the tables and the accesses they made. -/
structure Session where
  /-- One reader per table. -/
  readers : Bank Reader
  /-- The accesses of all readers, oldest first. -/
  log : AccessLog

namespace Session

/-- Readers that have made no access. -/
def start (readers : Bank Reader) : Session := ⟨readers, #[]⟩

/-- Replies to one request. -/
def serve (source : Source) (request : Request) (session : Session) : request.Reply × Session :=
  let (reply, reader, log) :=
    Reader.serve source request.query (session.readers.get request.table, session.log)
  (reply, ⟨session.readers.set reader request.table, log⟩)

/-- Runs an inquiry on the readers. -/
def run {α : Type} (source : Source) (inquiry : Inquiry α) (session : Session) : α × Session :=
  inquiry.run (serve source) session

theorem run_on {α : Type} (source : Source) (table : Table) (decoder : Decoder α)
    (session : Session) :
    session.run source (decoder.on table) =
      let (answer, reader, log) := Reader.run source decoder (session.readers.get table) session.log
      (answer, ⟨session.readers.set reader table, log⟩) := by
  induction decoder generalizing session with
  | done answer => cases table <;> rfl
  | ask query next ih =>
      have step := ih (Reader.serve source query (session.readers.get table, session.log)).1
        (Session.serve source ⟨table, query⟩ session).2
      simp only [Session.serve, Bank.get_set_self] at step
      refine step.trans ?_
      cases table <;> rfl

theorem step_on {α : Type} {source : Source} {session session' : Session} {table : Table}
    {step : Decode α} {answer : Except Error α}
    (h : session.run source (step.on table).run = (answer, session')) :
    (session.readers.get table).run source step.run session.log =
      (answer, session'.readers.get table, session'.log) := by
  rw [show (step.on table).run = step.run.on table from rfl, run_on] at h
  cases h
  rw [Bank.get_set_self]
  rfl

end Session

end Dwarf
