import Dwarf.Command.Setting
import Dwarf.Reader.Basic
/-!
# Command line arguments

Arguments are read on two levels: before the subcommand, where options stand that every subcommand
has, and behind it, where these may stand as well.

## Implementation notes

An argument that starts with a hyphen is never a value, and after a lone double hyphen every
argument is one.  A value that follows its option as an argument of its own is checked when the
next option, value or end of the level asks for it, so an unknown flag behind it is reported first;
what is pending before the subcommand is checked after the subcommand's own arguments.
-/

namespace Dwarf.Command

/-- What is wrong with a command line, or why it asks for nothing but text. -/
inductive UsageFault where
  /-- The reader of a value rejects it, with its own words. -/
  | rejectedValue (message : String)
  /-- An option or a path has no value. -/
  | missingValue
  /-- A flag has a value. -/
  | unexpectedValue
  /-- An option is given twice. -/
  | repeatedOption
  /-- There is no such flag, or no room for another value. -/
  | unknownArgument
  /-- There is no such subcommand. -/
  | unknownSubcommand
  /-- A value is missing that the subcommand needs. -/
  | missingArgument
  /-- There are options but no subcommand. -/
  | missingSubcommand
  /-- There are no arguments. -/
  | noArguments
  /-- Help is asked for. -/
  | helpWanted
  /-- The version is asked for. -/
  | versionWanted
  deriving DecidableEq, Repr

/-- A value that an argument can give. -/
inductive Slot where
  | bufferSize
  | verbosity
  | diagnosticLayout
  | diagnosticFile
  | unitOffset
  | file
  | family
  | value
  deriving DecidableEq, Repr

/-- The values that were found on one level. -/
structure Found where
  bufferSize : Option Nat
  verbosity : Option Verbosity
  diagnosticLayout : Option DiagnosticLayout
  diagnosticFile : Option String
  unitOffset : Option Nat
  file : Option String
  family : Option Family
  value : Option Nat
  deriving DecidableEq, Repr

namespace Found

/-- No values. -/
def nothing : Found := ⟨none, none, none, none, none, none, none, none⟩

/-- Whether a value was found. -/
def has (found : Found) : Slot → Bool
  | .bufferSize => found.bufferSize.isSome
  | .verbosity => found.verbosity.isSome
  | .diagnosticLayout => found.diagnosticLayout.isSome
  | .diagnosticFile => found.diagnosticFile.isSome
  | .unitOffset => found.unitOffset.isSome
  | .file => found.file.isSome
  | .family => found.family.isSome
  | .value => found.value.isSome

/-- Reads a value, or reports the words of its reader. -/
def reading {α : Type} (result : Except String α) : Except UsageFault α :=
  match result with
  | .ok a => .ok a
  | .error message => .error (.rejectedValue message)

/-- Reads a path, which must not be empty. -/
def readPath (text : String) : Except UsageFault String :=
  if text.isEmpty then .error .missingValue else .ok text

/-- Reads a text as a value and keeps it. -/
def store (found : Found) (slot : Slot) (text : String) : Except UsageFault Found := do
  match slot with
  | .bufferSize => pure { found with bufferSize := some (← reading (readSize text)) }
  | .verbosity => pure { found with verbosity := some (← reading (Verbosity.read text)) }
  | .diagnosticLayout =>
    pure { found with diagnosticLayout := some (← reading (DiagnosticLayout.read text)) }
  | .diagnosticFile => pure { found with diagnosticFile := some (← readPath text) }
  | .unitOffset => pure { found with unitOffset := some (← reading (readNumber text)) }
  | .file => pure { found with file := some (← readPath text) }
  | .family => pure { found with family := some (← reading (readFamily text)) }
  | .value => pure { found with value := some (← reading (readNumber text)) }

end Found

/-- What may stand on a level. -/
structure Level where
  /-- The options with the words that introduce them. -/
  options : List (String × Slot)
  /-- The values without options, in order. -/
  positionals : List Slot
  /-- The subcommands, if they are expected here. -/
  subcommands : List String
  deriving DecidableEq, Repr

namespace Level

/-- The options of every level. -/
def common : List (String × Slot) :=
  [("buffer-size", .bufferSize), ("log-level", .verbosity), ("log-format", .diagnosticLayout),
   ("log-file", .diagnosticFile)]

/-- The level before the subcommand. -/
def top : Level := ⟨common, [], ["sections", "units", "lines", "name", "help"]⟩

/-- The level behind a subcommand. -/
def behind (subcommand : String) : Level :=
  match subcommand with
  | "lines" => ⟨("unit-offset", .unitOffset) :: common, [.file], []⟩
  | "name" => ⟨common, [.family, .value], []⟩
  | _ => ⟨common, [.file], []⟩

/-- Whether this is the level before the subcommand. -/
def isTop (level : Level) : Bool := !level.subcommands.isEmpty

end Level

/-- How far the arguments of a level were read. -/
structure Progress where
  /-- The values that were found and checked. -/
  found : Found
  /-- A value that still has to be checked, or an option whose value is still to come. -/
  pending : Option (Slot × Option String)
  /-- The values without options that are still to come. -/
  expected : List Slot
  /-- Whether a double hyphen was read. -/
  literal : Bool
  deriving DecidableEq, Repr

namespace Progress

/-- The start of a level. -/
def start (level : Level) : Progress := ⟨.nothing, none, level.positionals, false⟩

/-- Checks and keeps a value. -/
def keep (progress : Progress) (slot : Slot) (text : String) : Except UsageFault Progress :=
  if progress.found.has slot then .error .repeatedOption
  else do pure { progress with found := ← progress.found.store slot text }

/-- Checks what is pending. -/
def settle (progress : Progress) : Except UsageFault Progress :=
  let settled := { progress with pending := none }
  match progress.pending with
  | none => .ok settled
  | some (_, none) => .error .missingValue
  | some (slot, some text) => settled.keep slot text

/-- Whether an option waits for its value. -/
def isWaiting (progress : Progress) : Bool :=
  match progress.pending with
  | some (_, none) => true
  | _ => false

/-- Reads a long flag, given without its hyphens. -/
def longFlag (level : Level) (progress : Progress) (flag : String) : Except UsageFault Progress :=
  let name := String.ofList (flag.toList.takeWhile (· ≠ '='))
  let attached := match flag.toList.dropWhile (· ≠ '=') with
    | [] => none
    | _ :: text => some (String.ofList text)
  match level.options.lookup name, attached with
  | some slot, some text => do (← progress.settle).keep slot text
  | some slot, none => do pure { ← progress.settle with pending := some (slot, none) }
  | none, _ =>
    let wanted : Option UsageFault :=
      if name = "help" then some .helpWanted
      else if name = "version" ∧ level.isTop then some .versionWanted
      else none
    match wanted, attached with
    | none, _ => .error .unknownArgument
    | some _, some _ => .error .unexpectedValue
    | some fault, none => do
      let _ ← progress.settle
      throw fault

/-- Reads short flags, given without their hyphen; the first one decides. -/
def shortFlags (level : Level) (progress : Progress) (flags : List Char) :
    Except UsageFault Progress :=
  let wanted : Option UsageFault :=
    match flags.head? with
    | some 'h' => some .helpWanted
    | some 'V' => if level.isTop then some .versionWanted else none
    | _ => none
  match wanted with
  | none => .error .unknownArgument
  | some fault => do
    let _ ← progress.settle
    throw fault

/-- Reads a value without an option. -/
def positional (level : Level) (progress : Progress) (text : String) :
    Except UsageFault Progress :=
  match progress.expected with
  | slot :: rest => do
    pure { ← progress.settle with pending := some (slot, some text), expected := rest }
  | [] =>
    if !level.isTop then .error .unknownArgument
    else if progress.literal && level.subcommands.contains text then .error .unknownArgument
    else .error .unknownSubcommand

/-- Reads one argument that is not a subcommand. -/
def argument (level : Level) (progress : Progress) (text : String) : Except UsageFault Progress :=
  if progress.literal then progress.positional level text
  else
    match text.toList, progress.pending with
    | ['-', '-'], _ => .ok { progress with literal := true }
    | '-' :: '-' :: flag, _ => progress.longFlag level (String.ofList flag)
    | '-' :: c :: flags, _ => progress.shortFlags level (c :: flags)
    | _, some (slot, none) => .ok { progress with pending := some (slot, some text) }
    | _, _ => progress.positional level text

/-- Reads the arguments of a level, up to a subcommand and the arguments behind it. -/
def scan (level : Level) (progress : Progress) :
    List String → Except UsageFault (Progress × Option (String × List String))
  | [] => .ok (progress, none)
  | text :: rest =>
    if !progress.literal && !progress.isWaiting && level.subcommands.contains text then
      .ok (progress, some (text, rest))
    else do scan level (← progress.argument level text) rest

end Progress

/-- What a command line asks for. -/
inductive Action where
  /-- The sections of a file. -/
  | sections (path : String)
  /-- The units of a file. -/
  | units (path : String)
  /-- The line programs of a file, or of one of its units. -/
  | lines (path : String) (only : Option Nat)
  /-- The name of a constant. -/
  | name (family : Family) (value : Nat)
  deriving DecidableEq, Repr

/-- A command line that was understood. -/
structure Invocation where
  /-- What is asked for. -/
  action : Action
  /-- The capacity of the buffers. -/
  bufferSize : Nat
  /-- Which diagnostics are written, if that was said. -/
  verbosity : Option Verbosity
  /-- How diagnostics are laid out, if that was said. -/
  diagnosticLayout : Option DiagnosticLayout
  /-- The file that diagnostics go to, if that was said. -/
  diagnosticFile : Option String
  deriving DecidableEq, Repr

namespace Invocation

/-- The action of a subcommand with the values behind it. -/
def action? (subcommand : String) (found : Found) : Option Action := do
  match subcommand with
  | "sections" => pure (.sections (← found.file))
  | "units" => pure (.units (← found.file))
  | "lines" => pure (.lines (← found.file) found.unitOffset)
  | _ => pure (.name (← found.family) (← found.value))

/-- What help comes to.  It may be asked for one subcommand; a further name would have to be a
subcommand of that one, and there are none. -/
def help : List String → UsageFault
  | [] => .helpWanted
  | [name] => if Level.top.subcommands.contains name then .helpWanted else .unknownSubcommand
  | _ => .unknownSubcommand

/-- Understands the arguments behind the name of the program. -/
def ofArguments (arguments : List String) : Except UsageFault Invocation := do
  match ← (Progress.start .top).scan .top arguments with
  | (top, none) =>
    let top ← top.settle
    throw (if top.found = .nothing then .noArguments else .missingSubcommand)
  | (_, some ("help", names)) => throw (help names)
  | (top, some (subcommand, rest)) =>
    let level := Level.behind subcommand
    let (sub, _) ← (Progress.start level).scan level rest
    let sub ← sub.settle
    match action? subcommand sub.found with
    | none => throw .missingArgument
    | some action =>
      let top ← top.settle
      pure {
        action := action
        bufferSize := (sub.found.bufferSize.or top.found.bufferSize).getD Reader.defaultCapacity
        verbosity := sub.found.verbosity.or top.found.verbosity
        diagnosticLayout := sub.found.diagnosticLayout.or top.found.diagnosticLayout
        diagnosticFile := sub.found.diagnosticFile.or top.found.diagnosticFile }

end Invocation

end Dwarf.Command
