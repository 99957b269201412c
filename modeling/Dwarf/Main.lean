import Dwarf.Command.Run
/-!
# The program

Reads the file that the arguments name, runs the command and writes what it says.
-/

namespace Dwarf.Command

/-- The text shown when help is asked for, or when arguments are missing. -/
def usage : String :=
  String.join
    (["Inspect DWARF compile units and line tables", "", "Usage: dwarf [OPTIONS] <COMMAND>", "",
      "Commands:",
      "  sections FILE                        List the DWARF sections",
      "  units FILE                           List the units in .debug_info",
      "  lines FILE [--unit-offset OFFSET]    Print the line program headers",
      "  name KIND VALUE                      Look up the name of a constant", "",
      "Options:",
      "  --buffer-size BYTES    Capacity of the buffer of each reader",
      "  --log-level LEVEL      Which diagnostics are written",
      "  --log-format FORMAT    How diagnostics are laid out",
      "  --log-file PATH        Where diagnostics are written"].map (· ++ "\n"))

/-- What a usage fault has to say. -/
def UsageFault.message : UsageFault → String
  | .rejectedValue message => "error: " ++ message ++ "\n"
  | .missingValue => "error: a value is required\n"
  | .unexpectedValue => "error: a flag takes no value\n"
  | .repeatedOption => "error: an option is given twice\n"
  | .unknownArgument => "error: unexpected argument\n"
  | .unknownSubcommand => "error: unrecognized subcommand\n"
  | .missingArgument => "error: a required argument is missing\n"
  | .missingSubcommand => "error: a subcommand is required\n"
  | .noArguments | .helpWanted => usage
  | .versionWanted => "dwarf 1.0\n"

/-- Whether a fault only asks for text. -/
def UsageFault.isRequest : UsageFault → Bool
  | .helpWanted | .versionWanted => true
  | _ => false

/-- The path that an action reads, if it reads a file. -/
def Action.path? : Action → Option String
  | .sections path | .units path | .lines path _ => some path
  | .name _ _ => none

/-- Why a file could not be read. -/
def fileFault : IO.Error → String
  | .noFileOrDirectory .. => "No such file or directory (os error 2)"
  | .permissionDenied .. => "Permission denied (os error 13)"
  | other => toString other

/-- Reads the file of an action, whose sections are looked up as its container has them. -/
def hostOf (action : Action) : IO Host := do
  match action.path? with
  | none => pure ⟨fun _ => .error "not read", SectionDirectory.ofImage⟩
  | some path =>
    try
      let bytes ← IO.FS.readBinFile path
      pure ⟨fun _ => .ok bytes.data, SectionDirectory.ofImage⟩
    catch fault => pure ⟨fun _ => .error (fileFault fault), SectionDirectory.ofImage⟩

end Dwarf.Command

open Dwarf.Command in
/-- Runs the command that the arguments ask for. -/
def main (arguments : List String) : IO UInt32 := do
  match Invocation.ofArguments arguments with
  | .error fault =>
    if fault.isRequest then
      IO.print fault.message
      pure 0
    else
      IO.eprint fault.message
      pure 2
  | .ok invocation =>
    let outcome := run (← hostOf invocation.action) invocation
    IO.print outcome.standardOutput
    IO.eprint (outcome.standardError.getD "")
    pure outcome.exitCode
