import Dwarf.Constant.Family
import Dwarf.Text.Numeral
/-!
# Values of command line arguments

Each kind of argument has one reader, which either finds the value or says what is wrong with the
text.

## Implementation notes

Keywords may be written in any mixture of cases.  They are ASCII letters, and no other character
has one of them as its lower case, so ASCII folding decides.
-/

namespace Dwarf.Command

/-- How diagnostics are laid out. -/
inductive DiagnosticLayout where
  | pretty
  | json
  deriving DecidableEq, Repr

namespace DiagnosticLayout

/-- The word for a format. -/
def word : DiagnosticLayout → String
  | .pretty => "pretty"
  | .json => "json"

/-- Reads a format. -/
def read (text : String) : Except String DiagnosticLayout :=
  match [("pretty", pretty), ("text", pretty), ("json", json)].lookup text.toLower with
  | some format => .ok format
  | none => .error ("Unknown log format: " ++ text ++ ". Use 'pretty' or 'json'")

end DiagnosticLayout

/-- Which diagnostics are written. -/
inductive Verbosity where
  | error
  | warn
  | info
  | debug
  | trace
  deriving DecidableEq, Repr

namespace Verbosity

/-- The words for the levels. -/
def keywords : List (String × Verbosity) :=
  [("error", error), ("err", error), ("warn", warn), ("warning", warn), ("info", info),
   ("debug", debug), ("dbg", debug), ("trace", trace)]

/-- Reads a level. -/
def read (text : String) : Except String Verbosity :=
  match keywords.lookup text.toLower with
  | some level => .ok level
  | none =>
    .error ("Unknown log level: " ++ text
      ++ ". Use 'error', 'warn', 'info', 'debug', or 'trace'")

end Verbosity

/-- Reads a family of constants. -/
def readFamily (text : String) : Except String Family :=
  match Family.ofKeyword? text with
  | some family => .ok family
  | none => .error (Family.unknownKeyword text)

/-- Reads a number that may be marked as hexadecimal. -/
def readNumber (text : String) : Except String Nat :=
  match Numeral.readMarked text.toList with
  | .ok n => .ok n
  | .error fault => .error ("invalid number '" ++ text ++ "': " ++ fault.message)

/-- Reads a decimal size. -/
def readSize (text : String) : Except String Nat :=
  match Numeral.read 10 text.toList with
  | .ok n => .ok n
  | .error fault => .error fault.message

end Dwarf.Command
