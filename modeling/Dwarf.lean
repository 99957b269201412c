import Dwarf.Word
import Dwarf.Text.Numeral
import Dwarf.Text.Utf8
import Dwarf.Constant.Family
import Dwarf.Form
import Dwarf.Section
import Dwarf.Error
import Dwarf.Source
import Dwarf.Dialogue
import Dwarf.Query
import Dwarf.Reader.Buffer
import Dwarf.Reader.Window
import Dwarf.Reader.Basic
import Dwarf.Decode.Integer
import Dwarf.Decode.Bytes
import Dwarf.Decode.Value
import Dwarf.Tables.Basic
import Dwarf.Tables.Strings
import Dwarf.Unit.Header
import Dwarf.Unit.Abbreviation
import Dwarf.Unit.RootEntry
import Dwarf.Unit.Walk
import Dwarf.Line.Header
import Dwarf.Line.Entry
import Dwarf.Command.Setting
import Dwarf.Container.Image
import Dwarf.Container.Elf
import Dwarf.Container.MachO
import Dwarf.Container.Directory
import Dwarf.Command.Arguments
import Dwarf.Command.Listing
import Dwarf.Command.Run
import Dwarf.Main
import Dwarf.Proofs.Place
import Dwarf.Proofs.Window
import Dwarf.Proofs.Contents
import Dwarf.Proofs.Reader
import Dwarf.Proofs.Judgement
import Dwarf.Proofs.Discipline
import Dwarf.Proofs.Licence
import Dwarf.Proofs.Decoders
import Dwarf.Proofs.Pool
import Dwarf.Proofs.Simulation
import Dwarf.Proofs.Inquiries
import Dwarf.Proofs.Consultations
import Dwarf.Proofs.Operation
import Dwarf.Proofs.Transparency
import Dwarf.Proofs.LongReads
import Dwarf.Proofs.Delivery
import Dwarf.Proofs.Standing
import Dwarf.Proofs.Walked
import Dwarf.Proofs.Progress
import Dwarf.Proofs.Chain
import Dwarf.Proofs.Lengths
import Dwarf.Proofs.Moves
import Dwarf.Proofs.Loops
import Dwarf.Proofs.Leaves
import Dwarf.Proofs.Locality
import Dwarf.Proofs.Headers
import Dwarf.Proofs.Together
import Dwarf.Proofs.Rewalk
import Dwarf.Proofs.Apart
import Dwarf.Proofs.Reports
import Dwarf.Proofs.Faults
import Dwarf.Proofs.Task
import Dwarf.Proofs.Registers
import Dwarf.Proofs.Shifts
import Dwarf.Proofs.RegisterFile
import Dwarf.Proofs.Accesses
import Dwarf.Proofs.Thrift
import Dwarf.Proofs.Beside
import Dwarf.Proofs.Alongside
import Dwarf.Proofs.LinePrograms
import Dwarf.Proofs.Exact
import Dwarf.Proofs.Values
import Dwarf.Proofs.Blameless
import Dwarf.Proofs.Misuse
import Dwarf.Proofs.Resumed
import Dwarf.Proofs.Listings
import Dwarf.Proofs.MissingTables
import Dwarf.Proofs.Lookup
import Dwarf.Proofs.Numbers
import Dwarf.Proofs.Texts
import Dwarf.Proofs.Meanings
import Dwarf.Proofs.RootEntries
import Dwarf.Proofs.Declared
import Dwarf.Proofs.Aligned
import Dwarf.Proofs.Encoded
import Dwarf.Proofs.Permuted
import Dwarf.Proofs.LineTables
import Dwarf.Proofs.Groups
import Dwarf.Proofs.Leb128
import Dwarf.Proofs.Codes
import Dwarf.Proofs.HeaderCodes
import Dwarf.Proofs.AbbreviationCodes
import Dwarf.Proofs.LoadedStrings
import Dwarf.Proofs.EntrySizes
import Dwarf.Proofs.Written
import Dwarf.Proofs.Constants
import Dwarf.Proofs.LineSteps
import Dwarf.Proofs.LineCodes
import Dwarf.Proofs.WrittenLines
import Dwarf.Proofs.LineHeaders
import Dwarf.Proofs.Atomicity
import Dwarf.Proofs.Rounds
import Dwarf.Proofs.PartialReads
import Dwarf.Proofs.Words
import Dwarf.Proofs.Positions
