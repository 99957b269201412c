import Dwarf.Proofs.LinePrograms
import Dwarf.Proofs.Values
/-!
# Where the tables of a line program end

The tables of directories and files begin behind the header length, and only the end of the program
bounds them: neither where they end nor how many entries a count may announce depends on the header
length, which tells where the reader is left.
-/

namespace Dwarf

open Leb128

namespace EntryFormat

/-- So many entries with some formats can be held by the bytes that remain, and each of them has
bytes; no entries always can. -/
def Fit (context : Context) (formats : List EntryFormat) (remaining count : Nat) : Prop :=
  count = 0 ∨ 0 < leastEntrySize context formats ∧
    count ≤ remaining / leastEntrySize context formats
  deriving Decidable

end EntryFormat

/-- A count of entries is accepted if the rest of the window can hold so many, and refused
otherwise. -/
theorem DirectReader.run_entryCount {image : Array UInt8} {place : Place} {context : Context}
    {count finish : Nat} (formats : List EntryFormat) (field : String) (sound : place.Sound)
    (there : Groups.At image place.stop 10 Leb128.unsigned (IntType.word.holds ·) place.offset count
      finish) :
    run image (Decode.entryCount formats field).run ⟨some place, context⟩ =
      (if EntryFormat.Fit context formats (place.stop - finish) count then .ok count
        else .error (.impossibleValue field count),
        ⟨some { place with offset := finish }, context⟩) := by
  have reads : run image (Decode.uleb128 .word).run ⟨some place, context⟩ =
      (.ok count, ⟨some { place with offset := finish }, context⟩) :=
    (Decode.exact_uleb128 rfl (by decide)).complete place count finish sound rfl there
  have looks (left : DirectReader) (next : View → Decode Nat) :
      run image (Decode.view >>= next).run left = run image (next left.view).run left := rfl
  rw [Decode.entryCount, run_bind_of_ok reads]
  by_cases empty : count = 0
  · have fits : EntryFormat.Fit context formats (place.stop - finish) count := .inl empty
    rw [if_pos fits, if_pos empty, empty]
    rfl
  · rw [if_neg empty, looks]
    change run image (ExceptT.run (if EntryFormat.leastEntrySize context formats = 0 ∨
      (place.stop - finish) / EntryFormat.leastEntrySize context formats < count then
        throw (Error.impossibleValue field count) else pure count)) _ = _
    by_cases fits : EntryFormat.Fit context formats (place.stop - finish) count
    · obtain ⟨positive, few⟩ := fits.resolve_left empty
      rw [if_pos fits, if_neg (by omega)]
      rfl
    · have refused : EntryFormat.leastEntrySize context formats = 0 ∨
          (place.stop - finish) / EntryFormat.leastEntrySize context formats < count := by
        by_contra accepted
        exact fits (.inr (by omega))
      rw [if_neg fits, if_pos refused]
      rfl

namespace Session

variable {image : Array UInt8} {bounds : Place.Bounds} {session : Session}

/-- A header that was read is parsed if the first opcode lies in the program, and its reader is left
there. -/
theorem lineHeader_of_contents {source : Source} {listed : Session} {place : Place} {offset : Nat}
    {header : LineHeader} (stands : session.readers.lines.Stands place)
    (read : session.run source (Consult.lineContents offset).run =
      (.ok (.returned header), listed))
    (before : header.programOffset ≤ header.extent.stop) :
    ∃ left, session.run source (Consult.lineHeader offset).run = (.ok (.returned header), left) ∧
      left.readers.lines.Stands { place with
        offset := header.programOffset
        stop := header.extent.stop } := by
  obtain ⟨sum, _, -, within, -⟩ := lineContents_placed stands read
  have bounds := stands.bounds
  have behind : place.first ≤ header.programOffset := by
    rw [sum]
    refine Nat.le_min.mpr ⟨by omega, ?_⟩
    exact Nat.le_trans (Nat.le_of_lt bounds.first_lt_limit) bounds.limit_le_max
  obtain ⟨moved, moves, there, -⟩ :=
    within.seek header.programOffset behind before source listed.log
  have sought : listed.run source ((Decode.seek header.programOffset).on .lines).run =
      (.ok (), ⟨listed.readers.set moved .lines, listed.log⟩) := by
    rw [show ((Decode.seek header.programOffset).on .lines).run =
      Decoder.on .lines (Decode.seek header.programOffset).run from rfl, run_on,
      show listed.readers.get .lines = listed.readers.lines from rfl, moves]
  refine ⟨⟨listed.readers.set moved .lines, listed.log⟩, ?_, there⟩
  rw [Consult.lineHeader_eq, run_unlessStopped_eq read]
  simp only [run] at sought ⊢
  rw [Dialogue.runStep_bind, sought]
  rfl

/-- A header that is parsed is read, and the first opcode lies in the program. -/
theorem contents_of_lineHeader {source : Source} {left : Session} {place : Place} {offset : Nat}
    {header : LineHeader} (stands : session.readers.lines.Stands place)
    (parse : session.run source (Consult.lineHeader offset).run =
      (.ok (.returned header), left)) :
    ∃ listed,
      session.run source (Consult.lineContents offset).run = (.ok (.returned header), listed) ∧
        header.programOffset ≤ header.extent.stop := by
  rw [Consult.lineHeader_eq] at parse
  obtain ⟨read, listed, reads, rest⟩ := run_unlessStopped_returned parse
  obtain ⟨_, moved, moves, gave⟩ := Dialogue.runStep_bind_ok _ _ rest
  cases gave
  obtain ⟨-, _, -, within, -⟩ := lineContents_placed stands reads
  exact ⟨listed, reads, (within.sought (step_on moves)).1⟩

/-- The tables of a line program begin behind the header length and end inside the program, and its
header is parsed exactly if it is read and the first opcode lies in the program too.  The reader is
left at that, be it before the end of the tables or behind; and a count of entries is measured
against the rest of the program, not of the header. -/
theorem lineHeader_in_program (reached : session.pool.Reachable (.ofImage image))
    (bounded : session.readers.lines.direct.bounds = some bounds) (offset : Nat)
    (header : LineHeader) :
    let contents := session.run (.ofImage image) (Consult.lineContents offset).run
    let parsed := session.run (.ofImage image) (Consult.lineHeader offset).run
    let opening := bounds.first + offset + header.lengthEnd
    let closing := contents.2.readers.lines.view.offset
    (parsed.1 = .ok (.returned header) ↔
        contents.1 = .ok (.returned header) ∧ header.programOffset ≤ header.extent.stop) ∧
      (contents.1 = .ok (.returned header) →
        header.programOffset = Word.saturate (opening + header.headerLength) ∧
          opening ≤ closing ∧ closing ≤ header.extent.stop ∧
            header.extent.stop ≤ bounds.limit) ∧
      (parsed.1 = .ok (.returned header) →
        parsed.2.readers.lines.view.offset = header.programOffset ∧
          parsed.2.readers.lines.view.stop = header.extent.stop) ∧
      ∀ (listing : Session) (place : Place) (context : Context) (formats : List EntryFormat)
        (field : String) (count finish : Nat), listing.pool.Reachable (.ofImage image) →
          listing.readers.lines.direct = ⟨some place, context⟩ → place.stop = header.extent.stop →
            Groups.At image place.stop 10 Leb128.unsigned (IntType.word.holds ·) place.offset count
              finish →
              (listing.run (.ofImage image) ((Decode.entryCount formats field).on .lines).run).1 =
                if EntryFormat.Fit context formats (header.extent.stop - finish) count then
                  .ok count
                else .error (.impossibleValue field count) := by
  intro contents parsed opening closing
  have keeps : session.readers.lines.Keeps bounds := ⟨reached.sound .lines, bounded⟩
  obtain ⟨place, stands, rfl⟩ := keeps.stands
  refine ⟨⟨fun parse => ?_, fun both => ?_⟩, fun read => ?_, fun parse => ?_, ?_⟩
  · obtain ⟨listed, read, before⟩ := contents_of_lineHeader stands (Prod.ext parse rfl)
    exact ⟨congrArg Prod.fst read, before⟩
  · obtain ⟨left, parse, -⟩ := lineHeader_of_contents stands (Prod.ext both.1 rfl) both.2
    exact congrArg Prod.fst parse
  · obtain ⟨sum, _, behind, within, inside⟩ := lineContents_placed stands (Prod.ext read rfl)
    have sees : closing = _ := congrArg View.offset within.view_eq
    rw [sees]
    exact ⟨sum, behind, within.bounds.offset_le_stop, inside⟩
  · obtain ⟨listed, read, before⟩ := contents_of_lineHeader stands (Prod.ext parse rfl)
    obtain ⟨left, parse', there⟩ := lineHeader_of_contents stands read before
    have same : parsed.2 = left := congrArg Prod.snd parse'
    rw [same]
    exact ⟨congrArg View.offset there.view_eq, congrArg View.stop there.view_eq⟩
  · intro listing there context formats field count finish reached' stands' stops groups
    have ran := direct_run_on (reached' .lines) (Decode.obeys_entryCount formats field)
      (Prod.eta
        (listing.run (.ofImage image) ((Decode.entryCount formats field).on .lines).run)).symm
    rw [show (listing.readers.get .lines).direct = _ from stands',
      DirectReader.run_entryCount formats field
        ((reached' .lines).sound.direct there (congrArg DirectReader.place stands')) groups,
      stops] at ran
    exact (congrArg Prod.fst ran).symm

/-- A header length that ends before the first directory does not keep the directory from being
read; the reader is left at the path of the directory. -/
theorem lineHeader_in_program_short :
    let image : Array UInt8 := #[29, 0, 0, 0, 5, 0, 8, 0, 10, 0, 0, 0, 1, 1, 1, 251, 14, 1,
      1, 1, 8, 1, 0x61, 0, 1, 1, 8, 1, 0x62, 0, 0, 1, 1]
    let lines : Reader := ⟨some ⟨.zeroed 16, 0, 0, 0, 0, 33, 33, 33⟩, .unknown⟩
    let session : Session := .start ⟨.unbound, .unbound, .unbound, .unbound, .unbound, lines⟩
    let contents := session.run (.ofImage image) (Consult.lineContents 0).run
    let parsed := session.run (.ofImage image) (Consult.lineHeader 0).run
    parsed.1 = .ok (.returned ⟨⟨0, 29, 33, .dwarf32, 5⟩, some ⟨8, 0⟩, 10, 22,
        ⟨1, 1, true, -5, 14, 1, []⟩, ["a"], [⟨"b", 0, none, none, none⟩]⟩) ∧
      parsed.2.readers.lines.view.offset = 22 ∧
        contents.2.readers.lines.view.offset = 30 := by
  intro image lines session contents parsed
  have read : contents.1 = .ok (.returned ⟨⟨0, 29, 33, .dwarf32, 5⟩, some ⟨8, 0⟩, 10, 22,
      ⟨1, 1, true, -5, 14, 1, []⟩, ["a"], [⟨"b", 0, none, none, none⟩]⟩) := by
    decide +kernel
  have closing : contents.2.readers.lines.view.offset = 30 := by
    decide +kernel
  have bound : Reader.bound (.zeroed 16) ⟨0, 33⟩ 33 = .ok lines := rfl
  have reached : session.pool.Reachable (.ofImage image) := by
    intro table
    cases table with
    | lines => exact .bound bound
    | info | abbreviations | strings | lineStrings | stringOffsets => exact .unbound
  have bounded : session.readers.lines.direct.bounds = some ⟨0, 33, 33⟩ := rfl
  obtain ⟨parses, -, left, -⟩ := lineHeader_in_program reached bounded 0
    ⟨⟨0, 29, 33, .dwarf32, 5⟩, some ⟨8, 0⟩, 10, 22, ⟨1, 1, true, -5, 14, 1, []⟩, ["a"],
      [⟨"b", 0, none, none, none⟩]⟩
  have parse := parses.mpr ⟨read, by decide⟩
  have same : session.run (.ofImage image) (Consult.lineHeader 0).run = parsed := rfl
  rw [same] at parse left
  clear_value parsed
  exact ⟨parse, (left parse).1, closing⟩

end Session

end Dwarf
