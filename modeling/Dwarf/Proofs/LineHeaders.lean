import Dwarf.Proofs.WrittenLines
/-!
# Headers of line programs and their bytes

Wherever the bytes of a line program stand in their section, its header is parsed into what was
written, whatever the readers were used for before.  The line reader is left on the first opcode, in
a window that ends with the program.
-/

namespace Dwarf

open Source

namespace LineCode

variable {image : Array UInt8} {base : DirectPool Table} {known : Context} {code : LineCode}

theorem headerLength_lt (length : code.unit.length < code.format.lengthBound) :
    code.headerLength < 256 ^ code.format.wordSize := by
  have inside : code.headerLength ≤ code.unit.length := by
    simp only [headerLength, unit, List.length_append]
    omega
  refine Nat.lt_of_le_of_lt inside (Nat.lt_of_lt_of_le length ?_)
  cases code.format <;> decide

theorem length_bytes (code : LineCode) :
    code.bytes.length = code.format.lengthSize + code.unit.length := by
  rw [bytes, List.length_append, Format.length_lengthBytes]

end LineCode

namespace DirectReader

open Decode

variable {image : Array UInt8} {place : Place} {context : Context} {code : LineCode}

/-- A direct reader enters a line program where its bytes stand in the section. -/
theorem run_lineExtent {offset : Nat} (sound : place.Sound)
    (versions : 2 ≤ code.version ∧ code.version ≤ 5)
    (length : code.unit.length < code.format.lengthBound)
    (there : Starts image place.limit (place.first + offset) code.bytes) :
    let header := code.header place.first offset
    run image (lineExtent offset).run ⟨some place, context⟩ =
      (.ok header.extent,
        ⟨some ⟨place.first + offset + code.format.lengthSize + 2, place.first, header.extent.stop,
          place.limit, place.fileSize⟩, { context with format := some code.format }⟩) := by
  intro header
  have inside := there.1
  rw [code.length_bytes, ← Nat.add_assoc] at inside
  obtain ⟨begins, follows⟩ := starts_append_iff.mp there
  rw [Format.length_lengthBytes] at follows
  have unit : Starts image header.extent.stop (place.first + offset + code.format.lengthSize)
      code.unit := ⟨Nat.le_refl _, follows.2⟩
  obtain ⟨versioned, -⟩ := starts_append_iff.mp unit
  let told : Context := { context with format := some code.format }
  let start : Place :=
    ⟨place.first + offset, place.first, place.limit, place.limit, place.fileSize⟩
  have entered : place.first + offset ≤ place.limit :=
    Nat.le_trans (Nat.le_add_right _ _) there.1
  have opened : start.Sound :=
    { sound with
      first_le_offset := Nat.le_add_right _ _
      offset_le_stop := entered
      stop_le_limit := Nat.le_refl _ }
  let behind : Place := start.advance code.format.lengthSize
  have advanced : behind.Sound := opened.advance (Nat.le_of_add_right_le inside)
  let inner : Place := { behind with stop := header.extent.stop }
  have within : inner.Sound :=
    { advanced with
      offset_le_stop := Nat.le_add_right _ _
      stop_le_limit := inside }
  have measures : run image initialLength.run ⟨some start, context⟩ =
      (.ok code.unit.length, ⟨some behind, told⟩) := by
    obtain ⟨located, format, same⟩ := UnitExtent.link_eq_ok_iff.mpr ⟨length, begins, rfl, inside⟩
    obtain ⟨result, reached, ran, spec⟩ := run_initialLength image opened context
    cases result with
    | error error => cases located.symm.trans spec
    | ok read =>
        obtain ⟨rfl, -, -, rfl⟩ := spec
        rw [ran, UnitExtent.lengthSize_eq]
        simp only [start, format, same, behind, told]
  have ends : run image (stopOf code.unit.length).run ⟨some behind, told⟩ =
      (.ok header.extent.stop, ⟨some behind, told⟩) := by
    have located : UnitExtent.stopAt behind.limit behind.offset code.unit.length =
        .ok header.extent.stop := UnitExtent.stopAt_eq_ok_iff.mpr ⟨rfl, inside⟩
    rw [run_stopOf, located]
  have narrows : run image (narrow header.extent.stop).run ⟨some behind, told⟩ =
      (.ok (), ⟨some inner, told⟩) :=
    run_narrow image (Nat.le_add_right _ _) inside told
  have reads : run image (unsigned 2).run ⟨some inner, told⟩ =
      (.ok code.version, ⟨some (inner.advance 2), told⟩) :=
    (reads_unsigned Nat.two_pos within code.version _).mpr
      ⟨Nat.lt_of_le_of_lt versions.2 (by decide), versioned, rfl⟩
  have widened := run_widened image sound context offset (do
    let length ← initialLength
    let stop ← stopOf length
    narrow stop
    let format ← format
    let version ← unsigned 2
    if 2 ≤ version ∧ version ≤ 5 then
      pure (⟨offset, length, stop, format, version⟩ : LineExtent)
    else throw (.unknownVersion version))
  rw [if_pos entered] at widened
  refine widened.trans ?_
  rw [run_bind_of_ok measures, run_bind_of_ok ends, run_bind_of_ok narrows,
    run_bind_of_ok (run_format rfl), run_bind_of_ok reads, if_pos versions]
  rfl

/-- A direct reader reads the sizes that only version five has, and knows that of addresses
then. -/
theorem run_targetSizes (sound : place.Sound) (versions : 2 ≤ code.version ∧ code.version ≤ 5)
    (sized : code.sizes.isSome ↔ code.version = 5)
    (sizes : ∀ target ∈ code.sizes,
      (target.addressSize = 4 ∨ target.addressSize = 8) ∧ target.segmentSelectorSize < 256)
    (there : Starts image place.stop place.offset code.sizeBytes) :
    run image (targetSizes code.version).run
        ⟨some place, { context with format := some code.format }⟩ =
      (.ok code.sizes, ⟨some (place.advance code.sizeBytes.length), code.learnt context⟩) := by
  unfold LineCode.sizeBytes at there ⊢
  unfold LineCode.learnt
  cases known : code.sizes with
  | none =>
      rw [known] at sized
      have early : ¬ 5 ≤ code.version := fun late => by
        have five := sized.mpr (Nat.le_antisymm versions.2 late)
        cases five
      rw [targetSizes, if_neg early]
      rfl
  | some target =>
      rw [known] at sized there
      have late : code.version = 5 := sized.mp rfl
      obtain ⟨accepted, small⟩ := sizes target known
      obtain ⟨first, second⟩ := starts_append_iff.mp there
      let told : Context := ⟨some code.format, some target.addressSize, context.version⟩
      have addresses : run image readAddressSize.run
          ⟨some place, { context with format := some code.format }⟩ =
            (.ok target.addressSize, ⟨some (place.advance 1), told⟩) :=
        (reads_readAddressSize sound target.addressSize _).mpr ⟨accepted, first, rfl⟩
      have selectors : run image byte.run ⟨some (place.advance 1), told⟩ =
          (.ok target.segmentSelectorSize, ⟨some ((place.advance 1).advance 1), told⟩) :=
        (reads_unsigned Nat.one_pos (sound.advance first.1) target.segmentSelectorSize _).mpr
          ⟨small, second, rfl⟩
      rw [targetSizes, late, if_pos (Nat.le_refl 5), run_bind_of_ok addresses,
        run_bind_of_ok selectors]
      rfl

end DirectReader

namespace Consult

variable {image : Array UInt8} {base : DirectPool Table} {place : Place} {context : Context}
variable {code : LineCode}

/-- The directories and files of a line program are taken as they are written in its version. -/
theorem takes_lineTables {stop : Nat} (version : context.version ≠ some 2)
    (formed : code.WellFormed image base context.version) :
    Takes image base stop (code.learnt context) (lineTables code.version) code.tableBytes
      (.returned (code.directories, code.files)) := by
  have written := formed.tables
  have sized := formed.sized
  have sizes := formed.sizes
  unfold LineCode.WritesTables at written
  unfold LineCode.learnt
  cases known : code.sizes with
  | none =>
      rw [known] at written sized
      obtain ⟨directories, files, listed, listed', bytes⟩ := written
      have early : ¬ 5 ≤ code.version := fun late => by
        have five := sized.mpr (Nat.le_antisymm formed.versions.2 late)
        cases five
      rw [lineTables, if_neg early, bytes]
      exact (Takes.on Decode.obeys_directories (Decode.takes_directories listed)).bind
        ((Takes.on Decode.obeys_files (Decode.takes_files listed')).bind_nil (.pure _))
  | some target =>
      rw [known] at written sized
      obtain ⟨entries, directories, files, listed, writes, writes', bytes⟩ := written
      have late : 5 ≤ code.version := Nat.le_of_eq (sized.mp rfl).symm
      have positive : 0 < target.addressSize := by
        rcases (sizes target known).1 with same | same <;> rw [same] <;> decide
      rw [lineTables, if_pos late, bytes, listed]
      exact (takes_entryTable version positive writes _).bind
        ((takes_entryTable version positive writes' _).bind_nil (.pure _))

/-- Behind the sizes of a header the rest is read as it is written, and the reader moves to the
first opcode. -/
theorem leads_behindSizes (extent : LineExtent) (version : context.version ≠ some 2)
    (formed : code.WellFormed image base context.version) (sound : place.Sound)
    (there : Starts image place.stop place.offset (toLittleEndian code.format.wordSize
      code.headerLength ++ (code.parameterBytes ++ (code.tableBytes ++ code.program)))) :
    let programOffset := place.offset + code.format.wordSize + code.headerLength
    Leads image base place (code.learnt context) (do
        let headerLength ← Decode.sectionOffset.on .lines
        let seen ← Decode.view.on .lines
        let programOffset := Word.saturate (seen.offset + headerLength)
        let parameters ← (Decode.opcodeParameters code.version).on .lines
        (lineTables code.version).unlessStopped fun (directories, files) => do
          (Decode.seek programOffset).on .lines
          pure (.returned (⟨extent, code.sizes, headerLength, programOffset, parameters,
            directories, files⟩ : LineHeader)))
      (.returned ⟨extent, code.sizes, code.headerLength, programOffset, code.parameters,
        code.directories, code.files⟩) { place with offset := programOffset } (code.learnt context) := by
  intro programOffset
  obtain ⟨length, behind⟩ := starts_append_iff.mp there
  obtain ⟨parameters, tables⟩ := starts_append_iff.mp behind
  obtain ⟨tables, program⟩ := starts_append_iff.mp tables
  let opening : Place := place.advance code.format.wordSize
  rw [length_toLittleEndian] at parameters tables program behind
  have opened : opening.Sound := sound.advance (Nat.le_trans (Nat.le_add_right _ _) behind.1)
  let listing : Place := opening.advance code.parameterBytes.length
  have listed : listing.Sound := opened.advance parameters.1
  let closing : Place := listing.advance code.tableBytes.length
  have ends : closing.offset = programOffset := by
    simp only [closing, listing, opening, Place.advance, programOffset, LineCode.headerLength]
    omega
  have inside : programOffset ≤ place.stop := by
    rw [← ends]
    exact tables.1
  have measured : Takes image base place.stop (code.learnt context)
      (Decode.sectionOffset.on .lines) _ code.headerLength :=
    Takes.on Decode.obeys_sectionOffset
      (Decode.takes_sectionOffset rfl (LineCode.headerLength_lt formed.length))
  have taken : Takes image base place.stop (code.learnt context) _ _ _ :=
    takes_opcodeParameters formed.parameters
  have tabled : Takes image base place.stop (code.learnt context) _ _ _ :=
    takes_lineTables version formed
  have moves : DirectReader.run image (Decode.seek programOffset).run
      ⟨some closing, code.learnt context⟩ =
        (.ok (), ⟨some { place with offset := programOffset }, code.learnt context⟩) := by
    have before : place.first ≤ programOffset := by
      have first := sound.first_le_offset
      omega
    exact (DirectReader.run_seek image programOffset closing _).trans (if_pos ⟨before, inside⟩)
  have measures := measured place sound rfl length
  rw [length_toLittleEndian] at measures
  refine measures.bind (leads_look fun seen offset _ _ => ?_)
  have addressed : Word.saturate (seen.offset + code.headerLength) = programOffset := by
    rw [offset]
    exact Word.saturate_of_le
      (Nat.le_trans inside (Nat.le_trans sound.stop_le_limit sound.limit_le_max))
  rw [addressed]
  refine (taken opening opened rfl parameters).bind ?_
  refine (tabled listing listed rfl tables).bind ?_
  exact (leads_on (Decode.obeys_seek programOffset rfl) moves).bind (.pure _)

/-- A header is read where its line program is written, and its reader is left on the first
opcode. -/
theorem leads_lineHeader {offset : Nat} (sound : place.Sound) (version : context.version ≠ some 2)
    (formed : code.WellFormed image base context.version)
    (there : Starts image place.limit (place.first + offset) code.bytes) :
    let header := code.header place.first offset
    Leads image base place context (lineHeader offset) (.returned header)
      ⟨header.programOffset, place.first, header.extent.stop, place.limit, place.fileSize⟩
      (code.learnt context) := by
  intro header
  have inside := there.1
  rw [code.length_bytes, ← Nat.add_assoc] at inside
  obtain ⟨-, follows⟩ := starts_append_iff.mp there
  rw [Format.length_lengthBytes] at follows
  have unit : Starts image header.extent.stop (place.first + offset + code.format.lengthSize)
      code.unit := ⟨Nat.le_refl _, follows.2⟩
  obtain ⟨versioned, unit⟩ := starts_append_iff.mp unit
  obtain ⟨sizes, rest⟩ := starts_append_iff.mp unit
  rw [length_toLittleEndian] at sizes rest
  let entered : Place := ⟨place.first + offset + code.format.lengthSize + 2, place.first,
    header.extent.stop, place.limit, place.fileSize⟩
  have begun : entered.Sound :=
    { sound with
      first_le_offset := by
        simp only [entered, Nat.add_assoc]
        exact Nat.le_add_right _ _
      offset_le_stop := versioned.1
      stop_le_limit := inside }
  have enters : Leads image base place context _ header.extent entered
      { context with format := some code.format } :=
    leads_on (Decode.lets_lineExtent (Decode.learns rfl) (fun target => Decode.obeys_seek target rfl)
      (fun stop => Decode.obeys_narrow stop rfl) offset)
      (DirectReader.run_lineExtent sound formed.versions formed.length there)
  have sized : Leads image base entered { context with format := some code.format } _ code.sizes
      (entered.advance code.sizeBytes.length) (code.learnt context) :=
    leads_on (Decode.lets_targetSizes (Decode.learns rfl) code.version)
      (DirectReader.run_targetSizes begun formed.versions formed.sized formed.sizes sizes)
  exact enters.bind (sized.bind
    (leads_behindSizes header.extent version formed (begun.advance sizes.1) rest))

end Consult

namespace Session

open Leb128

variable {image : Array UInt8} {session : Session} {place : Place} {context : Context}
variable {code : LineCode}

/-- Wherever the bytes of a well-formed line program stand in the section, its header is parsed into
what was written, whatever the readers were used for before; the line reader is left on the first
opcode, in a window that ends with the program.  The version that the line reader recorded of a unit
must not be two, as a reference has another size then. -/
theorem lineHeader_written (reached : session.pool.Reachable (.ofImage image))
    (stands : session.readers.lines.direct = ⟨some place, context⟩)
    (version : context.version ≠ some 2)
    (formed : code.WellFormed image session.direct context.version) (offset : Nat)
    (there : Source.Starts image place.limit (place.first + offset) code.bytes) :
    let parsed := session.run (.ofImage image) (Consult.lineHeader offset).run
    let header := code.header place.first offset
    parsed.1 = .ok (.returned header) ∧
      parsed.2.readers.lines.direct.place = some { place with
        offset := header.programOffset
        stop := header.extent.stop } := by
  intro parsed header
  have sound : place.Sound :=
    (reached .lines).sound.direct place (congrArg DirectReader.place stands)
  have begins : session.LinesAt image session.direct place context :=
    ⟨reached, stands, fun table _ => Licence.Leaves.refl _ _⟩
  obtain ⟨left, ran, there⟩ := Consult.leads_lineHeader sound version formed there session begins
  have parses : parsed = (.ok (.returned header), left) := ran
  rw [parses]
  exact ⟨rfl, congrArg DirectReader.place there.lines⟩

/-- A header of version five is parsed that has a path in the table of strings, a digest and a block
with a content that is not known. -/
theorem lineHeader_written_tables :
    let image : Array UInt8 := #[0xff, 0xff, 52, 0, 0, 0, 5, 0, 8, 0, 43, 0, 0, 0,
      1, 1, 1, 251, 14, 2, 1, 1, 1, 0x08, 1, 0x61, 0,
      3, 1, 0x0e, 5, 0x1e, 0x20, 0x0a, 1, 1, 0, 0, 0,
      7, 7, 7, 7, 7, 7, 7, 7, 7, 7, 7, 7, 7, 7, 7, 7, 1, 0xff, 1, 0xff, 0x62, 0]
    let strings : Reader := ⟨some ⟨.zeroed 16, 58, 0, 0, 58, 61, 61, 61⟩, .unknown⟩
    let lines : Reader := ⟨some ⟨.zeroed 16, 0, 0, 0, 0, 58, 58, 61⟩, .unknown⟩
    let session : Session := .start ⟨.unbound, .unbound, strings, .unbound, .unbound, lines⟩
    let parsed := session.run (.ofImage image) (Consult.lineHeader 2).run
    parsed.1 = .ok (.returned ⟨⟨2, 52, 58, .dwarf32, 5⟩, some ⟨8, 0⟩, 43, 57,
        ⟨1, 1, true, -5, 14, 2, [1]⟩, ["a"],
        [⟨"b", 0, none, none, some (List.replicate 16 7)⟩]⟩) ∧
      parsed.2.readers.lines.direct.place = some ⟨57, 0, 58, 58, 61⟩ := by
  intro image strings lines session parsed
  let sizes : UnitSizes := ⟨.dwarf32, 8, none⟩
  let directory : SourceFile := ⟨"a", 0, none, none, none⟩
  let file : SourceFile := ⟨"b", 0, none, none, some (List.replicate 16 7)⟩
  let code : LineCode :=
    { format := .dwarf32
      version := 5
      sizes := some ⟨8, 0⟩
      parameters := ⟨1, 1, true, -5, 14, 2, [1]⟩
      directories := ["a"]
      files := [file]
      parameterBytes := [1, 1, 1, 251, 14, 2, 1]
      tableBytes := [1, 1, 0x08, 1, 0x61, 0] ++ ([3, 1, 0x0e, 5, 0x1e, 0x20, 0x0a, 1, 1, 0, 0, 0] ++
        (List.replicate 16 7 ++ [1, 0xff]))
      program := [1] }
  have stands : session.readers.lines.direct = ⟨some ⟨0, 0, 58, 58, 61⟩, .unknown⟩ := rfl
  have text : (session.direct .strings).HasText image 1 [0x62] :=
    ⟨⟨58, 58, 61, 61, 61⟩, 61, rfl, by simp, ⟨by decide, by decide +kernel⟩, rfl⟩
  have reached : session.pool.Reachable (.ofImage image) := by
    intro table
    cases table with
    | strings => exact .bound (show Reader.bound (.zeroed 16) ⟨58, 3⟩ 61 = .ok strings from rfl)
    | lines => exact .bound (show Reader.bound (.zeroed 16) ⟨0, 58⟩ 61 = .ok lines from rfl)
    | info | abbreviations | lineStrings | stringOffsets => exact .unbound
  have there : Source.Starts image 58 (0 + 2) code.bytes :=
    ⟨by decide +kernel, by decide +kernel⟩
  have header : code.header 0 2 = ⟨⟨2, 52, 58, .dwarf32, 5⟩, some ⟨8, 0⟩, 43, 57,
      ⟨1, 1, true, -5, 14, 2, [1]⟩, ["a"], [file]⟩ := by
    decide +kernel
  clear_value image session
  have named {family : Family} {value : Constant family} (byte : UInt8)
      (small : byte.toNat < 128) (same : sum [byte] = value.code)
      (half : IntType.half.holds value.code) : value.Named [byte] :=
    ⟨.single byte small, same, half⟩
  have path : EntryFormat.Writes image session.direct sizes directory ⟨.path, .string⟩
      ([0x61] ++ [0]) :=
    Exists.intro [0x61] ⟨.inline (by simp), by decide⟩
  have formats : Listed EntryFormat.Named [⟨.path, .string⟩] _ :=
    .cons (.codes (named 1 (by decide) rfl (by decide)) (named 8 (by decide) rfl (by decide))) .nil
  have row : SourceFile.Writes image session.direct sizes [⟨.path, .string⟩] directory
      (([0x61] ++ [0]) ++ []) := by
    refine ⟨.cons path .nil, fun field none => ?_, by decide⟩
    cases field with
    | path => exact absurd rfl (none _ List.mem_cons_self)
    | directoryIndex | modificationTime | size | digest => rfl
  have directories : WritesTable image session.direct sizes [directory] _ :=
    .table (by decide) formats (.single 1 (by decide)) rfl (by decide) (.cons row .nil)
  have lookup : EntryFormat.Writes image session.direct sizes file ⟨.path, .strp⟩ _ :=
    Exists.intro [0x62] ⟨.string (by decide) text, by decide⟩
  have digest : EntryFormat.Writes image session.direct sizes file ⟨.digest, .data16⟩
      (List.replicate 16 7) :=
    And.intro (by decide) rfl
  have block : EntryFormat.Writes image session.direct sizes file ⟨⟨0x20⟩, .block1⟩
      (toLittleEndian 1 1 ++ [0xff]) := by
    have filled : Form.Layout.Fills sizes (.block 1)
        (toLittleEndian 1 [(0xff : UInt8)].length ++ [0xff]) := .block (by decide) (by decide)
    exact Form.Behind.direct (by decide) ⟨.block 1, rfl, filled⟩
  have formats' : Listed EntryFormat.Named
      [⟨.path, .strp⟩, ⟨.digest, .data16⟩, ⟨⟨0x20⟩, .block1⟩] _ :=
    .cons (.codes (named 1 (by decide) rfl (by decide)) (named 0x0e (by decide) rfl (by decide)))
      (.cons (.codes (named 5 (by decide) rfl (by decide)) (named 0x1e (by decide) rfl (by decide)))
        (.cons (.codes (named 0x20 (by decide) rfl (by decide))
          (named 0x0a (by decide) rfl (by decide))) .nil))
  have row' : SourceFile.Writes image session.direct sizes
      [⟨.path, .strp⟩, ⟨.digest, .data16⟩, ⟨⟨0x20⟩, .block1⟩] file
      (toLittleEndian 4 1 ++ (List.replicate 16 7 ++ ((toLittleEndian 1 1 ++ [0xff]) ++ []))) := by
    refine ⟨.cons lookup (.cons digest (.cons block .nil)), fun field none => ?_, by decide⟩
    cases field with
    | path => exact absurd rfl (none _ List.mem_cons_self)
    | digest => exact absurd rfl (none ⟨.digest, .data16⟩ (by simp))
    | directoryIndex | modificationTime | size => rfl
  have files : WritesTable image session.direct sizes [file] _ :=
    .table (by decide) formats' (.single 1 (by decide)) rfl (by decide) (.cons row' .nil)
  have parameters : OpcodeParameters.Writes 5 _ ([1, 1, 1, 251, 14, 2] ++ [1]) :=
    .late (by decide) (by decide) rfl
  have formed : code.WellFormed image session.direct none := by
    refine ⟨by decide, by decide +kernel, by decide, ?_, parameters, ?_⟩
    · rintro _ ⟨⟩
      decide
    · exact ⟨[directory], _, _, rfl, directories, files, rfl⟩
  obtain ⟨parses, left⟩ := lineHeader_written reached stands (by decide) formed 2 there
  rw [header] at parses left
  exact ⟨parses, left⟩

end Session

end Dwarf
