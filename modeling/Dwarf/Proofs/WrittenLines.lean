import Dwarf.Proofs.LineCodes
import Dwarf.Proofs.LineSteps
/-!
# Reading what is written of a line program

Every part of a line program is taken from the bytes in which it is written, and the header that is
parsed is the one that was written.
-/

namespace Dwarf

open Leb128

theorem Listed.length_le {α : Type} {each : α → List UInt8 → Prop} {items : List α}
    {bytes : List UInt8} (listed : Listed each items bytes)
    (positive : ∀ item piece, each item piece → piece ≠ []) : items.length ≤ bytes.length := by
  induction listed with
  | nil => exact Nat.le_refl 0
  | @cons item rest piece bytes written _ ih =>
      have one := List.length_pos_iff.mpr (positive item piece written)
      rw [List.length_append, List.length_cons]
      omega

namespace Decode

variable {α : Type} {image : Array UInt8} {stop : Nat} {context : Context} {sizes : UnitSizes}
variable {form : Form} {bytes : List UInt8}

theorem Exact.takes {step : Decode α} {grammar : Grammar α} {value : α}
    (h : Exact image stop context step grammar)
    (spelt : ∀ start, Source.Starts image stop start bytes →
      grammar start value (start + bytes.length)) :
    Takes image stop context step bytes value :=
  fun place sound stops there => h.complete place value _ sound stops (spelt place.offset there)

theorem takes_groups {groups : List UInt8} (word : OfWord groups) :
    Takes image stop context (uleb128 .word) groups (sum groups) :=
  (exact_uleb128 rfl (by decide)).takes fun _ there => word.at_of_starts there word.holds

theorem takes_named {family : Family} {value : Constant family} {groups : List UInt8}
    (named : value.Named groups) : Takes image stop context (constant family) groups value := by
  have coded : Takes image stop context (uleb128 .half) groups value.code :=
    (exact_uleb128 rfl (by decide)).takes fun _ there => named.at_of_starts there
  exact coded.bind_nil (.pure _)

theorem takes_sectionOffset {format : Format} {offset : Nat} (known : context.format = some format)
    (fits : offset < 256 ^ format.wordSize) :
    Takes image stop context sectionOffset (toLittleEndian format.wordSize offset) offset := by
  rintro place sound rfl there
  exact (reads_sectionOffset sound known offset _).mpr ⟨fits, there, rfl⟩

theorem takes_signedByte (byte : UInt8) :
    Takes image stop context (value (.twosComplement 8)) [byte]
      ((IntType.twosComplement 8).ofPattern byte.toNat) :=
  (takes_byte byte).bind (.pure _)

theorem takes_positiveByte {byte : UInt8} (positive : byte ≠ 0) (field : String) :
    Takes image stop context (positiveByte field) [byte] byte.toNat := by
  have nonzero : byte.toNat ≠ 0 := fun zero => positive (UInt8.toNat_inj.mp zero)
  refine (takes_byte byte).bind ?_
  rw [if_neg nonzero]
  exact .pure _

theorem takes_string {text : List UInt8} (plain : ∀ byte ∈ text, byte ≠ 0) :
    Takes image stop context (completed string) (text ++ [0]) text := by
  refine exact_string.takes fun start there => ⟨plain, there, ?_⟩
  rw [List.length_append, List.length_singleton]

/-- Directories are taken up to a zero, onto those that were read. -/
theorem takes_directoriesFrom {paths : List String} (listed : Listed WritesDirectory paths bytes)
    (read : List String) {count : Nat} (few : paths.length < count) :
    Takes image stop context (directoriesFrom read count) (bytes ++ [0]) (read.reverse ++ paths) := by
  induction listed generalizing read count with
  | nil =>
      cases count with
      | zero => exact absurd few (Nat.not_lt_zero _)
      | succ count =>
          rw [List.append_nil]
          exact (takes_string (List.forall_mem_nil _)).bind (.pure read.reverse)
  | cons path _ ih =>
      cases count with
      | zero => exact absurd few (Nat.not_lt_zero _)
      | succ count =>
          obtain @⟨text, full, plain⟩ := path
          have rest := ih (Utf8.decode text :: read) (Nat.lt_of_succ_lt_succ few)
          rw [List.reverse_cons, List.append_assoc, List.singleton_append] at rest
          rw [List.append_assoc]
          refine (takes_string plain).bind ?_
          rw [if_neg (by simpa using full)]
          exact rest

theorem takes_directories {paths : List String} (listed : Listed WritesDirectory paths bytes) :
    Takes image stop context directories (bytes ++ [0]) paths := by
  refine Takes.look fun seen ahead => takes_directoriesFrom listed [] ?_
  have least := listed.length_le fun _ _ path => by
    cases path
    simp
  rw [List.length_append] at ahead
  omega

/-- Files are taken up to a zero, onto those that were read. -/
theorem takes_filesFrom {files : List SourceFile}
    (listed : Listed SourceFile.WritesListed files bytes) (read : List SourceFile) {count : Nat}
    (few : files.length < count) :
    Takes image stop context (filesFrom read count) (bytes ++ [0]) (read.reverse ++ files) := by
  induction listed generalizing read count with
  | nil =>
      cases count with
      | zero => exact absurd few (Nat.not_lt_zero _)
      | succ count =>
          rw [List.append_nil]
          exact (takes_string (List.forall_mem_nil _)).bind (.pure read.reverse)
  | cons file _ ih =>
      cases count with
      | zero => exact absurd few (Nat.not_lt_zero _)
      | succ count =>
          obtain @⟨text, directory, time, size, full, plain, ofDirectory, ofTime, ofSize⟩ := file
          have rest := ih
            (⟨Utf8.decode text, sum directory, some (sum time), some (sum size), none⟩ :: read)
            (Nat.lt_of_succ_lt_succ few)
          rw [List.reverse_cons, List.append_assoc, List.singleton_append] at rest
          rw [List.append_assoc, List.append_assoc]
          refine (takes_string plain).bind ?_
          rw [if_neg (by simpa using full)]
          simp only [List.append_assoc]
          exact (takes_groups ofDirectory).bind
            ((takes_groups ofTime).bind ((takes_groups ofSize).bind rest))

theorem takes_files {files : List SourceFile}
    (listed : Listed SourceFile.WritesListed files bytes) :
    Takes image stop context Decode.files (bytes ++ [0]) files := by
  refine Takes.look fun seen ahead => takes_filesFrom listed [] ?_
  have least := listed.length_le fun _ _ file => by
    cases file
    simp
  rw [List.length_append] at ahead
  omega

theorem takes_entryFormatsFrom {formats : List EntryFormat}
    (listed : Listed EntryFormat.Named formats bytes) :
    Takes image stop context (entryFormatsFrom formats.length) bytes formats := by
  induction listed with
  | nil => exact .pure []
  | cons named _ ih =>
      obtain ⟨content, form⟩ := named
      rw [List.append_assoc]
      exact (takes_named content).bind ((takes_named form).bind (ih.bind_nil (.pure _)))

theorem takes_entryFormats {formats : List EntryFormat} (few : formats.length < 256)
    (listed : Listed EntryFormat.Named formats bytes) :
    Takes image stop context entryFormats ([UInt8.ofNat formats.length] ++ bytes) formats := by
  refine (takes_byte _).bind ?_
  rw [UInt8.toNat_ofNat_of_lt' few]
  exact takes_entryFormatsFrom listed

theorem takes_offsetValue {value : Nat} (writes : form.Writes sizes value bytes) :
    Takes image stop sizes.context (offsetValue form) bytes value :=
  (exact_offsetValue form).takes fun _ there => writes.numeral there

theorem takes_skipValue (fills : form.Fills sizes bytes) :
    Takes image stop sizes.context (skipValue form) bytes () :=
  (exact_skipValue form).takes fun _ there => fills.whole there

/-- A number that a field may lack is taken, or skipped in a form that holds none. -/
theorem takes_optionalNumber {number : Option Nat}
    (writes : form.WritesOptional sizes number bytes) :
    Takes image stop sizes.context (optionalNumber form) bytes number := by
  have looked : optionalNumber form =
      if form.isNumber then some <$> offsetValue form
      else skipValue form >>= fun _ => pure none := rfl
  rw [looked]
  cases number with
  | none =>
      rw [if_neg writes.1]
      exact (takes_skipValue writes.2).bind_nil (.pure none)
  | some value =>
      rw [if_pos writes.1]
      exact (takes_offsetValue writes.2).map some

end Decode

namespace Consult

variable {α β : Type} {image : Array UInt8} {base : DirectPool Table} {stop : Nat}
variable {context : Context} {sizes : UnitSizes} {bytes : List UInt8} {file : SourceFile}
variable {formats : List EntryFormat}

/-- A plain step on the line table takes its bytes before those of what follows it there. -/
theorem Takes.onBind {first : Decode α} {next : α → Decode β} {rest : List UInt8} {head : α}
    {value : β} (obeys : first.Obeys .plain) (h : Decode.Takes image stop context first bytes head)
    (h' : Takes image base stop context ((next head).on .lines) rest value) :
    Takes image base stop context ((first >>= next).on .lines) (bytes ++ rest) value := by
  rw [Decode.on_bind]
  exact (Takes.on obeys h).bind h'

theorem Takes.onGive {step : Decode α} {head : α} (obeys : step.Obeys .plain)
    (h : Decode.Takes image stop context step bytes head) (give : α → β) :
    Takes image base stop context ((step >>= fun answer => Pure.pure (give answer)).on .lines) bytes
      (give head) := by
  rw [Decode.on_bind]
  exact (Takes.on obeys h).bind_nil (.pure (give head))

/-- The parameters of opcodes are taken as their version has them. -/
theorem takes_opcodeParameters {version : Nat} {parameters : OpcodeParameters}
    (writes : parameters.Writes version bytes) :
    Takes image base stop context ((Decode.opcodeParameters version).on .lines) bytes
      parameters := by
  have rest (length operations : Nat) {statement line range first : UInt8} {counts : List UInt8}
      (positive : range ≠ 0) (counted : counts.length + 1 = first.toNat) :
      let parameters : OpcodeParameters := ⟨length, operations, statement.toNat != 0,
        (IntType.twosComplement 8).ofPattern line.toNat, range.toNat, first.toNat, counts⟩
      Takes image base stop context (Decode.on .lines do
        let defaultIsStatement ← Decode.byte
        let lineBase ← Decode.value (.twosComplement 8)
        let lineRange ← Decode.positiveByte "line_range"
        let opcodeBase ← Decode.positiveByte "opcode_base"
        let operandCounts ← Decode.completed (Decode.bytes (opcodeBase - 1))
        pure (⟨length, operations, defaultIsStatement != 0, lineBase, lineRange, opcodeBase,
          operandCounts⟩ : OpcodeParameters))
        ([statement] ++ ([line] ++ ([range] ++ ([first] ++ counts)))) parameters := by
    intro parameters
    have opens : first ≠ 0 := by
      rintro rfl
      cases counted
    refine Takes.onBind Decode.obeys_byte (Decode.takes_byte statement) ?_
    refine Takes.onBind (Decode.obeys_value (by decide)) (Decode.takes_signedByte line) ?_
    refine Takes.onBind (Decode.obeys_positiveByte _) (Decode.takes_positiveByte positive _) ?_
    refine Takes.onBind (Decode.obeys_positiveByte _) (Decode.takes_positiveByte opens _) ?_
    have ends : Takes image base stop context ((pure parameters : Decode _).on .lines) []
        parameters := .pure parameters
    rw [Decode.on_bind, show first.toNat - 1 = counts.length by omega]
    exact (takes_bytes counts).bind_nil ends
  cases writes with
  | early early positive counted =>
      change Takes image base stop context _ ([_] ++ ([_] ++ ([_] ++ ([_] ++ ([_] ++ _))))) _
      refine Takes.onBind Decode.obeys_byte (Decode.takes_byte _) ?_
      rw [if_neg (Nat.not_le_of_lt early)]
      exact rest _ 1 positive counted
  | late late positive counted =>
      change Takes image base stop context _
        ([_] ++ ([_] ++ ([_] ++ ([_] ++ ([_] ++ ([_] ++ _)))))) _
      refine Takes.onBind Decode.obeys_byte (Decode.takes_byte _) ?_
      rw [if_pos late]
      refine Takes.onBind Decode.obeys_byte (Decode.takes_byte _) ?_
      exact rest _ _ positive counted

/-- A text is taken in the form in which it is written, wherever it stands itself. -/
theorem takes_stringValue {form : Form} {text : List UInt8}
    (writes : form.WritesText image base sizes text bytes) :
    Takes image base stop sizes.context (completed (stringValue .lines form)) bytes text := by
  have looked {table : Table} (strings : table = .strings ∨ table = .lineStrings) {offset : Nat}
      (fits : offset < 256 ^ sizes.format.wordSize)
      (stands : (base table).HasText image offset text) :
      Takes image base stop sizes.context (completed (orFailed do
        let offset ← Decode.sectionOffset.on .lines
        ExceptT.lift ((Decode.stringAt offset).on table)))
        (toLittleEndian sizes.format.wordSize offset) text := by
    rw [completed_orFailed]
    exact (Takes.on Decode.obeys_sectionOffset (Decode.takes_sectionOffset rfl fits)).bind_nil
      (takes_stringAt strings stands)
  cases writes with
  | inline plain =>
      have mapped : completed (stringValue .lines .string) =
          (Decode.completed Decode.string).on .lines :=
        (Decoder.on_map .lines Transfer.complete Decode.string).symm
      rw [mapped]
      exact Takes.on (Decode.obeys_completed Decode.obeys_string) (Decode.takes_string plain)
  | string fits stands => exact looked (.inl rfl) fits stands
  | lineString fits stands => exact looked (.inr rfl) fits stands

/-- A value of an entry is read into the field that it gives, or skipped. -/
theorem entryValue_eq (format : EntryFormat) (entry : SourceFile) :
    entryValue format entry = match format.field? with
      | some .path => do
        let path ← completed (stringValue .lines format.form)
        pure { entry with path := Utf8.decode path }
      | some .directoryIndex => Decode.on .lines do
        let directoryIndex ← Decode.offsetValue format.form
        pure { entry with directoryIndex }
      | some .modificationTime => Decode.on .lines do
        let modificationTime ← Decode.optionalNumber format.form
        pure { entry with modificationTime }
      | some .size => Decode.on .lines do
        let size ← Decode.optionalNumber format.form
        pure { entry with size }
      | some .digest => Decode.on .lines do
        let digest ← Decode.completed (Decode.bytes 16)
        pure { entry with digest := some digest }
      | none => (Decode.skipValue format.form >>= fun _ => pure entry).on .lines := by
  obtain ⟨content, form⟩ := format
  have plain (other : content ≠ .path) : entryValue ⟨content, form⟩ entry =
      (Decode.plainEntryValue ⟨content, form⟩ entry).on .lines :=
    if_neg fun both => other both.1
  by_cases path : content = .path
  · subst path
    by_cases inline : form.isString
    · rw [show EntryFormat.field? ⟨.path, form⟩ = some .path from if_pos inline]
      exact if_pos ⟨rfl, inline⟩
    · rw [show EntryFormat.field? ⟨.path, form⟩ = none from if_neg inline]
      exact if_neg fun both => inline both.2
  rw [plain path]
  unfold Decode.plainEntryValue
  dsimp only
  split
  case h_1 | h_2 | h_3 => rfl
  case h_4 =>
    by_cases digest : form = .data16
    · rw [show EntryFormat.field? ⟨.digest, form⟩ = some .digest from if_pos digest, if_pos digest]
    · rw [show EntryFormat.field? ⟨.digest, form⟩ = none from if_neg digest, if_neg digest]
  case h_5 directory time size digest =>
    rw [EntryFormat.field?_of_other path directory time size digest]

/-- A value of an entry that is written for a file is adopted from the file. -/
theorem takes_entryValue {format : EntryFormat} (entry : SourceFile)
    (writes : format.Writes image base sizes file bytes) :
    Takes image base stop sizes.context (entryValue format entry) bytes
      (file.adopt entry format.field?) := by
  rw [entryValue_eq]
  unfold EntryFormat.Writes at writes
  generalize format.field? = field at writes ⊢
  cases field with
  | none =>
      exact Takes.onGive (Decode.obeys_skipValue format.form) (Decode.takes_skipValue writes) _
  | some field =>
      cases field with
      | path =>
          obtain ⟨text, writes, same⟩ := writes
          simp only [SourceFile.adopt, same]
          exact (takes_stringValue writes).bind_nil (.pure _)
      | directoryIndex =>
          exact Takes.onGive (Decode.obeys_offsetValue format.form)
            (Decode.takes_offsetValue writes) _
      | modificationTime | size =>
          exact Takes.onGive (Decode.obeys_optionalNumber format.form)
            (Decode.takes_optionalNumber writes) _
      | digest =>
          obtain ⟨length, same⟩ := writes
          simp only [SourceFile.adopt, same]
          rw [Decode.on_bind, ← length]
          exact (takes_bytes bytes).bind_nil (.pure _)

/-- The values of an entry that are written for a file are taken, if what they do not give is right
already. -/
theorem takes_entryValues (values : Listed (EntryFormat.Writes image base sizes file) formats bytes)
    {entry : SourceFile}
    (right : ∀ field, entry.Agrees file field ∨ ∃ format ∈ formats, format.field? = some field) :
    Takes image base stop sizes.context (entryValues formats entry) bytes file := by
  induction values generalizing entry with
  | nil =>
      have same : entry = file :=
        SourceFile.eq_of_agrees fun field => (right field).resolve_right (by simp)
      rw [same]
      exact .pure file
  | @cons format formats piece bytes writes _ ih =>
      refine (takes_entryValue entry writes).bind (ih fun field => ?_)
      rcases right field with agrees | ⟨given, member, gives⟩
      · exact .inl (agrees.adopt _)
      · rcases List.mem_cons.mp member with rfl | member
        · rw [gives]
          exact .inl (SourceFile.agrees_adopt_self file entry field)
        · exact .inr ⟨given, member, gives⟩

/-- Entries are taken one after another, onto those that were read. -/
theorem takes_entriesFrom {entries : List SourceFile}
    (rows : Listed (SourceFile.Writes image base sizes formats) entries bytes)
    (read : List SourceFile) :
    Takes image base stop sizes.context (entriesFrom formats read entries.length) bytes
      (read.reverse ++ entries) := by
  induction rows generalizing read with
  | nil =>
      rw [List.append_nil]
      exact .pure read.reverse
  | @cons entry entries piece bytes writes _ ih =>
      have rest := ih (entry :: read)
      rw [List.reverse_cons, List.append_assoc, List.singleton_append] at rest
      refine Takes.bind (takes_entryValues writes.values fun field => ?_) rest
      by_cases given : ∃ format ∈ formats, format.field? = some field
      · exact .inr given
      · exact .inl (writes.others field fun format member gives => given ⟨format, member, gives⟩)

/-- Entries are taken behind their count, which is accepted. -/
theorem takes_entries (version : sizes.version ≠ some 2) (sized : 0 < sizes.addressSize)
    {entries : List SourceFile} {count rows : List UInt8} (word : OfWord count)
    (counts : sum count = entries.length)
    (reserved : Memory.Reserves entries.length SourceFile.footprint)
    (listed : Listed (SourceFile.Writes image base sizes formats) entries rows) (field : String) :
    Takes image base stop sizes.context (Consult.entries formats field) (count ++ rows)
      (.returned entries) := by
  rintro place sound rfl there
  obtain ⟨head, tail⟩ := Source.starts_append_iff.mp there
  have enough : rows.length ≤ place.stop - (place.offset + count.length) :=
    Nat.le_sub_of_add_le' tail.1
  have fits := EntryFormat.fit_of_rows version sized listed tail enough
  have counted : DirectReader.run image (Decode.entryCount formats field).run
      ⟨some place, sizes.context⟩ = _ :=
    DirectReader.run_entryCount formats field sound (word.at_of_starts head word.holds)
  rw [counts, if_pos fits] at counted
  have taken : Takes image base place.stop sizes.context
      (if Memory.Reserves entries.length SourceFile.footprint then
        Halting.returned <$> entriesFrom formats [] entries.length
      else pure Halting.stopped) rows (Halting.returned entries) := by
    rw [if_pos reserved]
    exact Takes.map Halting.returned (takes_entriesFrom listed [])
  rw [List.length_append, ← Place.advance_advance]
  exact (leads_on (Decode.obeys_entryCount formats field) counted).bind
    (taken (place.advance count.length) (sound.advance head.1) rfl tail)

theorem takes_entryTable (version : sizes.version ≠ some 2) (sized : 0 < sizes.addressSize)
    {entries : List SourceFile} (writes : WritesTable image base sizes entries bytes)
    (field : String) :
    Takes image base stop sizes.context (entryTable field) bytes (.returned entries) := by
  obtain @⟨formats, _, named, count, rows, few, listed, word, counts, reserved, rows'⟩ := writes
  rw [← List.append_assoc]
  exact (Takes.on Decode.obeys_entryFormats (Decode.takes_entryFormats few listed)).bind
    (takes_entries version sized word counts reserved rows' field)

end Consult

end Dwarf
