import Dwarf.Proofs.EntrySizes
import Dwarf.Proofs.HeaderCodes
import Dwarf.Proofs.Written
/-!
# Line programs and their bytes

A line program is written as its length, its version, the sizes that only version five has, the
length of its header, the parameters of its opcodes, its directories and files, and its opcodes.
Before version five the directories and files are lists that end at a zero; from then on each entry
of a table is written as the formats of the table say, and what these do not give stays empty.

## Implementation notes

What is written is told by relations and not by a function: statements may be flagged by any byte,
numbers may take more groups than they need, and only the formats of a table say how an entry is
written.  Formats with a content that is not known, or with one in an unsuitable form, still have
values, which fill their forms.
-/

namespace Dwarf

open Leb128

/-- Items are written one after another, a piece of the bytes each. -/
inductive Listed {α : Type} (each : α → List UInt8 → Prop) : List α → List UInt8 → Prop where
  /-- No items have no bytes. -/
  | nil : Listed each [] []
  /-- The others stand behind the first one. -/
  | cons {item : α} {rest : List α} {piece bytes : List UInt8} : each item piece →
    Listed each rest bytes → Listed each (item :: rest) (piece ++ bytes)

/-! ### Lists of directories and files -/

/-- A directory of a list is written as its path and a NUL. -/
inductive WritesDirectory : String → List UInt8 → Prop where
  | path {text : List UInt8} : text ≠ [] → (∀ byte ∈ text, byte ≠ 0) →
    WritesDirectory (Utf8.decode text) (text ++ [0])

/-- A file of a list is written as its path, a NUL and three numbers. -/
inductive SourceFile.WritesListed : SourceFile → List UInt8 → Prop where
  | file {text directory time size : List UInt8} : text ≠ [] → (∀ byte ∈ text, byte ≠ 0) →
    OfWord directory → OfWord time → OfWord size →
      WritesListed ⟨Utf8.decode text, sum directory, some (sum time), some (sum size), none⟩
        ((text ++ [0]) ++ (directory ++ (time ++ size)))

/-! ### Tables of directories and files -/

namespace SourceFile

/-- The fields of a file. -/
inductive Field where
  | path
  | directoryIndex
  | modificationTime
  | size
  | digest
  deriving DecidableEq, Repr

/-- Two files have the same in a field. -/
def Agrees (file other : SourceFile) : Field → Prop
  | .path => file.path = other.path
  | .directoryIndex => file.directoryIndex = other.directoryIndex
  | .modificationTime => file.modificationTime = other.modificationTime
  | .size => file.size = other.size
  | .digest => file.digest = other.digest

/-- An entry with one field of a file, if any. -/
def adopt (file entry : SourceFile) : Option Field → SourceFile
  | none => entry
  | some .path => { entry with path := file.path }
  | some .directoryIndex => { entry with directoryIndex := file.directoryIndex }
  | some .modificationTime => { entry with modificationTime := file.modificationTime }
  | some .size => { entry with size := file.size }
  | some .digest => { entry with digest := file.digest }

theorem eq_of_agrees {file other : SourceFile} (h : ∀ field, file.Agrees other field) :
    file = other := by
  obtain ⟨path, directory, time, size, digest⟩ := file
  cases (h .path : path = _)
  cases (h .directoryIndex : directory = _)
  cases (h .modificationTime : time = _)
  cases (h .size : size = _)
  cases (h .digest : digest = _)
  rfl

theorem agrees_adopt_self (file entry : SourceFile) (field : Field) :
    (file.adopt entry (some field)).Agrees file field := by
  cases field <;> rfl

theorem Agrees.adopt {file entry : SourceFile} {field : Field} (h : entry.Agrees file field)
    (other : Option Field) : (file.adopt entry other).Agrees file field := by
  rcases other with _ | other
  · exact h
  · by_cases same : other = field
    · exact same ▸ agrees_adopt_self file entry other
    · cases other <;> cases field <;> first | exact h | exact absurd rfl same

end SourceFile

namespace Form

/-- Whether the values of a form are read as numbers where a field may lack one. -/
def isNumber (form : Form) : Bool :=
  match form.layout? with
  | some (.fixed width) => decide (width ≤ 8)
  | some .uleb128 => true
  | _ => false

/-- The bytes of a form in which a number is written, or nothing in a form that holds none. -/
def WritesOptional (sizes : UnitSizes) (number : Option Nat) (form : Form) (bytes : List UInt8) :
    Prop :=
  match number with
  | some value => form.isNumber ∧ form.Writes sizes value bytes
  | none => ¬ form.isNumber ∧ form.Fills sizes bytes

end Form

namespace EntryFormat

/-- The field of a file that a value gives; what gives none is skipped. -/
def field? (format : EntryFormat) : Option SourceFile.Field :=
  match format.content with
  | .path => if format.form.isString then some .path else none
  | .directoryIndex => some .directoryIndex
  | .timestamp => some .modificationTime
  | .size => some .size
  | .digest => if format.form = .data16 then some .digest else none
  | _ => none

theorem field?_of_other {content : LineContent} (path : content ≠ .path)
    (directory : content ≠ .directoryIndex) (time : content ≠ .timestamp)
    (size : content ≠ .size) (digest : content ≠ .digest) (form : Form) :
    field? ⟨content, form⟩ = none := by
  unfold field?
  split <;> first | rfl | contradiction

/-- Only values of sixteen bytes give digests. -/
theorem form_of_digest {format : EntryFormat} (h : format.field? = some .digest) :
    format.form = .data16 := by
  unfold field? at h
  split at h
  case h_5 =>
    split at h
    · assumption
    · cases h
  case h_1 => split at h <;> cases h
  all_goals cases h

/-- The bytes of a value of an entry with some format, in the table entry of a file. -/
def Writes (image : Array UInt8) (base : DirectPool Table) (sizes : UnitSizes) (file : SourceFile)
    (format : EntryFormat) (bytes : List UInt8) : Prop :=
  match format.field? with
  | some .path => ∃ text, format.form.WritesText image base sizes text bytes ∧
      file.path = Utf8.decode text
  | some .directoryIndex => format.form.Writes sizes file.directoryIndex bytes
  | some .modificationTime => format.form.WritesOptional sizes file.modificationTime bytes
  | some .size => format.form.WritesOptional sizes file.size bytes
  | some .digest => bytes.length = 16 ∧ file.digest = some bytes
  | none => format.form.Fills sizes bytes

/-- A format is written as its content and its form. -/
inductive Named : EntryFormat → List UInt8 → Prop where
  | codes {format : EntryFormat} {content form : List UInt8} : format.content.Named content →
    format.form.Named form → Named format (content ++ form)

end EntryFormat

/-- The bytes of a file as an entry of a table with some formats. -/
structure SourceFile.Writes (image : Array UInt8) (base : DirectPool Table) (sizes : UnitSizes)
    (formats : List EntryFormat) (file : SourceFile) (bytes : List UInt8) : Prop where
  /-- Each value is written in its form. -/
  values : Listed (EntryFormat.Writes image base sizes file) formats bytes
  /-- What no value gives is empty. -/
  others : ∀ field, (∀ format ∈ formats, format.field? ≠ some field) →
    SourceFile.empty.Agrees file field
  /-- An entry has a byte at least. -/
  positive : bytes ≠ []

/-- A table is written as its formats behind their number, and its entries behind theirs.  A list of
entries lies in memory, so it is no longer than what can be reserved. -/
inductive WritesTable (image : Array UInt8) (base : DirectPool Table) (sizes : UnitSizes) :
    List SourceFile → List UInt8 → Prop where
  | table {formats : List EntryFormat} {entries : List SourceFile} {named count rows : List UInt8} :
    formats.length < 256 → Listed EntryFormat.Named formats named → OfWord count →
      sum count = entries.length → Memory.Reserves entries.length SourceFile.footprint →
        Listed (SourceFile.Writes image base sizes formats) entries rows →
          WritesTable image base sizes entries
            ([UInt8.ofNat formats.length] ++ (named ++ (count ++ rows)))

/-! ### Headers -/

/-- The bytes of the parameters of opcodes, which lack the most operations before version four. -/
inductive OpcodeParameters.Writes (version : Nat) : OpcodeParameters → List UInt8 → Prop where
  | early {length statement base range first : UInt8} {counts : List UInt8} : version < 4 →
    range ≠ 0 → counts.length + 1 = first.toNat →
      Writes version ⟨length.toNat, 1, statement.toNat != 0,
          (IntType.twosComplement 8).ofPattern base.toNat, range.toNat, first.toNat, counts⟩
        ([length, statement, base, range, first] ++ counts)
  | late {length operations statement base range first : UInt8} {counts : List UInt8} :
    4 ≤ version → range ≠ 0 → counts.length + 1 = first.toNat →
      Writes version ⟨length.toNat, operations.toNat, statement.toNat != 0,
          (IntType.twosComplement 8).ofPattern base.toNat, range.toNat, first.toNat, counts⟩
        ([length, operations, statement, base, range, first] ++ counts)

/-- What a line program says, and the bytes in which parts of it are written. -/
structure LineCode where
  format : Format
  version : Nat
  sizes : Option TargetSizes
  parameters : OpcodeParameters
  directories : List String
  files : List SourceFile
  /-- The bytes of the parameters. -/
  parameterBytes : List UInt8
  /-- The bytes of the directories and files. -/
  tableBytes : List UInt8
  /-- The opcodes. -/
  program : List UInt8

namespace LineCode

/-- The bytes of the sizes that only version five has. -/
def sizeBytes (code : LineCode) : List UInt8 :=
  code.sizes.elim [] fun sizes =>
    toLittleEndian 1 sizes.addressSize ++ toLittleEndian 1 sizes.segmentSelectorSize

/-- The length of the header behind this length: what is written up to the first opcode. -/
def headerLength (code : LineCode) : Nat := code.parameterBytes.length + code.tableBytes.length

/-- The bytes of a line program behind its length. -/
def unit (code : LineCode) : List UInt8 :=
  toLittleEndian 2 code.version ++ (code.sizeBytes ++
    (toLittleEndian code.format.wordSize code.headerLength ++
      (code.parameterBytes ++ (code.tableBytes ++ code.program))))

/-- The bytes of a line program. -/
def bytes (code : LineCode) : List UInt8 :=
  code.format.lengthBytes code.unit.length ++ code.unit

/-- What is known behind the sizes of a line program to a reader that knew something before. -/
def learnt (code : LineCode) (known : Context) : Context :=
  ⟨some code.format, code.sizes.elim known.addressSize (some ·.addressSize), known.version⟩

/-- The header of a line program that is written at an offset of a section. -/
def header (code : LineCode) (first offset : Nat) : LineHeader :=
  let opening := first + offset + code.format.lengthSize
  { extent := ⟨offset, code.unit.length, opening + code.unit.length, code.format, code.version⟩
    sizes := code.sizes
    headerLength := code.headerLength
    programOffset :=
      opening + 2 + code.sizeBytes.length + code.format.wordSize + code.headerLength
    parameters := code.parameters
    directories := code.directories
    files := code.files }

/-- The directories and files are written as they are in their version; the sizes tell which that
is. -/
def WritesTables (image : Array UInt8) (base : DirectPool Table) (version : Option Nat)
    (code : LineCode) : Prop :=
  match code.sizes with
  | none => ∃ directories files, Listed WritesDirectory code.directories directories ∧
      Listed SourceFile.WritesListed code.files files ∧
        code.tableBytes = (directories ++ [0]) ++ (files ++ [0])
  | some target => ∃ entries directories files,
      code.directories = entries.map SourceFile.path ∧
        WritesTable image base ⟨code.format, target.addressSize, version⟩ entries directories ∧
          WritesTable image base ⟨code.format, target.addressSize, version⟩ code.files files ∧
            code.tableBytes = directories ++ files

/-- Line programs whose parts are written in their bytes. -/
structure WellFormed (image : Array UInt8) (base : DirectPool Table) (version : Option Nat)
    (code : LineCode) : Prop where
  versions : 2 ≤ code.version ∧ code.version ≤ 5
  length : code.unit.length < code.format.lengthBound
  /-- Only version five has the sizes. -/
  sized : code.sizes.isSome ↔ code.version = 5
  /-- Addresses are those of 32-bit and of 64-bit targets, and selectors have a byte for their
  size. -/
  sizes : ∀ target ∈ code.sizes,
    (target.addressSize = 4 ∨ target.addressSize = 8) ∧ target.segmentSelectorSize < 256
  parameters : code.parameters.Writes code.version code.parameterBytes
  tables : code.WritesTables image base version

end LineCode

/-! ### The least size of an entry and its bytes -/

section Sizes

variable {image : Array UInt8} {base : DirectPool Table} {stop start : Nat} {sizes : UnitSizes}
variable {form : Form} {bytes : List UInt8} {file : SourceFile} {formats : List EntryFormat}

/-- A value of a layout has its least size at least. -/
theorem Form.Layout.Spans.leastSize_le {layout : Layout} {finish : Nat}
    (spans : layout.Spans image stop sizes start finish) :
    start + layout.leastSize sizes.context ≤ finish := by
  induction spans with
  | empty => exact Nat.le_refl _
  | fixed room | address room | offset room => exact Nat.le_of_eq room.2.symm
  | uleb128 groups | sleb128 groups =>
      obtain ⟨groups, formed, -, -, -, -, rfl⟩ := groups
      exact Nat.add_le_add_left formed.length_pos _
  | string text =>
      obtain ⟨-, -, rfl⟩ := text
      exact Nat.add_le_add_left (Nat.le_add_left 1 _) _
  | block _ field room =>
      rw [room.2, field.2]
      exact Nat.le_add_right _ _
  | countedBlock groups room =>
      obtain ⟨groups, formed, -, -, -, -, rfl⟩ := groups
      rw [room.2]
      exact Nat.le_add_right_of_le (Nat.add_le_add_left formed.length_pos _)
  | indirect groups _ _ _ ih =>
      obtain ⟨groups, formed, -, -, -, -, rfl⟩ := groups
      exact Nat.le_trans (Nat.add_le_add_left formed.length_pos _) (Nat.le_of_add_right_le ih)

theorem Form.kind?_of_ne {version : Option Nat} (other : version ≠ some 2) (form : Form) :
    form.kind? version = form.layout? := by
  rw [kind?, layout?_eq_lookup, if_neg fun both => other both.2]

theorem Decode.leastSize_le_of_whole {finish : Nat} (version : sizes.version ≠ some 2)
    (whole : whole image stop sizes form start finish) :
    start + form.leastSize sizes.context ≤ finish := by
  obtain ⟨layout, known, spans⟩ := whole
  rw [Form.kind?_of_ne version] at known
  rw [Form.leastSize, known]
  exact spans.leastSize_le

theorem Decode.eq_of_whole {finish : Nat} {format : EntryFormat} (version : sizes.version ≠ some 2)
    (sized : 0 < sizes.addressSize) (whole : whole image stop sizes format.form start finish)
    (least : format.leastSize sizes.context = 0) : finish = start := by
  obtain ⟨layout, known, spans⟩ := whole
  have empty : format.form.layout? = some .empty :=
    EntryFormat.layout?_of_leastSize_eq_zero (by rintro _ ⟨⟩; exact sized) least
  rw [Form.kind?_of_ne version, empty] at known
  cases known
  cases spans
  rfl

theorem Form.WritesOptional.whole {number : Option Nat}
    (writes : form.WritesOptional sizes number bytes)
    (there : Source.Starts image stop start bytes) :
    Decode.whole image stop sizes form start (start + bytes.length) := by
  cases number with
  | none => exact writes.2.whole there
  | some value => exact (writes.2.numeral there).whole

theorem EntryFormat.Writes.whole {format : EntryFormat}
    (writes : format.Writes image base sizes file bytes)
    (there : Source.Starts image stop start bytes) :
    Decode.whole image stop sizes format.form start (start + bytes.length) := by
  unfold EntryFormat.Writes at writes
  split at writes
  · obtain ⟨text, writes, -⟩ := writes
    exact (writes.text there).whole
  · exact (Form.Writes.numeral writes there).whole
  · exact writes.whole there
  · exact writes.whole there
  · rename_i digest
    rw [form_of_digest digest, writes.1]
    exact ⟨.fixed 16, rfl, .fixed ⟨writes.1 ▸ there.1, rfl⟩⟩
  · exact Form.Fills.whole writes there

/-- Values that are written one after another have the least sizes of their formats at least. -/
theorem EntryFormat.leastEntrySize_le (version : sizes.version ≠ some 2)
    (values : Listed (EntryFormat.Writes image base sizes file) formats bytes)
    (there : Source.Starts image stop start bytes) :
    EntryFormat.leastEntrySize sizes.context formats ≤ bytes.length := by
  induction values generalizing start with
  | nil => exact Nat.le_refl _
  | @cons format formats piece bytes writes _ ih =>
      obtain ⟨head, tail⟩ := Source.starts_append_iff.mp there
      have least := Decode.leastSize_le_of_whole version (writes.whole head)
      have rest := ih tail
      rw [← EntryFormat.leastSize_eq] at least
      rw [List.length_append]
      change EntryFormat.leastSize sizes.context format +
        EntryFormat.leastEntrySize sizes.context formats ≤ _
      omega

/-- Values that are written have no bytes if the least sizes of their formats are zero. -/
theorem EntryFormat.eq_nil_of_leastEntrySize (version : sizes.version ≠ some 2)
    (sized : 0 < sizes.addressSize)
    (values : Listed (EntryFormat.Writes image base sizes file) formats bytes)
    (there : Source.Starts image stop start bytes)
    (least : EntryFormat.leastEntrySize sizes.context formats = 0) : bytes = [] := by
  rw [EntryFormat.leastEntrySize_eq_zero_iff] at least
  induction values generalizing start with
  | nil => rfl
  | @cons format formats piece bytes writes _ ih =>
      obtain ⟨none, least⟩ := List.forall_mem_cons.mp least
      obtain ⟨head, tail⟩ := Source.starts_append_iff.mp there
      have ends := Decode.eq_of_whole version sized (writes.whole head) none
      have empty : piece = [] := List.eq_nil_of_length_eq_zero (by omega)
      rw [empty, ih tail least, List.append_nil]

/-- Entries that are written have the least size of an entry each. -/
theorem EntryFormat.leastRowsSize_le (version : sizes.version ≠ some 2) {entries : List SourceFile}
    (rows : Listed (SourceFile.Writes image base sizes formats) entries bytes)
    (there : Source.Starts image stop start bytes) :
    entries.length * EntryFormat.leastEntrySize sizes.context formats ≤ bytes.length := by
  induction rows generalizing start with
  | nil => exact Nat.le_of_eq (Nat.zero_mul _)
  | @cons entry entries piece bytes writes _ ih =>
      obtain ⟨head, tail⟩ := Source.starts_append_iff.mp there
      have least := EntryFormat.leastEntrySize_le version writes.values head
      have rest := ih tail
      rw [List.length_append, List.length_cons, Nat.succ_mul]
      omega

/-- The count of entries that are written is never refused. -/
theorem EntryFormat.fit_of_rows (version : sizes.version ≠ some 2) (sized : 0 < sizes.addressSize)
    {entries : List SourceFile} {remaining : Nat}
    (rows : Listed (SourceFile.Writes image base sizes formats) entries bytes)
    (there : Source.Starts image stop start bytes) (enough : bytes.length ≤ remaining) :
    EntryFormat.Fit sizes.context formats remaining entries.length := by
  have least := EntryFormat.leastRowsSize_le version rows there
  cases rows with
  | nil => exact .inl rfl
  | @cons entry entries piece bytes writes _ =>
      obtain ⟨head, -⟩ := Source.starts_append_iff.mp there
      have positive : 0 < EntryFormat.leastEntrySize sizes.context formats :=
        Nat.pos_of_ne_zero fun none => writes.positive
          (EntryFormat.eq_nil_of_leastEntrySize version sized writes.values head none)
      exact .inr ⟨positive,
        (Nat.le_div_iff_mul_le positive).mpr (Nat.le_trans least enough)⟩

end Sizes

end Dwarf
