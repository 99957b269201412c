import Dwarf.Proofs.Codes
import Dwarf.Proofs.Encoded
/-!
# What is written in values

A number is written in a few bytes, as an offset or in groups, be it behind an indirect form.  Where
such bytes stand the number is read, and no other.  A text is written with its NUL or as the place
where it stands in another table, and whatever fills a value of a form can be skipped.
-/

namespace Dwarf

open Leb128

theorem Leb128.OfWord.single (byte : UInt8) (small : byte.toNat < 128) : OfWord [byte] :=
  ⟨.last small, by simp, fun _ tenth => by cases tenth⟩

theorem Leb128.OfWord.holds {groups : List UInt8} (word : OfWord groups) :
    IntType.word.holds (sum groups) := by
  obtain ⟨-, -, small⟩ := ofWord_iff.mp word
  rw [sum_eq_unsigned]
  simp only [IntType.holds, IntType.word, IntType.unsigned, IntType.patterns, Nat.one_shiftLeft,
    Bool.false_eq_true, if_false, Bool.and_eq_true, decide_eq_true_eq]
  omega

theorem Leb128.OfWord.at_of_starts {image : Array UInt8} {stop start : Nat} {groups : List UInt8}
    {type : IntType} (word : OfWord groups) (there : Source.Starts image stop start groups)
    (holds : type.holds (sum groups)) :
    Groups.At image stop 10 Leb128.unsigned (type.holds ·) start (sum groups)
      (start + groups.length) := by
  rw [sum_eq_unsigned] at holds ⊢
  exact ⟨groups, word.formed, word.few, there, holds, rfl, rfl⟩

theorem Leb128.OfSignedWord.at_of_starts {image : Array UInt8} {stop start : Nat}
    {groups : List UInt8} (word : OfSignedWord groups)
    (there : Source.Starts image stop start groups) :
    Groups.At image stop 10 Leb128.signed (IntType.signedWord.holds ·) start (Leb128.signed groups)
      (start + groups.length) := by
  obtain ⟨formed, few, least, most⟩ := ofSignedWord_iff.mp word
  have holds : IntType.signedWord.holds (Leb128.signed groups) := by
    simp only [IntType.holds, IntType.signedWord, IntType.twosComplement, IntType.patterns,
      Nat.one_shiftLeft, if_true, Bool.and_eq_true, decide_eq_true_eq]
    omega
  exact ⟨groups, formed, few, there, holds, rfl, rfl⟩

/-- The groups of a constant's code. -/
structure Constant.Named {family : Family} (value : Constant family) (groups : List UInt8) : Prop
    where
  word : OfWord groups
  code : sum groups = value.code
  half : IntType.half.holds value.code

theorem Constant.Named.at_of_starts {family : Family} {value : Constant family}
    {groups : List UInt8} (named : value.Named groups) {image : Array UInt8} {stop start : Nat}
    (there : Source.Starts image stop start groups) :
    Groups.At image stop 10 Leb128.unsigned (IntType.half.holds ·) start value.code
      (start + groups.length) := by
  have groups := named.word.at_of_starts there (named.code ▸ named.half)
  rwa [named.code] at groups

namespace Form

/-- The bytes of a layout in which a number is written. -/
inductive Layout.Writes (sizes : UnitSizes) : Layout → (value : Nat) → List UInt8 → Prop where
  /-- As many bytes as are wide enough. -/
  | fixed {width value : Nat} : 1 ≤ width ∧ width ≤ 8 → value < 256 ^ width →
    Writes sizes (.fixed width) value (toLittleEndian width value)
  /-- The bytes of an offset, if they are wide enough. -/
  | offset {value : Nat} : value < 256 ^ sizes.format.wordSize →
    Writes sizes .offset value (toLittleEndian sizes.format.wordSize value)
  /-- Groups of seven bits each. -/
  | uleb128 {groups : List UInt8} : OfWord groups → Writes sizes .uleb128 (sum groups) groups

/-- The bytes of a form, or of the one behind an indirect form with the groups of its code. -/
inductive Behind (direct : Form → List UInt8 → Prop) : Form → List UInt8 → Prop where
  /-- The form itself has the bytes. -/
  | direct {form : Form} {bytes : List UInt8} : form ≠ .indirect → direct form bytes →
    Behind direct form bytes
  /-- The form that is named first has the others. -/
  | indirect {form : Form} {named bytes : List UInt8} : form.Named named → form ≠ .indirect →
    direct form bytes → Behind direct .indirect (named ++ bytes)

/-- The bytes of a form in which a number is written. -/
def Writes (sizes : UnitSizes) (value : Nat) : Form → List UInt8 → Prop :=
  Behind fun form bytes => ∃ layout, form.kind? sizes.version = some layout ∧
    layout.Writes sizes value bytes

/-- The bytes that are one value of a layout, wherever they stand. -/
inductive Layout.Fills (sizes : UnitSizes) : Layout → List UInt8 → Prop where
  /-- The entry holds no bytes. -/
  | empty : Fills sizes .empty []
  /-- Some bytes. -/
  | fixed {bytes : List UInt8} : Fills sizes (.fixed bytes.length) bytes
  /-- The bytes of an address. -/
  | address {bytes : List UInt8} : bytes.length = sizes.addressSize → Fills sizes .address bytes
  /-- The bytes of an offset. -/
  | offset {bytes : List UInt8} : bytes.length = sizes.format.wordSize → Fills sizes .offset bytes
  /-- The groups of a number. -/
  | uleb128 {groups : List UInt8} : OfWord groups → Fills sizes .uleb128 groups
  /-- The groups of a number in two's complement. -/
  | sleb128 {groups : List UInt8} : OfSignedWord groups → Fills sizes .sleb128 groups
  /-- A text and its NUL. -/
  | string {text : List UInt8} : (∀ byte ∈ text, byte ≠ 0) → Fills sizes .string (text ++ [0])
  /-- A count of a fixed width, and as many bytes. -/
  | block {width : Nat} {rest : List UInt8} : 1 ≤ width ∧ width ≤ 8 → rest.length < 256 ^ width →
    Fills sizes (.block width) (toLittleEndian width rest.length ++ rest)
  /-- The groups of a count, and as many bytes. -/
  | countedBlock {count rest : List UInt8} : OfWord count → rest.length = sum count →
    Fills sizes .countedBlock (count ++ rest)

/-- The bytes that are one value of a form, wherever they stand. -/
def Fills (sizes : UnitSizes) : Form → List UInt8 → Prop :=
  Behind fun form bytes => ∃ layout, form.kind? sizes.version = some layout ∧
    layout.Fills sizes bytes

/-- The bytes of a form in which a text is written. -/
inductive WritesText (image : Array UInt8) (base : DirectPool Table) (sizes : UnitSizes)
    (text : List UInt8) : Form → List UInt8 → Prop where
  /-- The text and its NUL. -/
  | inline : (∀ byte ∈ text, byte ≠ 0) → WritesText image base sizes text .string (text ++ [0])
  /-- Where the text stands in the table of strings. -/
  | string {offset : Nat} : offset < 256 ^ sizes.format.wordSize →
    (base .strings).HasText image offset text →
      WritesText image base sizes text .strp (toLittleEndian sizes.format.wordSize offset)
  /-- Where the text stands in the table of strings of line programs. -/
  | lineString {offset : Nat} : offset < 256 ^ sizes.format.wordSize →
    (base .lineStrings).HasText image offset text →
      WritesText image base sizes text .lineStrp (toLittleEndian sizes.format.wordSize offset)

variable {image : Array UInt8} {stop start : Nat} {sizes : UnitSizes} {layout : Layout}
variable {form : Form} {value : Nat} {bytes : List UInt8}

/-- What is written is the number that stands there. -/
theorem Layout.Writes.number (writes : layout.Writes sizes value bytes)
    (there : Source.Starts image stop start bytes) :
    layout.Number image stop sizes start value (start + bytes.length) := by
  cases writes with
  | fixed sized fits =>
      rw [length_toLittleEndian]
      exact .fixed sized ⟨(Source.fieldAt_eq_ok_iff sized.1).mpr ⟨fits, there⟩, rfl⟩
  | offset fits =>
      rw [length_toLittleEndian]
      exact .offset
        ⟨(Source.fieldAt_eq_ok_iff sizes.format.wordSize_pos).mpr ⟨fits, there⟩, rfl⟩
  | uleb128 word => exact .uleb128 (word.at_of_starts there word.holds)

/-- The number that stands there is the one that is written. -/
theorem Layout.Writes.eq_of_number {value' finish : Nat} (writes : layout.Writes sizes value bytes)
    (there : Source.Holds image start bytes)
    (number : layout.Number image stop sizes start value' finish) : value' = value := by
  cases writes with
  | @fixed width value sized fits =>
      cases number with
      | fixed sized field =>
          rw [← length_toLittleEndian width value] at field
          rw [(Grammar.eq_of_field there field).1, littleEndian_toLittleEndian fits]
  | @offset value fits =>
      cases number with
      | offset field =>
          rw [← length_toLittleEndian sizes.format.wordSize value] at field
          rw [(Grammar.eq_of_field there field).1, littleEndian_toLittleEndian fits]
  | uleb128 word =>
      cases number with
      | uleb128 groups =>
          rw [sum_eq_unsigned]
          exact (groups.eq_of_holds word.formed there).2.2.1

/-- What is written in a form is the number that stands there. -/
theorem Writes.numeral (writes : form.Writes sizes value bytes)
    (there : Source.Starts image stop start bytes) :
    form.Numeral image stop sizes start value (start + bytes.length) := by
  have direct {form : Form} {bytes : List UInt8} {start : Nat}
      (written : ∃ layout, form.kind? sizes.version = some layout ∧
        layout.Writes sizes value bytes) (there : Source.Starts image stop start bytes) :
      ∃ layout, form.kind? sizes.version = some layout ∧ (layout = .address → form = .refAddr) ∧
        layout.Number image stop sizes start value (start + bytes.length) := by
    obtain ⟨layout, known, writes⟩ := written
    refine ⟨layout, known, ?_, writes.number there⟩
    rintro rfl
    cases writes
  cases writes with
  | direct plain written => exact .inl ⟨plain, direct written there⟩
  | @indirect form named bytes names plain written =>
      obtain ⟨head, tail⟩ := Source.starts_append_iff.mp there
      have groups := names.at_of_starts head
      rw [List.length_append, ← Nat.add_assoc]
      exact .inr ⟨rfl, form.code, _, groups, fun same => plain (congrArg Constant.mk same),
        direct written tail⟩

/-- The number that stands in a form is the one that is written there. -/
theorem Writes.eq_of_numeral {value' finish : Nat} (writes : form.Writes sizes value bytes)
    (there : Source.Holds image start bytes)
    (numeral : form.Numeral image stop sizes start value' finish) : value' = value := by
  have direct {form : Form} {bytes : List UInt8} {start : Nat}
      (written : ∃ layout, form.kind? sizes.version = some layout ∧
        layout.Writes sizes value bytes) (there : Source.Holds image start bytes)
      (stands : ∃ layout, form.kind? sizes.version = some layout ∧
        (layout = .address → form = .refAddr) ∧
          layout.Number image stop sizes start value' finish) : value' = value := by
    obtain ⟨layout, known, writes⟩ := written
    obtain ⟨_, known', -, number⟩ := stands
    cases known.symm.trans known'
    exact writes.eq_of_number there number
  cases writes with
  | direct plain written =>
      rcases numeral with ⟨-, stands⟩ | ⟨rfl, -⟩
      · exact direct written there stands
      · exact absurd rfl plain
  | @indirect form named bytes names plain written =>
      obtain ⟨head, tail⟩ := Source.holds_append_iff.mp there
      rcases numeral with ⟨other, -⟩ | ⟨-, code, middle, groups, -, stands⟩
      · exact absurd rfl other
      · obtain ⟨-, -, rfl, rfl⟩ := groups.eq_of_holds names.word.formed head
        rw [← sum_eq_unsigned, names.code] at stands
        exact direct written tail stands

/-- What fills a layout spans a value wherever it stands. -/
theorem Layout.Fills.spans (fills : layout.Fills sizes bytes)
    (there : Source.Starts image stop start bytes) :
    layout.Spans image stop sizes start (start + bytes.length) := by
  cases fills with
  | empty => exact .empty
  | fixed => exact .fixed ⟨there.1, rfl⟩
  | address length => exact .address ⟨length ▸ there.1, by rw [length]⟩
  | offset length => exact .offset ⟨length ▸ there.1, by rw [length]⟩
  | uleb128 word => exact .uleb128 (word.at_of_starts there word.holds)
  | sleb128 word => exact .sleb128 (word.at_of_starts there)
  | string plain => exact .string ⟨plain, there, by rw [List.length_append]; rfl⟩
  | @block width rest sized fits =>
      obtain ⟨head, tail⟩ := Source.starts_append_iff.mp there
      rw [List.length_append, ← Nat.add_assoc, length_toLittleEndian]
      rw [length_toLittleEndian] at tail
      exact .block sized ⟨(Source.fieldAt_eq_ok_iff sized.1).mpr ⟨fits, head⟩, rfl⟩ ⟨tail.1, rfl⟩
  | @countedBlock count rest word length =>
      obtain ⟨head, tail⟩ := Source.starts_append_iff.mp there
      rw [List.length_append, ← Nat.add_assoc, length]
      exact .countedBlock (word.at_of_starts head word.holds) ⟨length ▸ tail.1, rfl⟩

theorem Fills.whole (fills : form.Fills sizes bytes)
    (there : Source.Starts image stop start bytes) :
    Decode.whole image stop sizes form start (start + bytes.length) := by
  cases fills with
  | direct plain fills =>
      obtain ⟨layout, known, fills⟩ := fills
      exact ⟨layout, known, fills.spans there⟩
  | @indirect form named bytes names plain fills =>
      obtain ⟨layout, known, fills⟩ := fills
      obtain ⟨head, tail⟩ := Source.starts_append_iff.mp there
      rw [List.length_append, ← Nat.add_assoc]
      exact ⟨.indirect, rfl, .indirect (names.at_of_starts head)
        (fun same => plain (congrArg Constant.mk same)) known (fills.spans tail)⟩

theorem WritesText.text {base : DirectPool Table} {text : List UInt8}
    (writes : form.WritesText image base sizes text bytes)
    (there : Source.Starts image stop start bytes) :
    form.Text image base stop sizes start text (start + bytes.length) := by
  cases writes with
  | inline plain => exact .inline ⟨plain, there, by rw [List.length_append]; rfl⟩
  | string fits stands => exact .string ((Layout.Writes.offset fits).number there) stands
  | lineString fits stands => exact .lineString ((Layout.Writes.offset fits).number there) stands

end Form

end Dwarf
