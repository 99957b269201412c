import Dwarf.Proofs.RootEntries
/-!
# Values wherever their bytes stand

The layout of a form says which bytes are one value of it, so that none of them is the beginning of
another one.  What such bytes mean in an entry does not depend on where they stand, as long as they
stand in the window and the tables of texts hold the same.
-/

namespace Dwarf

open Leb128

namespace Source

variable {image : Array UInt8} {offset : Nat} {bytes first rest : List UInt8}

theorem holds_append_iff : Holds image offset (first ++ rest) ↔
    Holds image offset first ∧ Holds image (offset + first.length) rest := by
  unfold Holds
  rw [← List.drop_drop]
  constructor
  · rintro ⟨behind, same⟩
    rw [← same, List.append_assoc, List.drop_left]
    exact ⟨List.prefix_append _ _, List.prefix_append _ _⟩
  · rintro ⟨⟨others, same⟩, there⟩
    rw [← same] at there ⊢
    rw [List.drop_left] at there
    exact (List.prefix_append_right_inj first).mpr there

theorem Holds.imageBytes_eq (h : Holds image offset bytes) :
    (imageBytes image offset bytes.length).toList = bytes :=
  (starts_iff_holds.mpr ⟨Nat.le_refl _, h⟩).2

theorem Holds.le_size (h : Holds image offset bytes) (positive : 0 < bytes.length) :
    offset + bytes.length ≤ image.size := by
  have shorter := h.length_le
  simp only [List.length_drop, Array.length_toList] at shorter
  omega

end Source

/-- What one grammar says of some bytes in an image, another one says of them in another image
wherever they stand before the end of a window. -/
def Grammar.Carries {α : Type} (image image' : Array UInt8) (stop' : Nat) (bytes : List UInt8)
    (grammar grammar' : Grammar α) : Prop :=
  ∀ start start' value finish, Source.Holds image start bytes → Source.Holds image' start' bytes →
    start' + bytes.length ≤ stop' → grammar start value finish →
      finish = start + bytes.length ∧ grammar' start' value (start' + bytes.length)

/-- Groups that are the beginning of others are those. -/
theorem Leb128.Groups.prefix_free {groups groups' : List UInt8} (formed : Groups groups)
    (formed' : Groups groups') (h : groups <+: groups') : groups = groups' := by
  induction formed generalizing groups' with
  | last small =>
      cases formed' with
      | last => exact congrArg (fun byte => [byte]) (List.cons_prefix_cons.mp h).1
      | more announces =>
          obtain ⟨rfl, -⟩ := List.cons_prefix_cons.mp h
          omega
  | more announces _ ih =>
      cases formed' with
      | last small =>
          obtain ⟨rfl, -⟩ := List.cons_prefix_cons.mp h
          omega
      | more _ formed' =>
          obtain ⟨rfl, behind⟩ := List.cons_prefix_cons.mp h
          rw [ih formed' behind]

section Carries

variable {ν : Type} {image image' : Array UInt8} {stop stop' most start value finish : Nat}
variable {bytes : List UInt8} {number : List UInt8 → ν} {fits : ν → Prop}

theorem Leb128.Groups.At.eq_of_holds {value : ν}
    (h : Groups.At image stop most number fits start value finish) (formed : Groups bytes)
    (there : Source.Holds image start bytes) :
    bytes.length ≤ most ∧ fits value ∧ value = number bytes ∧ finish = start + bytes.length := by
  obtain ⟨groups, formed', few, begins, fitting, rfl, rfl⟩ := h
  have same : groups = bytes := by
    rcases List.prefix_or_prefix_of_prefix (Source.starts_iff_holds.mp begins).2 there with
      shorter | longer
    · exact formed'.prefix_free formed shorter
    · exact (formed.prefix_free formed' longer).symm
  subst same
  exact ⟨few, fitting, rfl, rfl⟩

namespace Grammar

theorem carries_groups (formed : Groups bytes) :
    Carries image image' stop' bytes (Groups.At image stop most number fits)
      (Groups.At image' stop' most number fits) := by
  intro start start' value finish there there' inside spelt
  obtain ⟨few, fitting, same, ends⟩ := spelt.eq_of_holds formed there
  exact ⟨ends, bytes, formed, few, Source.starts_iff_holds.mpr ⟨inside, there'⟩, fitting, same,
    rfl⟩

theorem eq_of_field (there : Source.Holds image start bytes)
    (h : Decode.field image stop bytes.length start value finish) :
    value = littleEndian bytes ∧ finish = start + bytes.length := by
  obtain ⟨-, read⟩ := UnitExtent.fieldAt_eq_ok h.1
  rw [Source.wordAt, there.imageBytes_eq] at read
  exact ⟨read, h.2⟩

theorem carries_field {width : Nat} (positive : 0 < width) (length : bytes.length = width) :
    Carries image image' stop' bytes (Decode.field image stop width)
      (Decode.field image' stop' width) := by
  subst length
  intro start start' value finish there there' inside spelt
  obtain ⟨rfl, ends⟩ := eq_of_field there spelt
  refine ⟨ends, ?_, rfl⟩
  have within := there'.le_size positive
  rw [Source.fieldAt, if_neg (by omega), if_neg (by omega), Source.wordAt, there'.imageBytes_eq]

theorem carries_terminated {text : List UInt8} (plain : ∀ byte ∈ text, byte ≠ 0) :
    Carries image image' stop' (text ++ [0]) (Decode.terminated image stop)
      (Decode.terminated image' stop') := by
  rintro start start' text' finish there there' inside ⟨plain', begins, rfl⟩
  have same : text' = text := by
    rcases List.prefix_or_prefix_of_prefix (Source.starts_iff_holds.mp begins).2 there with
      shorter | longer
    · exact Decode.eq_of_prefix_terminated plain' plain shorter
    · exact (Decode.eq_of_prefix_terminated plain plain' longer).symm
  subst same
  rw [List.length_append, List.length_singleton]
  exact ⟨rfl, plain, Source.starts_iff_holds.mpr ⟨inside, there'⟩, rfl⟩

end Grammar

end Carries

namespace Form

/-- The bytes that are one complete value of a layout. -/
inductive Layout.Encodes (sizes : UnitSizes) : Layout → List UInt8 → Prop where
  /-- The entry holds no bytes. -/
  | empty : Encodes sizes .empty []
  /-- Some bytes. -/
  | fixed {width : Nat} {bytes : List UInt8} : bytes.length = width →
    Encodes sizes (.fixed width) bytes
  /-- The bytes of an address. -/
  | address {bytes : List UInt8} : bytes.length = sizes.addressSize → Encodes sizes .address bytes
  /-- The bytes of an offset. -/
  | offset {bytes : List UInt8} : bytes.length = sizes.format.wordSize → Encodes sizes .offset bytes
  /-- The groups of a number. -/
  | uleb128 {groups : List UInt8} : Groups groups → Encodes sizes .uleb128 groups
  /-- The groups of a number in two's complement. -/
  | sleb128 {groups : List UInt8} : Groups groups → Encodes sizes .sleb128 groups
  /-- A text and its NUL. -/
  | string {text : List UInt8} : (∀ byte ∈ text, byte ≠ 0) → Encodes sizes .string (text ++ [0])
  /-- A count of a fixed width, and as many bytes. -/
  | block {width : Nat} {count rest : List UInt8} : count.length = width →
    rest.length = littleEndian count → Encodes sizes (.block width) (count ++ rest)
  /-- The groups of a count, and as many bytes. -/
  | countedBlock {count rest : List UInt8} : Groups count →
    rest.length = Leb128.unsigned count → Encodes sizes .countedBlock (count ++ rest)
  /-- The groups of the code of another form, and a value of that form if it is known. -/
  | indirect {code rest : List UInt8} : Groups code →
    (∀ layout, Leb128.unsigned code ≠ 0x16 →
      kind? sizes.version ⟨Leb128.unsigned code⟩ = some layout → Encodes sizes layout rest) →
      Encodes sizes .indirect (code ++ rest)

/-- The bytes that are one complete value of a form; any are where the form is not known. -/
def Encodes (sizes : UnitSizes) (form : Form) (bytes : List UInt8) : Prop :=
  ∀ layout, form.kind? sizes.version = some layout → layout.Encodes sizes bytes

variable {image image' : Array UInt8} {stop stop' : Nat} {sizes : UnitSizes} {layout : Layout}
variable {form : Form} {bytes : List UInt8}

/-- The number of a value is the same wherever the value stands. -/
theorem carries_number (encoded : layout.Encodes sizes bytes) :
    Grammar.Carries image image' stop' bytes (layout.Number image stop sizes)
      (layout.Number image' stop' sizes) := by
  intro start start' value finish there there' inside number
  cases number with
  | fixed sized field =>
      cases encoded with
      | fixed length =>
          obtain ⟨ends, field'⟩ :=
            Grammar.carries_field sized.1 length _ _ _ _ there there' inside field
          exact ⟨ends, .fixed sized field'⟩
  | address sized field =>
      cases encoded with
      | address length =>
          obtain ⟨ends, field'⟩ :=
            Grammar.carries_field sized.1 length _ _ _ _ there there' inside field
          exact ⟨ends, .address sized field'⟩
  | offset field =>
      cases encoded with
      | offset length =>
          obtain ⟨ends, field'⟩ := Grammar.carries_field sizes.format.wordSize_pos length _ _ _ _
            there there' inside field
          exact ⟨ends, .offset field'⟩
  | uleb128 groups =>
      cases encoded with
      | uleb128 formed =>
          obtain ⟨ends, groups'⟩ :=
            Grammar.carries_groups formed _ _ _ _ there there' inside groups
          exact ⟨ends, .uleb128 groups'⟩

/-- A value is as long wherever it stands. -/
theorem carries_spans (encoded : layout.Encodes sizes bytes) :
    Grammar.Carries image image' stop' bytes
      (fun start (_ : Unit) finish => layout.Spans image stop sizes start finish)
      (fun start _ finish => layout.Spans image' stop' sizes start finish) := by
  intro start start' _ finish there there' inside spans
  induction spans generalizing bytes start' with
  | empty =>
      cases encoded with
      | empty => exact ⟨rfl, .empty⟩
  | fixed room =>
      cases encoded with
      | fixed length => exact ⟨length ▸ room.2, .fixed ⟨length ▸ inside, length ▸ rfl⟩⟩
  | address room =>
      cases encoded with
      | address length => exact ⟨length ▸ room.2, .address ⟨length ▸ inside, length ▸ rfl⟩⟩
  | offset room =>
      cases encoded with
      | offset length => exact ⟨length ▸ room.2, .offset ⟨length ▸ inside, length ▸ rfl⟩⟩
  | uleb128 groups =>
      cases encoded with
      | uleb128 formed =>
          obtain ⟨ends, groups'⟩ :=
            Grammar.carries_groups formed _ _ _ _ there there' inside groups
          exact ⟨ends, .uleb128 groups'⟩
  | sleb128 groups =>
      cases encoded with
      | sleb128 formed =>
          obtain ⟨ends, groups'⟩ :=
            Grammar.carries_groups formed _ _ _ _ there there' inside groups
          exact ⟨ends, .sleb128 groups'⟩
  | string text =>
      cases encoded with
      | string plain =>
          obtain ⟨ends, text'⟩ :=
            Grammar.carries_terminated plain _ _ _ _ there there' inside text
          exact ⟨ends, .string text'⟩
  | block sized field room =>
      cases encoded with
      | @block _ count rest length follows =>
          subst length
          obtain ⟨head, -⟩ := Source.holds_append_iff.mp there
          obtain ⟨head', -⟩ := Source.holds_append_iff.mp there'
          rw [List.length_append] at inside ⊢
          obtain ⟨rfl, -⟩ := Grammar.eq_of_field head field
          have fits : start' + count.length ≤ stop' := by omega
          obtain ⟨rfl, field'⟩ := Grammar.carries_field sized.1 rfl _ _ _ _ head head' fits field
          obtain ⟨-, rfl⟩ := room
          exact ⟨by omega, .block sized field' ⟨by omega, by omega⟩⟩
  | countedBlock groups room =>
      cases encoded with
      | @countedBlock count rest formed follows =>
          obtain ⟨head, -⟩ := Source.holds_append_iff.mp there
          obtain ⟨head', -⟩ := Source.holds_append_iff.mp there'
          rw [List.length_append] at inside ⊢
          obtain ⟨-, -, rfl, -⟩ := groups.eq_of_holds formed head
          have fits : start' + count.length ≤ stop' := by omega
          obtain ⟨rfl, groups'⟩ := Grammar.carries_groups formed _ _ _ _ head head' fits groups
          obtain ⟨-, rfl⟩ := room
          exact ⟨by omega, .countedBlock groups' ⟨by omega, by omega⟩⟩
  | indirect groups other known _ ih =>
      cases encoded with
      | @indirect code rest formed follows =>
          obtain ⟨head, tail⟩ := Source.holds_append_iff.mp there
          obtain ⟨head', tail'⟩ := Source.holds_append_iff.mp there'
          rw [List.length_append] at inside ⊢
          obtain ⟨-, -, rfl, -⟩ := groups.eq_of_holds formed head
          have fits : start' + code.length ≤ stop' := by omega
          obtain ⟨rfl, groups'⟩ := Grammar.carries_groups formed _ _ _ _ head head' fits groups
          obtain ⟨rfl, spans'⟩ := ih (follows _ other known) _ tail tail' (by omega)
          rw [Nat.add_assoc] at spans' ⊢
          exact ⟨rfl, .indirect groups' other known spans'⟩

/-- What carries over for the values of all forms does so behind an indirect form as well. -/
theorem carries_through {α : Type} {direct direct' : Form → Grammar α}
    (each : ∀ form bytes, form.Encodes sizes bytes →
      Grammar.Carries image image' stop' bytes (direct form) (direct' form))
    (encoded : form.Encodes sizes bytes) :
    Grammar.Carries image image' stop' bytes (through image stop direct form)
      (through image' stop' direct' form) := by
  intro start start' value finish there there' inside spelt
  rcases spelt with ⟨plain, spelt⟩ | ⟨rfl, code, middle, groups, other, spelt⟩
  · obtain ⟨ends, spelt'⟩ := each form bytes encoded _ _ _ _ there there' inside spelt
    exact ⟨ends, .inl ⟨plain, spelt'⟩⟩
  · cases encoded .indirect rfl with
    | @indirect named rest formed follows =>
        obtain ⟨head, tail⟩ := Source.holds_append_iff.mp there
        obtain ⟨head', tail'⟩ := Source.holds_append_iff.mp there'
        rw [List.length_append] at inside ⊢
        obtain ⟨-, -, rfl, -⟩ := groups.eq_of_holds formed head
        have fits : start' + named.length ≤ stop' := by omega
        obtain ⟨rfl, groups'⟩ := Grammar.carries_groups formed _ _ _ _ head head' fits groups
        have encoded' : Form.Encodes sizes ⟨Leb128.unsigned named⟩ rest :=
          fun layout known => follows layout other known
        obtain ⟨rfl, spelt'⟩ := each _ rest encoded' _ _ _ _ tail tail' (by omega) spelt
        rw [Nat.add_assoc] at spelt' ⊢
        exact ⟨rfl, .inr ⟨rfl, _, _, groups', other, spelt'⟩⟩

theorem carries_numeral (encoded : form.Encodes sizes bytes) :
    Grammar.Carries image image' stop' bytes (form.Numeral image stop sizes)
      (form.Numeral image' stop' sizes) := by
  refine carries_through (fun form bytes encoded => ?_) encoded
  rintro start start' value finish there there' inside ⟨layout, known, reference, number⟩
  obtain ⟨ends, number'⟩ :=
    carries_number (encoded layout known) _ _ _ _ there there' inside number
  exact ⟨ends, layout, known, reference, number'⟩

theorem carries_address (encoded : form.Encodes sizes bytes) :
    Grammar.Carries image image' stop' bytes (form.Address image stop sizes)
      (form.Address image' stop' sizes) := by
  refine carries_through (fun form bytes encoded => ?_) encoded
  rintro start start' value finish there there' inside
    ⟨counts, layout, number, counted, known, spelt, rfl⟩
  obtain ⟨ends, spelt'⟩ := carries_number (encoded layout known) _ _ _ _ there there' inside spelt
  exact ⟨ends, counts, layout, number, counted, known, spelt', rfl⟩

theorem carries_whole (encoded : form.Encodes sizes bytes) :
    Grammar.Carries image image' stop' bytes
      (fun start (_ : Unit) finish => Decode.whole image stop sizes form start finish)
      (fun start _ finish => Decode.whole image' stop' sizes form start finish) := by
  rintro start start' value finish there there' inside ⟨layout, known, spans⟩
  obtain ⟨ends, spans'⟩ :=
    carries_spans (encoded layout known) _ _ () _ there there' inside spans
  exact ⟨ends, layout, known, spans'⟩

end Form

end Dwarf
