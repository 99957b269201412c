import Mathlib.Algebra.BigOperators.Group.List.Basic
import Dwarf.Proofs.Declared
import Dwarf.Proofs.Leb128
import Dwarf.Proofs.Loops
/-!
# Tables of abbreviations and their bytes

A table is parsed wherever its bytes stand in the section, if a zero code or the end of the section
follows, and whatever is parsed could be a table again.  The pair of zeros that ends the attributes
of an abbreviation is no attribute, but a name or a form alone may be zero.
-/

namespace Dwarf

open Leb128

/-- The bytes of an attribute in an abbreviation. -/
def AttributeSpecification.bytes (spec : AttributeSpecification) : List UInt8 :=
  encodeUnsigned spec.name.code 0 ++
    (encodeUnsigned spec.form.code 0 ++ spec.implicit.elim [] (encodeSigned · 0))

/-- The bytes of an abbreviation. -/
def Abbreviation.bytes (entry : Abbreviation) : List UInt8 :=
  encodeUnsigned entry.code 0 ++
    (encodeUnsigned entry.tag.code 0 ++
      ([if entry.hasChildren then 1 else 0] ++
        (entry.attributes.flatMap AttributeSpecification.bytes ++ [0, 0])))

/-- The bytes of a table, without what ends it. -/
def Abbreviations.bytes (table : Abbreviations) : List UInt8 :=
  table.entries.flatMap Abbreviation.bytes

theorem length_le_flatMap {α : Type} {bytes : α → List UInt8}
    (positive : ∀ item, 1 ≤ (bytes item).length) (items : List α) :
    items.length ≤ (items.flatMap bytes).length := by
  have least := List.length_le_sum_of_one_le (items.map fun item => (bytes item).length)
    (List.forall_mem_map.mpr fun item _ => positive item)
  rwa [List.length_map, ← List.length_flatMap] at least

theorem AttributeSpecification.one_le_length_bytes (spec : AttributeSpecification) :
    1 ≤ spec.bytes.length := by
  have positive := (groups_encodeUnsigned spec.name.code 0).length_pos
  rw [bytes, List.length_append]
  omega

theorem Abbreviation.one_le_length_bytes (entry : Abbreviation) : 1 ≤ entry.bytes.length := by
  have positive := (groups_encodeUnsigned entry.code 0).length_pos
  rw [bytes, List.length_append]
  omega

theorem Leb128.encodeUnsigned_zero : encodeUnsigned 0 0 = [0] := by
  rw [encodeUnsigned]
  rfl

namespace Decode

variable {α β : Type} {image : Array UInt8} {stop : Nat} {context : Context}

/-- A step takes some bytes wherever they stand in the window, and gives a value. -/
def Takes (image : Array UInt8) (stop : Nat) (context : Context) (step : Decode α)
    (bytes : List UInt8) (value : α) : Prop :=
  ∀ place : Place, place.Sound → place.stop = stop → Source.Starts image stop place.offset bytes →
    DirectReader.run image step.run ⟨some place, context⟩ =
      (.ok value, ⟨some (place.advance bytes.length), context⟩)

namespace Takes

variable {first : Decode α} {next : α → Decode β} {bytes rest : List UInt8} {head : α} {value : β}

theorem pure (answer : α) : Takes image stop context (Pure.pure answer) [] answer :=
  fun _ _ _ _ => rfl

theorem bind (h : Takes image stop context first bytes head)
    (h' : Takes image stop context (next head) rest value) :
    Takes image stop context (first >>= next) (bytes ++ rest) value := by
  intro place sound stops there
  obtain ⟨there, follow⟩ := Source.starts_append_iff.mp there
  rw [DirectReader.run_bind_of_ok (h place sound stops there), List.length_append,
    ← Place.advance_advance]
  exact h' (place.advance bytes.length) (sound.advance (stops ▸ there.1)) stops follow

theorem bind_nil (h : Takes image stop context first bytes head)
    (h' : Takes image stop context (next head) [] value) :
    Takes image stop context (first >>= next) bytes value := by
  rw [← List.append_nil bytes]
  exact h.bind h'

theorem map (f : α → β) (h : Takes image stop context first bytes head) :
    Takes image stop context (f <$> first) bytes (f head) := by
  rw [map_eq_pure_bind]
  exact h.bind_nil (pure (f head))

/-- A step that looks first sees its bytes ahead. -/
theorem look {next : View → Decode α}
    (each : ∀ seen : View, bytes.length ≤ seen.remaining →
      Takes image stop context (next seen) bytes head) :
    Takes image stop context (view >>= next) bytes head := by
  intro place sound stops there
  have ahead : bytes.length ≤ (DirectReader.view ⟨some place, context⟩).remaining := by
    have inside := there.1
    simp only [DirectReader.view, View.remaining]
    omega
  exact each (DirectReader.view ⟨some place, context⟩) ahead place sound stops there

end Takes

theorem takes_byte (value : UInt8) : Takes image stop context byte [value] value.toNat := by
  rintro place sound rfl there
  exact run_byte sound there

theorem takes_uleb128 {type : IntType} {value : Nat} (word : value ≤ Word.max)
    (holds : type.holds value) :
    Takes image stop context (uleb128 type) (encodeUnsigned value 0) value := by
  rintro place sound rfl there
  have reads : Exact image place.stop context (uleb128 type)
      (spelt image place.stop OfWord sum fun value => type.holds value) :=
    exact_acceptedGroups exact_wordGroups
  have same := unsigned_encodeUnsigned value 0
  rw [← sum_eq_unsigned] at same
  exact reads.complete place value _ sound rfl
    ⟨_, ofWord_encodeUnsigned word (.inl rfl), there, same.symm, holds, rfl⟩

theorem takes_sleb128 {value : Int} (holds : IntType.signedWord.holds value) :
    Takes image stop context (sleb128 .signedWord) (encodeSigned value 0) value := by
  rintro place sound rfl there
  have reads : Exact image place.stop context (sleb128 .signedWord)
      (spelt image place.stop OfSignedWord signExtended fun value =>
        IntType.signedWord.holds value) :=
    exact_acceptedGroups exact_signedWordGroups
  have formed := ofSignedWord_encodeSigned holds (.inl rfl : (0 : Nat) = 0 ∨ _)
  have same := signed_encodeSigned value 0
  rw [formed.signed_eq] at same
  exact reads.complete place value _ sound rfl ⟨_, formed, there, same.symm, holds, rfl⟩

theorem takes_constant {family : Family} {value : Constant family}
    (holds : IntType.half.holds value.code) :
    Takes image stop context (constant family) (encodeUnsigned value.code 0) value := by
  have word : value.code ≤ Word.max := IntType.le_max_of_holds rfl (by decide) holds
  exact (takes_uleb128 word holds).bind_nil (.pure value)

/-- Attributes are taken up to the pair of zeros, if there is room for them. -/
theorem takes_attributeSpecsFrom {specs : List AttributeSpecification}
    (formed : ∀ spec ∈ specs, spec.WellFormed) (read : List AttributeSpecification) {count : Nat}
    (few : specs.length < count) :
    Takes image stop context (attributeSpecsFrom read count)
      (specs.flatMap AttributeSpecification.bytes ++ [0, 0]) (read.reverse ++ specs) := by
  have zero (family : Family) : Takes image stop context (constant family) [0] ⟨0⟩ := by
    have holds : IntType.half.holds (0 : Nat) := by decide
    have taken : Takes image stop context (constant family) (encodeUnsigned 0 0) ⟨0⟩ :=
      takes_constant holds
    rwa [encodeUnsigned_zero] at taken
  induction specs generalizing read count with
  | nil =>
      cases count with
      | zero => exact absurd few (Nat.not_lt_zero _)
      | succ count =>
          rw [List.append_nil]
          exact (zero .attribute).bind ((zero .form).bind (.pure read.reverse))
  | cons spec specs ih =>
      cases count with
      | zero => exact absurd few (Nat.not_lt_zero _)
      | succ count =>
          obtain ⟨well, formed⟩ := List.forall_mem_cons.mp formed
          have rest := ih formed (spec :: read) (Nat.lt_of_succ_lt_succ few)
          rw [List.reverse_cons, List.append_assoc, List.singleton_append] at rest
          rw [List.flatMap_cons, AttributeSpecification.bytes]
          simp only [List.append_assoc]
          refine (takes_constant well.name).bind ((takes_constant well.form).bind ?_)
          rw [if_neg well.listed]
          obtain ⟨name, form, _ | value⟩ := spec
          · have lacks : form ≠ .implicitConst := fun has => nomatch well.formed.mpr has
            rw [if_neg lacks]
            exact (Takes.pure none).bind rest
          · have has : form = .implicitConst := well.formed.mp rfl
            rw [if_pos has]
            exact ((takes_sleb128 (well.implicit value rfl)).map some).bind rest

theorem takes_abbreviation {entry : Abbreviation} (formed : entry.WellFormed) :
    Takes image stop context (abbreviation entry.code)
      (encodeUnsigned entry.tag.code 0 ++ ([if entry.hasChildren then 1 else 0] ++
        (entry.attributes.flatMap AttributeSpecification.bytes ++ [0, 0]))) entry := by
  refine (takes_constant formed.tag).bind ((takes_byte _).bind ?_)
  have listed : Takes image stop context attributeSpecs
      (entry.attributes.flatMap AttributeSpecification.bytes ++ [0, 0]) entry.attributes := by
    refine Takes.look fun seen ahead => ?_
    have few := length_le_flatMap AttributeSpecification.one_le_length_bytes entry.attributes
    rw [List.length_append] at ahead
    exact takes_attributeSpecsFrom formed.attributes [] (by omega)
  refine listed.bind_nil ?_
  have flag : ((if entry.hasChildren then 1 else 0 : UInt8).toNat == childrenFollow) =
      entry.hasChildren := by
    cases entry.hasChildren <;> rfl
  rw [flag]
  exact .pure entry

/-- The loop over a table ends at the end of the window, and reads a code elsewhere. -/
theorem run_abbreviationsFrom_succ (read : List Abbreviation) (count : Nat) (place : Place) :
    DirectReader.run image (abbreviationsFrom read (count + 1)).run ⟨some place, context⟩ =
      if place.offset = place.stop then (.ok read.reverse, ⟨some place, context⟩)
      else DirectReader.run image (ExceptT.run (do
        let code ← uleb128 .word
        if code = 0 then pure read.reverse
        else do
          let entry ← abbreviation code
          abbreviationsFrom (entry :: read) count)) ⟨some place, context⟩ := by
  have looked : DirectReader.run image (abbreviationsFrom read (count + 1)).run
      ⟨some place, context⟩ = DirectReader.run image (ExceptT.run
        (if (DirectReader.view ⟨some place, context⟩).atEnd then pure read.reverse else do
          let code ← uleb128 .word
          if code = 0 then pure read.reverse
          else do
            let entry ← abbreviation code
            abbreviationsFrom (entry :: read) count)) ⟨some place, context⟩ := rfl
  have atEnd : (DirectReader.view ⟨some place, context⟩).atEnd ↔ place.offset = place.stop := by
    simp only [DirectReader.view, View.atEnd, Bool.true_and, beq_iff_eq]
  rw [looked]
  by_cases ends : place.offset = place.stop
  · rw [if_pos (atEnd.mpr ends), if_pos ends]
    rfl
  · rw [if_neg fun seen => ends (atEnd.mp seen), if_neg ends]

/-- The loop over a table goes on behind an abbreviation that stands in the window. -/
theorem run_abbreviationsFrom_cons {entry : Abbreviation} {place : Place} (well : entry.WellFormed)
    (read : List Abbreviation) (count : Nat) (sound : place.Sound)
    (there : Source.Starts image place.stop place.offset entry.bytes) :
    DirectReader.run image (abbreviationsFrom read (count + 1)).run ⟨some place, context⟩ =
      DirectReader.run image (abbreviationsFrom (entry :: read) count).run
        ⟨some (place.advance entry.bytes.length), context⟩ := by
  have word : entry.code ≤ Word.max := IntType.le_max_of_holds rfl (by decide) well.code
  have inside : place.offset ≠ place.stop := by
    have ahead := there.1
    have positive := entry.one_le_length_bytes
    omega
  obtain ⟨first, follow⟩ := Source.starts_append_iff.mp there
  have coded : DirectReader.run image (uleb128 .word).run ⟨some place, context⟩ =
      (.ok entry.code, ⟨some (place.advance (encodeUnsigned entry.code 0).length), context⟩) :=
    takes_uleb128 word well.code place sound rfl first
  have shaped : DirectReader.run image (abbreviation entry.code).run
      ⟨some (place.advance (encodeUnsigned entry.code 0).length), context⟩ = (.ok entry, _) :=
    takes_abbreviation well _ (sound.advance first.1) rfl follow
  calc DirectReader.run image (abbreviationsFrom read (count + 1)).run ⟨some place, context⟩
      = DirectReader.run image (ExceptT.run (do
          let code ← uleb128 .word
          if code = 0 then pure read.reverse
          else do
            let entry ← abbreviation code
            abbreviationsFrom (entry :: read) count)) ⟨some place, context⟩ := by
        rw [run_abbreviationsFrom_succ, if_neg inside]
    _ = DirectReader.run image (ExceptT.run (do
          let entry ← abbreviation entry.code
          abbreviationsFrom (entry :: read) count))
          ⟨some (place.advance (encodeUnsigned entry.code 0).length), context⟩ := by
        rw [DirectReader.run_bind_of_ok coded, if_neg well.listed]
    _ = DirectReader.run image (abbreviationsFrom (entry :: read) count).run
          ⟨some (place.advance entry.bytes.length), context⟩ := by
        rw [DirectReader.run_bind_of_ok shaped, Place.advance_advance, ← List.length_append]
        rfl

/-- Abbreviations are taken up to where a loop ends, if there is room for them. -/
theorem run_abbreviationsFrom {entries : List Abbreviation} {place : Place} {left : DirectReader}
    (formed : ∀ entry ∈ entries, entry.WellFormed) (read : List Abbreviation) {count : Nat}
    (few : entries.length < count) (sound : place.Sound)
    (there : Source.Starts image place.stop place.offset (entries.flatMap Abbreviation.bytes))
    (ends : ∀ read more, DirectReader.run image (abbreviationsFrom read (more + 1)).run
      ⟨some (place.advance (entries.flatMap Abbreviation.bytes).length), context⟩ =
        (.ok read.reverse, left)) :
    DirectReader.run image (abbreviationsFrom read count).run ⟨some place, context⟩ =
      (.ok (read.reverse ++ entries), left) := by
  induction entries generalizing place read count with
  | nil =>
      cases count with
      | zero => exact absurd few (Nat.not_lt_zero _)
      | succ count =>
          rw [List.append_nil]
          exact ends read count
  | cons entry entries ih =>
      cases count with
      | zero => exact absurd few (Nat.not_lt_zero _)
      | succ count =>
          obtain ⟨well, formed⟩ := List.forall_mem_cons.mp formed
          rw [List.flatMap_cons] at there ends
          obtain ⟨first, follow⟩ := Source.starts_append_iff.mp there
          rw [List.length_append, ← Place.advance_advance] at ends
          have rest := ih formed (entry :: read) (Nat.lt_of_succ_lt_succ few)
            (sound.advance first.1) follow ends
          rw [run_abbreviationsFrom_cons well read count sound first, rest, List.reverse_cons,
            List.append_assoc, List.singleton_append]

theorem takes_zeroCode (read : List Abbreviation) (count : Nat) :
    Takes image stop context (abbreviationsFrom read (count + 1)) [0] read.reverse := by
  rintro place sound rfl there
  have zero : Takes image place.stop context (uleb128 .word) (encodeUnsigned 0 0) 0 :=
    takes_uleb128 (Nat.zero_le _) rfl
  rw [encodeUnsigned_zero] at zero
  have inside : place.offset ≠ place.stop := by
    have ahead : place.offset + 1 ≤ place.stop := there.1
    omega
  rw [run_abbreviationsFrom_succ, if_neg inside,
    DirectReader.run_bind_of_ok (zero place sound rfl there)]
  rfl

/-- A table is parsed where its bytes stand in the section, if the loop over it ends behind them. -/
theorem run_abbreviations {table : Abbreviations} {place : Place} {left : DirectReader}
    (formed : table.WellFormed) (offset : Nat) (sound : place.Sound)
    (there : Source.Starts image place.limit (place.first + offset) table.bytes)
    (ends : ∀ read more, DirectReader.run image (abbreviationsFrom read (more + 1)).run
      ⟨some ⟨place.first + offset + table.bytes.length, place.first, place.limit, place.limit,
        place.fileSize⟩, context⟩ = (.ok read.reverse, left)) :
    DirectReader.run image (abbreviations offset).run ⟨some place, context⟩ =
      (.ok table, left) := by
  have inside : place.first + offset ≤ place.limit := Nat.le_trans (Nat.le_add_right _ _) there.1
  let start : Place :=
    ⟨place.first + offset, place.first, place.limit, place.limit, place.fileSize⟩
  have begins : start.Sound :=
    { sound with
      first_le_offset := Nat.le_add_right _ _
      offset_le_stop := inside
      stop_le_limit := Nat.le_refl _ }
  have few : table.entries.length < place.limit - (place.first + offset) + 1 := by
    have least := length_le_flatMap Abbreviation.one_le_length_bytes table.entries
    have ahead := there.1
    simp only [Abbreviations.bytes] at ahead
    omega
  have listed : DirectReader.run image (abbreviationsFrom []
      (place.limit - (place.first + offset) + 1)).run ⟨some start, context⟩ =
        (.ok table.entries, left) :=
    run_abbreviationsFrom formed [] few begins there ends
  have widened := DirectReader.run_widened image sound context offset (do
    let seen ← view
    let entries ← abbreviationsFrom [] (seen.remaining + 1)
    pure (⟨entries⟩ : Abbreviations))
  rw [if_pos inside] at widened
  calc DirectReader.run image (abbreviations offset).run ⟨some place, context⟩
      = DirectReader.run image (ExceptT.run (do
          let entries ← abbreviationsFrom [] (place.limit - (place.first + offset) + 1)
          pure (⟨entries⟩ : Abbreviations))) ⟨some start, context⟩ := widened
    _ = (.ok table, left) := by
        rw [DirectReader.run_bind_of_ok listed]
        rfl

end Decode

namespace Reader

variable {image : Array UInt8} {reader : Reader} {place : Place} {context : Context}

/-- A table is parsed from its bytes at an offset of the section, whatever the window was, if a zero
code or the end of the section follows; the reader then stands behind that, with the whole section
open.  Whatever is parsed is a well-formed table, and the loops over it end by themselves wherever a
reader stands: larger counts change nothing. -/
theorem abbreviations_encoded (reached : reader.Reachable (.ofImage image))
    (stands : reader.direct = ⟨some place, context⟩) (offset : Nat) (log : AccessLog) :
    let parsed := reader.run (.ofImage image) (Decode.abbreviations offset).run log
    let start := place.first + offset
    let behind (bytes : List UInt8) : DirectReader :=
      ⟨some ⟨start + bytes.length, place.first, place.limit, place.limit, place.fileSize⟩, context⟩
    (∀ table : Abbreviations, table.WellFormed →
        Source.Starts image place.limit start (table.bytes ++ [0]) →
          parsed.1 = .ok table ∧ parsed.2.1.direct = behind (table.bytes ++ [0])) ∧
      (∀ table : Abbreviations, table.WellFormed →
        Source.Starts image place.limit start table.bytes →
          start + table.bytes.length = place.limit →
            parsed.1 = .ok table ∧ parsed.2.1.direct = behind table.bytes) ∧
      (∀ table, parsed.1 = .ok table → table.WellFormed) ∧
      ∀ (moved : Reader) (there : Place) (bound extra : Nat) (log : AccessLog),
        moved.Stands there → there.remaining < bound →
          (∀ read, moved.run (.ofImage image)
              (Decode.abbreviationsFrom read (bound + extra)).run log =
            moved.run (.ofImage image) (Decode.abbreviationsFrom read bound).run log) ∧
          ∀ read, moved.run (.ofImage image)
              (Decode.attributeSpecsFrom read (bound + extra)).run log =
            moved.run (.ofImage image) (Decode.attributeSpecsFrom read bound).run log := by
  intro parsed start behind
  have sound : place.Sound := reached.sound.direct place (stands ▸ rfl)
  have obeys : (Decode.abbreviations offset).Obeys .plain :=
    Decode.obeys_abbreviations offset rfl rfl
  have direct := run_direct reached stands obeys log
  have parses {table : Abbreviations} {left : DirectReader}
      (ran : DirectReader.run image (Decode.abbreviations offset).run ⟨some place, context⟩ =
        (.ok table, left)) : parsed.1 = .ok table ∧ parsed.2.1.direct = left :=
    Prod.mk.inj (direct.symm.trans ran)
  let final (bytes : List UInt8) : Place :=
    ⟨start + bytes.length, place.first, place.limit, place.limit, place.fileSize⟩
  have ends {bytes : List UInt8} (inside : start + bytes.length ≤ place.limit) :
      (final bytes).Sound :=
    { sound with
      first_le_offset := by simp only [final, start, Nat.add_assoc, Nat.le_add_right]
      offset_le_stop := inside
      stop_le_limit := Nat.le_refl _ }
  refine ⟨fun table formed there => ?_, fun table formed there whole => ?_, fun table ok => ?_,
    fun moved there bound extra log stands fewer => ⟨fun read => ?_, fun read => ?_⟩⟩
  · obtain ⟨there, follow⟩ := Source.starts_append_iff.mp there
    apply parses
    rw [Decode.run_abbreviations formed offset sound there fun read more =>
      Decode.takes_zeroCode read more (final table.bytes) (ends there.1) rfl follow]
    simp only [behind, final, Place.advance, List.length_append, Nat.add_assoc]
  · apply parses
    exact Decode.run_abbreviations formed offset sound there fun read more =>
      (Decode.run_abbreviationsFrom_succ read more (final table.bytes)).trans (if_pos whole)
  · exact Decode.wellFormed_of_abbreviations (direct.trans (Prod.ext ok rfl))
  · exact stands.run_abbreviationsFrom_add fewer extra read log
  · exact stands.run_attributeSpecsFrom_add fewer extra read log

/-- In a narrowed window, a table with a constant, a name of zero and a form of zero is parsed up to
its zero code. -/
theorem abbreviations_encoded_narrowed :
    let image : Array UInt8 :=
      #[0xff, 0xff, 1, 0x11, 1, 0x03, 0x21, 0x7e, 0, 0x0b, 0x49, 0, 0, 0, 0, 0xff]
    let reader : Reader := ⟨some ⟨.zeroed 16, 0, 0, 0, 0, 4, 16, 16⟩, .unknown⟩
    let parsed := reader.run (.ofImage image) (Decode.abbreviations 2).run #[]
    parsed.1 = .ok ⟨[⟨1, ⟨0x11⟩, true,
        [⟨⟨0x03⟩, .implicitConst, some (-2)⟩, ⟨⟨0⟩, .data1, none⟩, ⟨⟨0x49⟩, ⟨0⟩, none⟩]⟩]⟩ ∧
      parsed.2.1.direct = ⟨some ⟨15, 0, 16, 16, 16⟩, .unknown⟩ := by
  intro image reader parsed
  let table : Abbreviations := ⟨[⟨1, ⟨0x11⟩, true,
    [⟨⟨0x03⟩, .implicitConst, some (-2)⟩, ⟨⟨0⟩, .data1, none⟩, ⟨⟨0x49⟩, ⟨0⟩, none⟩]⟩]⟩
  have bound : Reader.bound (.zeroed 16) ⟨0, 16⟩ 16 =
      .ok ⟨some ⟨.zeroed 16, 0, 0, 0, 0, 16, 16, 16⟩, .unknown⟩ := rfl
  have reached : reader.Reachable (.ofImage image) :=
    .run (Dialogue.ask (.narrow 4) .done) #[] (.bound bound)
  have stands : reader.direct = ⟨some ⟨0, 0, 4, 16, 16⟩, .unknown⟩ := rfl
  have formed : table.WellFormed := by
    intro entry member
    cases List.mem_singleton.mp member
    refine ⟨by decide, by decide, by decide, ?_⟩
    have constant : AttributeSpecification.WellFormed ⟨⟨0x03⟩, .implicitConst, some (-2)⟩ :=
      ⟨by decide, by decide, by decide, by decide, by rintro _ ⟨⟩; decide⟩
    have unnamed : AttributeSpecification.WellFormed ⟨⟨0⟩, .data1, none⟩ :=
      ⟨by decide, by decide, by decide, by decide, nofun⟩
    have formless : AttributeSpecification.WellFormed ⟨⟨0x49⟩, ⟨0⟩, none⟩ :=
      ⟨by decide, by decide, by decide, by decide, nofun⟩
    simp only [List.forall_mem_cons]
    exact ⟨constant, unnamed, formless, List.forall_mem_nil _⟩
  have bytes : table.bytes ++ [0] =
      [1, 0x11, 1, 0x03, 0x21, 0x7e, 0, 0x0b, 0x49, 0, 0, 0, 0] := by
    simp only [table, Abbreviations.bytes, Abbreviation.bytes, AttributeSpecification.bytes,
      List.flatMap_cons, List.flatMap_nil, Option.elim_some, Option.elim_none]
    simp [encodeUnsigned, encodeSigned]
  have there : Source.Starts image 16 (0 + 2) (table.bytes ++ [0]) := by
    rw [bytes]
    exact ⟨by decide, by decide +kernel⟩
  clear_value reader
  obtain ⟨encoded, -⟩ := abbreviations_encoded reached stands 2 #[]
  have parse := encoded table formed there
  rw [bytes] at parse
  exact parse

end Reader

end Dwarf
