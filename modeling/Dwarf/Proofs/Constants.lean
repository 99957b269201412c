import Dwarf.Proofs.Permuted
import Dwarf.Proofs.Written
/-!
# Constants in every form

A constant attribute of a root entry may be written in a few bytes, as an offset or in groups, behind
an indirect form, or be kept by the abbreviation.  It is the same constant, and the entry is read as
the same, with one exception: groups in two's complement are never read, and the entry with them.
-/

namespace Dwarf

open Leb128

/-- The bytes of a form in which a number is written in two's complement. -/
def Form.WritesSigned (value : Int) : Form → List UInt8 → Prop :=
  Behind fun form bytes => form = .sdata ∧ OfSignedWord bytes ∧ signExtended bytes = value

namespace AttributeUse

/-- The attributes of a root entry that are for a constant. -/
def constants : List Attribute := [.stringOffsetsBase, .sourceLanguage, .lineProgram]

/-- What a constant means to an attribute that is for one. -/
def ofConstant : AttributeUse → Option Nat → AttributeMeaning
  | .base, value => .base value
  | .language, value => .language (Language.ofCode? value)
  | .lineProgram, value => .lineProgram value
  | _, _ => .nothing

/-- A constant is kept where an attribute is for it: in a summary, or as the base of its indices. -/
def Keeps (summary : RootEntry) (base value : Nat) : AttributeUse → Prop
  | .base => base = value
  | .language => value < 0x10000 → summary.language = some ⟨value⟩
  | .lineProgram => summary.lineProgram = some value
  | _ => True

end AttributeUse

namespace AttributeSpecification

/-- The bytes in which an attribute holds a constant, where the abbreviation may keep it. -/
inductive Writes (sizes : UnitSizes) (spec : AttributeSpecification) (value : Nat) :
    List UInt8 → Prop where
  /-- The abbreviation keeps it, and the entry holds no bytes. -/
  | kept : spec.implicit = some (value : Int) → Writes sizes spec value []
  /-- The entry holds it. -/
  | stored {bytes : List UInt8} : spec.implicit = none → spec.form.Writes sizes value bytes →
    Writes sizes spec value bytes

/-- The bytes in which an attribute holds a constant in two's complement. -/
def WritesSigned (spec : AttributeSpecification) (value : Int) (bytes : List UInt8) : Prop :=
  spec.implicit = none ∧ spec.form.WritesSigned value bytes

variable {image : Array UInt8} {base : DirectPool Table} {stop start : Nat} {sizes : UnitSizes}
variable {spec : AttributeSpecification} {value : Nat} {bytes : List UInt8}

theorem Writes.constant (writes : spec.Writes sizes value bytes)
    (there : Source.Starts image stop start bytes) :
    spec.Constant image stop sizes start (some value) (start + bytes.length) := by
  cases writes with
  | kept kept =>
      have constant : spec.Constant image stop sizes start _ start := .kept kept
      rwa [if_pos (Int.natCast_nonneg value)] at constant
  | stored bare written => exact .stored bare (written.numeral there)

/-- The constant of an attribute is the one that is written. -/
theorem Writes.eq_of_constant {value' : Option Nat} {finish : Nat}
    (writes : spec.Writes sizes value bytes) (there : Source.Holds image start bytes)
    (constant : spec.Constant image stop sizes start value' finish) : value' = some value := by
  cases writes with
  | kept kept =>
      cases constant with
      | kept kept' =>
          cases kept.symm.trans kept'
          exact if_pos (Int.natCast_nonneg value)
      | stored bare => cases kept.symm.trans bare
  | stored bare written =>
      cases constant with
      | kept kept => cases bare.symm.trans kept
      | stored _ numeral => exact congrArg some (written.eq_of_numeral there numeral)

theorem use_of_constant (named : spec.name ∈ AttributeUse.constants) :
    spec.use = .base ∨ spec.use = .language ∨ spec.use = .lineProgram := by
  obtain ⟨name, form, implicit⟩ := spec
  simp only [AttributeUse.constants, List.mem_cons, List.not_mem_nil, or_false] at named
  obtain rfl | rfl | rfl := named
  · exact .inl rfl
  · exact .inr (.inl rfl)
  · exact .inr (.inr rfl)

theorem attribute?_of_constant (named : spec.name ∈ AttributeUse.constants) :
    spec.use.attribute? = some spec.name := by
  obtain ⟨name, form, implicit⟩ := spec
  simp only [AttributeUse.constants, List.mem_cons, List.not_mem_nil, or_false] at named
  obtain rfl | rfl | rfl := named <;> rfl

theorem use_congr {spec' : AttributeSpecification} (named : spec.name ∈ AttributeUse.constants)
    (same : spec'.name = spec.name) : spec'.use = spec.use := by
  obtain ⟨name, form, implicit⟩ := spec
  obtain ⟨name', form', implicit'⟩ := spec'
  obtain rfl : name' = name := same
  simp only [AttributeUse.constants, List.mem_cons, List.not_mem_nil, or_false] at named
  obtain rfl | rfl | rfl := named <;> rfl

theorem means_iff_constant (named : spec.name ∈ AttributeUse.constants) {meaning : AttributeMeaning}
    {finish : Nat} : spec.Means image base stop sizes start meaning finish ↔
      ∃ value, spec.Constant image stop sizes start value finish ∧
        meaning = spec.use.ofConstant value := by
  unfold Means
  rcases use_of_constant named with use | use | use <;>
    simp only [use, AttributeUse.ofConstant]

theorem attributeMeaning_of_constant (named : spec.name ∈ AttributeUse.constants) :
    Consult.attributeMeaning spec =
      spec.use.ofConstant <$> (Decode.constantValue spec).on .info := by
  unfold Consult.attributeMeaning
  rcases use_of_constant named with use | use | use <;> rw [use] <;> rfl

end AttributeSpecification

/-! ### Where groups in two's complement stand -/

section Signed

variable {image : Array UInt8} {place : Place} {sizes : UnitSizes} {form : Form} {value : Int}
variable {bytes : List UInt8}

/-- A number in two's complement is no offset. -/
theorem Form.WritesSigned.fails (writes : form.WritesSigned value bytes) (sound : place.Sound)
    (there : Source.Starts image place.stop place.offset bytes) :
    Decode.Fails image place sizes.context (Decode.offsetValue form)
      (.unreadableForm .sdata) := by
  have known : Form.kind? sizes.version .sdata = some .sleb128 := rfl
  cases writes with
  | direct plain written =>
      obtain ⟨rfl, -⟩ := written
      rw [Decode.Fails, Decode.offsetValue,
        DirectReader.run_throughIndirect_of_direct image _ known (by decide)]
      rfl
  | @indirect form named bytes names plain written =>
      obtain ⟨rfl, -⟩ := written
      obtain ⟨head, -⟩ := Source.starts_append_iff.mp there
      have groups := names.at_of_starts head
      have reads : Decode.Exact image place.stop sizes.context Decode.indirectForm _ :=
        Decode.exact_indirectForm
      have ran := reads.complete place .sdata _ sound rfl ⟨by decide, groups⟩
      have looks := DirectReader.run_layout image .sdata
        ⟨some { place with offset := place.offset + named.length }, sizes.context⟩
      rw [Decode.Fails, Decode.offsetValue,
        DirectReader.run_throughIndirect_of_indirect image _ rfl]
      refine Decode.Fails.behind ran (Decode.Fails.behind looks ?_)
      rfl

end Signed

namespace Consult

variable {α β : Type} {image : Array UInt8} {base pool : DirectPool Table} {place : Place}
variable {stop : Nat} {context : Context} {first : Consult α} {error : Error}

theorem fails_on {step : Decode α} (there : DirectPool.At base place context pool)
    (fails : Decode.Fails image place context step error) :
    (pool.run image id (step.on .info).run).1 = .error error := by
  have decodes : pool.run image id (step.on .info).run = pool.decode image .info step.run :=
    DirectPool.run_on image id .info step.run pool
  rw [decodes, DirectPool.decode, there.info]
  exact fails

theorem fails_bind (fails : (pool.run image id first.run).1 = .error error)
    (next : α → Consult β) : (pool.run image id (first >>= next).run).1 = .error error := by
  rw [DirectPool.run] at fails ⊢
  rw [Dialogue.runStep_bind]
  split
  · rename_i ran
    rw [ran] at fails
    cases fails
  · rename_i ran
    rw [ran] at fails
    exact congrArg _ (Except.error.inj fails)

theorem Exact.fails_behind {grammar : Grammar α} {next : α → Consult β} {value : α} {middle : Nat}
    (h : Exact image base stop context first grammar) (there : DirectPool.At base place context pool)
    (stops : place.stop = stop) (spelt : grammar place.offset value middle)
    (fails : ∀ reached, DirectPool.At base { place with offset := middle } context reached →
      (reached.run image id (next value).run).1 = .error error) :
    (pool.run image id (first >>= next).run).1 = .error error := by
  obtain ⟨reached, ran, stands⟩ := h.complete place value middle pool there stops spelt
  have fails := fails reached stands
  rw [DirectPool.run] at ran fails ⊢
  rw [Dialogue.runStep_bind, ran]
  exact fails

end Consult

/-! ### Entries with a constant -/

/-- What is related to items with one between them has what is related to that one in between. -/
theorem forall₂_append_cons_iff {α β : Type} {R : α → β → Prop} {before after : List α}
    {item : α} {values : List β} :
    List.Forall₂ R (before ++ item :: after) values ↔
      ∃ earlier value later, List.Forall₂ R before earlier ∧ R item value ∧
        List.Forall₂ R after later ∧ values = earlier ++ value :: later := by
  constructor
  · intro related
    induction before generalizing values with
    | nil =>
        cases related with
        | cons head tail => exact ⟨[], _, _, .nil, head, tail, rfl⟩
    | cons first before ih =>
        cases related with
        | cons head tail =>
            obtain ⟨earlier, value, later, left, middle, right, rfl⟩ := ih tail
            exact ⟨_ :: earlier, value, later, .cons head left, middle, right, rfl⟩
  · rintro ⟨earlier, value, later, left, middle, right, rfl⟩
    exact List.rel_append left (.cons middle right)

theorem lastOf_append_cons {ι α : Type} {pick : ι → Option α} {item : ι} {value : α}
    (picked : pick item = some value) (earlier : List ι) {later : List ι}
    (only : ∀ other ∈ later, pick other = none) :
    lastOf pick (earlier ++ item :: later) = some value := by
  rw [lastOf, List.filterMap_append, List.filterMap_cons_some picked,
    List.filterMap_eq_nil_iff.mpr only]
  exact List.getLast?_concat

namespace EncodedAttribute

variable {image : Array UInt8} {base : DirectPool Table} {sizes : UnitSizes} {value : Nat}
variable {item : EncodedAttribute sizes} {meaning : AttributeMeaning} {start : Nat}

theorem meant_of_writes (named : item.spec.name ∈ AttributeUse.constants)
    (writes : item.spec.Writes sizes value item.bytes)
    (there : Source.Holds image start item.bytes) :
    item.Meant image base (item.spec.use.ofConstant (some value)) := by
  refine ⟨start, there, (AttributeSpecification.means_iff_constant named).mpr
    ⟨some value, ?_, rfl⟩⟩
  exact writes.constant (Source.starts_iff_holds.mpr ⟨Nat.le_refl _, there⟩)

theorem Meant.eq_of_writes (h : item.Meant image base meaning)
    (named : item.spec.name ∈ AttributeUse.constants)
    (writes : item.spec.Writes sizes value item.bytes) :
    meaning = item.spec.use.ofConstant (some value) := by
  obtain ⟨start, there, means⟩ := h
  obtain ⟨value', constant, rfl⟩ := (AttributeSpecification.means_iff_constant named).mp means
  rw [writes.eq_of_constant there constant]

theorem forall₂_meant_congr {image' : Array UInt8} {base' : DirectPool Table}
    {attributes : List (EncodedAttribute sizes)} {meanings : List AttributeMeaning}
    (alike : DirectPool.FindAlike image image' base base')
    (there : Source.Holds image' start (attributes.flatMap bytes))
    (meant : List.Forall₂ (Meant image base) attributes meanings) :
    List.Forall₂ (Meant image' base') attributes meanings :=
  (meant_of_sequence there (sequence_of_meant alike meant there (Nat.le_refl _))).2

/-- Attributes with other names than one that is for a constant mean nothing of that use. -/
theorem use_ne_of_forall₂ {attributes : List (EncodedAttribute sizes)}
    {meanings : List AttributeMeaning} (named : item.spec.name ∈ AttributeUse.constants)
    (others : ∀ other ∈ attributes, other.spec.name ≠ item.spec.name)
    (meant : List.Forall₂ (Meant image base) attributes meanings) :
    ∀ meaning ∈ meanings, meaning.use ≠ item.spec.use := by
  induction meant with
  | nil => exact fun meaning member => nomatch member
  | @cons other meaning _ _ head _ ih =>
      obtain ⟨different, others⟩ := List.forall_mem_cons.mp others
      refine List.forall_mem_cons.mpr ⟨fun same => different ?_, ih others⟩
      obtain ⟨start, -, means⟩ := head
      rw [means.use_eq] at same
      apply AttributeSpecification.name_of_use
      rw [same]
      exact AttributeSpecification.attribute?_of_constant named

end EncodedAttribute

/-- A constant that is meant last is kept. -/
theorem RootEntry.SumsUp.keeps {image : Array UInt8} {base : DirectPool Table} {format : Format}
    {tag : Tag} {earlier later : List AttributeMeaning} {summary : RootEntry} {use : AttributeUse}
    {value : Nat}
    (sums : SumsUp image base format tag (earlier ++ use.ofConstant (some value) :: later) summary)
    (only : ∀ meaning ∈ later, meaning.use ≠ use) :
    use.Keeps summary (AttributeMeaning.indexBase format
      (earlier ++ use.ofConstant (some value) :: later)) value := by
  have last {α : Type} {pick : AttributeMeaning → Option α} {kept : α}
      (picked : pick (use.ofConstant (some value)) = some kept)
      (used : ∀ meaning : AttributeMeaning, meaning.use ≠ use → pick meaning = none) :
      lastOf pick (earlier ++ use.ofConstant (some value) :: later) = some kept :=
    lastOf_append_cons picked earlier fun meaning member => used meaning (only meaning member)
  cases use with
  | base =>
      have bases := last (rfl : AttributeMeaning.base? _ = _) fun meaning other => by
        cases meaning <;> first | rfl | exact absurd rfl other
      rw [AttributeUse.Keeps, AttributeMeaning.indexBase, bases]
      rfl
  | language =>
      have languages := last (rfl : AttributeMeaning.language? _ = _) fun meaning other => by
        cases meaning <;> first | rfl | exact absurd rfl other
      intro small
      have coded : Language.ofCode? (some value) = some ⟨value⟩ := by
        simp [Language.ofCode?, small]
      rw [sums.language, languages, Option.join_some, coded]
  | lineProgram =>
      have programs := last (rfl : AttributeMeaning.lineProgram? _ = _) fun meaning other => by
        cases meaning <;> first | rfl | exact absurd rfl other
      rw [AttributeUse.Keeps, sums.lineProgram, programs]
      rfl
  | _ => trivial

namespace Session

/-- Over an image, the info reader of a session stands before an entry, all of which lies in the
unit, with an attribute for a constant. -/
structure BeforeConstant {sizes : UnitSizes} (image : Array UInt8) (session : Session)
    (table : Abbreviations) (place : Place) (code : List UInt8) (tag : Tag)
    (before : List (EncodedAttribute sizes)) (item : EncodedAttribute sizes)
    (after : List (EncodedAttribute sizes)) : Prop
    extends session.BeforeEntry image table place code tag (before ++ item :: after) where
  /-- The code is one of an abbreviation. -/
  word : OfWord code
  listed : sum code ≠ 0
  /-- The attribute is for a constant. -/
  named : item.spec.name ∈ AttributeUse.constants
  /-- The entry ends in the unit. -/
  inside : place.offset +
    (code ++ (before ++ item :: after).flatMap EncodedAttribute.bytes).length ≤ place.stop

namespace BeforeConstant

variable {image : Array UInt8} {session : Session} {table : Abbreviations} {place : Place}
variable {sizes : UnitSizes} {code : List UInt8} {tag : Tag} {value : Nat} {summary : RootEntry}
variable {before after : List (EncodedAttribute sizes)} {item : EncodedAttribute sizes}

/-- An entry with a constant is read exactly if its other attributes are meant, and says what they
and the constant amount to. -/
theorem rootEntry_eq_ok_iff
    (h : session.BeforeConstant image table place code tag before item after)
    (writes : item.spec.Writes sizes value item.bytes) :
    (session.run (.ofImage image) (Consult.rootEntry table).run).1 = .ok summary ↔
      ∃ earlier later, List.Forall₂ (EncodedAttribute.Meant image session.direct) before earlier ∧
        List.Forall₂ (EncodedAttribute.Meant image session.direct) after later ∧
        RootEntry.SumsUp image session.direct sizes.format tag
          (earlier ++ item.spec.use.ofConstant (some value) :: later) summary := by
  have inside := h.inside
  obtain ⟨entry, found, rfl, specs⟩ := h.found
  obtain ⟨begins, behind⟩ := Source.holds_append_iff.mp h.written
  rw [List.length_append, ← Nat.add_assoc] at inside
  have coded : Leb128.unsigned code ≠ 0 := sum_eq_unsigned code ▸ h.listed
  rw [Session.rootEntry_eq_ok_iff h.reached h.stands]
  constructor
  · rintro ⟨finish, -, number, start, groups, spelt⟩
    obtain ⟨-, -, rfl, rfl⟩ := groups.eq_of_holds h.formed begins
    obtain ⟨zero, -⟩ | ⟨-, other, meanings, other_found, row, sums⟩ := spelt
    · exact absurd zero coded
    · cases found.symm.trans other_found
      rw [specs] at row
      obtain ⟨-, all⟩ := EncodedAttribute.meant_of_sequence behind row
      obtain ⟨earlier, meaning, later, meant, constant, meant', rfl⟩ :=
        forall₂_append_cons_iff.mp all
      rw [constant.eq_of_writes h.named writes] at sums
      exact ⟨earlier, later, meant, meant', sums⟩
  · rintro ⟨earlier, later, meant, meant', sums⟩
    have between := behind
    rw [List.flatMap_append, List.flatMap_cons] at between
    obtain ⟨there, -⟩ := Source.holds_append_iff.mp (Source.holds_append_iff.mp between).2
    have all := forall₂_append_cons_iff.mpr
      ⟨earlier, _, later, meant, EncodedAttribute.meant_of_writes h.named writes there, meant', rfl⟩
    have row := EncodedAttribute.sequence_of_meant (.refl image session.direct) all behind inside
    have begins' := Source.starts_iff_holds.mpr ⟨Nat.le_trans (Nat.le_add_right _ _) inside, begins⟩
    have groups := h.word.at_of_starts begins' h.word.holds
    rw [← specs] at row
    rw [sum_eq_unsigned] at groups
    exact ⟨_, inside, _, _, groups, .inr ⟨coded, entry, _, found, row, sums⟩⟩

/-- An entry with a constant in two's complement is not read. -/
theorem rootEntry_eq_error {signed : Int}
    (h : session.BeforeConstant image table place code tag before item after)
    (writes : item.spec.WritesSigned signed item.bytes) {earlier : List AttributeMeaning}
    (meant : List.Forall₂ (EncodedAttribute.Meant image session.direct) before earlier) :
    (session.run (.ofImage image) (Consult.rootEntry table).run).1 =
      .error (.unreadableForm .sdata) := by
  obtain ⟨bare, written⟩ := writes
  obtain ⟨entry, found, rfl, specs⟩ := h.found
  have inside := h.inside
  obtain ⟨begins, behind⟩ := Source.holds_append_iff.mp h.written
  rw [List.flatMap_append, List.flatMap_cons] at behind
  obtain ⟨there, behind⟩ := Source.holds_append_iff.mp behind
  obtain ⟨stands, -⟩ := Source.holds_append_iff.mp behind
  rw [List.length_append, List.flatMap_append, List.flatMap_cons, List.length_append,
    List.length_append] at inside
  have coded : Leb128.unsigned code ≠ 0 := sum_eq_unsigned code ▸ h.listed
  have room : place.offset + code.length + (before.flatMap EncodedAttribute.bytes).length +
      item.bytes.length ≤ place.stop := by
    omega
  have starts : Source.Starts image place.stop place.offset code :=
    Source.starts_iff_holds.mpr ⟨by omega, begins⟩
  have groups := h.word.at_of_starts starts h.word.holds
  have row := EncodedAttribute.sequence_of_meant (.refl image session.direct) meant there
    (Nat.le_trans (Nat.le_add_right _ _) room)
  rw [sum_eq_unsigned] at groups
  have ran : session.direct.run image id (Consult.rootEntry table).run = _ :=
    run_rootEntry_direct h.reached
  rw [← congrArg Prod.fst ran]
  have reads : Consult.Exact image session.direct place.stop sizes.context
      ((Decode.uleb128 .word).on .info) _ := .on (Decode.exact_uleb128 rfl (by decide))
  refine reads.fails_behind (at_of_reachable h.reached h.stands) rfl groups fun pool at_code => ?_
  simp only [if_neg coded, found, Consult.rootAttributes_eq, specs, List.map_append, List.map_cons,
    List.mapM_append, List.mapM_cons, map_eq_pure_bind, bind_assoc, pure_bind]
  refine (Consult.Exact.mapM Consult.exact_attributeMeaning _).fails_behind at_code rfl row
    fun pool at_item => ?_
  rw [AttributeSpecification.attributeMeaning_of_constant h.named, map_eq_pure_bind, bind_assoc]
  refine Consult.fails_bind (Consult.fails_on at_item ?_) _
  rw [Decode.constantValue, bare]
  refine Decode.Fails.bind (written.fails at_item.sound ?_) _
  exact Source.starts_iff_holds.mpr ⟨room, stands⟩

end BeforeConstant

variable {image image' : Array UInt8} {session session' : Session} {table table' : Abbreviations}
variable {place place' : Place} {sizes : UnitSizes} {code code' : List UInt8} {tag : Tag}
variable {before after : List (EncodedAttribute sizes)} {item item' : EncodedAttribute sizes}
variable {value : Nat}

/-- A root entry with a constant attribute is read exactly if its other attributes are meant, and
says what they and the constant amount to; the constant is kept if no later attribute has its name.
So it may be written in any other form, without any change but where it is written in two's
complement: the entry is not read then. -/
theorem rootEntry_constant
    (entry : session.BeforeConstant image table place code tag before item after)
    (entry' : session'.BeforeConstant image' table' place' code' tag before item' after)
    (alike : DirectPool.FindAlike image image' session.direct session'.direct)
    (named : item'.spec.name = item.spec.name)
    (writes : item.spec.Writes sizes value item.bytes) :
    let read := (session.run (.ofImage image) (Consult.rootEntry table).run).1
    let read' := (session'.run (.ofImage image') (Consult.rootEntry table').run).1
    (∀ summary, read = .ok summary ↔
      ∃ earlier later, let meanings := earlier ++ item.spec.use.ofConstant (some value) :: later
        List.Forall₂ (EncodedAttribute.Meant image session.direct) before earlier ∧
        List.Forall₂ (EncodedAttribute.Meant image session.direct) after later ∧
        RootEntry.SumsUp image session.direct sizes.format tag meanings summary ∧
        ((∀ other ∈ after, other.spec.name ≠ item.spec.name) → item.spec.use.Keeps summary
          (AttributeMeaning.indexBase sizes.format meanings) value)) ∧
    (item'.spec.Writes sizes value item'.bytes →
      ∀ summary, read' = .ok summary ↔ read = .ok summary) ∧
    (∀ signed earlier, item'.spec.WritesSigned signed item'.bytes →
      List.Forall₂ (EncodedAttribute.Meant image session.direct) before earlier →
        read' = .error (.unreadableForm .sdata)) := by
  intro read read'
  have used : item'.spec.use = item.spec.use := AttributeSpecification.use_congr entry.named named
  have behind {image : Array UInt8} {session : Session} {table : Abbreviations} {place : Place}
      {code : List UInt8} {item : EncodedAttribute sizes}
      (entry : session.BeforeConstant image table place code tag before item after) :
      (∃ start, Source.Holds image start (before.flatMap EncodedAttribute.bytes)) ∧
        ∃ start, Source.Holds image start (after.flatMap EncodedAttribute.bytes) := by
    obtain ⟨-, attributes⟩ := Source.holds_append_iff.mp entry.written
    rw [List.flatMap_append, List.flatMap_cons] at attributes
    obtain ⟨first, rest⟩ := Source.holds_append_iff.mp attributes
    exact ⟨⟨_, first⟩, _, (Source.holds_append_iff.mp rest).2⟩
  obtain ⟨⟨_, first⟩, _, last⟩ := behind entry
  obtain ⟨⟨_, first'⟩, _, last'⟩ := behind entry'
  refine ⟨fun summary => ?_, fun writes' summary => ?_, fun signed earlier writes' meant => ?_⟩
  · rw [entry.rootEntry_eq_ok_iff writes]
    constructor
    · rintro ⟨earlier, later, meant, meant', sums⟩
      refine ⟨earlier, later, meant, meant', sums, fun only => sums.keeps ?_⟩
      exact EncodedAttribute.use_ne_of_forall₂ entry.named only meant'
    · rintro ⟨earlier, later, meant, meant', sums, -⟩
      exact ⟨earlier, later, meant, meant', sums⟩
  · rw [entry.rootEntry_eq_ok_iff writes, entry'.rootEntry_eq_ok_iff writes', used]
    constructor
    · rintro ⟨earlier, later, meant, meant', sums⟩
      exact ⟨earlier, later, EncodedAttribute.forall₂_meant_congr alike.symm first meant,
        EncodedAttribute.forall₂_meant_congr alike.symm last meant', sums.congr alike.symm⟩
    · rintro ⟨earlier, later, meant, meant', sums⟩
      exact ⟨earlier, later, EncodedAttribute.forall₂_meant_congr alike first' meant,
        EncodedAttribute.forall₂_meant_congr alike last' meant', sums.congr alike⟩
  · exact entry'.rootEntry_eq_error writes'
      (EncodedAttribute.forall₂_meant_congr alike first' meant)

/-- A line program is found at an offset of two bytes, and in groups but not in two's complement. -/
theorem rootEntry_constant_signed :
    let image : Array UInt8 := #[12, 0, 0, 0, 4, 0, 0, 0, 0, 0, 8, 1, 0x61, 0, 5, 0]
    let image' : Array UInt8 := #[11, 0, 0, 0, 4, 0, 0, 0, 0, 0, 8, 1, 0x61, 0, 5]
    let before (size : Nat) : Session :=
      .start ⟨⟨some ⟨.zeroed 16, 0, 0, 0, 0, size, size, size⟩, .unknown⟩, .unbound, .unbound,
        .unbound, .unbound, .unbound⟩
    let session := ((before 16).run (.ofImage image) (Decode.unitHeader.on .info).run).2
    let session' := ((before 15).run (.ofImage image') (Decode.unitHeader.on .info).run).2
    let table (form : Form) : Abbreviations :=
      ⟨[⟨1, ⟨0x11⟩, false, [⟨.entryName, .string, none⟩, ⟨.lineProgram, form, none⟩]⟩]⟩
    let summary : RootEntry := ⟨some ⟨0x11⟩, some "a", none, none, none, some 5, none⟩
    (session.run (.ofImage image) (Consult.rootEntry (table .data2)).run).1 = .ok summary ∧
      (session'.run (.ofImage image') (Consult.rootEntry (table .udata)).run).1 = .ok summary ∧
      (session'.run (.ofImage image') (Consult.rootEntry (table .sdata)).run).1 =
        .error (.unreadableForm .sdata) := by
  intro image image' before session session' table summary
  let sizes : UnitSizes := ⟨.dwarf32, 8, some 4⟩
  have read : (session.run (.ofImage image) (Consult.rootEntry (table .data2)).run).1 =
      .ok summary := by
    decide +kernel
  have stands : session.direct .info = ⟨some ⟨11, 0, 16, 16, 16⟩, sizes.context⟩ := by
    decide +kernel
  have stands' : session'.direct .info = ⟨some ⟨11, 0, 15, 15, 15⟩, sizes.context⟩ := by
    decide +kernel
  have unbound : ∀ table ∈ Table.texts, session.direct table = ⟨none, .unknown⟩ := by
    decide +kernel
  have unbound' : ∀ table ∈ Table.texts, session'.direct table = ⟨none, .unknown⟩ := by
    decide +kernel
  have started (image : Array UInt8) (size : Nat)
      (bound : Reader.bound (.zeroed 16) ⟨0, size⟩ size = .ok ((before size).readers.get .info)) :
      (before size).pool.Reachable (.ofImage image) := by
    intro table
    cases table with
    | info => exact .bound bound
    | _ => exact .unbound
  have reached : session.pool.Reachable (.ofImage image) :=
    reachable_run (started image 16 rfl) (Prod.eta _).symm
  have reached' : session'.pool.Reachable (.ofImage image') :=
    reachable_run (started image' 15 rfl) (Prod.eta _).symm
  clear_value session session'
  have alike : DirectPool.FindAlike image image' session.direct session'.direct := by
    refine DirectPool.SameTexts.findAlike ⟨fun table _ => (reached table).sound.direct,
      fun table member => (unbound' table member).trans (unbound table member).symm, ?_⟩
    intro table member place placed
    rw [unbound table member] at placed
    cases placed
  let name : EncodedAttribute sizes :=
    ⟨⟨.entryName, .string, none⟩, [0x61, 0], by decide, fun layout known => by
      cases known
      exact .string (by simp : ∀ byte ∈ [(0x61 : UInt8)], byte ≠ 0)⟩
  let wide : EncodedAttribute sizes :=
    ⟨⟨.lineProgram, .data2, none⟩, [5, 0], by decide, fun layout known => by
      cases known
      exact .fixed rfl⟩
  let grouped : EncodedAttribute sizes :=
    ⟨⟨.lineProgram, .udata, none⟩, [5], by decide, fun layout known => by
      cases known
      exact .uleb128 (.last (by decide))⟩
  let signed : EncodedAttribute sizes :=
    ⟨⟨.lineProgram, .sdata, none⟩, [5], by decide, fun layout known => by
      cases known
      exact .sleb128 (.last (by decide))⟩
  have entry : session.BeforeConstant image (table .data2) ⟨11, 0, 16, 16, 16⟩ [1] ⟨0x11⟩ [name]
      wide [] :=
    ⟨⟨reached, stands, ⟨_, rfl, rfl, rfl⟩, .last (by decide), by decide⟩, .single 1 (by decide),
      by decide, by decide, by decide⟩
  have entry' : session'.BeforeConstant image' (table .udata) ⟨11, 0, 15, 15, 15⟩ [1] ⟨0x11⟩ [name]
      grouped [] :=
    ⟨⟨reached', stands', ⟨_, rfl, rfl, rfl⟩, .last (by decide), by decide⟩, .single 1 (by decide),
      by decide, by decide, by decide⟩
  have entry_signed : session'.BeforeConstant image' (table .sdata) ⟨11, 0, 15, 15, 15⟩ [1] ⟨0x11⟩
      [name] signed [] :=
    ⟨⟨reached', stands', ⟨_, rfl, rfl, rfl⟩, .last (by decide), by decide⟩, .single 1 (by decide),
      by decide, by decide, by decide⟩
  have writes : wide.spec.Writes sizes 5 wide.bytes :=
    .stored rfl (.direct (by decide) ⟨_, rfl, .fixed (by decide) (by decide)⟩)
  have writes' : grouped.spec.Writes sizes (sum [5]) grouped.bytes :=
    .stored rfl (.direct (by decide) ⟨_, rfl, .uleb128 (.single 5 (by decide))⟩)
  have writes_signed : signed.spec.WritesSigned (signExtended [5]) signed.bytes :=
    ⟨rfl, .direct (by decide) ⟨rfl, ⟨.last (by decide), by decide, fun _ tenth => by cases tenth⟩,
      rfl⟩⟩
  obtain ⟨amounts, other, -⟩ := rootEntry_constant entry entry' alike rfl writes
  obtain ⟨-, -, refused⟩ := rootEntry_constant entry entry_signed alike rfl writes
  obtain ⟨earlier, later, meant, -⟩ := (amounts summary).mp read
  exact ⟨read, (other writes' summary).mpr read, refused _ earlier writes_signed meant⟩

end Session

end Dwarf
