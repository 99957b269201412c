import Mathlib.Data.List.Nodup
import Mathlib.Data.List.Perm.Basic
import Dwarf.Proofs.Aligned
import Dwarf.Proofs.Encoded
/-!
# The order of attributes does not matter

A root entry whose attributes are permuted, with their values, says the same, if no attribute that a
summary keeps occurs twice.

## Implementation notes

Permuting an entry changes the image, and permuting its attributes changes the table.  So there are
two sessions, one for each image, whose readers stand at the same places.  Nothing is asked of the
images but the bytes of the entry and those of the sections with texts.
-/

namespace Dwarf

/-- The tables in which the texts of entries stand, and the table of their offsets. -/
def Table.texts : List Table := [.strings, .lineStrings, .stringOffsets]

namespace DirectPool

variable {image image' : Array UInt8} {base base' : DirectPool Table}

/-- The same texts are found over two images. -/
structure FindAlike (image image' : Array UInt8) (base base' : DirectPool Table) : Prop where
  strings : ∀ offset text, (base .strings).HasText image offset text ↔
    (base' .strings).HasText image' offset text
  lineStrings : ∀ offset text, (base .lineStrings).HasText image offset text ↔
    (base' .lineStrings).HasText image' offset text
  indexed : ∀ first index format text, base.IndexedText image first index format text ↔
    base'.IndexedText image' first index format text

namespace FindAlike

theorem refl (image : Array UInt8) (base : DirectPool Table) : FindAlike image image base base :=
  ⟨fun _ _ => .rfl, fun _ _ => .rfl, fun _ _ _ _ => .rfl⟩

theorem symm (h : FindAlike image image' base base') : FindAlike image' image base' base :=
  ⟨fun _ _ => (h.strings _ _).symm, fun _ _ => (h.lineStrings _ _).symm,
    fun _ _ _ _ => (h.indexed _ _ _ _).symm⟩

end FindAlike

/-- The readers of texts are the same, over images with the same bytes in their sections. -/
structure SameTexts (image image' : Array UInt8) (base base' : DirectPool Table) : Prop where
  sound : ∀ table ∈ Table.texts, (base table).Sound
  same : ∀ table ∈ Table.texts, base' table = base table
  agree : ∀ table ∈ Table.texts, (base table).AgreeInSection image image'

namespace SameTexts

theorem symm (h : SameTexts image image' base base') : SameTexts image' image base' base where
  sound table member := (h.same table member).symm ▸ h.sound table member
  same table member := (h.same table member).symm
  agree table member := by
    intro place placed index behind before
    rw [h.same table member] at placed
    exact (h.agree table member place placed index behind before).symm

theorem hasText_iff (h : SameTexts image image' base base') {table : Table}
    (member : table ∈ Table.texts) (offset : Nat) (text : List UInt8) :
    (base table).HasText image offset text ↔ (base' table).HasText image' offset text := by
  rw [h.same table member]
  exact DirectReader.hasText_congr (.refl .onward _) rfl (h.sound table member)
    (h.agree table member)

/-- An index leads to a text in both images. -/
theorem indexedText_iff (h : SameTexts image image' base base') (first index : Nat)
    (format : Format) (text : List UInt8) :
    base.IndexedText image first index format text ↔
      base'.IndexedText image' first index format text := by
  have offsets : Table.stringOffsets ∈ Table.texts := by decide
  have entry (offset : Nat) :
      (base .stringOffsets).HasEntry image first index format offset ↔
        (base .stringOffsets).HasEntry image' first index format offset :=
    DirectReader.hasEntry_congr (.refl .onward _) (h.agree _ offsets)
  simp only [IndexedText, h.same _ offsets, entry, h.hasText_iff (by decide : .strings ∈ _)]

theorem findAlike (h : SameTexts image image' base base') : FindAlike image image' base base' :=
  ⟨h.hasText_iff (by decide), h.hasText_iff (by decide), h.indexedText_iff⟩

end SameTexts

end DirectPool

/-! ### Values of attributes -/

section Values

variable {image image' : Array UInt8} {base base' : DirectPool Table} {stop stop' : Nat}
variable {sizes : UnitSizes} {form : Form} {spec : AttributeSpecification} {bytes : List UInt8}

/-- The text of a form's value is the same wherever the value stands. -/
theorem Form.carries_text (alike : DirectPool.FindAlike image image' base base')
    (encoded : form.Encodes sizes bytes) :
    Grammar.Carries image image' stop' bytes (form.Text image base stop sizes)
      (form.Text image' base' stop' sizes) := by
  intro start start' text finish there there' inside spelt
  cases spelt with
  | inline text =>
      cases encoded .string rfl with
      | string plain =>
          obtain ⟨ends, text'⟩ :=
            Grammar.carries_terminated plain _ _ _ _ there there' inside text
          exact ⟨ends, .inline text'⟩
  | string number stands =>
      obtain ⟨ends, number'⟩ :=
        Form.carries_number (encoded .offset rfl) _ _ _ _ there there' inside number
      exact ⟨ends, .string number' ((alike.strings _ _).mp stands)⟩
  | lineString number stands =>
      obtain ⟨ends, number'⟩ :=
        Form.carries_number (encoded .offset rfl) _ _ _ _ there there' inside number
      exact ⟨ends, .lineString number' ((alike.lineStrings _ _).mp stands)⟩

namespace AttributeSpecification

theorem carries_constant (formed : spec.Formed) (encoded : spec.form.Encodes sizes bytes) :
    Grammar.Carries image image' stop' bytes (spec.Constant image stop sizes)
      (spec.Constant image' stop' sizes) := by
  intro start start' value finish there there' inside constant
  cases constant with
  | kept kept =>
      rw [formed.mp (kept ▸ rfl)] at encoded
      cases encoded .empty rfl with
      | empty => exact ⟨rfl, .kept kept⟩
  | stored bare number =>
      obtain ⟨ends, number'⟩ := Form.carries_numeral encoded _ _ _ _ there there' inside number
      exact ⟨ends, .stored bare number'⟩

/-- An attribute means the same wherever its value stands. -/
theorem carries_means (alike : DirectPool.FindAlike image image' base base') (formed : spec.Formed)
    (encoded : spec.form.Encodes sizes bytes) :
    Grammar.Carries image image' stop' bytes (spec.Means image base stop sizes)
      (spec.Means image' base' stop' sizes) := by
  intro start start' meaning finish there there' inside means
  unfold Means at means ⊢
  cases use : spec.use with
  | text which =>
      simp only [use] at means ⊢
      obtain ⟨text, spelt, rfl⟩ := means
      obtain ⟨ends, spelt'⟩ := Form.carries_text alike encoded _ _ _ _ there there' inside spelt
      exact ⟨ends, text, spelt', rfl⟩
  | index which =>
      simp only [use] at means ⊢
      obtain ⟨index, spelt, rfl⟩ := means
      obtain ⟨ends, spelt'⟩ := Form.carries_numeral encoded _ _ _ _ there there' inside spelt
      exact ⟨ends, index, spelt', rfl⟩
  | lowAddress =>
      simp only [use] at means ⊢
      obtain ⟨address, spelt, rfl⟩ := means
      obtain ⟨ends, spelt'⟩ := Form.carries_address encoded _ _ _ _ there there' inside spelt
      exact ⟨ends, address, spelt', rfl⟩
  | nothing =>
      simp only [use] at means ⊢
      obtain ⟨spelt, rfl⟩ := means
      obtain ⟨ends, spelt'⟩ := Form.carries_whole encoded _ _ () _ there there' inside spelt
      exact ⟨ends, spelt', rfl⟩
  | base | language | lineProgram =>
      simp only [use] at means ⊢
      obtain ⟨value, spelt, rfl⟩ := means
      obtain ⟨ends, spelt'⟩ := carries_constant formed encoded _ _ _ _ there there' inside spelt
      exact ⟨ends, value, spelt', rfl⟩

end AttributeSpecification

end Values

/-- An attribute of an abbreviation that was parsed, with the bytes of its value. -/
structure EncodedAttribute (sizes : UnitSizes) where
  /-- The attribute in the abbreviation. -/
  spec : AttributeSpecification
  /-- The bytes of its value in the entry. -/
  bytes : List UInt8
  /-- The abbreviation keeps a constant exactly for the form that has it there. -/
  formed : spec.Formed
  /-- The bytes are one complete value. -/
  encodes : spec.form.Encodes sizes bytes

namespace EncodedAttribute

variable {image image' : Array UInt8} {base base' : DirectPool Table} {stop stop' : Nat}
variable {sizes : UnitSizes} {attributes : List (EncodedAttribute sizes)}
variable {meanings : List AttributeMeaning} {start finish : Nat}

/-- What an attribute means at some place with its bytes. -/
def Meant (image : Array UInt8) (base : DirectPool Table) (item : EncodedAttribute sizes)
    (meaning : AttributeMeaning) : Prop :=
  ∃ start, Source.Holds image start item.bytes ∧
    item.spec.Means image base (start + item.bytes.length) sizes start meaning
      (start + item.bytes.length)

/-- The attributes of an entry that stand one behind another are meant. -/
theorem meant_of_sequence
    (there : Source.Holds image start (attributes.flatMap bytes))
    (row : Grammar.Sequence (AttributeSpecification.Means image base stop sizes)
      (attributes.map spec) start meanings finish) :
    finish = start + (attributes.flatMap bytes).length ∧
      List.Forall₂ (Meant image base) attributes meanings := by
  induction attributes generalizing start meanings with
  | nil =>
      cases row with
      | nil => exact ⟨rfl, .nil⟩
  | cons item rest ih =>
      cases row with
      | cons means row =>
          rw [List.flatMap_cons] at there ⊢
          obtain ⟨head, tail⟩ := Source.holds_append_iff.mp there
          obtain ⟨rfl, means'⟩ := AttributeSpecification.carries_means (.refl image base)
            item.formed item.encodes _ _ _ _ head head (Nat.le_refl _) means
          obtain ⟨rfl, meant⟩ := ih tail row
          rw [List.length_append, Nat.add_assoc]
          exact ⟨rfl, .cons ⟨_, head, means'⟩ meant⟩

/-- Attributes that are meant mean the same where their bytes stand one behind another. -/
theorem sequence_of_meant (alike : DirectPool.FindAlike image image' base base')
    (meant : List.Forall₂ (Meant image base) attributes meanings)
    (there : Source.Holds image' start (attributes.flatMap bytes))
    (inside : start + (attributes.flatMap bytes).length ≤ stop') :
    Grammar.Sequence (AttributeSpecification.Means image' base' stop' sizes)
      (attributes.map spec) start meanings (start + (attributes.flatMap bytes).length) := by
  induction meant generalizing start with
  | nil => exact .nil
  | @cons item meaning rest _ means _ ih =>
      obtain ⟨start', there', means⟩ := means
      rw [List.flatMap_cons] at there inside ⊢
      rw [List.length_append] at inside ⊢
      obtain ⟨head, tail⟩ := Source.holds_append_iff.mp there
      have fits : start + item.bytes.length ≤ stop' := by omega
      obtain ⟨-, means'⟩ := AttributeSpecification.carries_means alike item.formed item.encodes
        _ _ _ _ there' head fits means
      rw [← Nat.add_assoc]
      exact .cons means' (ih tail (by omega))

end EncodedAttribute

/-! ### Permuted meanings -/

/-- The attribute that gives a text. -/
def UnitText.attribute : UnitText → Attribute
  | .name => .entryName
  | .directory => .directory
  | .producer => .producer

/-- The attribute that is for something. -/
def AttributeUse.attribute? : AttributeUse → Option Attribute
  | .text which | .index which => some which.attribute
  | .base => some .stringOffsetsBase
  | .language => some .sourceLanguage
  | .lineProgram => some .lineProgram
  | .lowAddress => some .lowAddress
  | .nothing => none

/-- The attributes that are for something. -/
def AttributeUse.attributes : List Attribute :=
  [.entryName, .directory, .producer, .sourceLanguage, .lineProgram, .lowAddress,
    .stringOffsetsBase]

/-- What attributes that mean something are for. -/
def AttributeMeaning.use : AttributeMeaning → AttributeUse
  | .text which _ => .text which
  | .index which _ => .index which
  | .base _ => .base
  | .language _ => .language
  | .lineProgram _ => .lineProgram
  | .lowAddress _ => .lowAddress
  | .nothing => .nothing

/-- The attribute that gives a meaning. -/
def AttributeMeaning.attribute? (meaning : AttributeMeaning) : Option Attribute :=
  meaning.use.attribute?

theorem AttributeUse.mem_attributes {use : AttributeUse} {name : Attribute}
    (h : use.attribute? = some name) : name ∈ attributes := by
  cases use with
  | text which | index which => cases which <;> cases h <;> decide
  | nothing => cases h
  | _ => cases h; decide

/-- What an attribute is for tells its name. -/
theorem AttributeSpecification.name_of_use {spec : AttributeSpecification} {name : Attribute}
    (h : spec.use.attribute? = some name) : spec.name = name := by
  unfold use at h
  split at h
  · rename_i which named
    have given : spec.name = which.attribute := by
      unfold UnitText.ofAttribute? at named
      split at named <;> cases named <;> assumption
    split at h
    · exact given.trans (Option.some.inj h)
    · split at h
      · exact given.trans (Option.some.inj h)
      · cases h
  · unfold AttributeUse.ofName at h
    split at h <;> cases h <;> assumption

/-- An attribute means what it is for. -/
theorem AttributeSpecification.Means.use_eq {image : Array UInt8} {base : DirectPool Table}
    {stop : Nat} {sizes : UnitSizes} {spec : AttributeSpecification} {start finish : Nat}
    {meaning : AttributeMeaning} (h : spec.Means image base stop sizes start meaning finish) :
    meaning.use = spec.use := by
  unfold Means at h
  cases use : spec.use with
  | nothing =>
      simp only [use] at h
      obtain ⟨-, rfl⟩ := h
      rfl
  | _ =>
      simp only [use] at h
      obtain ⟨-, -, rfl⟩ := h
      rfl

theorem AttributeSpecification.Means.name_eq {image : Array UInt8} {base : DirectPool Table}
    {stop : Nat} {sizes : UnitSizes} {spec : AttributeSpecification} {start finish : Nat}
    {meaning : AttributeMeaning} (h : spec.Means image base stop sizes start meaning finish)
    {name : Attribute} (given : meaning.attribute? = some name) : spec.name = name := by
  rw [AttributeMeaning.attribute?, h.use_eq] at given
  exact name_of_use given

section Once

variable {ι α β : Type} {items items' : List ι}

/-- What is picked once at most comes last in every order. -/
theorem lastOf_perm {pick : ι → Option α} (permutes : items.Perm items')
    (once : (items.filterMap pick).length ≤ 1) : lastOf pick items = lastOf pick items' := by
  have picked := permutes.filterMap pick
  unfold lastOf
  match same : items.filterMap pick, once with
  | [], _ =>
      rw [same] at picked
      rw [picked.nil_eq]
  | [value], _ =>
      rw [same] at picked
      rw [picked.singleton_eq]

/-- What is picked from items with one key is picked as often as that key occurs, at most. -/
theorem length_filterMap_le_count [DecidableEq β] {pick : ι → Option α} {key : ι → Option β}
    {value : β} (keyed : ∀ item, (pick item).isSome = true → key item = some value)
    (items : List ι) : (items.filterMap pick).length ≤ (items.filterMap key).count value := by
  induction items with
  | nil => exact Nat.zero_le _
  | cons item rest ih =>
      cases picked : pick item with
      | none =>
          rw [List.filterMap_cons_none picked]
          calc (rest.filterMap pick).length
            _ ≤ (rest.filterMap key).count value := ih
            _ ≤ ((item :: rest).filterMap key).count value :=
              ((List.sublist_cons_self item rest).filterMap key).count_le value
      | some answer =>
          rw [List.filterMap_cons_some picked,
            List.filterMap_cons_some (keyed item (picked ▸ rfl)), List.count_cons_self]
          exact Nat.succ_le_succ ih

end Once

namespace RootEntry.SumsUp

variable {image image' : Array UInt8} {base base' : DirectPool Table} {format : Format} {tag : Tag}
variable {meanings meanings' : List AttributeMeaning} {summary : RootEntry}

/-- Meanings amount to the same over images where the same texts are found. -/
theorem congr (alike : DirectPool.FindAlike image image' base base')
    (h : SumsUp image base format tag meanings summary) :
    SumsUp image' base' format tag meanings summary where
  tag := h.tag
  language := h.language
  lineProgram := h.lineProgram
  lowAddress := h.lowAddress
  direct := h.direct
  indexed which index last := by
    obtain ⟨bytes, leads, shown⟩ := h.indexed which index last
    exact ⟨bytes, (alike.indexed _ _ _ _).mp leads, shown⟩
  resolved which index member := by
    obtain ⟨bytes, leads⟩ := h.resolved which index member
    exact ⟨bytes, (alike.indexed _ _ _ _).mp leads⟩

/-- Meanings amount to the same in every order, if none is for the same attribute as another. -/
theorem perm (h : SumsUp image base format tag meanings summary)
    (permutes : meanings.Perm meanings')
    (once : (meanings.filterMap AttributeMeaning.attribute?).Nodup) :
    SumsUp image base format tag meanings' summary := by
  have last {α : Type} {pick : AttributeMeaning → Option α} (name : Attribute)
      (named : ∀ meaning, (pick meaning).isSome = true → meaning.attribute? = some name) :
      lastOf pick meanings' = lastOf pick meanings :=
    (lastOf_perm permutes (Nat.le_trans (length_filterMap_le_count named meanings)
      (List.nodup_iff_count_le_one.mp once name))).symm
  have texts (which : UnitText) : lastOf (AttributeMeaning.text? which) meanings' =
      lastOf (AttributeMeaning.text? which) meanings := by
    refine last which.attribute fun meaning given => ?_
    cases meaning with
    | text other bytes =>
        exact congrArg (fun which => some which.attribute) (Option.isSome_ite.mp given)
    | _ => cases given
  have indices (which : UnitText) : lastOf (AttributeMeaning.index? which) meanings' =
      lastOf (AttributeMeaning.index? which) meanings := by
    refine last which.attribute fun meaning given => ?_
    cases meaning with
    | index other number =>
        exact congrArg (fun which => some which.attribute) (Option.isSome_ite.mp given)
    | _ => cases given
  have bases : AttributeMeaning.indexBase format meanings' =
      AttributeMeaning.indexBase format meanings := by
    rw [AttributeMeaning.indexBase, last .stringOffsetsBase fun meaning given => ?_,
      AttributeMeaning.indexBase]
    cases meaning <;> first | rfl | cases given
  constructor
  · exact h.tag
  · rw [h.language, last .sourceLanguage fun meaning given => ?_]
    cases meaning <;> first | rfl | cases given
  · rw [h.lineProgram, last .lineProgram fun meaning given => ?_]
    cases meaning <;> first | rfl | cases given
  · rw [h.lowAddress, last .lowAddress fun meaning given => ?_]
    cases meaning <;> first | rfl | cases given
  · intro which none
    rw [indices] at none
    rw [texts]
    exact h.direct which none
  · intro which index given
    rw [indices] at given
    rw [bases]
    exact h.indexed which index given
  · intro which index member
    rw [bases]
    exact h.resolved which index (permutes.mem_iff.mpr member)

end RootEntry.SumsUp

/-- Attributes that are meant are for nothing twice, if none of the names that are for something
occurs twice. -/
theorem EncodedAttribute.nodup_of_meant {image : Array UInt8} {base : DirectPool Table}
    {sizes : UnitSizes} {attributes : List (EncodedAttribute sizes)}
    {meanings : List AttributeMeaning}
    (meant : List.Forall₂ (Meant image base) attributes meanings)
    (once : ∀ name ∈ AttributeUse.attributes, (attributes.map (·.spec.name)).count name ≤ 1) :
    (meanings.filterMap AttributeMeaning.attribute?).Nodup := by
  have fewer (name : Attribute) : (meanings.filterMap AttributeMeaning.attribute?).count name ≤
      (attributes.map (·.spec.name)).count name := by
    clear once
    induction meant with
    | nil => exact Nat.le_refl _
    | @cons item meaning _ _ means _ ih =>
        obtain ⟨_, -, means⟩ := means
        rw [List.map_cons]
        cases given : meaning.attribute? with
        | none =>
            rw [List.filterMap_cons_none given]
            exact Nat.le_trans ih List.count_le_count_cons
        | some other =>
            rw [List.filterMap_cons_some given, means.name_eq given, List.count_cons,
              List.count_cons]
            exact Nat.add_le_add_right ih _
  refine List.nodup_iff_count_le_one.mpr fun name => ?_
  by_cases listed : name ∈ meanings.filterMap AttributeMeaning.attribute?
  · obtain ⟨meaning, -, given⟩ := List.mem_filterMap.mp listed
    calc (meanings.filterMap AttributeMeaning.attribute?).count name
      _ ≤ (attributes.map (·.spec.name)).count name := fewer name
      _ ≤ 1 := once name (AttributeUse.mem_attributes given)
  · rw [List.count_eq_zero_of_not_mem listed]
    exact Nat.zero_le 1

/-! ### Permuted entries -/

namespace Session

variable {image image' : Array UInt8} {session session' : Session} {table table' : Abbreviations}
variable {place : Place} {sizes : UnitSizes} {code : List UInt8} {tag : Tag}
variable {attributes permuted : List (EncodedAttribute sizes)} {summary : RootEntry}

/-- A session over an image reads a root entry exactly where it stands in the unit. -/
theorem rootEntry_eq_ok_iff (reached : session.pool.Reachable (.ofImage image))
    (stands : session.direct .info = ⟨some place, sizes.context⟩) :
    (session.run (.ofImage image) (Consult.rootEntry table).run).1 = .ok summary ↔
      ∃ finish, finish ≤ place.stop ∧ RootEntry.Spelt image session.direct place.stop sizes table
        place.offset summary finish := by
  have there := at_of_reachable reached stands
  have ran : session.direct.run image id (Consult.rootEntry table).run = _ :=
    run_rootEntry_direct reached
  have reads : Consult.Exact image session.direct place.stop sizes.context _ _ :=
    Consult.exact_rootEntry table
  constructor
  · intro ok
    rw [ok] at ran
    obtain ⟨finish, spelt, behind⟩ := reads.within place summary _ _ there rfl ran
    exact ⟨finish, behind.sound.offset_le_stop, spelt⟩
  · rintro ⟨finish, -, spelt⟩
    obtain ⟨left, ran', -⟩ := reads.complete place summary finish _ there rfl spelt
    exact congrArg Prod.fst (ran.symm.trans ran')

/-- Over an image, the info reader of a session stands before an entry with some attributes, whose
abbreviation is in a table. -/
structure BeforeEntry (image : Array UInt8) (session : Session) (table : Abbreviations)
    (place : Place) (code : List UInt8) (tag : Tag) (attributes : List (EncodedAttribute sizes)) :
    Prop where
  reached : session.pool.Reachable (.ofImage image)
  /-- The reader stands at a place and knows the sizes of the unit. -/
  stands : session.direct .info = ⟨some place, sizes.context⟩
  /-- The table has an abbreviation with these attributes. -/
  found : ∃ entry, table.find? (Leb128.unsigned code) = some entry ∧ entry.tag = tag ∧
    entry.attributes = attributes.map (·.spec)
  /-- The code is made of groups. -/
  formed : Leb128.Groups code
  /-- The code and the values of the attributes stand there one behind another. -/
  written : Source.Holds image place.offset (code ++ attributes.flatMap (·.bytes))

/-- What is read of an entry is read of the entry with its attributes in another order. -/
theorem BeforeEntry.rootEntry_eq_ok (h : session.BeforeEntry image table place code tag attributes)
    (h' : session'.BeforeEntry image' table' place code tag permuted)
    (same : DirectPool.SameTexts image image' session.direct session'.direct)
    (permutes : permuted.Perm attributes)
    (once : ∀ name ∈ AttributeUse.attributes, (attributes.map (·.spec.name)).count name ≤ 1)
    (read : (session.run (.ofImage image) (Consult.rootEntry table).run).1 = .ok summary) :
    (session'.run (.ofImage image') (Consult.rootEntry table').run).1 = .ok summary := by
  obtain ⟨finish, inside, number, start, groups, spelt⟩ :=
    (rootEntry_eq_ok_iff h.reached h.stands).mp read
  obtain ⟨begins, behind⟩ := Source.holds_append_iff.mp h.written
  obtain ⟨begins', behind'⟩ := Source.holds_append_iff.mp h'.written
  obtain ⟨-, -, rfl, rfl⟩ := groups.eq_of_holds h.formed begins
  obtain ⟨entry, found, rfl, specs⟩ := h.found
  obtain ⟨entry', found', tags, specs'⟩ := h'.found
  refine (rootEntry_eq_ok_iff h'.reached h'.stands).mpr ?_
  rcases spelt with ⟨zero, empty, rfl⟩ | ⟨nonzero, other, meanings, other_found, row, sums⟩
  · obtain ⟨-, groups'⟩ :=
      Grammar.carries_groups h.formed _ _ _ _ begins begins' inside groups
    exact ⟨_, inside, _, _, groups', .inl ⟨zero, empty, rfl⟩⟩
  · cases found.symm.trans other_found
    rw [specs] at row
    obtain ⟨rfl, meant⟩ := EncodedAttribute.meant_of_sequence behind row
    obtain ⟨meanings', meant', permutes'⟩ := List.perm_comp_forall₂ permutes meant
    have length : (permuted.flatMap (·.bytes)).length = (attributes.flatMap (·.bytes)).length :=
      (permutes.flatMap_right _).length_eq
    have fits : place.offset + code.length ≤ place.stop := by omega
    obtain ⟨-, groups'⟩ :=
      Grammar.carries_groups h.formed _ _ _ _ begins begins' fits groups
    have row' := EncodedAttribute.sequence_of_meant same.findAlike meant' behind' (length ▸ inside)
    rw [← specs'] at row'
    have sums' := (sums.congr same.findAlike).perm permutes'.symm
      (EncodedAttribute.nodup_of_meant meant once)
    exact ⟨_, length ▸ inside, _, _, groups', .inr ⟨nonzero, entry', meanings', found', row',
      tags ▸ sums'⟩⟩

/-- The attributes of a root entry may be permuted with their values, if none of those that a
summary keeps or needs occurs twice: the permuted entry is read exactly if the entry is, and says
the same. -/
theorem rootEntry_permuted (entry : session.BeforeEntry image table place code tag attributes)
    (entry' : session'.BeforeEntry image' table' place code tag permuted)
    (same : ∀ table ∈ Table.texts, session'.direct table = session.direct table)
    (agree : ∀ table ∈ Table.texts, (session.direct table).AgreeInSection image image')
    (permutes : permuted.Perm attributes)
    (once : ∀ name ∈ AttributeUse.attributes, (attributes.map (·.spec.name)).count name ≤ 1)
    (summary : RootEntry) :
    (session.run (.ofImage image) (Consult.rootEntry table).run).1 = .ok summary ↔
      (session'.run (.ofImage image') (Consult.rootEntry table').run).1 = .ok summary := by
  have texts : DirectPool.SameTexts image image' session.direct session'.direct :=
    ⟨fun table _ => (entry.reached table).sound.direct, same, agree⟩
  have once' : ∀ name ∈ AttributeUse.attributes,
      (permuted.map (·.spec.name)).count name ≤ 1 := by
    intro name listed
    rw [(permutes.map _).count_eq]
    exact once name listed
  exact ⟨entry.rootEntry_eq_ok entry' texts permutes once,
    entry'.rootEntry_eq_ok entry texts.symm permutes.symm once'⟩

/-- The base of the indices may stand between two indexed texts or before both. -/
theorem rootEntry_permuted_base :
    let image : Array UInt8 := #[14, 0, 0, 0, 4, 0, 0, 0, 0, 0, 8, 1, 0, 4, 0, 0, 0, 1,
      0x61, 0, 0x62, 0, 255, 255, 255, 255, 0, 0, 0, 0, 2, 0, 0, 0]
    let image' : Array UInt8 := #[14, 0, 0, 0, 4, 0, 0, 0, 0, 0, 8, 1, 4, 0, 0, 0, 1, 0,
      0x61, 0, 0x62, 0, 255, 255, 255, 255, 0, 0, 0, 0, 2, 0, 0, 0]
    let reader (first stop : Nat) : Reader :=
      ⟨some ⟨.zeroed 16, first, 0, 0, first, stop, stop, 34⟩, .unknown⟩
    let before : Session :=
      .start ⟨reader 0 18, .unbound, reader 18 22, .unbound, reader 22 34, .unbound⟩
    let session := (before.run (.ofImage image) (Decode.unitHeader.on .info).run).2
    let session' := (before.run (.ofImage image') (Decode.unitHeader.on .info).run).2
    let name : AttributeSpecification := ⟨.entryName, .strx1, none⟩
    let base : AttributeSpecification := ⟨.stringOffsetsBase, .secOffset, none⟩
    let producer : AttributeSpecification := ⟨.producer, .strx1, none⟩
    let table : Abbreviations := ⟨[⟨1, ⟨0x11⟩, false, [name, base, producer]⟩]⟩
    let table' : Abbreviations := ⟨[⟨1, ⟨0x11⟩, false, [base, producer, name]⟩]⟩
    let summary : RootEntry := ⟨some ⟨0x11⟩, some "a", none, some "b", none, none, none⟩
    (session.run (.ofImage image) (Consult.rootEntry table).run).1 = .ok summary ∧
      (session'.run (.ofImage image') (Consult.rootEntry table').run).1 = .ok summary := by
  intro image image' reader before session session' name base producer table table' summary
  let sizes : UnitSizes := ⟨.dwarf32, 8, some 4⟩
  let place : Place := ⟨11, 0, 18, 18, 34⟩
  have read : (session.run (.ofImage image) (Consult.rootEntry table).run).1 = .ok summary := by
    decide +kernel
  have stands : session.direct .info = ⟨some place, sizes.context⟩ := by
    decide +kernel
  have stands' : session'.direct .info = ⟨some place, sizes.context⟩ := by
    decide +kernel
  have same : ∀ table ∈ Table.texts, session'.direct table = session.direct table := by
    decide +kernel
  have texts : ∀ table ∈ Table.texts, ∀ place ∈ (session.direct table).place,
      18 ≤ place.first ∧ place.limit ≤ 34 := by
    decide +kernel
  have alike : ∀ index < 34, 18 ≤ index → image[index]? = image'[index]? := by
    decide +kernel
  have agree : ∀ table ∈ Table.texts, (session.direct table).AgreeInSection image image' := by
    intro table member place placed index behind before
    obtain ⟨first, limit⟩ := texts table member place placed
    exact alike index (by omega) (by omega)
  have started (image : Array UInt8) : before.pool.Reachable (.ofImage image) := by
    intro table
    cases table with
    | info => exact .bound (rfl : Reader.bound (.zeroed 16) ⟨0, 18⟩ 34 = .ok (reader 0 18))
    | strings => exact .bound (rfl : Reader.bound (.zeroed 16) ⟨18, 4⟩ 34 = .ok (reader 18 22))
    | stringOffsets =>
        exact .bound (rfl : Reader.bound (.zeroed 16) ⟨22, 12⟩ 34 = .ok (reader 22 34))
    | abbreviations | lineStrings | lines => exact .unbound
  have reached : session.pool.Reachable (.ofImage image) :=
    reachable_run (started image) (Prod.eta _).symm
  have reached' : session'.pool.Reachable (.ofImage image') :=
    reachable_run (started image') (Prod.eta _).symm
  let first : EncodedAttribute sizes :=
    ⟨name, [0], by decide, fun layout known => by cases known; exact .fixed rfl⟩
  let second : EncodedAttribute sizes :=
    ⟨base, [4, 0, 0, 0], by decide, fun layout known => by cases known; exact .offset rfl⟩
  let third : EncodedAttribute sizes :=
    ⟨producer, [1], by decide, fun layout known => by cases known; exact .fixed rfl⟩
  have entry : session.BeforeEntry image table place [1] ⟨0x11⟩ [first, second, third] :=
    ⟨reached, stands, ⟨_, rfl, rfl, rfl⟩, .last (by decide), by decide⟩
  have entry' : session'.BeforeEntry image' table' place [1] ⟨0x11⟩ [second, third, first] :=
    ⟨reached', stands', ⟨_, rfl, rfl, rfl⟩, .last (by decide), by decide⟩
  have permutes : ([second, third] ++ [first]).Perm ([first] ++ [second, third]) :=
    List.perm_append_comm
  exact ⟨read, (rootEntry_permuted entry entry' same agree permutes (by decide) summary).mp read⟩

end Session

end Dwarf
