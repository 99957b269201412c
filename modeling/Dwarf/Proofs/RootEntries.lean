import Mathlib.Data.List.Forall2
import Dwarf.Proofs.Meanings
/-!
# What a root entry says

Of several attributes with one use the last one counts, and a text with an index takes precedence
over one without.  A root entry is read exactly where its code and the values of its attributes
stand, and says what these mean.
-/

namespace Dwarf

section LastOf

variable {ι α σ : Type}

/-- The last of what is picked from some items. -/
def lastOf (pick : ι → Option α) (items : List ι) : Option α := (items.filterMap pick).getLast?

theorem lastOf_cons (pick : ι → Option α) (item : ι) (items : List ι) :
    lastOf pick (item :: items) = (lastOf pick items).or (pick item) := by
  unfold lastOf
  cases picked : pick item with
  | none => rw [List.filterMap_cons_none picked, Option.or_none]
  | some value =>
      rw [List.filterMap_cons_some picked, List.getLast?_cons]
      cases (items.filterMap pick).getLast? <;> rfl

theorem foldl_eq_lastOf (add : σ → ι → σ) (field : σ → α) (pick : ι → Option α)
    (each : ∀ state item, field (add state item) = (pick item).getD (field state))
    (items : List ι) (state : σ) :
    field (items.foldl add state) = (lastOf pick items).getD (field state) := by
  induction items generalizing state with
  | nil => rfl
  | cons item items ih =>
      calc field (items.foldl add (add state item))
        _ = (lastOf pick items).getD (field (add state item)) := ih _
        _ = (lastOf pick items).getD ((pick item).getD (field state)) := by rw [each]
        _ = (lastOf pick (item :: items)).getD (field state) := by
          rw [lastOf_cons]
          cases lastOf pick items <;> rfl

end LastOf

namespace AttributeMeaning

/-- The bytes of a text that an attribute means. -/
def text? (which : UnitText) : AttributeMeaning → Option (List UInt8)
  | .text other bytes => if other = which then some bytes else none
  | _ => none

/-- The index of a text that an attribute means. -/
def index? (which : UnitText) : AttributeMeaning → Option Nat
  | .index other number => if other = which then some number else none
  | _ => none

/-- The text and its index that an attribute means. -/
def indexed? : AttributeMeaning → Option (UnitText × Nat)
  | .index which number => some (which, number)
  | _ => none

/-- The base of the indices that an attribute means. -/
def base? : AttributeMeaning → Option (Option Nat)
  | .base value => some value
  | _ => none

/-- The language that an attribute means. -/
def language? : AttributeMeaning → Option (Option Language)
  | .language value => some value
  | _ => none

/-- The line program that an attribute means. -/
def lineProgram? : AttributeMeaning → Option (Option Nat)
  | .lineProgram value => some value
  | _ => none

/-- The lowest address that an attribute means. -/
def lowAddress? : AttributeMeaning → Option AttributeAddress
  | .lowAddress value => some value
  | _ => none

/-- The base of the indices that attributes mean, or the one behind the header of the first
table. -/
def indexBase (format : Format) (meanings : List AttributeMeaning) : Nat :=
  (lastOf base? meanings).join.getD (Consult.defaultBase format)

end AttributeMeaning

/-- One of the texts of a summary. -/
def RootEntry.text (summary : RootEntry) : UnitText → Option String
  | .name => summary.name
  | .directory => summary.directory
  | .producer => summary.producer

theorem RootEntry.text_setText (summary : RootEntry) (which other : UnitText) (bytes : List UInt8) :
    (summary.setText which bytes).text other =
      if which = other then some (Utf8.decode bytes) else summary.text other := by
  cases which <;> cases other <;> rfl

theorem RootEntry.eq_of_fields {summary summary' : RootEntry} (tag : summary.tag = summary'.tag)
    (texts : ∀ which, summary.text which = summary'.text which)
    (language : summary.language = summary'.language)
    (lineProgram : summary.lineProgram = summary'.lineProgram)
    (lowAddress : summary.lowAddress = summary'.lowAddress) : summary = summary' := by
  obtain ⟨_, name, directory, producer, _, _, _⟩ := summary
  have same := texts .name
  have same' := texts .directory
  have same'' := texts .producer
  simp only [RootEntry.text] at same same' same''
  simp only at tag language lineProgram lowAddress
  rw [tag, same, same', same'', language, lineProgram, lowAddress]

/-- The meanings of the attributes of an entry amount to a summary. -/
structure RootEntry.SumsUp (image : Array UInt8) (base : DirectPool Table) (format : Format)
    (tag : Tag) (meanings : List AttributeMeaning) (summary : RootEntry) : Prop where
  /-- The tag is that of the entry. -/
  tag : summary.tag = some tag
  /-- The language is the last one. -/
  language : summary.language = (lastOf AttributeMeaning.language? meanings).join
  /-- The line program is the last one. -/
  lineProgram : summary.lineProgram = (lastOf AttributeMeaning.lineProgram? meanings).join
  /-- The lowest address is the last one. -/
  lowAddress : summary.lowAddress = lastOf AttributeMeaning.lowAddress? meanings
  /-- A text without an index is the last one that stands in the entry or in a string table. -/
  direct : ∀ which, lastOf (AttributeMeaning.index? which) meanings = none →
    summary.text which = (lastOf (AttributeMeaning.text? which) meanings).map Utf8.decode
  /-- A text with an index is the one to which the last index leads. -/
  indexed : ∀ which index, lastOf (AttributeMeaning.index? which) meanings = some index →
    ∃ bytes,
      base.IndexedText image (AttributeMeaning.indexBase format meanings) index format bytes ∧
        summary.text which = some (Utf8.decode bytes)
  /-- Every index leads to a text. -/
  resolved : ∀ which index, .index which index ∈ meanings → ∃ bytes,
    base.IndexedText image (AttributeMeaning.indexBase format meanings) index format bytes

/-- Texts that were found for indices, in order. -/
def DirectPool.Resolves (image : Array UInt8) (pool : DirectPool Table) (first : Nat)
    (format : Format) : List (UnitText × Nat) → List (UnitText × List UInt8) → Prop :=
  List.Forall₂ fun index text =>
    text.1 = index.1 ∧ pool.IndexedText image first index.2 format text.2

namespace DirectPool.Resolves

variable {image : Array UInt8} {pool : DirectPool Table} {first : Nat} {format : Format}
variable {indices : List (UnitText × Nat)} {texts : List (UnitText × List UInt8)}

/-- Every index that is resolved leads to a text. -/
theorem exists_of_mem (h : pool.Resolves image first format indices texts)
    {index : UnitText × Nat} (member : index ∈ indices) :
    ∃ bytes, pool.IndexedText image first index.2 format bytes := by
  induction h with
  | nil => cases member
  | cons head _ ih =>
      rcases List.mem_cons.mp member with rfl | later
      · exact ⟨_, head.2⟩
      · exact ih later

theorem of_forall (each : ∀ index ∈ indices, ∃ bytes,
    pool.IndexedText image first index.2 format bytes) :
    ∃ texts, pool.Resolves image first format indices texts := by
  induction indices with
  | nil => exact ⟨[], .nil⟩
  | cons index rest ih =>
      obtain ⟨bytes, found⟩ := each index List.mem_cons_self
      obtain ⟨texts, resolved⟩ := ih fun other later => each other (List.mem_cons_of_mem _ later)
      exact ⟨(index.1, bytes) :: texts, .cons ⟨rfl, found⟩ resolved⟩

/-- The last index of a name leads to the last text of that name. -/
theorem lastOf_rel (h : pool.Resolves image first format indices texts) (which : UnitText) :
    Option.Rel (fun index bytes => pool.IndexedText image first index format bytes)
      (lastOf (fun index => if index.1 = which then some index.2 else none) indices)
      (lastOf (fun text => if text.1 = which then some text.2 else none) texts) := by
  induction h with
  | nil => exact .none
  | @cons index text indices texts head _ ih =>
      obtain ⟨same, found⟩ := head
      rw [lastOf_cons, lastOf_cons, same]
      generalize lastOf _ indices = laterIndex at ih ⊢
      generalize lastOf _ texts = laterText at ih ⊢
      cases ih with
      | some later => exact .some later
      | none =>
          by_cases named : index.1 = which
          · simp only [if_pos named, Option.none_or]
            exact .some found
          · simp only [if_neg named, Option.none_or]
            exact .none

end DirectPool.Resolves

/-- What one meaning changes of what was read. -/
structure EntryReading.Adds (reading : EntryReading) (meaning : AttributeMeaning)
    (read : EntryReading) : Prop where
  tag : read.summary.tag = reading.summary.tag
  text (which : UnitText) : read.summary.text which =
    ((meaning.text? which).map fun bytes => some (Utf8.decode bytes)).getD
      (reading.summary.text which)
  language : read.summary.language = meaning.language?.getD reading.summary.language
  lineProgram : read.summary.lineProgram = meaning.lineProgram?.getD reading.summary.lineProgram
  lowAddress : read.summary.lowAddress =
    (meaning.lowAddress?.map some).getD reading.summary.lowAddress
  base : read.base = meaning.base?.getD reading.base
  indices : read.indices = meaning.indexed?.toList ++ reading.indices

/-- One meaning changes what it says and nothing else. -/
theorem EntryReading.adds_add (reading : EntryReading) (meaning : AttributeMeaning) :
    reading.Adds meaning (reading.add meaning) := by
  cases meaning with
  | text which bytes =>
      refine ⟨?_, fun other => ?_, ?_, ?_, ?_, rfl, rfl⟩
      · cases which <;> rfl
      · simp only [EntryReading.add, RootEntry.text_setText, AttributeMeaning.text?]
        split <;> rfl
      · cases which <;> rfl
      · cases which <;> rfl
      · cases which <;> rfl
  | _ => exact ⟨rfl, fun _ => rfl, rfl, rfl, rfl, rfl, rfl⟩

theorem lastOf_map {ι α β : Type} (pick : ι → Option α) (f : α → β) (items : List ι) :
    lastOf (fun item => (pick item).map f) items = (lastOf pick items).map f := by
  unfold lastOf
  rw [← List.map_filterMap, List.getLast?_map]

theorem lastOf_filterMap {ι α β : Type} (pick : ι → Option α) (pick' : α → Option β)
    (items : List ι) :
    lastOf pick' (items.filterMap pick) = lastOf (fun item => (pick item).bind pick') items := by
  unfold lastOf
  rw [List.filterMap_filterMap]

/-- The indices that were read are those that attributes mean, in reverse order. -/
theorem EntryReading.indices_foldl_add (meanings : List AttributeMeaning)
    (reading : EntryReading) :
    (meanings.foldl add reading).indices.reverse =
      reading.indices.reverse ++ meanings.filterMap AttributeMeaning.indexed? := by
  induction meanings generalizing reading with
  | nil => simp
  | cons meaning rest ih =>
      rw [List.foldl_cons, ih, (reading.adds_add meaning).indices]
      cases indexed : meaning.indexed? with
      | none => rw [List.filterMap_cons_none indexed]; rfl
      | some index => rw [List.filterMap_cons_some indexed]; simp

/-- A summary with texts that were found for indices. -/
def RootEntry.setTexts (summary : RootEntry) (texts : List (UnitText × List UInt8)) : RootEntry :=
  texts.foldl (fun summary text => summary.setText text.1 text.2) summary

namespace RootEntry

variable {image : Array UInt8} {base : DirectPool Table} {format : Format} {tag : Tag}
variable {meanings : List AttributeMeaning} {texts : List (UnitText × List UInt8)}
variable {summary summary' : RootEntry}

/-- Setting texts changes nothing but texts. -/
theorem setTexts_fields (summary : RootEntry) (texts : List (UnitText × List UInt8)) :
    (summary.setTexts texts).tag = summary.tag ∧
      (summary.setTexts texts).language = summary.language ∧
        (summary.setTexts texts).lineProgram = summary.lineProgram ∧
          (summary.setTexts texts).lowAddress = summary.lowAddress := by
  unfold setTexts
  induction texts generalizing summary with
  | nil => exact ⟨rfl, rfl, rfl, rfl⟩
  | cons text rest ih =>
      obtain ⟨_ | _ | _, bytes⟩ := text <;> exact ih _

/-- The last of the texts with a name is set. -/
theorem text_setTexts (summary : RootEntry) (texts : List (UnitText × List UInt8))
    (which : UnitText) :
    (summary.setTexts texts).text which =
      ((lastOf (fun text => if text.1 = which then some text.2 else none) texts).map fun bytes =>
        some (Utf8.decode bytes)).getD (summary.text which) := by
  rw [← lastOf_map]
  refine foldl_eq_lastOf _ (fun summary => text summary which) _ ?_ texts summary
  intro summary text
  rw [text_setText]
  split <;> rfl

/-- The summary before anything of an entry was read but its tag. -/
def tagged (tag : Tag) : EntryReading := ⟨{ RootEntry.empty with tag := some tag }, [], none⟩

theorem tag_foldl_add (reading : EntryReading) (meanings : List AttributeMeaning) :
    (meanings.foldl EntryReading.add reading).summary.tag = reading.summary.tag := by
  induction meanings generalizing reading with
  | nil => rfl
  | cons meaning rest ih => exact (ih _).trans (reading.adds_add meaning).tag

/-- The last of the texts that stand in an entry or in a string table is read. -/
theorem text_foldl_add (tag : Tag) (meanings : List AttributeMeaning) (which : UnitText) :
    (meanings.foldl EntryReading.add (tagged tag)).summary.text which =
      (lastOf (AttributeMeaning.text? which) meanings).map Utf8.decode := by
  calc (meanings.foldl EntryReading.add (tagged tag)).summary.text which
    _ = (lastOf (fun meaning => (AttributeMeaning.text? which meaning).map fun bytes =>
          some (Utf8.decode bytes)) meanings).getD ((tagged tag).summary.text which) :=
      foldl_eq_lastOf _ (fun reading => reading.summary.text which) _
        (fun reading meaning => (reading.adds_add meaning).text which) meanings (tagged tag)
    _ = ((lastOf (AttributeMeaning.text? which) meanings).map fun bytes =>
          some (Utf8.decode bytes)).getD ((tagged tag).summary.text which) := by
      rw [lastOf_map]
    _ = (lastOf (AttributeMeaning.text? which) meanings).map Utf8.decode := by
      cases which <;> cases lastOf _ meanings <;> rfl

theorem lastOf_indexed (meanings : List AttributeMeaning) (which : UnitText) :
    lastOf (fun index => if index.1 = which then some index.2 else none)
        (meanings.filterMap AttributeMeaning.indexed?) =
      lastOf (AttributeMeaning.index? which) meanings := by
  rw [lastOf_filterMap]
  congr 1
  funext meaning
  cases meaning <;> rfl

/-- What was read of the attributes and found for their indices is what they mean. -/
theorem sumsUp_setTexts
    (resolved : base.Resolves image (AttributeMeaning.indexBase format meanings) format
      (meanings.filterMap AttributeMeaning.indexed?) texts) :
    SumsUp image base format tag meanings
      ((meanings.foldl EntryReading.add (tagged tag)).summary.setTexts texts) := by
  obtain ⟨tags, languages, lineProgram, lowAddress⟩ :=
    setTexts_fields (meanings.foldl EntryReading.add (tagged tag)).summary texts
  have last {α : Type} (field : EntryReading → α) (pick : AttributeMeaning → Option α)
      (each : ∀ reading meaning, field (EntryReading.add reading meaning) =
        (pick meaning).getD (field reading)) :=
    foldl_eq_lastOf _ field pick each meanings (tagged tag)
  have found (which : UnitText) := resolved.lastOf_rel which
  simp only [lastOf_indexed] at found
  constructor
  · exact tags.trans (tag_foldl_add (tagged tag) meanings)
  · rw [languages, last (fun reading => reading.summary.language) _
      fun reading meaning => (reading.adds_add meaning).language]
    cases lastOf _ meanings <;> rfl
  · rw [lineProgram, last (fun reading => reading.summary.lineProgram) _
      fun reading meaning => (reading.adds_add meaning).lineProgram]
    cases lastOf _ meanings <;> rfl
  · rw [lowAddress, last (fun reading => reading.summary.lowAddress) _
      fun reading meaning => (reading.adds_add meaning).lowAddress, lastOf_map]
    cases lastOf _ meanings <;> rfl
  · intro which none
    have without := found which
    rw [none] at without
    rw [text_setTexts, ← text_foldl_add tag]
    generalize lastOf _ texts = text at without ⊢
    cases without
    rfl
  · intro which index last
    have some := found which
    rw [last] at some
    rw [text_setTexts]
    generalize lastOf _ texts = text at some ⊢
    cases some with
    | some leads => exact ⟨_, leads, rfl⟩
  · intro which index member
    exact resolved.exists_of_mem (List.mem_filterMap.mpr ⟨_, member, rfl⟩)

theorem SumsUp.unique (h : SumsUp image base format tag meanings summary)
    (h' : SumsUp image base format tag meanings summary') : summary' = summary := by
  refine eq_of_fields (h'.tag.trans h.tag.symm) (fun which => ?_)
    (h'.language.trans h.language.symm)
    (h'.lineProgram.trans h.lineProgram.symm) (h'.lowAddress.trans h.lowAddress.symm)
  cases last : lastOf (AttributeMeaning.index? which) meanings with
  | none => exact (h'.direct which last).trans (h.direct which last).symm
  | some index =>
      obtain ⟨bytes, leads, shown⟩ := h.indexed which index last
      obtain ⟨bytes', leads', shown'⟩ := h'.indexed which index last
      rw [shown, shown', leads.unique leads']

/-- What was read of the attributes of an entry, and how the summary follows from it. -/
theorem sumsUp_iff : SumsUp image base format tag meanings summary ↔
    ∃ texts, base.Resolves image (AttributeMeaning.indexBase format meanings) format
        (meanings.filterMap AttributeMeaning.indexed?) texts ∧
      summary = (meanings.foldl EntryReading.add (tagged tag)).summary.setTexts texts := by
  constructor
  · intro sums
    have each : ∀ index ∈ meanings.filterMap AttributeMeaning.indexed?,
        ∃ bytes, base.IndexedText image (AttributeMeaning.indexBase format meanings) index.2 format
          bytes := by
      intro index listed
      obtain ⟨meaning, member, indexed⟩ := List.mem_filterMap.mp listed
      cases meaning with
      | index which number =>
          cases indexed
          exact sums.resolved which number member
      | _ => cases indexed
    obtain ⟨texts, resolved⟩ := DirectPool.Resolves.of_forall each
    exact ⟨texts, resolved, (sumsUp_setTexts resolved).unique sums⟩
  · rintro ⟨texts, resolved, rfl⟩
    exact sumsUp_setTexts resolved

/-- What a root entry is: a zero code alone, or a code of an abbreviation and the values of its
attributes. -/
def Spelt (image : Array UInt8) (base : DirectPool Table) (stop : Nat) (sizes : UnitSizes)
    (table : Abbreviations) : Grammar RootEntry := fun start summary finish =>
  ∃ code middle,
    Leb128.Groups.At image stop 10 Leb128.unsigned (IntType.word.holds ·) start code middle ∧
      (code = 0 ∧ summary = .empty ∧ finish = middle ∨
        code ≠ 0 ∧ ∃ entry meanings, table.find? code = some entry ∧
          Grammar.Sequence (AttributeSpecification.Means image base stop sizes) entry.attributes
            middle meanings finish ∧
          SumsUp image base sizes.format entry.tag meanings summary)

end RootEntry

namespace Consult

variable {image : Array UInt8} {base : DirectPool Table} {stop : Nat} {sizes : UnitSizes}

/-- Indices are resolved by texts that are found for them, and read nothing of the entry. -/
theorem exact_resolveIndices (context : Context) (first : Nat) (format : Format)
    (indices : List (UnitText × Nat)) (summary : RootEntry) :
    Exact image base stop context (resolveIndices first format indices summary)
      (fun start result finish => finish = start ∧ ∃ texts,
        base.Resolves image first format indices texts ∧ result = summary.setTexts texts) := by
  induction indices generalizing summary with
  | nil =>
      refine (Exact.pure summary).congr fun start result finish => ⟨?_, ?_⟩
      · rintro ⟨rfl, rfl⟩
        exact ⟨rfl, [], .nil, rfl⟩
      · rintro ⟨rfl, texts, resolved, rfl⟩
        cases resolved with
        | nil => exact ⟨rfl, rfl⟩
  | cons index rest ih =>
      refine ((exact_indexedString context first index.2 format).bind fun bytes =>
        ih (summary.setText index.1 bytes)).congr fun start result finish => ⟨?_, ?_⟩
      · rintro ⟨bytes, _, ⟨leads, rfl⟩, rfl, texts, resolved, rfl⟩
        exact ⟨rfl, (index.1, bytes) :: texts, .cons ⟨rfl, leads⟩ resolved, rfl⟩
      · rintro ⟨rfl, texts, resolved, rfl⟩
        cases resolved with
        | @cons _ text _ texts head resolved =>
            obtain ⟨which, bytes⟩ := text
            obtain ⟨rfl, leads⟩ := head
            exact ⟨bytes, finish, ⟨leads, rfl⟩, rfl, texts, resolved, rfl⟩

/-- Once the attributes of an entry are read, its summary is what they amount to. -/
theorem exact_summary (tag : Tag) (meanings : List AttributeMeaning) :
    let reading := meanings.foldl EntryReading.add (RootEntry.tagged tag)
    Exact image base stop sizes.context
      (if reading.indices.isEmpty then pure reading.summary
      else do
        let format ← Decode.format.on .info
        resolveIndices (reading.base.getD (defaultBase format)) format reading.indices.reverse
          reading.summary)
      (fun start summary finish => finish = start ∧
        RootEntry.SumsUp image base sizes.format tag meanings summary) := by
  intro reading
  have indices : reading.indices.reverse = meanings.filterMap AttributeMeaning.indexed? :=
    EntryReading.indices_foldl_add meanings (RootEntry.tagged tag)
  have first : reading.base.getD (defaultBase sizes.format) =
      AttributeMeaning.indexBase sizes.format meanings := by
    have last := foldl_eq_lastOf EntryReading.add (fun reading => reading.base) _
      (fun reading meaning => (reading.adds_add meaning).base) meanings (RootEntry.tagged tag)
    rw [show reading.base = _ from last, AttributeMeaning.indexBase]
    cases lastOf _ meanings <;> rfl
  by_cases none : reading.indices.isEmpty = true
  · have listed : meanings.filterMap AttributeMeaning.indexed? = [] := by
      rw [← indices, List.isEmpty_iff.mp none]
      rfl
    rw [if_pos none]
    refine (Exact.pure reading.summary).congr fun start summary finish => ⟨?_, ?_⟩
    · rintro ⟨rfl, rfl⟩
      exact ⟨rfl, RootEntry.sumsUp_iff.mpr ⟨[], listed ▸ .nil, rfl⟩⟩
    · rintro ⟨rfl, sums⟩
      obtain ⟨texts, resolved, rfl⟩ := RootEntry.sumsUp_iff.mp sums
      rw [listed] at resolved
      cases resolved with
      | nil => exact ⟨rfl, rfl⟩
  · rw [if_neg none]
    refine ((Exact.on Decode.exact_format).bind fun format => exact_resolveIndices sizes.context
      (reading.base.getD (defaultBase format)) format reading.indices.reverse
      reading.summary).congr fun start summary finish => ⟨?_, ?_⟩
    · rintro ⟨format, _, ⟨rfl, rfl⟩, rfl, texts, resolved, rfl⟩
      rw [first, indices] at resolved
      exact ⟨rfl, RootEntry.sumsUp_iff.mpr ⟨texts, resolved, rfl⟩⟩
    · rintro ⟨rfl, sums⟩
      obtain ⟨texts, resolved, rfl⟩ := RootEntry.sumsUp_iff.mp sums
      rw [← first, ← indices] at resolved
      exact ⟨sizes.format, finish, ⟨rfl, rfl⟩, rfl, texts, resolved, rfl⟩

/-- A root entry is read where it stands. -/
theorem exact_rootEntry (table : Abbreviations) :
    Exact image base stop sizes.context (rootEntry table)
      (RootEntry.Spelt image base stop sizes table) := by
  have coded : Exact image base stop sizes.context ((Decode.uleb128 .word).on .info) _ :=
    Exact.on (Decode.exact_uleb128 rfl (by decide))
  unfold rootEntry
  refine coded.bind fun code => ?_
  by_cases zero : code = 0
  · rw [if_pos zero]
    refine (Exact.pure RootEntry.empty).congr fun start summary finish => ⟨?_, ?_⟩
    · exact fun spelt => .inl ⟨zero, spelt⟩
    · exact fun spelt => (spelt.resolve_right fun other => other.1 zero).2
  · rw [if_neg zero]
    cases found : table.find? code with
    | none =>
        refine (Exact.throw _).congr fun start summary finish => ⟨False.elim, ?_⟩
        rintro (⟨rfl, -⟩ | ⟨-, entry, meanings, ⟨⟩, -⟩)
        exact zero rfl
    | some entry =>
        dsimp only
        rw [rootAttributes_eq]
        simp only [map_eq_pure_bind, bind_assoc, pure_bind]
        refine ((Exact.mapM exact_attributeMeaning entry.attributes).bind
          (exact_summary entry.tag)).congr fun start summary finish => ⟨?_, ?_⟩
        · rintro ⟨meanings, _, row, rfl, sums⟩
          exact .inr ⟨zero, entry, meanings, rfl, row, sums⟩
        · rintro (⟨rfl, -⟩ | ⟨-, _, meanings, ⟨⟩, row, sums⟩)
          · exact absurd rfl zero
          · exact ⟨meanings, finish, row, rfl, sums⟩

end Consult

end Dwarf
