import Dwarf.Proofs.Numbers
import Dwarf.Proofs.Together
/-!
# Texts of attributes

A text stands in the entry, in a string table at an offset, or there at an offset that stands in a
table of offsets.  Consultations find it exactly where it is, and need no more bytes of the entry
than the value has.
-/

namespace Dwarf

namespace Decode

variable {α : Type} {image : Array UInt8} {context : Context} {place : Place} {value : α}
variable {step : Decode α} {grammar : Grammar α}

/-- A step that reads a grammar exactly succeeds with what is spelt in the window. -/
theorem Exact.ok_iff (h : Exact image place.stop context step grammar) (sound : place.Sound) :
    (DirectReader.run image step.run ⟨some place, context⟩).1 = .ok value ↔
      ∃ finish, grammar place.offset value finish := by
  constructor
  · intro ok
    obtain ⟨finish, spelt, -⟩ := h.within place value _ sound rfl (Prod.ext ok rfl)
    exact ⟨finish, spelt⟩
  · rintro ⟨finish, spelt⟩
    exact congrArg Prod.fst (h.complete place value finish sound rfl spelt)

end Decode

/-- Bytes stand in an image at an offset. -/
def Source.Holds (image : Array UInt8) (offset : Nat) (bytes : List UInt8) : Prop :=
  bytes <+: image.toList.drop offset
  deriving Decidable

theorem Source.starts_iff_holds {image : Array UInt8} {stop offset : Nat} {bytes : List UInt8} :
    Starts image stop offset bytes ↔
      offset + bytes.length ≤ stop ∧ Holds image offset bytes := by
  rw [Holds, Starts, imageBytes, Array.toList_extract, List.extract, Nat.add_sub_cancel_left,
    List.prefix_iff_eq_take]
  exact and_congr_right fun _ => eq_comm

theorem Source.starts_congr {image image' : Array UInt8} {first limit stop offset : Nat}
    {bytes : List UInt8} (agree : Source.Agree image image' first limit) (behind : first ≤ offset)
    (before : stop ≤ limit) : Starts image stop offset bytes ↔ Starts image' stop offset bytes := by
  apply and_congr_right
  intro inside
  rw [agree.imageBytes behind (Nat.le_trans inside before)]

/-- Of two texts without NUL, none with its NUL is a prefix of another one. -/
theorem Decode.eq_of_prefix_terminated {text text' : List UInt8} (plain : ∀ byte ∈ text, byte ≠ 0)
    (plain' : ∀ byte ∈ text', byte ≠ 0) (h : text ++ [0] <+: text' ++ [0]) : text = text' := by
  induction text generalizing text' with
  | nil =>
      cases text' with
      | nil => rfl
      | cons byte rest =>
          obtain ⟨same, -⟩ := List.cons_prefix_cons.mp h
          exact absurd same.symm (plain' byte List.mem_cons_self)
  | cons byte rest ih =>
      cases text' with
      | nil =>
          obtain ⟨same, -⟩ := List.cons_prefix_cons.mp h
          exact absurd same (plain byte List.mem_cons_self)
      | cons byte' rest' =>
          obtain ⟨rfl, behind⟩ := List.cons_prefix_cons.mp h
          rw [ih (fun other later => plain other (List.mem_cons_of_mem _ later))
            (fun other later => plain' other (List.mem_cons_of_mem _ later)) behind]

/-- At most one text stands at an offset. -/
theorem Decode.terminated_unique {image : Array UInt8} {stop start finish finish' : Nat}
    {text text' : List UInt8} (h : terminated image stop start text finish)
    (h' : terminated image stop start text' finish') : text' = text := by
  obtain ⟨plain, there, -⟩ := h
  obtain ⟨plain', there', -⟩ := h'
  have begins := (Source.starts_iff_holds.mp there).2
  have begins' := (Source.starts_iff_holds.mp there').2
  rcases List.prefix_or_prefix_of_prefix begins begins' with shorter | longer
  · exact (eq_of_prefix_terminated plain plain' shorter).symm
  · exact eq_of_prefix_terminated plain' plain longer

namespace DirectReader

variable {image image' : Array UInt8} {reader reader' : DirectReader} {licence : Licence}
variable {offset base index : Nat} {format : Format} {text : List UInt8}

/-- A text and its NUL stand at an offset in the section of a reader. -/
def HasText (image : Array UInt8) (reader : DirectReader) (offset : Nat) (text : List UInt8) :
    Prop :=
  ∃ place finish, reader.place = some place ∧
    Decode.terminated image place.stop (place.first + offset) text finish

/-- An offset stands in the section of a reader, so many entries behind a base. -/
def HasEntry (image : Array UInt8) (reader : DirectReader) (base index : Nat) (format : Format)
    (offset : Nat) : Prop :=
  ∃ place finish, reader.place = some place ∧
    Decode.field image place.limit format.wordSize (place.first + (index * format.wordSize + base))
      offset finish

theorem HasText.unique {text' : List UInt8} (h : HasText image reader offset text)
    (h' : HasText image reader offset text') : text' = text := by
  obtain ⟨place, finish, placed, there⟩ := h
  obtain ⟨place', finish', placed', there'⟩ := h'
  cases placed.symm.trans placed'
  exact Decode.terminated_unique there there'

theorem HasEntry.unique {offset' : Nat} (h : HasEntry image reader base index format offset)
    (h' : HasEntry image reader base index format offset') : offset' = offset := by
  obtain ⟨place, finish, placed, read, -⟩ := h
  obtain ⟨place', finish', placed', read', -⟩ := h'
  cases placed.symm.trans placed'
  exact Except.ok.inj (read'.symm.trans read)

theorem sound_at {place : Place} {context : Context} (sound : reader.Sound)
    (placed : reader = ⟨some place, context⟩) {target : Nat} (behind : place.first ≤ target)
    (inside : target ≤ place.stop) : Place.Sound { place with offset := target } :=
  { sound place (congrArg DirectReader.place placed) with
    first_le_offset := behind
    offset_le_stop := inside }

/-- A text is found at an offset exactly where it stands. -/
theorem run_stringAt_eq_ok_iff (sound : reader.Sound) :
    (reader.run image (Decode.completed (Decode.stringAt offset)).run).1 = .ok text ↔
      HasText image reader offset text := by
  have mapped (decoder : Decoder Transfer) (reader : DirectReader) :
      (reader.run image (Decode.completed decoder).run).1 = (reader.run image decoder).1.complete :=
    congrArg Prod.fst (Dialogue.run_map (serve image) Transfer.complete decoder reader)
  obtain ⟨_ | place, context⟩ := reader
  · refine ⟨fun found => ?_, ?_⟩
    · cases found
    · rintro ⟨place, finish, ⟨⟩, -⟩
  · rw [mapped, run_stringAt]
    have there : HasText image ⟨some place, context⟩ offset text ↔
        ∃ finish, Decode.terminated image place.stop (place.first + offset) text finish := by
      simp [HasText]
    rw [there]
    by_cases inside : place.first + offset < place.stop
    · have moved := sound_at sound rfl (Nat.le_add_right _ _) (Nat.le_of_lt inside)
      rw [if_pos inside, ← mapped]
      exact (Decode.exact_stringAhead Decode.lookupAhead).ok_iff moved
    · rw [if_neg inside]
      refine ⟨nofun, ?_⟩
      rintro ⟨finish, -, ⟨fits, -⟩, -⟩
      simp only [List.length_append, List.length_singleton] at fits
      omega

/-- An entry of a table of offsets is read exactly where it stands. -/
theorem run_stringOffsetEntry_eq_ok_iff (sound : reader.Sound) :
    (reader.run image (Decode.stringOffsetEntry base index format).run).1 = .ok offset ↔
      HasEntry image reader base index format offset := by
  obtain ⟨_ | place, context⟩ := reader
  · refine ⟨fun found => ?_, ?_⟩
    · cases found
    · rintro ⟨place, finish, ⟨⟩, -⟩
  · have there : HasEntry image ⟨some place, context⟩ base index format offset ↔
        ∃ finish, Decode.field image place.limit format.wordSize
          (place.first + (index * format.wordSize + base)) offset finish := by
      simp [HasEntry]
    have ran : run image (Decode.stringOffsetEntry base index format).run ⟨some place, context⟩ =
        run image (ExceptT.run (if index * format.wordSize + base ≤ Word.max then do
            Decode.widen
            Decode.seekInSection (index * format.wordSize + base)
            Decode.offset format
          else throw (.outsideWindow Word.max place.first place.limit)))
          ⟨some place, context⟩ := rfl
    have bounds := sound place rfl
    have limited := bounds.limit_le_max
    rw [there, ran]
    by_cases inside : place.first + (index * format.wordSize + base) ≤ place.limit
    · have opened : Place.Sound ⟨place.first + (index * format.wordSize + base), place.first,
          place.limit, place.limit, place.fileSize⟩ :=
        { bounds with
          first_le_offset := Nat.le_add_right _ _
          offset_le_stop := inside
          stop_le_limit := Nat.le_refl _ }
      rw [if_pos (by omega), run_widened image bounds, if_pos inside]
      exact (Decode.exact_unsigned format.wordSize_pos).ok_iff opened
    · have absent : ¬ ∃ finish, Decode.field image place.limit format.wordSize
          (place.first + (index * format.wordSize + base)) offset finish := by
        rintro ⟨finish, read, -⟩
        have fits := (UnitExtent.fieldAt_eq_ok read).1
        omega
      refine ⟨fun found => ?_, fun spelt => absurd spelt absent⟩
      split at found
      · rw [run_widened image bounds, if_neg inside] at found
        cases found
      · cases found

/-- A text stands in a section wherever its reader was left there, and in all images with the same
bytes. -/
theorem hasText_congr (leaves : licence.Leaves reader reader') (narrows : licence.narrows = false)
    (sound : reader.Sound) (agree : reader.AgreeInSection image image') :
    HasText image reader offset text ↔ HasText image' reader' offset text := by
  have bounds := leaves.bounds
  have stops := leaves.stop narrows
  obtain ⟨_ | place, context⟩ := reader <;> obtain ⟨_ | place', context'⟩ := reader'
  · simp [HasText]
  · cases bounds
  · cases bounds
  · simp only [DirectReader.bounds, DirectReader.stop, Option.map_some, Option.some.injEq,
      Place.bounds, Place.Bounds.mk.injEq] at bounds stops
    have same : Source.Starts image place.stop (place.first + offset) (text ++ [0]) ↔
        Source.Starts image' place.stop (place.first + offset) (text ++ [0]) :=
      Source.starts_congr (agree place rfl) (Nat.le_add_right _ _) (sound place rfl).stop_le_limit
    simp [HasText, Decode.terminated, same, bounds.1, stops]

/-- An offset stands in a section wherever its reader was left there, and in all images with the
same bytes. -/
theorem hasEntry_congr (leaves : licence.Leaves reader reader')
    (agree : reader.AgreeInSection image image') :
    HasEntry image reader base index format offset ↔
      HasEntry image' reader' base index format offset := by
  have bounds := leaves.bounds
  obtain ⟨_ | place, context⟩ := reader <;> obtain ⟨_ | place', context'⟩ := reader'
  · simp [HasEntry]
  · cases bounds
  · cases bounds
  · simp only [DirectReader.bounds, Option.map_some, Option.some.injEq, Place.bounds,
      Place.Bounds.mk.injEq] at bounds
    have same := UnitExtent.fieldAt_congr format.wordSize_pos fun inside => (agree place rfl).mono
      (Nat.le_add_right place.first (index * format.wordSize + base)) inside
    simp [HasEntry, Decode.field, same, bounds.1, bounds.2.1]

end DirectReader

namespace DirectPool

/-- A rested pool whose info reader stands at a place and knows so much. -/
structure At (base : DirectPool Table) (place : Place) (context : Context)
    (pool : DirectPool Table) : Prop where
  rested : Rested base pool
  info : pool .info = ⟨some place, context⟩

theorem At.sound {base pool : DirectPool Table} {place : Place} {context : Context}
    (h : At base place context pool) : place.Sound :=
  h.rested.sound .info place (congrArg DirectReader.place h.info)

end DirectPool

namespace Consult

open DirectPool

variable {α β : Type}

/-- A step of a consultation reads a grammar of the info table exactly, wherever the readers of the
other tables were left. -/
structure Exact (image : Array UInt8) (base : DirectPool Table) (stop : Nat) (context : Context)
    (step : Consult α) (grammar : Grammar α) : Prop where
  /-- What is read is spelt there. -/
  within : ∀ (place : Place) (value : α) (pool reached : DirectPool Table),
    At base place context pool → place.stop = stop →
      pool.run image id step.run = (.ok value, reached) →
        ∃ finish, grammar place.offset value finish ∧
          At base { place with offset := finish } context reached
  /-- What is spelt there is read. -/
  complete : ∀ (place : Place) (value : α) (finish : Nat) (pool : DirectPool Table),
    At base place context pool → place.stop = stop → grammar place.offset value finish →
      ∃ reached, pool.run image id step.run = (.ok value, reached) ∧
        At base { place with offset := finish } context reached

variable {image : Array UInt8} {base : DirectPool Table} {stop : Nat} {context : Context}
variable {step first : Consult α} {next : α → Consult β} {grammar grammar' : Grammar α}
variable {second : α → Grammar β}

namespace Exact

theorem congr (h : Exact image base stop context step grammar)
    (same : ∀ start value finish, grammar start value finish ↔ grammar' start value finish) :
    Exact image base stop context step grammar' where
  within place value pool reached there stops ran := by
    obtain ⟨finish, spelt, stands⟩ := h.within place value pool reached there stops ran
    exact ⟨finish, (same _ _ _).mp spelt, stands⟩
  complete place value finish pool there stops spelt :=
    h.complete place value finish pool there stops ((same _ _ _).mpr spelt)

theorem pure (answer : α) :
    Exact image base stop context (Pure.pure answer) (Grammar.nothing answer) where
  within place value pool reached there stops ran := by
    cases ran
    exact ⟨place.offset, ⟨rfl, rfl⟩, there⟩
  complete place value finish pool there stops spelt := by
    obtain ⟨rfl, rfl⟩ := spelt
    exact ⟨pool, rfl, there⟩

theorem throw (error : Error) :
    Exact image base stop context (MonadExcept.throw error : Consult α)
      (fun _ _ _ => False) where
  within place value pool reached there stops ran := by cases ran
  complete _ _ _ _ _ _ spelt := spelt.elim

/-- One step after another reads one grammar after another exactly. -/
theorem bind (h : Exact image base stop context first grammar)
    (each : ∀ value, Exact image base stop context (next value) (second value)) :
    Exact image base stop context (first >>= next) (grammar.andThen second) where
  within place value pool reached there stops ran := by
    obtain ⟨head, between, ran, goes⟩ := Dialogue.runStep_bind_ok _ _ ran
    obtain ⟨middle, spelt, stands⟩ := h.within place head pool between there stops ran
    obtain ⟨finish, spelt', stands'⟩ := (each head).within _ value between reached stands stops goes
    exact ⟨finish, ⟨head, middle, spelt, spelt'⟩, stands'⟩
  complete place value finish pool there stops spelt := by
    obtain ⟨head, middle, spelt, spelt'⟩ := spelt
    obtain ⟨between, ran, stands⟩ := h.complete place head middle pool there stops spelt
    obtain ⟨reached, goes, stands'⟩ :=
      (each head).complete _ value finish between stands stops spelt'
    refine ⟨reached, ?_, stands'⟩
    rw [DirectPool.run] at ran goes ⊢
    rw [Dialogue.runStep_bind, ran]
    exact goes

theorem map (f : α → β) (h : Exact image base stop context step grammar) :
    Exact image base stop context (f <$> step)
      (fun start value finish => ∃ head, grammar start head finish ∧ value = f head) := by
  rw [map_eq_pure_bind]
  refine (h.bind fun head => pure (f head)).congr fun start value finish => ?_
  constructor
  · rintro ⟨head, middle, spelt, rfl, rfl⟩
    exact ⟨head, spelt, rfl⟩
  · rintro ⟨head, spelt, rfl⟩
    exact ⟨head, finish, spelt, rfl, rfl⟩

/-- A decoding step of the info table reads what it reads there. -/
theorem on {step : Decode α} (h : Decode.Exact image stop context step grammar) :
    Exact image base stop context (step.on .info) grammar := by
  have ran {place : Place} {pool : DirectPool Table} (there : At base place context pool) :
      let read := DirectReader.run image step.run ⟨some place, context⟩
      pool.run image id (step.on .info).run = (read.1, Function.update pool .info read.2) ∧
        Rested base (Function.update pool .info read.2) := by
    intro read
    have decodes : pool.run image id (step.on .info).run = pool.decode image .info step.run :=
      DirectPool.run_on image id .info step.run pool
    have elsewhere (consulted : Table.Consulted .info) :
        step.run.Obeys (Licences.usual .info) fun _ => True := absurd rfl consulted.1
    have rests := there.rested.decode .info elsewhere image
    rw [decode, there.info] at decodes rests
    exact ⟨decodes, rests⟩
  constructor
  · intro place value pool reached there stops reads
    obtain ⟨decodes, rests⟩ := ran there
    rw [decodes] at reads
    obtain ⟨ok, moved⟩ := Prod.mk.inj reads
    obtain ⟨finish, spelt, stands⟩ := h.within place value _ there.sound stops (Prod.ext ok rfl)
    refine ⟨finish, spelt, moved ▸ rests, ?_⟩
    rw [← moved, Function.update_self]
    exact stands
  · intro place value finish pool there stops spelt
    obtain ⟨decodes, rests⟩ := ran there
    rw [h.complete place value finish there.sound stops spelt] at decodes rests
    exact ⟨_, decodes, rests, Function.update_self _ _ _⟩

/-- A look-up in another table finds what stands there, wherever the reader was left, and reads
nothing of the info table. -/
theorem lookup {table : Table} {step : Decode α} {holds : α → Prop} (consulted : table.Consulted)
    (obeys : step.Obeys (Licences.usual table))
    (each : ∀ reader value, reader.Sound → (Licences.usual table).Leaves (base table) reader →
      ((reader.run image step.run).1 = .ok value ↔ holds value)) :
    Exact image base stop context (step.on table)
      (fun start value finish => holds value ∧ finish = start) := by
  have ran {place : Place} {pool : DirectPool Table} (there : At base place context pool) :
      let read := (pool table).run image step.run
      pool.run image id (step.on table).run = (read.1, Function.update pool table read.2) ∧
        At base place context (Function.update pool table read.2) := by
    intro read
    have decodes : pool.run image id (step.on table).run = pool.decode image table step.run :=
      DirectPool.run_on image id table step.run pool
    have rests := there.rested.decode table (fun _ => obeys) image
    exact ⟨decodes, rests, (Function.update_of_ne consulted.1.symm _ _).trans there.info⟩
  have found {place : Place} {pool : DirectPool Table} (there : At base place context pool)
      (value : α) :=
    each (pool table) value (there.rested.sound table) (there.rested.leaves table consulted)
  constructor
  · intro place value pool reached there stops reads
    obtain ⟨decodes, stands⟩ := ran there
    rw [decodes] at reads
    obtain ⟨ok, moved⟩ := Prod.mk.inj reads
    exact ⟨place.offset, ⟨(found there value).mp ok, rfl⟩, moved ▸ stands⟩
  · rintro place value finish pool there stops ⟨there', rfl⟩
    obtain ⟨decodes, stands⟩ := ran there
    rw [(found there value).mpr there'] at decodes
    exact ⟨_, decodes, stands⟩

end Exact

/-- A transfer behind a step must be complete exactly if it is behind its success. -/
theorem completed_orFailed (first : Consult α) (next : α → Inquiry Transfer) :
    completed (orFailed do
        let answer ← first
        ExceptT.lift (next answer)) =
      first >>= fun answer => completed (next answer) := by
  rw [orFailed_eq, completed, ← comp_map]
  refine (map_eq_pure_bind _ _).trans ?_
  refine (bind_assoc first.run _ _).trans (congrArg (first.run >>= ·) (funext fun result => ?_))
  cases result with
  | error error => rfl
  | ok answer =>
      exact (bind_assoc (next answer) _ _).trans
        (map_eq_pure_bind Transfer.complete (next answer)).symm

end Consult

/-- The text that one value of a form of strings stands for. -/
inductive Form.Text (image : Array UInt8) (base : DirectPool Table) (stop : Nat)
    (sizes : UnitSizes) : Form → (start : Nat) → (text : List UInt8) → (finish : Nat) → Prop where
  /-- The value is the text and its NUL. -/
  | inline {start finish : Nat} {text : List UInt8} :
    Decode.terminated image stop start text finish →
      Text image base stop sizes .string start text finish
  /-- The value is where the text stands in the table of strings. -/
  | string {start offset finish : Nat} {text : List UInt8} :
    Layout.offset.Number image stop sizes start offset finish →
      (base .strings).HasText image offset text → Text image base stop sizes .strp start text finish
  /-- The value is where the text stands in the table of strings of line programs. -/
  | lineString {start offset finish : Nat} {text : List UInt8} :
    Layout.offset.Number image stop sizes start offset finish →
      (base .lineStrings).HasText image offset text →
        Text image base stop sizes .lineStrp start text finish

/-- The text whose place in the table of strings stands in the table of offsets. -/
def DirectPool.IndexedText (image : Array UInt8) (pool : DirectPool Table) (first index : Nat)
    (format : Format) (text : List UInt8) : Prop :=
  ∃ offset, (pool .stringOffsets).HasEntry image first index format offset ∧
    (pool .strings).HasText image offset text

theorem DirectPool.IndexedText.unique {image : Array UInt8} {pool : DirectPool Table}
    {first index : Nat} {format : Format} {text text' : List UInt8}
    (h : pool.IndexedText image first index format text)
    (h' : pool.IndexedText image first index format text') : text' = text := by
  obtain ⟨offset, listed, stands⟩ := h
  obtain ⟨offset', listed', stands'⟩ := h'
  cases listed.unique listed'
  exact stands.unique stands'

theorem Form.Text.whole {image : Array UInt8} {base : DirectPool Table} {stop : Nat}
    {sizes : UnitSizes} {form : Form} {start finish : Nat} {text : List UInt8}
    (h : form.Text image base stop sizes start text finish) :
    Decode.whole image stop sizes form start finish := by
  cases h with
  | inline there => exact ⟨.string, rfl, .string there⟩
  | string there _ => exact ⟨.offset, rfl, there.spans⟩
  | lineString there _ => exact ⟨.offset, rfl, there.spans⟩

namespace Consult

open DirectPool

variable {image : Array UInt8} {base : DirectPool Table} {stop : Nat} {sizes : UnitSizes}

/-- A string is looked up in the table of strings or in that of line programs where it stands. -/
theorem exact_stringAt {table : Table} (strings : table = .strings ∨ table = .lineStrings)
    (context : Context) (offset : Nat) :
    Exact image base stop context (completed ((Decode.stringAt offset).on table))
      (fun start text finish => (base table).HasText image offset text ∧ finish = start) := by
  have usual : Licences.usual table = ⟨true, false, false, false⟩ := by
    rcases strings with rfl | rfl <;> rfl
  have consulted : table.Consulted := by
    rcases strings with rfl | rfl <;> decide
  have mapped : completed ((Decode.stringAt offset).on table) =
      (Decode.completed (Decode.stringAt offset)).on table :=
    (Decoder.on_map table Transfer.complete (Decode.stringAt offset)).symm
  rw [mapped]
  refine Exact.lookup consulted ?_ fun reader text sound leaves => ?_
  · exact Decode.obeys_completed (Decode.obeys_stringAt offset (by rw [usual]))
  · rw [DirectReader.run_stringAt_eq_ok_iff sound]
    exact DirectReader.hasText_congr leaves.symm (by rw [usual]) sound fun _ _ => .refl _ _ _

/-- The text of a value is read where the value and the text stand. -/
theorem exact_stringValue (form : Form) :
    Exact image base stop sizes.context (completed (stringValue .info form))
      (form.Text image base stop sizes) := by
  have looked {table : Table} (strings : table = .strings ∨ table = .lineStrings) :
      Exact image base stop sizes.context (completed (orFailed do
          let offset ← Decode.sectionOffset.on .info
          ExceptT.lift ((Decode.stringAt offset).on table)))
        (fun start text finish => ∃ offset,
          Form.Layout.offset.Number image stop sizes start offset finish ∧
            (base table).HasText image offset text) := by
    have first : Decode.Exact image stop sizes.context Decode.sectionOffset _ :=
      Decode.exact_offsetDirect .strp .offset
    rw [completed_orFailed]
    refine ((Exact.on first).bind (exact_stringAt strings sizes.context)).congr
      fun start text finish => ⟨?_, ?_⟩
    · rintro ⟨offset, _, ⟨-, there⟩, stands, rfl⟩
      exact ⟨offset, there, stands⟩
    · rintro ⟨offset, there, stands⟩
      exact ⟨offset, finish, ⟨nofun, there⟩, stands, rfl⟩
  unfold stringValue
  split
  · have mapped : completed (Decode.string.on .info) = (Decode.completed Decode.string).on .info :=
      (Decoder.on_map .info Transfer.complete Decode.string).symm
    rw [mapped]
    refine (Exact.on Decode.exact_string).congr fun start text finish => ⟨.inline, fun there => ?_⟩
    cases there with
    | inline there => exact there
  · refine (looked (.inl rfl)).congr fun start text finish => ⟨?_, fun there => ?_⟩
    · rintro ⟨offset, there, stands⟩
      exact .string there stands
    · cases there with
      | string there stands => exact ⟨_, there, stands⟩
  · refine (looked (.inr rfl)).congr fun start text finish => ⟨?_, fun there => ?_⟩
    · rintro ⟨offset, there, stands⟩
      exact .lineString there stands
    · cases there with
      | lineString there stands => exact ⟨_, there, stands⟩
  · rename_i inline string lineString
    refine (Exact.throw (.unreadableForm form)).congr fun start text finish =>
      ⟨False.elim, fun there => ?_⟩
    cases there with
    | inline _ => exact inline rfl
    | string _ _ => exact string rfl
    | lineString _ _ => exact lineString rfl

/-- The text with an index is found where its place and the text stand. -/
theorem exact_indexedString (context : Context) (first index : Nat) (format : Format) :
    Exact image base stop context (completed (indexedString first index format))
      (fun start text finish =>
        base.IndexedText image first index format text ∧ finish = start) := by
  have consulted : Table.Consulted .stringOffsets := by decide
  have entry : Exact image base stop context
      ((Decode.stringOffsetEntry first index format).on .stringOffsets)
      (fun start offset finish =>
        (base .stringOffsets).HasEntry image first index format offset ∧ finish = start) := by
    refine Exact.lookup consulted ?_ fun reader offset sound leaves => ?_
    · exact Decode.obeys_stringOffsetEntry first index format rfl rfl
    · rw [DirectReader.run_stringOffsetEntry_eq_ok_iff sound]
      exact DirectReader.hasEntry_congr leaves.symm fun _ _ => .refl _ _ _
  rw [indexedString, completed_orFailed]
  refine (entry.bind (exact_stringAt (.inl rfl) context)).congr fun start text finish => ⟨?_, ?_⟩
  · rintro ⟨offset, _, ⟨listed, rfl⟩, stands, rfl⟩
    exact ⟨⟨offset, listed, stands⟩, rfl⟩
  · rintro ⟨⟨offset, listed, stands⟩, rfl⟩
    exact ⟨offset, finish, ⟨listed, rfl⟩, stands, rfl⟩

end Consult

end Dwarf
