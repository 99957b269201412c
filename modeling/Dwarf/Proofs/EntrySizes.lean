import Dwarf.Proofs.LineTables
import Dwarf.Proofs.Loops
import Dwarf.Proofs.Texts
/-!
# The least size of an entry

The count of a table's entries is refused if the rest of the program is too small for so many of the
least size.  No entry is read from fewer bytes, whatever its formats are and whatever the source
answers, so no count is refused that the loop over the entries would have lived up to, except where
an entry has no bytes.  The lists before version five end before the counts of their loops do.

## Implementation notes

A step advances by so many bytes if it does wherever it succeeds; nothing is said of failures.
The same notion serves decoders and consultations, which stand where their line reader does.  Of a
value in groups, of a string or of a block only the first bytes count.
-/

namespace Dwarf

/-- Wherever a step succeeds it leads on by so much at least. -/
def Dialogue.Advances {Q : Type} {R : Q → Type} {X α : Type}
    (serve : (query : Q) → X → R query × X) (standing : Nat → X → Prop) (least : Nat)
    (step : ExceptT Error (Dialogue Q R) α) : Prop :=
  ∀ offset state value left, standing offset state →
    step.run.run serve state = (.ok value, left) →
      ∃ offset', offset + least ≤ offset' ∧ standing offset' left

namespace Dialogue.Advances

variable {Q : Type} {R : Q → Type} {X α β : Type} {serve : (query : Q) → X → R query × X}
variable {standing : Nat → X → Prop} {least more : Nat} {step first : ExceptT Error (Dialogue Q R) α}

theorem mono (h : Advances serve standing more step) (fewer : least ≤ more) :
    Advances serve standing least step := by
  intro offset state value left stands ran
  obtain ⟨offset', ahead, there⟩ := h offset state value left stands ran
  exact ⟨offset', Nat.le_trans (Nat.add_le_add_left fewer offset) ahead, there⟩

theorem pure (answer : α) :
    Advances serve standing 0 (pure answer : ExceptT Error (Dialogue Q R) α) := by
  rintro offset state value left stands ⟨⟩
  exact ⟨offset, Nat.le_refl _, stands⟩

theorem throw (error : Error) :
    Advances serve standing least (throw error : ExceptT Error (Dialogue Q R) α) := by
  rintro offset state value left stands ⟨⟩

theorem bind {next : α → ExceptT Error (Dialogue Q R) β} (h : Advances serve standing least first)
    (each : ∀ answer, Advances serve standing more (next answer)) :
    Advances serve standing (least + more) (first >>= next) := by
  intro offset state value left stands ran
  obtain ⟨middle, reached, begins, goes⟩ := runStep_bind_ok _ _ ran
  obtain ⟨offset₁, ahead₁, there₁⟩ := h offset state middle reached stands begins
  obtain ⟨offset₂, ahead₂, there₂⟩ := each middle offset₁ reached value left there₁ goes
  exact ⟨offset₂, by omega, there₂⟩

theorem bind_first {next : α → ExceptT Error (Dialogue Q R) β} (h : Advances serve standing least first)
    (each : ∀ answer, Advances serve standing 0 (next answer)) :
    Advances serve standing least (first >>= next) :=
  (h.bind each).mono (Nat.le_refl _)

theorem bind_second {next : α → ExceptT Error (Dialogue Q R) β} (h : Advances serve standing 0 first)
    (each : ∀ answer, Advances serve standing least (next answer)) :
    Advances serve standing least (first >>= next) :=
  (h.bind each).mono (Nat.le_of_eq (Nat.zero_add least).symm)

theorem map (h : Advances serve standing least step) (f : α → β) :
    Advances serve standing least (f <$> step) := by
  rw [map_eq_pure_bind]
  exact h.bind_first fun answer => pure _

end Dialogue.Advances

open Dialogue

/-- A reader that knows a context stands at an offset of a window. -/
structure Reader.Along (place : Place) (context : Context) (offset : Nat) (reader : Reader) :
    Prop where
  stands : reader.Stands { place with offset }
  knows : reader.context = context

/-- Wherever a step succeeds in a window its reader takes so many bytes at least. -/
abbrev Decode.Advances {α : Type} (source : Source) (place : Place) (context : Context)
    (least : Nat) (step : Decode α) : Prop :=
  Dialogue.Advances (Reader.serve source)
    (fun offset state => state.1.Along place context offset) least step

/-- Wherever a consultation succeeds the line reader takes so many bytes at least. -/
abbrev Consult.Advances {α : Type} (source : Source) (place : Place) (context : Context)
    (least : Nat) (step : Consult α) : Prop :=
  Dialogue.Advances (Session.serve source)
    (fun offset session => session.readers.lines.Along place context offset) least step

namespace Form

/-- The fewest bytes of a value with a layout. -/
def Layout.leastSize (context : Context) : Layout → Nat
  | .empty => 0
  | .fixed width | .block width => width
  | .address => context.addressSize.getD 1
  | .offset => (context.format.map Format.wordSize).getD 4
  | _ => 1

/-- The fewest bytes of a value with a form. -/
def leastSize (context : Context) (form : Form) : Nat :=
  form.layout?.elim 1 (Layout.leastSize context)

end Form

namespace Decode

variable {α β : Type} {source : Source} {place : Place} {context : Context} {least : Nat}

theorem advances_of_obeys {step : Decode α} (obeys : step.Obeys .onward) :
    step.Advances source place context 0 := by
  rintro offset ⟨reader, log⟩ value ⟨left, log'⟩ along ran
  obtain ⟨offset', ahead, there⟩ := along.stands.onward obeys rfl rfl ran
  exact ⟨offset', ahead, there, (along.stands.sound.context_run obeys rfl ran).trans along.knows⟩

theorem advances_view {next : View → Decode α}
    (each : ∀ seen : View, seen.context = context →
      (next seen).Advances source place context least) :
    (view >>= next).Advances source place context least := by
  rintro offset ⟨reader, log⟩ value left along ran
  obtain ⟨seen, reached, looks, goes⟩ := Dialogue.runStep_bind_ok _ _ ran
  cases looks
  exact each reader.view ((Reader.context_view reader).trans along.knows) offset _ value left along
    goes

theorem advances_take (count : Nat) : (take count).Advances source place context count := by
  rintro offset ⟨reader, log⟩ value ⟨left, log'⟩ along ran
  have obeys : (take count).Obeys ⟨false, false, false, true⟩ :=
    obeys_takeAhead .buffer (.inl rfl)
  exact ⟨offset + count, Nat.le_refl _, (along.stands.take ran).1 value rfl,
    (along.stands.sound.context_run obeys rfl ran).trans along.knows⟩

theorem advances_skip (count : Nat) : (skip count).Advances source place context count := by
  rintro offset ⟨reader, log⟩ value ⟨left, log'⟩ along ran
  have sought : reader.run source (Decode.seek (reader.view.offset + count)).run log =
      (.ok value, left, log') := ran
  rw [show reader.view.offset = offset from congrArg View.offset along.stands.view_eq] at sought
  obtain ⟨-, there, knows⟩ := along.stands.sought sought
  exact ⟨offset + count, Nat.le_refl _, there, knows.trans along.knows⟩

theorem advances_unsigned (width : Nat) :
    (unsigned width).Advances source place context width :=
  (advances_take width).bind_first fun _ => .pure _

theorem advances_unsignedChecked (width : Nat) :
    (unsignedChecked width).Advances source place context width := by
  unfold unsignedChecked
  split
  · exact advances_unsigned width
  · exact .throw _

theorem advances_uleb128 (type : IntType) :
    (uleb128 type).Advances source place context 1 := by
  rintro offset ⟨reader, log⟩ value ⟨left, log'⟩ along ran
  have obeys : (uleb128 type).Obeys .onward := obeys_uleb128 type
  obtain ⟨offset', ahead, there⟩ := along.stands.uleb128 ran
  exact ⟨offset', ahead, there, (along.stands.sound.context_run obeys rfl ran).trans along.knows⟩

theorem advances_sleb128 (type : IntType) :
    (sleb128 type).Advances source place context 1 := by
  have groups (start more : Nat) : (signedGroups start more).Advances source place context 1 := by
    cases more with
    | zero =>
        refine (advances_unsigned 1).bind_first fun last => advances_of_obeys ?_
        split
        · exact Judgement.step_pure _
        · split
          · exact Judgement.step_pure _
          · exact Judgement.step_throw nofun
    | succ more =>
        refine (advances_unsigned 1).bind_first fun group => advances_of_obeys ?_
        split
        · exact Judgement.step_pure _
        · split
          · exact Judgement.step_pure _
          · exact (obeys_signedGroups start more).bind fun rest => Judgement.step_pure _
  refine advances_view fun seen _ => (groups seen.offset 9).bind_first fun value => ?_
  split
  · exact .pure _
  · exact .throw _

theorem advances_constant (family : Family) :
    (constant family).Advances source place context 1 :=
  (advances_uleb128 .half).bind_first fun _ => .pure _

/-- A transfer that goes on behind a step must be complete exactly if it is behind its success. -/
theorem completed_bind (first : Decode α) (next : Except Error α → Decoder Transfer)
    (fails : ∀ error, ∃ partly, next (.error error) = pure ⟨partly, some error⟩) :
    completed (first.run >>= next) = first >>= fun answer => completed (next (.ok answer)) := by
  refine (map_bind Transfer.complete first.run next).trans ?_
  refine congrArg (first.run >>= ·) (funext fun result => ?_)
  cases result with
  | error error =>
      obtain ⟨partly, stops⟩ := fails error
      rw [stops]
      rfl
  | ok answer => rfl

/-- A transfer behind a step must be complete exactly if it is behind its success. -/
theorem completed_orFailed (first : Decode α) (next : α → Decoder Transfer) :
    completed (orFailed do
        let answer ← first
        ExceptT.lift (next answer)) =
      first >>= fun answer => completed (next answer) := by
  rw [orFailed_eq, completed, ← comp_map]
  refine (map_bind _ first.run _).trans (congrArg (first.run >>= ·) (funext fun result => ?_))
  cases result with
  | error error => rfl
  | ok answer => exact (comp_map Except.ok (Transfer.complete ∘ Transfer.ofResult) _).symm

theorem advances_string : (completed string).Advances source place context 1 := by
  have bytes (start rest : Nat) :
      (completed (stringFrom start .buffer [] rest)).Advances source place context 1 := by
    cases rest with
    | zero => exact .throw _
    | succ rest =>
        rw [stringFrom, completed_bind _ _ fun error => ⟨[], rfl⟩]
        refine (advances_take 1).bind_first fun bytes => advances_of_obeys (obeys_completed ?_)
        dsimp only
        split
        · apply Judgement.holds_pure
          rintro _ ⟨⟩
        · exact obeys_stringFrom start .buffer _ rest
  have looks : completed string = ensureBound >>= fun _ => view >>= fun seen =>
      completed (stringFrom seen.offset .buffer [] seen.remaining) := by
    rw [string, stringAhead, ← bind_assoc, completed_orFailed, bind_assoc]
  rw [looks, ensureBound, bind_assoc]
  refine advances_view fun seen _ => Dialogue.Advances.bind_second ?_ fun _ => ?_
  · split
    · exact .pure _
    · exact .throw _
  · exact advances_view fun seen _ => bytes seen.offset seen.remaining

theorem advances_bytes (count : Nat) :
    (completed (bytes count)).Advances source place context count := by
  have parts (taken : List UInt8) (pieces : List Nat) :
      (completed (bytesFrom taken pieces)).Advances source place context pieces.sum := by
    induction pieces generalizing taken with
    | nil => exact .pure _
    | cons piece rest ih =>
        rw [bytesFrom, completed_bind _ _ fun error => ⟨taken.reverse, rfl⟩, List.sum_cons]
        exact (advances_take piece).bind fun bytes => ih _
  rintro offset ⟨reader, log⟩ value left along ran
  have pieced := parts [] (pieces count (max reader.view.capacity 1))
  rw [sum_pieces] at pieced
  exact pieced offset (reader, log) value left along ran

theorem advances_format {next : Format → Decode α}
    (each : ∀ known, context.format = some known →
      (next known).Advances source place context least) :
    (format >>= next).Advances source place context least := by
  rw [format, bind_assoc]
  refine advances_view fun seen knows => ?_
  rw [knows]
  cases known : context.format with
  | some format => exact each format known
  | none => exact .throw _

theorem advances_addressSize {next : Nat → Decode α}
    (each : ∀ known, context.addressSize = some known →
      (next known).Advances source place context least) :
    (addressSize >>= next).Advances source place context least := by
  rw [addressSize, bind_assoc]
  refine advances_view fun seen knows => ?_
  rw [knows]
  cases known : context.addressSize with
  | some size => exact each size known
  | none => exact .throw _

theorem advances_sectionOffset :
    sectionOffset.Advances source place context (Form.Layout.leastSize context .offset) := by
  refine advances_format fun known knows => ?_
  simp only [Form.Layout.leastSize, knows, Option.map_some, Option.getD_some]
  exact advances_unsigned _

/-- A value is skipped whole. -/
theorem advances_skipDirect (form : Form) (layout : Form.Layout) :
    (skipDirect form layout).Advances source place context (layout.leastSize context) := by
  cases layout with
  | empty => exact .pure ()
  | fixed width => exact advances_skip width
  | address =>
      refine advances_addressSize fun known knows => ?_
      simp only [Form.Layout.leastSize, knows, Option.getD_some]
      exact advances_skip known
  | offset =>
      refine advances_format fun known knows => ?_
      simp only [Form.Layout.leastSize, knows, Option.map_some, Option.getD_some]
      exact advances_skip _
  | uleb128 => exact (advances_uleb128 .word).map _
  | sleb128 => exact (advances_sleb128 .signedWord).map _
  | string => exact advances_string.map _
  | block width =>
      exact (advances_unsignedChecked width).bind_first fun length =>
        (advances_skip length).mono (Nat.zero_le _)
  | countedBlock =>
      exact (advances_uleb128 .word).bind_first fun length =>
        (advances_skip length).mono (Nat.zero_le _)
  | indirect => exact .throw _

theorem advances_offsetDirect (form : Form) (layout : Form.Layout) :
    (offsetDirect form layout).Advances source place context (layout.leastSize context) := by
  cases layout with
  | fixed width =>
      simp only [offsetDirect]
      split
      · exact advances_unsignedChecked width
      · exact .throw _
  | address =>
      simp only [offsetDirect]
      split
      · refine advances_addressSize fun known knows => ?_
        simp only [Form.Layout.leastSize, knows, Option.getD_some]
        exact advances_unsignedChecked known
      · exact .throw _
  | offset => exact advances_sectionOffset
  | uleb128 => exact advances_uleb128 .word
  | empty | sleb128 | string | block _ | countedBlock | indirect => exact .throw _

/-- What has the least size of a layout for direct forms has it for all forms, unless references to
addresses have another one. -/
theorem advances_throughIndirect {direct : Form → Form.Layout → Decode α}
    (version : context.version ≠ some 2)
    (each : ∀ form layout,
      (direct form layout).Advances source place context (layout.leastSize context))
    (form : Form) :
    (throughIndirect direct form).Advances source place context (form.leastSize context) := by
  have laid (form : Form) {next : Form.Layout → Decode α} {least : Nat}
      (each : ∀ layout, form.layout? = some layout →
        (next layout).Advances source place context least) :
      (layout form >>= next).Advances source place context least := by
    rw [layout, bind_assoc]
    refine advances_view fun seen knows => ?_
    rw [if_neg (fun both => version (knows ▸ both.2))]
    cases known : form.layout? with
    | some layout => exact each layout known
    | none => exact .throw _
  refine laid form fun layout known => ?_
  rw [Form.leastSize, known, Option.elim_some]
  cases layout with
  | indirect =>
      have indirection : indirectForm.Advances source place context 1 := by
        refine (advances_constant .form).bind_first fun actual => ?_
        split
        · exact .throw _
        · exact .pure _
      exact indirection.bind_first fun actual =>
        laid actual fun layout _ => (each actual layout).mono (Nat.zero_le _)
  | empty | fixed _ | address | offset | uleb128 | sleb128 | string | block _ | countedBlock =>
      exact each form _

theorem advances_optionalNumber (version : context.version ≠ some 2) (form : Form) :
    (optionalNumber form).Advances source place context (form.leastSize context) := by
  have branch (isNumber : Bool) :
      Advances source place context (form.leastSize context)
        (if isNumber then some <$> offsetValue form else do
          skipValue form
          pure none) := by
    split
    · exact (advances_throughIndirect version advances_offsetDirect form).map some
    · exact (advances_throughIndirect version advances_skipDirect form).bind_first fun _ => .pure _
  exact branch _

/-- A value of an entry that is not a path is read or skipped whole. -/
theorem advances_plainEntryValue (version : context.version ≠ some 2) (format : EntryFormat)
    (entry : SourceFile) :
    (plainEntryValue format entry).Advances source place context
      (format.form.leastSize context) := by
  have offset : (offsetValue format.form).Advances source place context _ :=
    advances_throughIndirect version advances_offsetDirect format.form
  have skipped : (skipValue format.form).Advances source place context _ :=
    advances_throughIndirect version advances_skipDirect format.form
  have optional : (optionalNumber format.form).Advances source place context _ :=
    advances_optionalNumber version format.form
  simp only [plainEntryValue]
  split
  · exact offset.bind_first fun _ => .pure _
  · exact optional.bind_first fun _ => .pure _
  · exact optional.bind_first fun _ => .pure _
  · split
    · rename_i digest
      rw [digest]
      exact (advances_bytes 16).bind_first fun _ => .pure _
    · exact skipped.bind_first fun _ => .pure _
  · exact skipped.bind_first fun _ => .pure _

section Lists

variable {reader : Reader} {offset bound : Nat}

/-- The loop over the directories of a list ends before its count does: each has its NUL. -/
theorem run_directoriesFrom_add (along : reader.Along place context offset)
    (h : place.stop - offset < bound) (extra : Nat) (read : List String) (log : AccessLog) :
    reader.run source (directoriesFrom read (bound + extra)).run log =
      reader.run source (directoriesFrom read bound).run log := by
  induction bound generalizing reader offset read log with
  | zero => exact absurd h (Nat.not_lt_zero _)
  | succ bound ih =>
      rw [Nat.succ_add]
      apply Dialogue.runStep_bind_congr _ _
      rintro path ⟨reached, log'⟩ reads
      obtain ⟨offset', ahead, there⟩ := advances_string offset (reader, log) _ _ along reads
      split
      · rfl
      · have inside : offset' ≤ place.stop := there.stands.bounds.offset_le_stop
        exact ih there (by omega) _ _

/-- The loop over the files of a list ends before its count does. -/
theorem run_filesFrom_add (along : reader.Along place context offset)
    (h : place.stop - offset < bound) (extra : Nat) (read : List SourceFile) (log : AccessLog) :
    reader.run source (filesFrom read (bound + extra)).run log =
      reader.run source (filesFrom read bound).run log := by
  induction bound generalizing reader offset read log with
  | zero => exact absurd h (Nat.not_lt_zero _)
  | succ bound ih =>
      rw [Nat.succ_add]
      apply Dialogue.runStep_bind_congr _ _
      rintro path ⟨reached₁, log₁⟩ reads₁
      obtain ⟨offset₁, ahead₁, there₁⟩ := advances_string offset (reader, log) _ _ along reads₁
      split
      · rfl
      · apply Dialogue.runStep_bind_congr _ _
        rintro index ⟨reached₂, log₂⟩ reads₂
        obtain ⟨offset₂, ahead₂, there₂⟩ := advances_uleb128 .word offset₁ _ _ _ there₁ reads₂
        apply Dialogue.runStep_bind_congr _ _
        rintro time ⟨reached₃, log₃⟩ reads₃
        obtain ⟨offset₃, ahead₃, there₃⟩ := advances_uleb128 .word offset₂ _ _ _ there₂ reads₃
        apply Dialogue.runStep_bind_congr _ _
        rintro size ⟨reached₄, log₄⟩ reads₄
        obtain ⟨offset₄, ahead₄, there₄⟩ := advances_uleb128 .word offset₃ _ _ _ there₃ reads₄
        have inside : offset₄ ≤ place.stop := there₄.stands.bounds.offset_le_stop
        exact ih there₄ (by omega) _ _

end Lists

end Decode

theorem EntryFormat.leastSize_eq (context : Context) (format : EntryFormat) :
    format.leastSize context = format.form.leastSize context := by
  rw [leastSize, Form.leastSize]
  cases format.form.layout? with
  | none => rfl
  | some layout => cases layout <;> rfl

namespace Consult

open Decode

variable {α : Type} {source : Source} {place : Place} {context : Context} {least : Nat}

theorem advances_on {step : Decode α} (h : step.Advances source place context least) :
    (step.on .lines).Advances source place context least := by
  rintro offset session value left along ran
  exact h offset (session.readers.lines, session.log) value (left.readers.lines, left.log) along
    (Session.step_on ran)

theorem advances_apart {table : Table} (apart : Table.lines ≠ table) (step : Decode α) :
    (step.on table).Advances source place context 0 := by
  rintro offset session value left along ran
  have kept : left.readers.lines = session.readers.lines := by
    rw [← show (session.run source (step.on table).run).2 = left from congrArg Prod.snd ran]
    exact Session.get_run_on source apart session
  have behind : left.readers.lines.Along place context offset := kept ▸ along
  exact ⟨offset, Nat.le_refl _, behind⟩

/-- A string value is read whole from the line table, wherever its text is. -/
theorem advances_stringValue (form : Form) :
    (completed (stringValue .lines form)).Advances source place context
      (form.leastSize context) := by
  have completed_on (table : Table) (decoder : Decoder Transfer) :
      completed (decoder.on table) = (Decode.completed decoder).on table :=
    (Decoder.on_map table Transfer.complete decoder).symm
  have lookup {table : Table} (apart : Table.lines ≠ table) :
      (completed (orFailed do
        let offset ← Decode.sectionOffset.on .lines
        ExceptT.lift ((Decode.stringAt offset).on table))).Advances source place context
          (Form.Layout.leastSize context .offset) := by
    rw [Consult.completed_orFailed]
    refine (advances_on advances_sectionOffset).bind_first fun offset => ?_
    rw [completed_on]
    exact advances_apart apart _
  unfold stringValue
  split
  · rw [completed_on]
    exact advances_on advances_string
  · exact lookup (by decide)
  · exact lookup (by decide)
  · exact .throw _

theorem advances_entryValue (version : context.version ≠ some 2) (format : EntryFormat)
    (entry : SourceFile) :
    (entryValue format entry).Advances source place context (format.leastSize context) := by
  rw [EntryFormat.leastSize_eq, entryValue]
  split
  · exact (advances_stringValue format.form).bind_first fun _ => .pure _
  · exact advances_on (advances_plainEntryValue version format entry)

theorem advances_entryValues (version : context.version ≠ some 2) (formats : List EntryFormat)
    (entry : SourceFile) :
    (entryValues formats entry).Advances source place context
      (EntryFormat.leastEntrySize context formats) := by
  induction formats generalizing entry with
  | nil => exact .pure _
  | cons format rest ih => exact (advances_entryValue version format entry).bind ih

theorem advances_entriesFrom (version : context.version ≠ some 2) (formats : List EntryFormat)
    (read : List SourceFile) (count : Nat) :
    (entriesFrom formats read count).Advances source place context
      (count * EntryFormat.leastEntrySize context formats) := by
  induction count generalizing read with
  | zero =>
      rw [Nat.zero_mul]
      exact .pure _
  | succ count ih =>
      rw [Nat.succ_mul, Nat.add_comm]
      exact (advances_entryValues version formats .empty).bind fun entry => ih _

end Consult

namespace EntryFormat

theorem leastEntrySize_eq_zero_iff {context : Context} {formats : List EntryFormat} :
    leastEntrySize context formats = 0 ↔ ∀ format ∈ formats, format.leastSize context = 0 := by
  induction formats with
  | nil => simp [leastEntrySize]
  | cons format rest ih =>
      rw [List.forall_mem_cons, ← ih]
      exact Nat.add_eq_zero_iff

/-- A value without bytes has the empty layout, if known addresses have bytes. -/
theorem layout?_of_leastSize_eq_zero {context : Context} {format : EntryFormat}
    (sized : ∀ size ∈ context.addressSize, 0 < size) (h : format.leastSize context = 0) :
    format.form.layout? = some .empty := by
  rw [leastSize_eq, Form.leastSize] at h
  cases known : format.form.layout? with
  | none =>
      rw [known] at h
      cases h
  | some layout =>
      rw [known, Option.elim_some] at h
      have listed : layout ≠ .fixed 0 ∧ layout ≠ .block 0 := by
        rw [Form.layout?_eq_lookup] at known
        obtain ⟨before, behind, same, -⟩ := List.lookup_eq_some_iff.mp known
        have only : ∀ entry ∈ Form.catalogue, entry.2 ≠ .fixed 0 ∧ entry.2 ≠ .block 0 := by decide
        exact only (format.form.code, layout) (same ▸ by simp)
      cases layout with
      | empty => rfl
      | fixed width => exact absurd (congrArg Form.Layout.fixed h) listed.1
      | block width => exact absurd (congrArg Form.Layout.block h) listed.2
      | address =>
          cases size : context.addressSize with
          | none => simp [Form.Layout.leastSize, size] at h
          | some size' =>
              have positive := sized size' size
              simp only [Form.Layout.leastSize, size, Option.getD_some] at h
              omega
      | offset =>
          rcases context with ⟨_ | format, _, _⟩
          · cases h
          · cases format <;> cases h
      | uleb128 | sleb128 | string | countedBlock | indirect => cases h

end EntryFormat

namespace Session

variable {source : Source} {session behind left : Session} {place : Place} {context : Context}

/-- A count that was read is accepted if the rest of the window can hold so many entries, and
refused otherwise. -/
theorem run_entryCount {count : Nat} (formats : List EntryFormat) (field : String)
    (counts : session.run source ((Decode.uleb128 .word).on .lines).run = (.ok count, behind)) :
    session.run source ((Decode.entryCount formats field).on .lines).run =
      (if EntryFormat.Fit behind.readers.lines.context formats
          behind.readers.lines.view.remaining count then .ok count
        else .error (.impossibleValue field count), behind) := by
  have refuses {context : Context} {remaining : Nat} (nonzero : count ≠ 0) :
      ¬ EntryFormat.Fit context formats remaining count ↔
        EntryFormat.leastEntrySize context formats = 0 ∨
          remaining / EntryFormat.leastEntrySize context formats < count := by
    simp only [EntryFormat.Fit]
    omega
  have looks (next : View → Consult Nat) :
      behind.run source ((Decode.view.on .lines) >>= next).run =
        behind.run source (next behind.readers.lines.view).run := rfl
  rw [Decode.entryCount, Decode.on_bind]
  simp only [run] at counts looks ⊢
  rw [Dialogue.runStep_bind, counts]
  dsimp only
  by_cases zero : count = 0
  · rw [if_pos zero, if_pos (.inl zero), zero]
    rfl
  · rw [if_neg zero, Decode.on_bind, looks, Reader.context_view]
    split
    · rename_i refused
      rw [if_neg ((refuses zero).mpr refused)]
      rfl
    · rename_i accepted
      rw [if_pos (not_not.mp (mt (refuses zero).mp accepted))]
      rfl

/-- Entries fail because their count is refused, or as the loop over so many of them does. -/
theorem error_of_entries {count : Nat} {formats : List EntryFormat} {field : String}
    {error : Error}
    (counts : session.run source ((Decode.uleb128 .word).on .lines).run = (.ok count, behind))
    (h : (session.run source (Consult.entries formats field).run).1 = .error error) :
    ¬ EntryFormat.Fit behind.readers.lines.context formats
        behind.readers.lines.view.remaining count ∨
      (behind.run source (Consult.entriesFrom formats [] count).run).1 = .error error := by
  have ran := run_entryCount formats field counts
  simp only [run] at ran h ⊢
  rw [Consult.entries, Dialogue.runStep_bind, ran] at h
  by_cases fits : EntryFormat.Fit behind.readers.lines.context formats
      behind.readers.lines.view.remaining count
  · rw [if_pos fits] at h
    dsimp only at h
    split at h
    · rw [Dialogue.runStep_map] at h
      rcases loops : (Consult.entriesFrom formats [] count).run.run (serve source) behind with
        ⟨_ | entries, left⟩
      · rw [loops] at h
        cases h
        exact .inr rfl
      · rw [loops] at h
        cases h
    · cases h
  · exact .inl fits

theorem counted_of_entryCount {formats : List EntryFormat} {field : String} {count : Nat}
    (h : session.run source ((Decode.entryCount formats field).on .lines).run =
      (.ok count, left)) :
    ∃ number behind,
      session.run source ((Decode.uleb128 .word).on .lines).run = (.ok number, behind) := by
  rw [Decode.entryCount, Decode.on_bind] at h
  obtain ⟨number, reached, reads, -⟩ := Dialogue.runStep_bind_ok _ _ h
  exact ⟨number, reached, reads⟩

/-- The loop fails over more entries than fit the rest of the window, if any format has bytes. -/
theorem fails_of_unfit {offset count : Nat} {formats : List EntryFormat}
    (along : session.readers.lines.Along place context offset)
    (version : context.version ≠ some 2) (sized : ∀ size ∈ context.addressSize, 0 < size)
    (full : ¬ ∀ format ∈ formats, format.form.layout? = some .empty)
    (unfit : ¬ EntryFormat.Fit context formats (place.stop - offset) count) :
    Failed (session.run source (Consult.entriesFrom formats [] count).run).1 := by
  have positive : 0 < EntryFormat.leastEntrySize context formats := by
    apply Nat.pos_of_ne_zero
    intro zero
    apply full
    intro format member
    exact EntryFormat.layout?_of_leastSize_eq_zero sized
      (EntryFormat.leastEntrySize_eq_zero_iff.mp zero format member)
  cases loop : (session.run source (Consult.entriesFrom formats [] count).run).1 with
  | error error => exact ⟨error, rfl⟩
  | ok entries =>
      obtain ⟨offset', ahead, there⟩ := Consult.advances_entriesFrom version formats [] count
        offset session entries _ along (Prod.ext loop rfl)
      have inside : offset' ≤ place.stop := there.stands.bounds.offset_le_stop
      refine absurd (.inr ⟨positive, ?_⟩) unfit
      rw [Nat.le_div_iff_mul_le positive]
      omega

/-- No entry is read from fewer bytes than the least size of its formats, and none from outside the
window.  So a count is refused only if it is positive, and no format has bytes or the loop over so
many entries fails by itself; an accepted one is no more than the bytes that remained in the section.
Where entries are read they are as many as were counted, and where the program stops no memory can
be reserved for an accepted count. -/
theorem entries_sound (sound : session.readers.lines.Sound)
    (stands : session.readers.lines.direct = ⟨some place, context⟩)
    (version : context.version ≠ some 2) (sized : ∀ size ∈ context.addressSize, 0 < size)
    (formats : List EntryFormat) (field : String) :
    let counted := session.run source ((Decode.uleb128 .word).on .lines).run
    let accepted := session.run source ((Decode.entryCount formats field).on .lines).run
    let read := session.run source (Consult.entries formats field).run
    (∀ entry value left,
      session.run source (Consult.entryValues formats entry).run = (.ok value, left) →
        ∃ offset, place.offset + EntryFormat.leastEntrySize context formats ≤ offset ∧
          offset ≤ place.stop ∧ left.readers.lines.direct = ⟨some { place with offset }, context⟩) ∧
    (∀ count refused value, counted.1 = .ok count →
      read.1 = .error (.impossibleValue refused value) →
        count ≠ 0 ∧ ((∀ format ∈ formats, format.form.layout? = some .empty) ∨
          Failed (counted.2.run source (Consult.entriesFrom formats [] count).run).1)) ∧
    (∀ count, accepted.1 = .ok count →
      counted.1 = .ok count ∧ count ≤ counted.2.readers.lines.view.remaining ∧
        counted.2.readers.lines.view.remaining ≤ place.limit - place.first) ∧
    (∀ entries, read.1 = .ok (.returned entries) → accepted.1 = .ok entries.length) ∧
    (read.1 = .ok .stopped →
      ∃ count, accepted.1 = .ok count ∧ ¬ Memory.Reserves count SourceFile.footprint) := by
  intro counted accepted read
  have along : session.readers.lines.Along place context place.offset :=
    ⟨⟨sound, congrArg DirectReader.place stands⟩, congrArg DirectReader.context stands⟩
  have behind {count : Nat} (counts : counted.1 = .ok count) :
      ∃ offset, counted.2.readers.lines.Along place context offset := by
    obtain ⟨offset, -, there⟩ := Consult.advances_on (Decode.advances_uleb128 .word) place.offset
      session count counted.2 along (Prod.ext counts rfl)
    exact ⟨offset, there⟩
  have accepts {count : Nat} (counts : counted.1 = .ok count) : accepted = _ :=
    run_entryCount formats field (Prod.ext counts rfl : counted = (.ok count, counted.2))
  refine ⟨fun entry value left ran => ?_, fun count refused value counts refuses => ?_,
    fun count acceptable => ?_, fun entries reading => ?_, fun stops => ?_⟩
  · obtain ⟨offset, ahead, there⟩ := Consult.advances_entryValues version formats entry place.offset
      session value left along ran
    have inside : offset ≤ place.stop := there.stands.bounds.offset_le_stop
    have direct : left.readers.lines.direct = ⟨some { place with offset }, context⟩ := by
      rw [← there.knows]
      exact congrArg (DirectReader.mk · left.readers.lines.context) there.stands.direct
    exact ⟨offset, ahead, inside, direct⟩
  · obtain ⟨offset, there⟩ := behind counts
    have remains : counted.2.readers.lines.view.remaining = place.stop - offset :=
      congrArg View.remaining there.stands.view_eq
    rcases error_of_entries (Prod.ext counts rfl) refuses with unfit | loses
    · rw [there.knows, remains] at unfit
      have nonzero : count ≠ 0 := fun zero => unfit (.inl zero)
      exact ⟨nonzero, or_iff_not_imp_left.mpr fun full =>
        fails_of_unfit there version sized full unfit⟩
    · refine ⟨?_, .inr ⟨_, loses⟩⟩
      rintro rfl
      cases loses
  · obtain ⟨number, reached, counts⟩ := counted_of_entryCount (Prod.ext acceptable rfl)
    have counts : counted.1 = .ok number := congrArg Prod.fst counts
    obtain ⟨offset, there⟩ := behind counts
    have remains : counted.2.readers.lines.view.remaining = place.stop - offset :=
      congrArg View.remaining there.stands.view_eq
    have few : count ≤ accepted.2.readers.lines.view.remaining :=
      Reader.le_remaining_of_entryCount (step_on (Prod.ext acceptable rfl))
    rw [accepts counts] at few acceptable
    dsimp only at few acceptable
    split at acceptable
    · cases acceptable
      have within := there.stands.keeps.remaining_le
      exact ⟨counts, few, within⟩
    · cases acceptable
  · obtain ⟨count, reached, acceptable, ⟨-, stops⟩ | ⟨_, gives, length⟩⟩ :=
      entries_cases (Prod.ext reading rfl : read = (_, read.2))
    · cases stops
    · cases gives
      rw [length]
      exact congrArg Prod.fst acceptable
  · obtain ⟨count, reached, acceptable, ⟨unreserved, -⟩ | ⟨_, gives, -⟩⟩ :=
      entries_cases (Prod.ext stops rfl : read = (_, read.2))
    · exact ⟨count, congrArg Prod.fst acceptable, unreserved⟩
    · cases gives

/-- Five entries of a string each do not fit the three bytes that remain, and the loop over them would
have failed too. -/
theorem entries_sound_refused :
    let image : Array UInt8 := #[5, 0x61, 0, 0]
    let lines : Reader := ⟨some ⟨.zeroed 16, 0, 0, 0, 0, 4, 4, 4⟩, ⟨some .dwarf32, some 8, none⟩⟩
    let session : Session := .start ⟨.unbound, .unbound, .unbound, .unbound, .unbound, lines⟩
    let formats : List EntryFormat := [⟨.path, .string⟩]
    let counted := session.run (.ofImage image) ((Decode.uleb128 .word).on .lines).run
    (session.run (.ofImage image) (Consult.entries formats "file count").run).1 =
        .error (.impossibleValue "file count" 5) ∧
      Failed (counted.2.run (.ofImage image) (Consult.entriesFrom formats [] 5).run).1 := by
  intro image lines session formats counted
  have bound : Reader.bound (.zeroed 16) ⟨0, 4⟩ 4 =
      .ok ⟨some ⟨.zeroed 16, 0, 0, 0, 0, 4, 4, 4⟩, .unknown⟩ := rfl
  have sound : lines.Sound := (Reader.sound_shows_bound #[] (by decide) bound).1
  have counts : counted.1 = .ok 5 := by decide +kernel
  have refuses : (session.run (.ofImage image) (Consult.entries formats "file count").run).1 =
      .error (.impossibleValue "file count" 5) := by decide +kernel
  obtain ⟨-, refused, -⟩ := @entries_sound (.ofImage image) session _ _ sound rfl (by decide)
    (by decide) formats "file count"
  obtain ⟨-, empty | fails⟩ := refused 5 _ _ counts refuses
  · exact absurd (empty _ List.mem_cons_self) (by decide)
  · exact ⟨refuses, fails⟩

end Session

end Dwarf
