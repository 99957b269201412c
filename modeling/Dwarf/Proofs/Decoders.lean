import Dwarf.Proofs.Licence
import Dwarf.Tables.Strings
/-!
# Decoders obey their licences

Integers and values of forms need no licence but for what they record; looking up a string moves
back in its table.

## Implementation notes

A decoder that needs no licence is judged well whenever a judgement lets values be taken, and lets
the sizes be known if the decoder asks for them.  So one lemma stands beside each decoder, whether
it is licences or errors that are judged, and none of them opens another decoder.
-/

namespace Dwarf

/-- Whether a transfer was stopped by a failure. -/
def Transfer.Incomplete (transfer : Transfer) : Prop := ∃ error, transfer.failure = some error

/-- The transfer that the result of a step comes to. -/
def Transfer.ofResult : Except Error Transfer → Transfer
  | .ok transfer => transfer
  | .error error => .failed error

/-- Whether a step failed or its transfer was stopped. -/
def Transfer.Missing (result : Except Error Transfer) : Prop := (ofResult result).Incomplete

/-- Whether a transfer was stopped by an error. -/
def Transfer.Blames (transfer : Transfer) (error : Error) : Prop := transfer.failure = some error

/-- Whether a step failed by an error or its transfer was stopped by it. -/
def Transfer.Misses (result : Except Error Transfer) (error : Error) : Prop :=
  (ofResult result).Blames error

theorem Transfer.misses_error (error other : Error) :
    Misses (.error error) other ↔ other = error :=
  Option.some_inj.trans eq_comm

theorem Transfer.stopped_iff {α : Type} {bytes : List UInt8} (error other : Error) :
    Blames ⟨bytes, some error⟩ other ↔ Dwarf.Blames (.error error : Except Error α) other :=
  (misses_error error other).trans (blames_error error other).symm

theorem Transfer.blames_complete (transfer : Transfer) (error : Error) :
    Dwarf.Blames transfer.complete error ↔ transfer.Blames error := by
  obtain ⟨bytes, _ | failure⟩ := transfer
  · exact ⟨nofun, nofun⟩
  · exact ⟨fun same => congrArg some (Except.error.inj same),
      fun same => congrArg Except.error (Option.some.inj same)⟩

namespace Decode

open Judgement

variable {α : Type} {J : Judgement Query Query.Reply}

theorem orFailed_eq (step : Decode Transfer) : orFailed step = Transfer.ofResult <$> step.run := by
  rw [map_eq_pure_bind]
  refine congrArg (step.run >>= ·) (funext fun result => ?_)
  cases result <;> rfl

section Lawful

variable [J.Lawful]

theorem obeys_checkAddressSize (size : Nat) : J.Step (ofExcept (checkAddressSize size)) := by
  simp only [checkAddressSize]
  split
  · exact step_pure _
  · exact step_throw nofun

theorem obeys_orFailed {step : Decode Transfer} (h : J.Holds Transfer.Misses step.run) :
    J.Holds Transfer.Blames (orFailed step) := by
  rw [orFailed_eq]
  exact h.map _ fun _ _ => Iff.rfl

theorem obeys_completed {transfer : Decoder Transfer} (h : J.Holds Transfer.Blames transfer) :
    J.Step (completed transfer) :=
  h.map _ Transfer.blames_complete

theorem obeys_lift {transfer : Decoder Transfer} (h : J.Holds Transfer.Blames transfer) :
    J.Holds Transfer.Misses (ExceptT.lift transfer : Decode Transfer).run :=
  h.map _ fun _ _ => Iff.rfl

theorem obeys_bytesFrom (taken : List UInt8) (pieces : List Nat)
    (each : ∀ piece ∈ pieces, J.Step (take piece)) :
    J.Holds Transfer.Blames (bytesFrom taken pieces) := by
  induction pieces generalizing taken with
  | nil => exact holds_pure nofun
  | cons piece rest ih =>
      refine Lawful.bind (each piece List.mem_cons_self) (fun result clean => ?_) ?_
      · cases result with
        | ok bytes => exact ih _ fun piece later => each piece (List.mem_cons_of_mem _ later)
        | error error => exact absurd rfl (clean error)
      · rintro result error ⟨⟩
        exact ⟨_, rfl, Transfer.stopped_iff error⟩

end Lawful

section Taking

variable [J.LetsTake]

theorem obeys_take {count : Nat} (h : count ≤ Reader.minimumCapacity) :
    J.Step (take count) := LetsTake.takeAhead .buffer h

theorem obeys_stopOf (length : Nat) : J.Step (stopOf length) := by
  apply LetsTake.look (fun _ _ _ => rfl)
  intro seen
  dsimp only
  split
  · exact step_pure _
  · exact step_throw nofun

theorem obeys_unsigned {width : Nat} (h : width ≤ Reader.minimumCapacity) :
    J.Step (unsigned width) :=
  (obeys_take h).bind fun _ => step_pure _

theorem obeys_byte : J.Step byte := obeys_unsigned (by decide)

theorem obeys_value {type : IntType} (h : type.bytes ≤ Reader.minimumCapacity) :
    J.Step (value type) :=
  (obeys_unsigned h).bind fun _ => step_pure _

theorem obeys_unsignedChecked (width : Nat) : J.Step (unsignedChecked width) := by
  simp only [unsignedChecked]
  split
  · rename_i small
    exact obeys_unsigned (Nat.le_trans small.2 (by decide))
  · exact step_throw nofun

theorem obeys_unsignedGroups (start more : Nat) : J.Step (unsignedGroups start more) := by
  induction more with
  | zero =>
      apply obeys_byte.bind
      intro last
      split
      · exact step_pure _
      · exact step_throw nofun
  | succ more ih =>
      apply obeys_byte.bind
      intro group
      split
      · exact step_pure _
      · exact ih.bind fun _ => step_pure _

theorem obeys_signedGroups (start more : Nat) : J.Step (signedGroups start more) := by
  induction more with
  | zero =>
      apply obeys_byte.bind
      intro last
      split
      · exact step_pure _
      · split
        · exact step_pure _
        · exact step_throw nofun
  | succ more ih =>
      apply obeys_byte.bind
      intro group
      split
      · exact step_pure _
      · split
        · exact step_pure _
        · exact ih.bind fun _ => step_pure _

theorem obeys_uleb128 (type : IntType) : J.Step (uleb128 type) := by
  apply LetsTake.look (fun _ _ _ => rfl)
  intro seen
  apply (obeys_unsignedGroups seen.offset 9).bind
  intro value
  split
  · exact step_pure _
  · exact step_throw nofun

theorem obeys_sleb128 (type : IntType) : J.Step (sleb128 type) := by
  apply LetsTake.look (fun _ _ _ => rfl)
  intro seen
  apply (obeys_signedGroups seen.offset 9).bind
  intro value
  split
  · exact step_pure _
  · exact step_throw nofun

theorem obeys_constant (family : Family) : J.Step (constant family) :=
  (obeys_uleb128 _).bind fun _ => step_pure _

theorem obeys_offset (format : Format) : J.Step (offset format) := by
  cases format <;> exact obeys_unsigned (by decide)

theorem obeys_indirectForm : J.Step indirectForm := by
  apply (obeys_constant .form).bind
  intro form
  split
  · exact step_throw nofun
  · exact step_pure _

theorem obeys_stringFrom (start : Nat) (ahead : Ahead) (taken : List UInt8) (rest : Nat) :
    J.Holds Transfer.Blames (stringFrom start ahead taken rest) := by
  induction rest generalizing taken with
  | zero =>
      apply Lawful.done
      rintro _ ⟨⟩
      nofun
  | succ rest ih =>
      refine Lawful.bind (LetsTake.takeAhead ahead (by decide)) (fun result clean => ?_) ?_
      · cases result with
        | ok bytes =>
            dsimp only
            split
            · exact holds_pure nofun
            · exact ih _
        | error error => exact absurd rfl (clean error)
      · rintro result error ⟨⟩
        exact ⟨_, rfl, Transfer.stopped_iff error⟩

theorem obeys_stringAhead (ahead : Ahead) : J.Holds Transfer.Blames (stringAhead ahead) := by
  refine obeys_orFailed ?_
  refine LetsTake.ensureBound.bindInto (fun _ => ?_) Transfer.misses_error
  apply LetsTake.look (fun _ _ _ => rfl)
  intro seen
  exact obeys_lift (obeys_stringFrom _ _ _ _)

theorem obeys_string : J.Holds Transfer.Blames string := obeys_stringAhead .buffer

theorem lets_stringAt (seeks : J.Seeks) (offset : Nat) :
    J.Holds Transfer.Blames (stringAt offset) := by
  refine obeys_orFailed ?_
  refine LetsTake.ensureBound.bindInto (fun _ => ?_) Transfer.misses_error
  apply LetsTake.look (fun _ _ _ => rfl)
  intro seen
  dsimp only
  split
  · refine (seeks _).bindInto (fun _ => ?_) Transfer.misses_error
    exact obeys_lift (obeys_stringAhead _)
  · apply Lawful.done
    rintro _ ⟨⟩
    nofun

theorem lets_stringOffsetEntry (seeks : J.Seeks) (narrows : J.Narrows) (base index : Nat)
    (format : Format) : J.Step (stringOffsetEntry base index format) := by
  refine LetsTake.ensureBound.bind fun _ => LetsTake.look (fun _ _ _ => rfl) fun seen => ?_
  dsimp only
  split
  · apply (lets_widen narrows).bind
    intro _
    exact (lets_seekInSection seeks _).bind fun _ => obeys_offset format
  · exact step_throw nofun

theorem lets_initialLength (learns : J.Learns) : J.Step initialLength := by
  apply (obeys_unsigned (by decide)).bind
  intro word
  split
  · exact (learns.format _).bind fun _ => step_pure _
  · split
    · apply (obeys_unsigned (by decide)).bind
      intro length
      exact (learns.format _).bind fun _ => step_pure _
    · exact step_throw nofun

theorem lets_recordAddressSize (learns : J.Learns) (size : Nat) :
    J.Step (recordAddressSize size) :=
  (obeys_checkAddressSize size).bind fun _ => learns.addressSize _

theorem lets_readAddressSize (learns : J.Learns) : J.Step readAddressSize := by
  apply obeys_byte.bind
  intro size
  exact (lets_recordAddressSize learns size).bind fun _ => step_pure _

end Taking

section Knowing

variable [J.LetsKnow]

theorem obeys_sectionOffset : J.Step sectionOffset := LetsKnow.format.bind obeys_offset

theorem obeys_address : J.Step address := LetsKnow.addressSize.bind obeys_unsignedChecked

theorem obeys_layout (form : Form) : J.Step (layout form) := by
  apply LetsKnow.lookAtSizes
  · intro seen capacity version same
    simp only [same]
  · intro seen
    split
    · exact step_pure _
    · split
      · exact step_pure _
      · exact step_throw nofun

theorem obeys_throughIndirect {direct : Form → Form.Layout → Decode α}
    (h : ∀ form layout, J.Step (direct form layout)) (form : Form) :
    J.Step (throughIndirect direct form) := by
  apply (obeys_layout form).bind
  intro layout
  split
  · apply obeys_indirectForm.bind
    intro actual
    exact (obeys_layout actual).bind fun _ => h _ _
  · exact h _ _

theorem obeys_skipDirect (form : Form) (layout : Form.Layout) :
    J.Step (skipDirect form layout) := by
  cases layout with
  | empty => exact step_pure _
  | fixed width => exact LetsKnow.skip width
  | address => exact LetsKnow.addressSize.bind LetsKnow.skip
  | offset => exact LetsKnow.format.bind fun format => LetsKnow.skip format.wordSize
  | uleb128 => exact (obeys_uleb128 .word).map _
  | sleb128 => exact (obeys_sleb128 .signedWord).map _
  | string => exact (obeys_completed obeys_string).map _
  | block width => exact (obeys_unsignedChecked width).bind LetsKnow.skip
  | countedBlock => exact (obeys_uleb128 .word).bind LetsKnow.skip
  | indirect => exact step_throw nofun

theorem obeys_skipValue (form : Form) : J.Step (skipValue form) :=
  obeys_throughIndirect obeys_skipDirect form

theorem obeys_offsetDirect (form : Form) (layout : Form.Layout) :
    J.Step (offsetDirect form layout) := by
  cases layout with
  | fixed width =>
      dsimp only [offsetDirect]
      split
      · exact obeys_unsignedChecked width
      · exact step_throw nofun
  | offset => exact obeys_sectionOffset
  | address =>
      dsimp only [offsetDirect]
      split
      · exact obeys_address
      · exact step_throw nofun
  | uleb128 => exact obeys_uleb128 .word
  | empty | sleb128 | string | block width | countedBlock | indirect =>
      exact step_throw nofun

theorem obeys_offsetValue (form : Form) : J.Step (offsetValue form) :=
  obeys_throughIndirect obeys_offsetDirect form

theorem obeys_addressDirect (form : Form) : J.Step (addressDirect form) := by
  simp only [addressDirect]
  split
  case h_1 => exact obeys_address.map _
  case h_13 => exact step_throw nofun
  all_goals first
    | exact (obeys_unsignedChecked _).map _
    | exact (obeys_uleb128 .word).map _

theorem obeys_addressValue (form : Form) : J.Step (addressValue form) := by
  simp only [addressValue]
  split
  · exact obeys_indirectForm.bind obeys_addressDirect
  · exact obeys_addressDirect form

end Knowing

section Licensed

variable {licence : Licence}

theorem obeys_initialLength (h : licence.records = true) : Decode.Obeys licence initialLength :=
  lets_initialLength (learns h)

theorem obeys_recordAddressSize (size : Nat) (h : licence.records = true) :
    Decode.Obeys licence (recordAddressSize size) :=
  lets_recordAddressSize (learns h) size

theorem obeys_readAddressSize (h : licence.records = true) :
    Decode.Obeys licence readAddressSize :=
  lets_readAddressSize (learns h)

theorem obeys_stringAt (offset : Nat) (h : licence.seeks = true) :
    licence.discipline.judgement.Holds Transfer.Blames (stringAt offset) :=
  lets_stringAt (fun target => obeys_seek target h) offset

theorem obeys_bytes (count : Nat) (h : licence.bulk = true) :
    licence.discipline.judgement.Holds Transfer.Blames (bytes count) := by
  have pieces (sizes : List Nat) :
      licence.discipline.judgement.Holds Transfer.Blames (bytesFrom [] sizes) :=
    obeys_bytesFrom _ _ fun _ _ => obeys_takeAhead .buffer (.inl h)
  refine fun position => ⟨trivial, ?_, fun reply => ⟨False.elim, pieces _ _⟩⟩
  rintro seen seen' (rfl | ⟨plain, -⟩)
  · rfl
  · exact absurd (h.symm.trans plain) (by decide)

theorem obeys_stringOffsetEntry (base index : Nat) (format : Format)
    (seeks : licence.seeks = true) (narrows : licence.narrows = true) :
    Decode.Obeys licence (stringOffsetEntry base index format) :=
  lets_stringOffsetEntry (fun target => obeys_seek target seeks)
    (fun stop => obeys_narrow stop narrows) base index format

end Licensed

end Decode

end Dwarf
