import Dwarf.Proofs.Encoded
import Dwarf.Proofs.Groups
/-!
# Integers in groups of seven bits

A LEB128 integer is read exactly where groups of a word stand that spell a number of its type, and
every encoding of a number is read as that.  What cannot be read is blamed on the window that ends
too early, on the tenth group or on the type.
-/

namespace Dwarf

open Leb128

theorem Source.starts_append_iff {image : Array UInt8} {stop offset : Nat}
    {first rest : List UInt8} :
    Starts image stop offset (first ++ rest) ↔
      Starts image stop offset first ∧ Starts image stop (offset + first.length) rest := by
  simp only [starts_iff_holds, holds_append_iff, List.length_append]
  constructor
  · rintro ⟨inside, there, follow⟩
    exact ⟨⟨by omega, there⟩, by omega, follow⟩
  · rintro ⟨⟨-, there⟩, inside, follow⟩
    exact ⟨by omega, there, follow⟩

namespace Decode

variable {α β ν : Type} {image : Array UInt8} {stop : Nat} {context : Context} {place : Place}
variable {error : Error}

theorem Exact.run_eq_ok_iff {step : Decode α} {grammar : Grammar α} {value : α}
    {left : DirectReader} (h : Exact image place.stop context step grammar) (sound : place.Sound) :
    DirectReader.run image step.run ⟨some place, context⟩ = (.ok value, left) ↔
      ∃ finish, grammar place.offset value finish ∧
        left = ⟨some { place with offset := finish }, context⟩ := by
  constructor
  · exact h.within place value left sound rfl
  · rintro ⟨finish, there, rfl⟩
    exact h.complete place value finish sound rfl there

/-- A step fails at a place with an error. -/
def Fails (image : Array UInt8) (place : Place) (context : Context) (step : Decode α)
    (error : Error) : Prop :=
  (DirectReader.run image step.run ⟨some place, context⟩).1 = .error error

theorem Fails.bind {first : Decode α} (h : Fails image place context first error)
    (next : α → Decode β) : Fails image place context (first >>= next) error := by
  unfold Fails DirectReader.run at h ⊢
  rw [Dialogue.runStep_bind]
  split
  · rename_i ran
    rw [ran] at h
    cases h
  · rename_i ran
    rw [ran] at h
    exact congrArg _ (Except.error.inj h)

theorem Fails.behind {first : Decode α} {value : α} {next : α → Decode β} {place' : Place}
    (ran : DirectReader.run image first.run ⟨some place, context⟩ =
      (.ok value, ⟨some place', context⟩))
    (h : Fails image place' context (next value) error) :
    Fails image place context (first >>= next) error := by
  rw [Fails, DirectReader.run_bind_of_ok ran]
  exact h

theorem run_byte {byte : UInt8} (sound : place.Sound)
    (there : Source.Starts image place.stop place.offset [byte]) :
    DirectReader.run image Decode.byte.run ⟨some place, context⟩ =
      (.ok byte.toNat, ⟨some (place.advance 1), context⟩) :=
  exact_byte.complete place byte.toNat _ sound rfl ⟨byte, there, rfl, rfl⟩

theorem fails_byte (sound : place.Sound) (ends : place.offset = place.stop) :
    Fails image place context byte (.tooFewBytes place.stop 1 0) := by
  rw [Fails, byte, DirectReader.run_unsigned image 1 Nat.one_pos sound, Source.fieldAt,
    if_pos (by omega), ends, Nat.sub_self]

/-- The groups of a number are read one byte at a time, of which so many may follow one that
announces them, and some bytes may not be the last possible one. -/
structure Bytewise (groups : Nat → Decode ν) (excluded : Nat → Prop) (error : Error) : Prop where
  /-- The groups behind one that announces them are read next. -/
  more : ∀ more, ∃ next, groups (more + 1) = byte >>= next ∧
    ∀ group, 128 ≤ group → ∃ rest, next group = groups more >>= rest
  /-- The last possible group is not an excluded one. -/
  last : ∃ next, groups 0 = byte >>= next ∧ ∀ group, excluded group → next group = throw error

/-- The groups of a number are read one byte at a time, and the tenth has a single bit. -/
theorem bytewise_unsignedGroups (begins : Nat) :
    Bytewise (unsignedGroups begins) (1 < ·) (.leb128TooWide begins 64) where
  more _ := ⟨_, rfl, fun _ announces => ⟨_, if_neg (Nat.not_lt_of_le announces)⟩⟩
  last := ⟨_, rfl, fun _ wide => if_neg (Nat.not_le_of_lt wide)⟩

/-- The groups of a number in two's complement are read one byte at a time, and the tenth has
nothing but signs. -/
theorem bytewise_signedGroups (begins : Nat) :
    Bytewise (signedGroups begins) (fun last => last ≠ 0 ∧ last ≠ 0x7f)
      (.leb128TooWide begins 64) where
  more _ := by
    refine ⟨_, rfl, fun group announces => ?_⟩
    have large : ¬ group < 64 := by omega
    exact ⟨_, (if_neg large).trans (if_neg (Nat.not_lt_of_le announces))⟩
  last := by
    refine ⟨_, rfl, fun group wide => ?_⟩
    rw [if_neg wide.1, if_neg wide.2]

namespace Bytewise

variable {groups : Nat → Decode ν} {excluded : Nat → Prop} {lead : List UInt8}

/-- What fails behind bytes that announce another group fails before them. -/
theorem fails_behind {more : Nat} {error' : Error} (h : Bytewise groups excluded error)
    (sound : place.Sound) (there : Source.Starts image place.stop place.offset lead)
    (announcing : ∀ byte ∈ lead, 128 ≤ byte.toNat)
    (fails : Fails image (place.advance lead.length) context (groups more) error') :
    Fails image place context (groups (more + lead.length)) error' := by
  induction lead generalizing place with
  | nil => exact fails
  | cons byte lead ih =>
      obtain ⟨first, follow⟩ := Source.starts_cons_iff.mp there
      obtain ⟨announces, announcing⟩ := List.forall_mem_cons.mp announcing
      obtain ⟨next, reads, passes⟩ := h.more (more + lead.length)
      obtain ⟨rest, goes⟩ := passes byte.toNat announces
      rw [List.length_cons, Nat.add_comm lead.length 1, ← Place.advance_advance] at fails
      rw [List.length_cons, ← Nat.add_assoc, reads]
      apply Fails.behind (run_byte sound first)
      rw [goes]
      exact (ih (sound.advance first.1) follow announcing fails).bind rest

theorem fails_last {last : UInt8} (h : Bytewise groups excluded error) (sound : place.Sound)
    (there : Source.Starts image place.stop place.offset [last]) (wide : excluded last.toNat) :
    Fails image place context (groups 0) error := by
  obtain ⟨next, reads, stops⟩ := h.last
  rw [reads]
  apply Fails.behind (run_byte sound there)
  rw [stops _ wide]
  rfl

theorem fails_end (h : Bytewise groups excluded error) (sound : place.Sound)
    (ends : place.offset = place.stop) (more : Nat) :
    Fails image place context (groups more) (.tooFewBytes place.stop 1 0) := by
  cases more with
  | zero =>
      obtain ⟨next, reads, -⟩ := h.last
      rw [reads]
      exact (fails_byte sound ends).bind next
  | succ more =>
      obtain ⟨next, reads, -⟩ := h.more more
      rw [reads]
      exact (fails_byte sound ends).bind next

end Bytewise

/-! ### Whole integers -/

/-- Reads groups that have to spell an accepted number, and names a width otherwise. -/
def acceptedGroups (groups : (start : Nat) → (more : Nat) → Decode ν) (accepts : ν → Bool)
    (bits : Nat) : Decode ν := do
  let start := (← view).offset
  let value ← groups start 9
  if accepts value then pure value else throw (.leb128TooWide start bits)

/-- Groups of a word that stand at an offset and spell an accepted number. -/
def spelt (image : Array UInt8) (stop : Nat) (word : List UInt8 → Prop) (number : List UInt8 → ν)
    (accepts : ν → Bool) : Grammar ν := fun start value finish =>
  ∃ groups, word groups ∧ Source.Starts image stop start groups ∧ value = number groups ∧
    accepts value ∧ finish = start + groups.length

section Accepted

variable {groups : Nat → Nat → Decode ν} {accepts : ν → Bool} {bits : Nat}
variable {word : List UInt8 → Prop} {number : List UInt8 → ν} {excluded : Nat → Prop}

theorem exact_acceptedGroups
    (reads : ∀ begins, Exact image stop context (groups begins 9)
      (spelt image stop word number fun _ => true)) :
    Exact image stop context (acceptedGroups groups accepts bits)
      (spelt image stop word number accepts) := by
  refine .look fun seen _ => ?_
  refine ((reads seen.offset).bind fun value => (Exact.pure value).guard).congr
    fun start value finish => ?_
  constructor
  · rintro ⟨-, -, ⟨groups, formed, there, rfl, -, rfl⟩, accepted, rfl, rfl⟩
    exact ⟨groups, formed, there, rfl, accepted, rfl⟩
  · rintro ⟨groups, formed, there, rfl, accepted, rfl⟩
    exact ⟨_, _, ⟨groups, formed, there, rfl, rfl, rfl⟩, accepted, rfl, rfl⟩

theorem fails_acceptedGroups (h : Fails image place context (groups place.offset 9) error) :
    Fails image place context (acceptedGroups groups accepts bits) error :=
  h.bind _

theorem fails_of_tenth {lead : List UInt8} {last : UInt8}
    (bytewise : Bytewise (groups place.offset) excluded error) (sound : place.Sound)
    (nine : lead.length = 9) (announcing : ∀ byte ∈ lead, 128 ≤ byte.toNat)
    (wide : excluded last.toNat)
    (there : Source.Starts image place.stop place.offset (lead ++ [last])) :
    Fails image place context (acceptedGroups groups accepts bits) error := by
  obtain ⟨first, follow⟩ := Source.starts_append_iff.mp there
  have behind : (place.advance lead.length).Sound := sound.advance first.1
  have fails : Fails image (place.advance lead.length) context (groups place.offset 0) error :=
    bytewise.fails_last behind follow wide
  have tenth := bytewise.fails_behind sound first announcing fails
  rw [nine] at tenth
  exact fails_acceptedGroups tenth

/-- An integer that goes on at the end of the window lacks a byte. -/
theorem fails_of_end {lead : List UInt8}
    (bytewise : Bytewise (groups place.offset) excluded error) (sound : place.Sound)
    (few : lead.length < 10) (announcing : ∀ byte ∈ lead, 128 ≤ byte.toNat)
    (there : Source.Starts image place.stop place.offset lead)
    (ends : place.offset + lead.length = place.stop) :
    Fails image place context (acceptedGroups groups accepts bits)
      (.tooFewBytes place.stop 1 0) := by
  have behind : (place.advance lead.length).Sound := sound.advance there.1
  have fails : Fails image (place.advance lead.length) context
      (groups place.offset (9 - lead.length)) (.tooFewBytes place.stop 1 0) :=
    bytewise.fails_end behind ends _
  have lacks := bytewise.fails_behind sound there announcing fails
  rw [Nat.sub_add_cancel (Nat.le_of_lt_succ few)] at lacks
  exact fails_acceptedGroups lacks

/-- An integer that its groups spell but that is not accepted does not fit its width. -/
theorem fails_of_word {spelling : List UInt8} (sound : place.Sound)
    (reads : ∀ begins, Exact image place.stop context (groups begins 9)
      (spelt image place.stop word number fun _ => true))
    (formed : word spelling) (there : Source.Starts image place.stop place.offset spelling)
    (wide : ¬ accepts (number spelling)) :
    Fails image place context (acceptedGroups groups accepts bits)
      (.leb128TooWide place.offset bits) := by
  have ran := (reads place.offset).complete place (number spelling) _ sound rfl
    ⟨spelling, formed, there, rfl, rfl, rfl⟩
  have goes : Fails image place context (do
      let value ← groups place.offset 9
      if accepts value then pure value else throw (.leb128TooWide place.offset bits))
        (.leb128TooWide place.offset bits) := by
    apply Fails.behind ran
    rw [if_neg wide]
    rfl
  exact goes

end Accepted

theorem exact_wordGroups (begins : Nat) :
    Exact image stop context (unsignedGroups begins 9)
      (spelt image stop OfWord sum fun _ => true) := by
  refine (exact_unsignedGroups begins 9).congr fun start value finish => ?_
  constructor
  · rintro ⟨groups, formed, few, there, fits, rfl, rfl⟩
    have word := ofWord_iff.mpr ⟨formed, few, fits⟩
    exact ⟨groups, word, there, (sum_eq_unsigned groups).symm, rfl, rfl⟩
  · rintro ⟨groups, word, there, rfl, -, rfl⟩
    obtain ⟨formed, few, fits⟩ := ofWord_iff.mp word
    rw [sum_eq_unsigned]
    exact ⟨groups, formed, few, there, fits, rfl, rfl⟩

theorem exact_signedWordGroups (begins : Nat) :
    Exact image stop context (signedGroups begins 9)
      (spelt image stop OfSignedWord signExtended fun _ => true) := by
  refine (exact_signedGroups begins 9).congr fun start value finish => ?_
  constructor
  · rintro ⟨groups, formed, few, there, fits, rfl, rfl⟩
    have word := ofSignedWord_iff.mpr ⟨formed, few, fits⟩
    exact ⟨groups, word, there, word.signed_eq, rfl, rfl⟩
  · rintro ⟨groups, word, there, rfl, -, rfl⟩
    obtain ⟨formed, few, fits⟩ := ofSignedWord_iff.mp word
    rw [← word.signed_eq]
    exact ⟨groups, formed, few, there, fits, rfl, rfl⟩

end Decode

namespace Reader

variable {image : Array UInt8} {reader : Reader} {place : Place} {context : Context}

theorem run_direct {α : Type} {step : Decode α} (reached : reader.Reachable (.ofImage image))
    (stands : reader.direct = ⟨some place, context⟩) (obeys : step.Obeys .plain)
    (log : AccessLog) :
    DirectReader.run image step.run ⟨some place, context⟩ =
      ((reader.run (.ofImage image) step.run log).1,
        (reader.run (.ofImage image) step.run log).2.1.direct) := by
  rw [← stands]
  exact run_ofImage reached.sound (reached.shows (Source.truthful_ofImage image)) rfl obeys log

/-- An integer in groups is read exactly where groups of a word stand that spell an accepted number,
and what cannot be read is blamed on the tenth group, on the width or on the end of the window. -/
theorem acceptedGroups_exact {ν : Type} {groups : Nat → Nat → Decode ν} {accepts : ν → Bool}
    {bits : Nat} {word : List UInt8 → Prop} {number : List UInt8 → ν} {excluded : Nat → Prop}
    (reached : reader.Reachable (.ofImage image))
    (stands : reader.direct = ⟨some place, context⟩)
    (obeys : (Decode.acceptedGroups groups accepts bits).Obeys .plain)
    (reads : ∀ begins, Decode.Exact image place.stop context (groups begins 9)
      (Decode.spelt image place.stop word number fun _ => true))
    (bytewise : ∀ begins, Decode.Bytewise (groups begins) excluded (.leb128TooWide begins 64))
    (log : AccessLog) :
    let ran := reader.run (.ofImage image) (Decode.acceptedGroups groups accepts bits).run log
    let there (bytes : List UInt8) : Prop := Source.Starts image place.stop place.offset bytes
    (∀ value left, ran.1 = .ok value ∧ ran.2.1.direct = left ↔
        ∃ spelling, word spelling ∧ there spelling ∧ value = number spelling ∧ accepts value ∧
          left = ⟨some (place.advance spelling.length), context⟩) ∧
      (∀ lead last, lead.length = 9 → (∀ byte ∈ lead, 128 ≤ byte.toNat) → excluded last.toNat →
        there (lead ++ [last]) → ran.1 = .error (.leb128TooWide place.offset 64)) ∧
      (∀ spelling, word spelling → there spelling → ¬ accepts (number spelling) →
        ran.1 = .error (.leb128TooWide place.offset bits)) ∧
      ∀ lead, lead.length < 10 → (∀ byte ∈ lead, 128 ≤ byte.toNat) → there lead →
        place.offset + lead.length = place.stop →
          ran.1 = .error (.tooFewBytes place.stop 1 0) := by
  intro ran there
  have sound : place.Sound := reached.sound.direct place (stands ▸ rfl)
  have direct := run_direct reached stands obeys log
  have fails {error : Error} (h : Decode.Fails image place context
      (Decode.acceptedGroups groups accepts bits) error) : ran.1 = .error error :=
    (congrArg Prod.fst direct).symm.trans h
  refine ⟨fun value left => ?_, fun lead last nine announcing wide starts => ?_,
    fun spelling formed starts wide => ?_, fun lead few announcing starts ends => ?_⟩
  · rw [← Prod.mk.injEq, ← direct, (Decode.exact_acceptedGroups reads).run_eq_ok_iff sound]
    constructor
    · rintro ⟨-, ⟨spelling, formed, starts, rfl, accepted, rfl⟩, rfl⟩
      exact ⟨spelling, formed, starts, rfl, accepted, rfl⟩
    · rintro ⟨spelling, formed, starts, rfl, accepted, rfl⟩
      exact ⟨_, ⟨spelling, formed, starts, rfl, accepted, rfl⟩, rfl⟩
  · exact fails (Decode.fails_of_tenth (bytewise _) sound nine announcing wide starts)
  · exact fails (Decode.fails_of_word sound reads formed starts wide)
  · exact fails (Decode.fails_of_end (bytewise place.offset) sound few announcing starts ends)

/-- An unsigned LEB128 integer is read exactly where the window holds at most ten groups of a word
whose sum fits the type, and the reader then stands behind them.  A tenth group with more than one
bit does not fit a word, a sum that only its type excludes does not fit that, and a window that ends
before the last group lacks a byte.  Every number of a word that the type holds is read from its
shortest encoding, and from longer ones of up to ten groups. -/
theorem uleb128_exact (reached : reader.Reachable (.ofImage image))
    (stands : reader.direct = ⟨some place, context⟩) (type : IntType) (log : AccessLog) :
    let ran := reader.run (.ofImage image) (Decode.uleb128 type).run log
    let behind (groups : List UInt8) : DirectReader :=
      ⟨some (place.advance groups.length), context⟩
    let there (bytes : List UInt8) : Prop := Source.Starts image place.stop place.offset bytes
    (∀ value left, ran.1 = .ok value ∧ ran.2.1.direct = left ↔
        ∃ groups, OfWord groups ∧ there groups ∧ value = sum groups ∧ type.holds value ∧
          left = behind groups) ∧
      (∀ lead last, lead.length = 9 → (∀ byte ∈ lead, 128 ≤ byte.toNat) → 1 < last.toNat →
        there (lead ++ [last]) → ran.1 = .error (.leb128TooWide place.offset 64)) ∧
      (∀ groups, OfWord groups → there groups → ¬ type.holds (sum groups) →
        ran.1 = .error (.leb128TooWide place.offset type.bits)) ∧
      (∀ lead, lead.length < 10 → (∀ byte ∈ lead, 128 ≤ byte.toNat) → there lead →
        place.offset + lead.length = place.stop →
          ran.1 = .error (.tooFewBytes place.stop 1 0)) ∧
      ∀ value extra, value ≤ Word.max → type.holds value →
        extra = 0 ∨ (encodeUnsigned value extra).length ≤ 10 →
          there (encodeUnsigned value extra) →
            ran.1 = .ok value ∧ ran.2.1.direct = behind (encodeUnsigned value extra) := by
  intro ran behind there
  obtain ⟨exactly, tenth, narrow, ends⟩ := acceptedGroups_exact reached stands
    (Decode.obeys_uleb128 type) Decode.exact_wordGroups Decode.bytewise_unsignedGroups log
  refine ⟨exactly, tenth, narrow, ends, fun value extra small holds few starts => ?_⟩
  have same := unsigned_encodeUnsigned value extra
  rw [← sum_eq_unsigned] at same
  exact (exactly value _).mpr ⟨_, ofWord_encodeUnsigned small few, starts, same.symm, holds, rfl⟩

/-- The largest word is read from ten groups of which the buffer has loaded the first. -/
theorem uleb128_exact_straddled :
    let image : Array UInt8 := #[0, 0, 0, 0, 0, 0, 0, 0, 0, 0, 0, 0, 0, 0, 0,
      0xff, 0xff, 0xff, 0xff, 0xff, 0xff, 0xff, 0xff, 0xff, 0x01]
    let fresh : Reader := ⟨some ⟨.zeroed 16, 0, 0, 0, 0, 25, 25, 25⟩, .unknown⟩
    let reader := (fresh.run (.ofImage image) (Decode.take 15).run #[]).2.1
    let ran := reader.run (.ofImage image) (Decode.uleb128 .word).run #[]
    reader.window.map Window.available = some 1 ∧ ran.1 = .ok Word.max ∧
      ran.2.1.direct = ⟨some ⟨25, 0, 25, 25, 25⟩, .unknown⟩ := by
  intro image fresh reader ran
  have bound : Reader.bound (.zeroed 16) ⟨0, 25⟩ 25 = .ok fresh := rfl
  have reached : reader.Reachable (.ofImage image) := .run (Decode.take 15).run #[] (.bound bound)
  have stands : reader.direct = ⟨some ⟨15, 0, 25, 25, 25⟩, .unknown⟩ := by decide +kernel
  have loaded : reader.window.map Window.available = some 1 := by decide +kernel
  have groups : encodeUnsigned Word.max 0 =
      [0xff, 0xff, 0xff, 0xff, 0xff, 0xff, 0xff, 0xff, 0xff, 0x01] := by
    simp [encodeUnsigned, Word.max]
  have there : Source.Starts image 25 15 (encodeUnsigned Word.max 0) := by
    rw [groups]
    exact ⟨by decide, by decide +kernel⟩
  clear_value reader
  obtain ⟨-, -, -, -, encoded⟩ := uleb128_exact reached stands .word #[]
  have read := encoded Word.max 0 (Nat.le_refl _) (by decide) (.inl rfl) there
  rw [groups] at read
  exact ⟨loaded, read⟩

/-- A signed LEB128 integer is read exactly where the window holds at most ten groups of a word in
two's complement whose pattern fits the type, sign and all, and the reader then stands behind them.
A tenth group that has more than signs does not fit a word, a number that only its type excludes
does not fit that, and a window that ends before the last group lacks a byte.  Every number of a
word that the type holds, the least and the largest too, is read from its shortest encoding, and
from longer ones of up to ten groups. -/
theorem sleb128_exact (reached : reader.Reachable (.ofImage image))
    (stands : reader.direct = ⟨some place, context⟩) (type : IntType) (log : AccessLog) :
    let ran := reader.run (.ofImage image) (Decode.sleb128 type).run log
    let behind (groups : List UInt8) : DirectReader :=
      ⟨some (place.advance groups.length), context⟩
    let there (bytes : List UInt8) : Prop := Source.Starts image place.stop place.offset bytes
    (∀ value left, ran.1 = .ok value ∧ ran.2.1.direct = left ↔
        ∃ groups, OfSignedWord groups ∧ there groups ∧ value = signExtended groups ∧
          type.holds value ∧ left = behind groups) ∧
      (∀ lead last, lead.length = 9 → (∀ byte ∈ lead, 128 ≤ byte.toNat) →
        last.toNat ≠ 0 ∧ last.toNat ≠ 0x7f → there (lead ++ [last]) →
          ran.1 = .error (.leb128TooWide place.offset 64)) ∧
      (∀ groups, OfSignedWord groups → there groups → ¬ type.holds (signExtended groups) →
        ran.1 = .error (.leb128TooWide place.offset type.bits)) ∧
      (∀ lead, lead.length < 10 → (∀ byte ∈ lead, 128 ≤ byte.toNat) → there lead →
        place.offset + lead.length = place.stop →
          ran.1 = .error (.tooFewBytes place.stop 1 0)) ∧
      ∀ value extra, IntType.signedWord.holds value → type.holds value →
        extra = 0 ∨ (encodeSigned value extra).length ≤ 10 →
          there (encodeSigned value extra) →
            ran.1 = .ok value ∧ ran.2.1.direct = behind (encodeSigned value extra) := by
  intro ran behind there
  obtain ⟨exactly, tenth, narrow, ends⟩ := acceptedGroups_exact reached stands
    (Decode.obeys_sleb128 type) Decode.exact_signedWordGroups Decode.bytewise_signedGroups log
  refine ⟨exactly, tenth, narrow, ends, fun value extra word holds few starts => ?_⟩
  have formed := ofSignedWord_encodeSigned word few
  have same := signed_encodeSigned value extra
  rw [formed.signed_eq] at same
  exact (exactly value _).mpr ⟨_, formed, starts, same.symm, holds, rfl⟩

/-- The least word in two's complement is read from ten groups of which the buffer has loaded the
first. -/
theorem sleb128_exact_straddled :
    let image : Array UInt8 := #[0, 0, 0, 0, 0, 0, 0, 0, 0, 0, 0, 0, 0, 0, 0,
      0x80, 0x80, 0x80, 0x80, 0x80, 0x80, 0x80, 0x80, 0x80, 0x7f]
    let fresh : Reader := ⟨some ⟨.zeroed 16, 0, 0, 0, 0, 25, 25, 25⟩, .unknown⟩
    let reader := (fresh.run (.ofImage image) (Decode.take 15).run #[]).2.1
    let ran := reader.run (.ofImage image) (Decode.sleb128 .signedWord).run #[]
    reader.window.map Window.available = some 1 ∧ ran.1 = .ok (-2 ^ 63) ∧
      ran.2.1.direct = ⟨some ⟨25, 0, 25, 25, 25⟩, .unknown⟩ := by
  intro image fresh reader ran
  have bound : Reader.bound (.zeroed 16) ⟨0, 25⟩ 25 = .ok fresh := rfl
  have reached : reader.Reachable (.ofImage image) := .run (Decode.take 15).run #[] (.bound bound)
  have stands : reader.direct = ⟨some ⟨15, 0, 25, 25, 25⟩, .unknown⟩ := by decide +kernel
  have loaded : reader.window.map Window.available = some 1 := by decide +kernel
  have groups : encodeSigned (-2 ^ 63) 0 =
      [0x80, 0x80, 0x80, 0x80, 0x80, 0x80, 0x80, 0x80, 0x80, 0x7f] := by
    simp [encodeSigned]
  have there : Source.Starts image 25 15 (encodeSigned (-2 ^ 63) 0) := by
    rw [groups]
    exact ⟨by decide, by decide +kernel⟩
  clear_value reader
  obtain ⟨-, -, -, -, encoded⟩ := sleb128_exact reached stands .signedWord #[]
  have read := encoded (-2 ^ 63) 0 (by decide) (by decide) (.inl rfl) there
  rw [groups] at read
  exact ⟨loaded, read⟩

end Reader

end Dwarf
