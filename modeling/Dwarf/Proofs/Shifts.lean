import Dwarf.Decode.Integer
import Dwarf.Proofs.Reader
import Mathlib.Data.Nat.Bitwise
import Mathlib.Tactic.Ring
/-!
# LEB128 integers by shifts

The groups of a LEB128 integer are shifted into place, and a shift moves a word by less than its
width or is not done at all.  A sound reader delivers single bytes, and behind nine of them the
tenth has to be the last, so reading by shifts is reading group by group.
-/

namespace Dwarf

/-- A word moved to the left, by less than its width. -/
def Word.shiftLeft? (word shift : Nat) : Option Nat :=
  if shift < 64 then some ((word <<< shift) % (max + 1)) else none

theorem Word.shiftLeft?_of_le {word shift : Nat} (small : shift < 64)
    (fits : 2 ^ shift * word ≤ max) :
    shiftLeft? word shift = some (2 ^ shift * word) := by
  rw [shiftLeft?, if_pos small, Nat.shiftLeft_eq, Nat.mul_comm word,
    Nat.mod_eq_of_lt (Nat.lt_succ_of_le fits)]

namespace Decode

/-- Shifts the groups of an unsigned encoding into place, of which so many may follow.  Nothing
comes of a shift that is too far. -/
def unsignedShifts (start : Nat) : (groups result shift : Nat) → Decode (Option Nat)
  | 0, _, _ => pure none
  | groups + 1, result, shift => do
    let group ← byte
    if shift = 63 ∧ 1 < group then throw (.leb128TooWide start 64)
    else
      match Word.shiftLeft? (group &&& 0x7f) shift with
      | none => pure none
      | some moved =>
        if group &&& 0x80 = 0 then pure (some (result ||| moved))
        else unsignedShifts start groups (result ||| moved) (shift + 7)

/-- Shifts the groups of a signed encoding into place, of which so many may follow, and the sign
before them.  Nothing comes of a shift that is too far. -/
def signedShifts (start : Nat) : (groups result shift : Nat) → Decode (Option Int)
  | 0, _, _ => pure none
  | groups + 1, result, shift => do
    let group ← byte
    if shift = 63 ∧ group ≠ 0 ∧ group ≠ 0x7f then throw (.leb128TooWide start 64)
    else
      match Word.shiftLeft? (group &&& 0x7f) shift with
      | none => pure none
      | some moved =>
        if group &&& 0x80 = 0 then
          if shift + 7 < 64 ∧ group &&& 0x40 ≠ 0 then
            match Word.shiftLeft? Word.max (shift + 7) with
            | none => pure none
            | some sign =>
              pure (some (IntType.signedWord.ofPattern (result ||| moved ||| sign)))
          else pure (some (IntType.signedWord.ofPattern (result ||| moved)))
        else signedShifts start groups (result ||| moved) (shift + 7)

/-- Two steps run alike on every sound reader, over every source. -/
def Alike {α : Type} (step step' : Decode α) : Prop :=
  ∀ (source : Source) (reader : Reader) (log : AccessLog), reader.Sound →
    reader.run source step.run log = reader.run source step'.run log

variable {α : Type}

theorem Alike.refl (step : Decode α) : Alike step step := fun _ _ _ _ => rfl

/-- A byte of a sound reader is below 256, and steps behind it need only run alike for those. -/
theorem Alike.byte {next next' : Nat → Decode α}
    (h : ∀ group < 256, Alike (next group) (next' group)) :
    Alike (Decode.byte >>= next) (Decode.byte >>= next') := by
  intro source reader log sound
  apply Dialogue.runStep_bind_congr
  intro group ⟨reached, log'⟩ read
  obtain ⟨bytes, ⟨moved, log₁⟩, taken, rest⟩ := Dialogue.runStep_bind_ok _ _ read
  cases rest
  obtain ⟨moved_sound, -, length, -⟩ := sound.take (taken :
    reader.take source 1 .buffer log = (.ok bytes, reached, log'))
  refine h _ ?_ source reached log' moved_sound
  obtain ⟨only, rfl⟩ := List.length_eq_one_iff.mp length
  have small := only.toNat_lt
  simp only [littleEndian]
  omega

theorem or_eq_add {result shift group : Nat} (small : result < 2 ^ shift) :
    result ||| 2 ^ shift * group = result + 2 ^ shift * group := by
  rw [Nat.lor_comm, ← Nat.two_pow_add_eq_or_of_lt small, Nat.add_comm]

theorem place_group {result shift group : Nat} (small : result < 2 ^ shift) (few : group < 128) :
    result + 2 ^ shift * group < 2 ^ (shift + 7) :=
  calc result + 2 ^ shift * group
      < 2 ^ shift + 2 ^ shift * group := Nat.add_lt_add_right small _
    _ = 2 ^ shift * (group + 1) := by rw [Nat.mul_add_one, Nat.add_comm]
    _ ≤ 2 ^ shift * 2 ^ 7 := Nat.mul_le_mul_left _ few
    _ = 2 ^ (shift + 7) := (Nat.pow_add 2 shift 7).symm

theorem and_low (group : Nat) : group &&& 0x7f = group % 128 :=
  Nat.and_two_pow_sub_one_eq_mod group 7

theorem and_bit (group bit : Nat) : group &&& 2 ^ bit = 0 ↔ group / 2 ^ bit % 2 = 0 := by
  rw [Nat.and_two_pow, Nat.testBit_eq_decide_div_mod_eq]
  rcases Nat.mod_two_eq_zero_or_one (group / 2 ^ bit) with even | odd
  · simp [even]
  · simp [odd]

/-- A group that is not the tenth is shifted into place as it is. -/
theorem shift_group {shift : Nat} (group : Nat) (room : shift + 7 ≤ 63) :
    Word.shiftLeft? (group &&& 0x7f) shift = some (2 ^ shift * (group % 128)) := by
  rw [and_low]
  apply Word.shiftLeft?_of_le (by omega)
  have fits : 0 + 2 ^ shift * (group % 128) < 2 ^ (shift + 7) :=
    place_group (Nat.two_pow_pos shift) (Nat.mod_lt _ (by decide))
  have word : 2 ^ (shift + 7) ≤ 2 ^ 63 := Nat.pow_le_pow_right (by decide) room
  simp only [Word.max]
  omega

/-- Shifting the groups of an unsigned encoding into place reads what the groups denote. -/
theorem alike_unsignedShifts (start : Nat) {more shift result : Nat} (place : shift + 7 * more = 63)
    (small : result < 2 ^ shift) :
    Alike (unsignedShifts start (more + 1) result shift)
      ((fun value => some (result + 2 ^ shift * value)) <$> unsignedGroups start more) := by
  induction more generalizing shift result with
  | zero =>
      obtain rfl : shift = 63 := place
      rw [unsignedShifts, unsignedGroups, map_bind]
      apply Alike.byte
      intro group byte
      by_cases last : group ≤ 1
      · have fits : 2 ^ 63 * (group % 128) ≤ Word.max := by
          simp only [Word.max]
          omega
        have clear : group &&& 0x80 = 0 := (and_bit group 7).mpr (by omega)
        have whole : group % 128 = group := Nat.mod_eq_of_lt (by omega)
        rw [if_neg (by omega), and_low, Word.shiftLeft?_of_le (by decide) fits, if_pos last]
        dsimp only
        rw [if_pos clear, or_eq_add small, whole, map_pure]
        exact Alike.refl _
      · rw [if_pos ⟨rfl, Nat.lt_of_not_le last⟩, if_neg last]
        exact Alike.refl _
  | succ more ih =>
      have room : shift + 7 ≤ 63 := by omega
      rw [unsignedShifts, unsignedGroups, map_bind]
      apply Alike.byte
      intro group byte
      rw [if_neg (by omega), shift_group group room]
      dsimp only
      rw [or_eq_add small]
      by_cases last : group < 128
      · have clear : group &&& 0x80 = 0 := (and_bit group 7).mpr (by omega)
        rw [if_pos clear, if_pos last, Nat.mod_eq_of_lt last, map_pure]
        exact Alike.refl _
      · have follows : ¬ group &&& 0x80 = 0 := fun clear => by
          have even := (and_bit group 7).mp clear
          omega
        have rest := ih (by omega : shift + 7 + 7 * more = 63)
          (place_group small (Nat.mod_lt group (by decide)))
        have values : ∀ value, result + 2 ^ shift * (group % 128) + 2 ^ (shift + 7) * value =
            result + 2 ^ shift * (group % 128 + 128 * value) := fun value => by ring
        simp only [values] at rest
        rw [if_neg follows, if_neg last, map_bind]
        simp only [map_pure]
        rw [← map_eq_pure_bind]
        exact rest

theorem ofPattern_low {pattern : Nat} (h : pattern < 2 ^ 63) :
    IntType.signedWord.ofPattern pattern = pattern := by
  have half : IntType.patterns (64 - 1) = 2 ^ 63 := Nat.one_shiftLeft 63
  have low : ¬ IntType.patterns (64 - 1) ≤ pattern := by omega
  simp only [IntType.ofPattern, IntType.signedWord, IntType.twosComplement, low, decide_false,
    Bool.and_false, Bool.false_eq_true, if_false]

theorem ofPattern_high {pattern : Nat} (h : 2 ^ 63 ≤ pattern) :
    IntType.signedWord.ofPattern pattern = pattern - 2 ^ 64 := by
  have half : IntType.patterns (64 - 1) = 2 ^ 63 := Nat.one_shiftLeft 63
  have high : IntType.patterns (64 - 1) ≤ pattern := by omega
  have all : IntType.patterns 64 = 2 ^ 64 := Nat.one_shiftLeft 64
  simp only [IntType.ofPattern, IntType.signedWord, IntType.twosComplement, high, decide_true,
    Bool.and_true, if_true, all, Nat.cast_pow, Nat.cast_ofNat]

/-- A shift splits the number of words into the patterns below it and those above it. -/
theorem two_pow_split {shift : Nat} (room : shift ≤ 63) :
    2 ^ shift * 2 ^ (64 - shift) = 2 ^ 64 := by
  rw [← Nat.pow_add, Nat.add_sub_cancel' (by omega)]

/-- The sign before the groups that are in place. -/
theorem shift_sign {shift : Nat} (room : shift ≤ 63) :
    Word.shiftLeft? Word.max shift = some (2 ^ shift * (2 ^ (64 - shift) - 1)) := by
  have split := two_pow_split room
  have below : 0 < 2 ^ shift := Nat.two_pow_pos shift
  have above : 0 < 2 ^ (64 - shift) := Nat.two_pow_pos (64 - shift)
  have ones : Word.max = 2 ^ (64 - shift) * (2 ^ shift - 1) + (2 ^ (64 - shift) - 1) := by
    rw [Nat.mul_sub_one, Nat.mul_comm, split]
    have more : 2 ^ (64 - shift) ≤ 2 ^ 64 := Nat.pow_le_pow_right (by decide) (Nat.sub_le _ _)
    simp only [Word.max]
    omega
  rw [Word.shiftLeft?, if_pos (by omega), Nat.shiftLeft_eq, Nat.mul_comm]
  rw [show Word.max + 1 = 2 ^ shift * 2 ^ (64 - shift) from split.symm, Nat.mul_mod_mul_left, ones,
    Nat.mul_add_mod, Nat.mod_eq_of_lt (Nat.sub_lt above (by decide))]

/-- The sign before the groups that are in place takes two to the power of the shift from their
value. -/
theorem ofPattern_sign {pattern shift : Nat} (room : shift ≤ 63) (small : pattern < 2 ^ shift) :
    IntType.signedWord.ofPattern (pattern ||| 2 ^ shift * (2 ^ (64 - shift) - 1)) =
      pattern - 2 ^ shift := by
  have split := two_pow_split room
  have half : 2 ^ shift ≤ 2 ^ 63 := Nat.pow_le_pow_right (by decide) room
  rw [or_eq_add small, Nat.mul_sub_one, split, ofPattern_high (by omega)]
  have cast : ((2 ^ shift : Nat) : Int) = 2 ^ shift := Nat.cast_pow 2 shift
  rw [← cast]
  omega

/-- Shifting the groups of a signed encoding into place, and the sign before them, reads what the
groups denote. -/
theorem alike_signedShifts (start : Nat) {more shift result : Nat} (place : shift + 7 * more = 63)
    (small : result < 2 ^ shift) :
    Alike (signedShifts start (more + 1) result shift)
      ((fun value => some (result + 2 ^ shift * value)) <$> signedGroups start more) := by
  induction more generalizing shift result with
  | zero =>
      obtain rfl : shift = 63 := place
      rw [signedShifts, signedGroups, map_bind]
      apply Alike.byte
      intro group byte
      by_cases zero : group = 0
      · subst zero
        have moved : Word.shiftLeft? (0 &&& 0x7f) 63 = some 0 := rfl
        rw [if_neg (by decide), moved, if_pos rfl]
        dsimp only
        rw [if_pos (by decide), if_neg (by decide), Nat.or_zero, ofPattern_low small, map_pure,
          mul_zero, add_zero]
        exact Alike.refl _
      by_cases ones : group = 0x7f
      · subst ones
        have moved : Word.shiftLeft? (0x7f &&& 0x7f) 63 = some (2 ^ 63 * 1) := rfl
        have value : ((result + 2 ^ 63 * 1 : Nat) : Int) - 2 ^ 64 = result + 2 ^ 63 * -1 := by omega
        rw [if_neg (by decide), moved, if_neg (by decide), if_pos rfl]
        dsimp only
        rw [if_pos (by decide), if_neg (by decide), or_eq_add small, ofPattern_high (by omega),
          map_pure, value]
        exact Alike.refl _
      · rw [if_pos ⟨rfl, zero, ones⟩, if_neg zero, if_neg ones]
        exact Alike.refl _
  | succ more ih =>
      have room : shift + 7 ≤ 63 := by omega
      rw [signedShifts, signedGroups, map_bind]
      apply Alike.byte
      intro group byte
      have next := place_group small (Nat.mod_lt group (by decide : 0 < 128))
      rw [if_neg (by omega), shift_group group room]
      dsimp only
      rw [or_eq_add small]
      by_cases positive : group < 64
      · have clear : group &&& 0x80 = 0 := (and_bit group 7).mpr (by omega)
        have plus : ¬ (shift + 7 < 64 ∧ group &&& 0x40 ≠ 0) := fun minus =>
          minus.2 ((and_bit group 6).mpr (by omega))
        have low := Nat.lt_of_lt_of_le next (Nat.pow_le_pow_right (by decide) room)
        rw [if_pos clear, if_neg plus, if_pos positive, ofPattern_low low, map_pure,
          Nat.mod_eq_of_lt (by omega)]
        push_cast
        exact Alike.refl _
      by_cases last : group < 128
      · have clear : group &&& 0x80 = 0 := (and_bit group 7).mpr (by omega)
        have minus : shift + 7 < 64 ∧ group &&& 0x40 ≠ 0 := by
          refine ⟨by omega, fun plus => ?_⟩
          have even := (and_bit group 6).mp plus
          omega
        have value : ((result + 2 ^ shift * group : Nat) : Int) - 2 ^ (shift + 7) =
            result + 2 ^ shift * (group - 128) := by
          push_cast
          ring
        rw [if_pos clear, if_pos minus, shift_sign room]
        dsimp only
        rw [ofPattern_sign room next, if_neg positive, if_pos last, map_pure,
          Nat.mod_eq_of_lt last, value]
        exact Alike.refl _
      · have follows : ¬ group &&& 0x80 = 0 := fun clear => by
          have even := (and_bit group 7).mp clear
          omega
        have rest := ih (by omega : shift + 7 + 7 * more = 63) next
        have values : ∀ value : Int, ((result + 2 ^ shift * (group % 128) : Nat) : Int) +
            2 ^ (shift + 7) * value = result + 2 ^ shift * ((group % 128 : Nat) + 128 * value) :=
          fun value => by
            push_cast
            ring
        simp only [values] at rest
        rw [if_neg follows, if_neg positive, if_neg last, map_bind]
        simp only [map_pure]
        rw [← map_eq_pure_bind]
        exact rest

theorem alike_unsigned (start : Nat) :
    Alike (unsignedShifts start 10 0 0) (some <$> unsignedGroups start 9) := by
  have whole : ∀ value, 0 + 2 ^ 0 * value = value := fun value => by
    rw [Nat.zero_add, pow_zero, Nat.one_mul]
  have alike := alike_unsignedShifts start (rfl : 0 + 7 * 9 = 63) (by decide : 0 < 2 ^ 0)
  simp only [whole] at alike
  exact alike

theorem alike_signed (start : Nat) :
    Alike (signedShifts start 10 0 0) (some <$> signedGroups start 9) := by
  have whole : ∀ value : Int, ((0 : Nat) : Int) + 2 ^ 0 * value = value := fun value => by
    rw [Nat.cast_zero, zero_add, pow_zero, one_mul]
  have alike := alike_signedShifts start (rfl : 0 + 7 * 9 = 63) (by decide : 0 < 2 ^ 0)
  simp only [whole] at alike
  exact alike

end Decode

end Dwarf
