import Dwarf.Proofs.Window
import Dwarf.Query
/-!
# Positions in words

In memory the positions of a window are words of 64 bits, and their sums and differences wrap.  Some
sums are checked, one saturates, and some are taken as they come.  On a sound window every one of
these computations accepts what the exact numbers allow and nothing else, and finds the exact
result.
-/

namespace Dwarf

namespace Word

/-- The largest word. -/
def top : UInt64 := 0xFFFFFFFFFFFFFFFF

/-- The sum of two words, unless it wraps. -/
def checkedAdd (a b : UInt64) : Option UInt64 := if a + b < a then none else some (a + b)

/-- The product of two words, unless it wraps. -/
def checkedMul (a b : UInt64) : Option UInt64 :=
  if b = 0 ∨ a ≤ top / b then some (a * b) else none

/-- The sum of two words, or the largest word if it wraps. -/
def saturatingAdd (a b : UInt64) : UInt64 := (checkedAdd a b).getD top

theorem toNat_le_max (a : UInt64) : a.toNat ≤ max := Nat.le_of_lt_succ a.toNat_lt

theorem mod_of_le {n : Nat} (h : n ≤ max) : n % UInt64.size = n :=
  Nat.mod_eq_of_lt (Nat.lt_succ_of_le h)

theorem toNat_ofNat_of_le {n : Nat} (h : n ≤ max) : (UInt64.ofNat n).toNat = n :=
  UInt64.toNat_ofNat'.trans (mod_of_le h)

theorem toNat_add_of_le {a b : UInt64} (h : a.toNat + b.toNat ≤ max) :
    (a + b).toNat = a.toNat + b.toNat :=
  (UInt64.toNat_add a b).trans (mod_of_le h)

theorem toNat_min (a b : UInt64) : (min a b).toNat = min a.toNat b.toNat := by
  rcases Nat.le_total a.toNat b.toNat with le | le
  · rw [Nat.min_eq_left le]
    exact congrArg UInt64.toNat (if_pos (UInt64.le_iff_toNat_le.mpr le))
  · rw [Nat.min_eq_right le]
    by_cases both : a.toNat ≤ b.toNat
    · exact (congrArg UInt64.toNat (if_pos (UInt64.le_iff_toNat_le.mpr both))).trans
        (Nat.le_antisymm both le)
    · exact congrArg UInt64.toNat (if_neg (mt UInt64.le_iff_toNat_le.mp both))

theorem cases_of_map_eq {checked : Option UInt64} {exact : Nat}
    (h : checked.map UInt64.toNat = if exact ≤ max then some exact else none) :
    (∃ word, checked = some word ∧ word.toNat = exact) ∨ (checked = none ∧ max < exact) := by
  by_cases fits : exact ≤ max
  · rw [if_pos fits] at h
    exact .inl (Option.map_eq_some_iff.mp h)
  · rw [if_neg fits] at h
    exact .inr ⟨Option.map_eq_none_iff.mp h, Nat.lt_of_not_le fits⟩

/-- A checked sum is the exact one, and there is none exactly if that is no word. -/
theorem checkedAdd_eq (a b : UInt64) :
    (checkedAdd a b).map UInt64.toNat =
      if a.toNat + b.toNat ≤ max then some (a.toNat + b.toNat) else none := by
  by_cases fits : a.toNat + b.toNat ≤ max
  · have kept : ¬ a + b < a := by
      rw [UInt64.lt_iff_toNat_lt, toNat_add_of_le fits]
      omega
    rw [checkedAdd, if_neg kept, if_pos fits, Option.map_some, toNat_add_of_le fits]
  · have wraps : a + b < a := by
      have first := a.toNat_lt
      have second := b.toNat_lt
      rw [UInt64.lt_iff_toNat_lt, UInt64.toNat_add]
      rw [max] at fits
      omega
    rw [checkedAdd, if_pos wraps, if_neg fits, Option.map_none]

/-- A checked sum that is also tested is the exact one, and there is none exactly if that fails the
test, which no larger number than a word passes. -/
theorem checkedAdd_filter_eq (a b : UInt64) (test : UInt64 → Bool) (allowed : Nat → Prop)
    [DecidablePred allowed] (tests : ∀ sum, test sum ↔ allowed sum.toNat)
    (small : ∀ n, allowed n → n ≤ max) :
    ((checkedAdd a b).filter test).map UInt64.toNat =
      if allowed (a.toNat + b.toNat) then some (a.toNat + b.toNat) else none := by
  rcases cases_of_map_eq (checkedAdd_eq a b) with ⟨sum, added, value⟩ | ⟨added, large⟩
  · rw [added, ← value]
    by_cases passes : test sum
    · rw [Option.filter_some_pos passes, if_pos ((tests sum).mp passes)]
      rfl
    · rw [Option.filter_some_neg (Bool.eq_false_iff.mpr passes), if_neg (mt (tests sum).mpr passes)]
      rfl
  · rw [added, if_neg (mt (small _) (Nat.not_le_of_lt large))]
    rfl

theorem toNat_saturatingAdd (a b : UInt64) :
    (saturatingAdd a b).toNat = saturate (a.toNat + b.toNat) := by
  rw [saturatingAdd, saturate]
  rcases cases_of_map_eq (checkedAdd_eq a b) with ⟨sum, added, value⟩ | ⟨added, large⟩
  · rw [added, Option.getD_some, ← value, Nat.min_eq_left (toNat_le_max sum)]
  · rw [added, Option.getD_none, Nat.min_eq_right (Nat.le_of_lt large)]
    rfl

/-- A checked product is the exact one, and there is none exactly if that is no word. -/
theorem checkedMul_eq (a b : UInt64) :
    (checkedMul a b).map UInt64.toNat =
      if a.toNat * b.toNat ≤ max then some (a.toNat * b.toNat) else none := by
  have fits_iff : b = 0 ∨ a ≤ top / b ↔ a.toNat * b.toNat ≤ max := by
    by_cases zero : b = 0
    · simp [zero]
    · have positive : 0 < b.toNat :=
        Nat.pos_of_ne_zero fun none => zero (UInt64.toNat_inj.mp none)
      rw [or_iff_right zero, UInt64.le_iff_toNat_le, UInt64.toNat_div,
        Nat.le_div_iff_mul_le positive]
      rfl
  by_cases fits : a.toNat * b.toNat ≤ max
  · have product : (a * b).toNat = a.toNat * b.toNat :=
      (UInt64.toNat_mul a b).trans (mod_of_le fits)
    rw [checkedMul, if_pos (fits_iff.mpr fits), if_pos fits, Option.map_some, product]
  · rw [checkedMul, if_neg (mt fits_iff.mp fits), if_neg fits, Option.map_none]

end Word

/-- The positions of a window, in words. -/
structure Words where
  /-- The file offset of the first byte of the buffer. -/
  base : UInt64
  /-- The index of the next byte in the buffer. -/
  cursor : UInt64
  /-- The number of loaded bytes. -/
  filled : UInt64
  /-- The file offset of the first byte of the section. -/
  first : UInt64
  /-- The end of the window. -/
  stop : UInt64
  /-- The end of the section inside the file. -/
  limit : UInt64
  deriving DecidableEq, Repr

namespace Words

/-- The file offset of the next byte. -/
def offset (p : Words) : UInt64 := p.base + p.cursor

/-- Opens a window over a whole section. -/
def open? (offset size fileSize : UInt64) : Option Words :=
  let stop := min (Word.saturatingAdd offset size) fileSize
  if size = 0 ∨ stop ≤ offset then none else some ⟨offset, 0, 0, offset, stop, stop⟩

/-- Moves to a file offset between the start of the section and the end of the window. -/
def seek (target : UInt64) (p : Words) : Option Words :=
  if target < p.first ∨ p.stop < target then none
  else if p.base ≤ target ∧ target ≤ p.base + p.filled then
    some { p with cursor := target - p.base }
  else some { p with base := target, cursor := 0, filled := 0 }

/-- Moves on by a number of bytes, without leaving the loaded ones if those are enough. -/
def skip (count : UInt64) (p : Words) : Option Words :=
  if count ≤ p.filled - p.cursor then some { p with cursor := p.cursor + count }
  else (Word.checkedAdd p.offset count).bind (seek · p)

/-- Moves to an offset relative to the start of the section. -/
def seekInSection (offset : UInt64) (p : Words) : Option Words :=
  (Word.checkedAdd p.first offset).bind (seek · p)

/-- The start of a string at an offset into the section. -/
def stringStart (offset : UInt64) (p : Words) : Option UInt64 :=
  (Word.checkedAdd p.first offset).filter (· < p.stop)

/-- Moves to an entry of a table that starts at an offset into the section, whatever the window
was. -/
def seekEntry (base index width : UInt64) (p : Words) : Option Words :=
  (Word.checkedMul index width).bind fun delta =>
    (Word.checkedAdd delta base).bind fun entry => { p with stop := p.limit }.seekInSection entry

/-- Whether so many bytes remain up to the end of the window. -/
def Holds (count : UInt64) (p : Words) : Prop := count ≤ p.stop - p.offset

/-- The end of a structure that follows the position and has the given length. -/
def lengthEnd (length : UInt64) (p : Words) : Option UInt64 :=
  (Word.checkedAdd p.offset length).filter (· ≤ p.limit)

end Words

namespace Window

variable {w : Window}

/-- The positions of a window, in words. -/
def words (w : Window) : Words :=
  ⟨.ofNat w.base, .ofNat w.cursor, .ofNat w.filled, .ofNat w.first, .ofNat w.stop, .ofNat w.limit⟩

/-- The positions of a sound window fit words, and so do those of what it has loaded. -/
theorem Sound.toNat_words (sound : w.Sound) :
    w.words.base.toNat = w.base ∧ w.words.cursor.toNat = w.cursor ∧
      w.words.filled.toNat = w.filled ∧ w.words.first.toNat = w.first ∧
      w.words.stop.toNat = w.stop ∧ w.words.limit.toNat = w.limit ∧
      w.words.offset.toNat = w.offset ∧
      (w.words.base + w.words.filled).toNat = w.base + w.filled := by
  obtain ⟨-, first_lt, -, limit_le, first_le, cursor_le, -, loaded_le, stop_le⟩ := sound
  have base : w.words.base.toNat = w.base := Word.toNat_ofNat_of_le (by omega)
  have cursor : w.words.cursor.toNat = w.cursor := Word.toNat_ofNat_of_le (by omega)
  have filled : w.words.filled.toNat = w.filled := Word.toNat_ofNat_of_le (by omega)
  refine ⟨base, cursor, filled, Word.toNat_ofNat_of_le (by omega),
    Word.toNat_ofNat_of_le (by omega), Word.toNat_ofNat_of_le (by omega), ?_, ?_⟩
  · rw [Words.offset, Word.toNat_add_of_le (by omega), base, cursor]
    rfl
  · rw [Word.toNat_add_of_le (by omega), base, filled]

/-- Moving in words moves the window. -/
theorem Sound.words_seek (sound : w.Sound) (target : UInt64) :
    w.words.seek target = (w.seek target.toNat).toOption.map words := by
  obtain ⟨base, -, -, first, stop, -, -, loaded⟩ := sound.toNat_words
  rw [Words.seek, Window.seek]
  by_cases inside : w.first ≤ target.toNat ∧ target.toNat ≤ w.stop
  · have kept : ¬ (target < w.words.first ∨ w.words.stop < target) := by
      rw [UInt64.lt_iff_toNat_lt, UInt64.lt_iff_toNat_lt, first, stop]
      omega
    have same : (w.words.base ≤ target ∧ target ≤ w.words.base + w.words.filled) ↔
        (w.base ≤ target.toNat ∧ target.toNat ≤ w.base + w.filled) := by
      rw [UInt64.le_iff_toNat_le, UInt64.le_iff_toNat_le, base, loaded]
    rw [if_neg kept, if_pos inside]
    by_cases there : w.base ≤ target.toNat ∧ target.toNat ≤ w.base + w.filled
    · rw [if_pos (same.mpr there), if_pos there]
      have cursor : target - w.words.base = UInt64.ofNat (target.toNat - w.base) := by
        have le : w.words.base ≤ target := (same.mpr there).1
        rw [← UInt64.toNat_inj, UInt64.toNat_sub_of_le _ _ le, base,
          Word.toNat_ofNat_of_le (Nat.le_trans (Nat.sub_le _ _) (Word.toNat_le_max target))]
      rw [cursor]
      rfl
    · rw [if_neg (mt same.mp there), if_neg there]
      simp only [Except.toOption, Option.map_some, words, UInt64.ofNat_toNat]
      rfl
  · have left : target < w.words.first ∨ w.words.stop < target := by
      rw [UInt64.lt_iff_toNat_lt, UInt64.lt_iff_toNat_lt, first, stop]
      omega
    rw [if_pos left, if_neg inside]
    rfl

theorem Sound.words_seek_sum (sound : w.Sound) (a b : UInt64) :
    (Word.checkedAdd a b).bind (Words.seek · w.words) =
      (w.seek (a.toNat + b.toNat)).toOption.map words := by
  rcases Word.cases_of_map_eq (Word.checkedAdd_eq a b) with ⟨sum, added, value⟩ | ⟨added, large⟩
  · rw [added, Option.bind_some, sound.words_seek, value]
  · have outside : ¬ (w.first ≤ a.toNat + b.toNat ∧ a.toNat + b.toNat ≤ w.stop) := by
      have stop_le := sound.stop_le_limit
      have limit_le := sound.limit_le_max
      omega
    rw [added, Window.seek, if_neg outside]
    rfl

/-- Moving on in words moves the window on, whether it leaves what is loaded or not. -/
theorem Sound.words_skip (sound : w.Sound) (count : UInt64) :
    w.words.skip count = (w.seek (w.offset + count.toNat)).toOption.map words := by
  obtain ⟨-, cursor, filled, -, -, -, offset, -⟩ := sound.toNat_words
  have le : w.words.cursor ≤ w.words.filled := by
    rw [UInt64.le_iff_toNat_le, cursor, filled]
    exact sound.cursor_le_filled
  have available : (w.words.filled - w.words.cursor).toNat = w.available := by
    rw [UInt64.toNat_sub_of_le _ _ le, cursor, filled]
    rfl
  rw [Words.skip]
  by_cases there : count.toNat ≤ w.available
  · have short : count ≤ w.words.filled - w.words.cursor := by
      rw [UInt64.le_iff_toNat_le, available]
      exact there
    have sum : w.words.cursor + count = UInt64.ofNat (w.cursor + count.toNat) := by
      rw [UInt64.ofNat_add, UInt64.ofNat_toNat]
      rfl
    rw [if_pos short, sound.seek_loaded there, sum]
    rfl
  · have long : ¬ count ≤ w.words.filled - w.words.cursor := by
      rw [UInt64.le_iff_toNat_le, available]
      exact there
    rw [if_neg long, sound.words_seek_sum, offset]

theorem Sound.words_seekInSection (sound : w.Sound) (offset : UInt64) :
    w.words.seekInSection offset = (w.seek (w.first + offset.toNat)).toOption.map words := by
  rw [Words.seekInSection, sound.words_seek_sum, sound.toNat_words.2.2.2.1]

theorem Sound.words_stringStart (sound : w.Sound) (offset : UInt64) :
    (w.words.stringStart offset).map UInt64.toNat =
      if w.first + offset.toNat < w.stop then some (w.first + offset.toNat) else none := by
  obtain ⟨-, -, -, first, stop, -, -, -⟩ := sound.toNat_words
  have stop_le := Nat.le_trans sound.stop_le_limit sound.limit_le_max
  have start := Word.checkedAdd_filter_eq w.words.first offset (· < w.words.stop) (· < w.stop)
    (fun sum => by rw [decide_eq_true_iff, UInt64.lt_iff_toNat_lt, stop])
    (fun n small => by omega)
  rw [first] at start
  exact start

theorem Sound.words_lengthEnd (sound : w.Sound) (length : UInt64) :
    (w.words.lengthEnd length).map UInt64.toNat =
      if w.offset + length.toNat ≤ w.limit then some (w.offset + length.toNat) else none := by
  obtain ⟨-, -, -, -, -, limit, offset, -⟩ := sound.toNat_words
  have limit_le := sound.limit_le_max
  have finish := Word.checkedAdd_filter_eq w.words.offset length (· ≤ w.words.limit) (· ≤ w.limit)
    (fun sum => by rw [decide_eq_true_iff, UInt64.le_iff_toNat_le, limit])
    (fun n small => by omega)
  rw [offset] at finish
  exact finish

theorem Sound.words_holds (sound : w.Sound) (count : UInt64) :
    w.words.Holds count ↔ count.toNat ≤ w.remaining := by
  obtain ⟨-, -, -, -, stop, -, offset, -⟩ := sound.toNat_words
  have le : w.words.offset ≤ w.words.stop := by
    rw [UInt64.le_iff_toNat_le, stop, offset]
    exact sound.toPlace.offset_le_stop
  rw [Words.Holds, UInt64.le_iff_toNat_le, UInt64.toNat_sub_of_le _ _ le, stop, offset]
  rfl

theorem Sound.widened (sound : w.Sound) : ({ w with stop := w.limit } : Window).Sound :=
  { sound with
    loaded_le_stop := Nat.le_trans sound.loaded_le_stop sound.stop_le_limit
    stop_le_limit := Nat.le_refl _ }

/-- Moving in words to an entry of a table moves the widened window to its exact position. -/
theorem Sound.words_seekEntry (sound : w.Sound) (base index width : UInt64) :
    w.words.seekEntry base index width =
      (({ w with stop := w.limit } : Window).seek
        (w.first + (index.toNat * width.toNat + base.toNat))).toOption.map words := by
  have refused (target : Nat) (large : Word.max < target) :
      (({ w with stop := w.limit } : Window).seek target).toOption.map words = none := by
    have outside : ¬ (w.first ≤ target ∧ target ≤ w.limit) := by
      have limit_le := sound.limit_le_max
      omega
    rw [Window.seek, if_neg outside]
    rfl
  rw [Words.seekEntry]
  rcases Word.cases_of_map_eq (Word.checkedMul_eq index width) with
    ⟨delta, multiplied, delta_eq⟩ | ⟨multiplied, large⟩
  · rw [multiplied, Option.bind_some, ← delta_eq]
    rcases Word.cases_of_map_eq (Word.checkedAdd_eq delta base) with
      ⟨entry, added, entry_eq⟩ | ⟨added, large⟩
    · rw [added, Option.bind_some, ← entry_eq]
      exact sound.widened.words_seekInSection entry
    · rw [added, refused _ (by omega)]
      rfl
  · rw [multiplied, refused _ (by omega)]
    rfl

theorem words_open (buffer : Buffer) (offset size fileSize : UInt64) :
    Words.open? offset size fileSize =
      (open? buffer ⟨offset.toNat, size.toNat⟩ fileSize.toNat).toOption.map words := by
  have stop : (min (Word.saturatingAdd offset size) fileSize).toNat =
      min (Section.stop ⟨offset.toNat, size.toNat⟩) fileSize.toNat := by
    rw [Word.toNat_min, Word.toNat_saturatingAdd]
    rfl
  have refused : (size = 0 ∨ min (Word.saturatingAdd offset size) fileSize ≤ offset) ↔
      (Section.isEmpty ⟨offset.toNat, size.toNat⟩ ||
        decide (min (Section.stop ⟨offset.toNat, size.toNat⟩) fileSize.toNat ≤ offset.toNat)) := by
    rw [Bool.or_eq_true, decide_eq_true_iff, Section.isEmpty, beq_iff_eq, UInt64.le_iff_toNat_le,
      stop, ← UInt64.toNat_inj]
    rfl
  rw [Words.open?, open?]
  by_cases fails : size = 0 ∨ min (Word.saturatingAdd offset size) fileSize ≤ offset
  · rw [if_pos (refused.mp fails)]
    exact if_pos fails
  · rw [if_neg (mt refused.mpr fails)]
    refine (if_neg fails).trans ?_
    simp only [Except.toOption, Option.map_some, words, ← stop, UInt64.ofNat_toNat]
    rfl

end Window

end Dwarf
