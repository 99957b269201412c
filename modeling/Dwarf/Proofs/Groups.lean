import Dwarf.Proofs.Exact
import Mathlib.Tactic.Ring
/-!
# Numbers in groups of seven bits

Groups of seven bits spell a sum of weighted groups, and in two's complement the pattern of all
their bits.  A word takes ten groups at most, and the tenth has room for the highest bit alone.
-/

namespace Dwarf.Leb128

/-- The groups as a sum, in which each is weighted by its place. -/
def sum (groups : List UInt8) : Nat :=
  (groups.mapIdx fun index byte => byte.toNat % 128 * 2 ^ (7 * index)).sum

/-- The pattern of all bits in groups as a number in two's complement, whose sign is the highest bit
of the last group, but no bit beyond those of a word. -/
def signExtended (groups : List UInt8) : Int :=
  let bits := min (7 * groups.length) 64
  (IntType.twosComplement bits).ofPattern (sum groups % 2 ^ bits)

/-- Groups that encode a word: ten at most, with a single bit in the tenth. -/
structure OfWord (groups : List UInt8) : Prop where
  formed : Groups groups
  few : groups.length ≤ 10
  tenth : ∀ byte, groups[9]? = some byte → byte.toNat ≤ 1

/-- Groups that encode a word in two's complement: ten at most, with nothing but signs in the
tenth. -/
structure OfSignedWord (groups : List UInt8) : Prop where
  formed : Groups groups
  few : groups.length ≤ 10
  tenth : ∀ byte, groups[9]? = some byte → byte.toNat = 0 ∨ byte.toNat = 0x7f

/-- The groups of a number, as few as can be and so many redundant ones behind them. -/
def encodeUnsigned (value extra : Nat) : List UInt8 :=
  if value < 128 then
    match extra with
    | 0 => [.ofNat value]
    | extra + 1 => .ofNat (value + 128) :: encodeUnsigned 0 extra
  else .ofNat (value % 128 + 128) :: encodeUnsigned (value / 128) extra
termination_by (extra, value)

/-- The groups of a number in two's complement, as few as can be and so many redundant ones behind
them, which repeat the sign. -/
def encodeSigned (value : Int) (extra : Nat) : List UInt8 :=
  if -64 ≤ value ∧ value < 64 then
    match extra with
    | 0 => [.ofNat (value % 128).toNat]
    | extra + 1 => .ofNat ((value % 128).toNat + 128) :: encodeSigned (value / 128) extra
  else .ofNat ((value % 128).toNat + 128) :: encodeSigned (value / 128) extra
termination_by (extra, value.natAbs)
decreasing_by
  · exact Prod.Lex.left _ _ (Nat.lt_succ_self _)
  · apply Prod.Lex.right
    omega

variable {groups : List UInt8}

theorem Groups.length_pos (formed : Groups groups) : 0 < groups.length := by
  cases formed <;> exact Nat.succ_pos _

/-- Groups behind a shift weigh as much as the number that they spell behind it. -/
theorem sum_mapIdx_shifted (groups : List UInt8) (shift : Nat) :
    (groups.mapIdx fun index byte => byte.toNat % 128 * 2 ^ (7 * (index + shift))).sum =
      2 ^ (7 * shift) * unsigned groups := by
  induction groups generalizing shift with
  | nil => rfl
  | cons byte rest ih =>
      have power : 2 ^ (7 * (shift + 1)) = 2 ^ (7 * shift) * 128 := Nat.pow_add 2 (7 * shift) 7
      rw [List.mapIdx_cons, List.sum_cons, Nat.zero_add]
      simp only [Nat.add_assoc, Nat.add_comm 1 shift]
      rw [ih, power, unsigned, Nat.mul_add, Nat.mul_assoc, Nat.mul_comm (byte.toNat % 128)]

theorem sum_eq_unsigned (groups : List UInt8) : sum groups = unsigned groups :=
  (sum_mapIdx_shifted groups 0).trans (Nat.one_mul _)

theorem unsigned_lt (groups : List UInt8) : unsigned groups < 2 ^ (7 * groups.length) := by
  induction groups with
  | nil => decide
  | cons byte rest ih =>
      have power : 2 ^ (7 * (rest.length + 1)) = 2 ^ (7 * rest.length) * 128 :=
        Nat.pow_add 2 (7 * rest.length) 7
      rw [unsigned, List.length_cons]
      omega

/-- So many groups and the one behind them spell a number with a single bit in the last exactly if
there is no more in it. -/
theorem unsigned_lt_iff (formed : Groups groups) {most : Nat} (few : groups.length ≤ most + 1) :
    unsigned groups < 2 ^ (7 * most + 1) ↔
      ∀ byte, groups[most]? = some byte → byte.toNat ≤ 1 := by
  induction formed generalizing most with
  | @last byte small =>
      cases most with
      | zero =>
          simp only [unsigned, List.getElem?_cons_zero, Option.some.injEq, forall_eq']
          omega
      | succ most =>
          have power : 2 ^ (7 * (most + 1) + 1) = 2 ^ (7 * most + 1) * 128 :=
            Nat.pow_add 2 (7 * most + 1) 7
          have positive : 0 < 2 ^ (7 * most + 1) := Nat.two_pow_pos _
          simp only [unsigned, List.getElem?_cons_succ, List.getElem?_nil, reduceCtorEq,
            IsEmpty.forall_iff, implies_true, iff_true]
          omega
  | @more byte rest announces formed ih =>
      cases most with
      | zero => cases formed <;> simp at few
      | succ most =>
          have power : 2 ^ (7 * (most + 1) + 1) = 2 ^ (7 * most + 1) * 128 :=
            Nat.pow_add 2 (7 * most + 1) 7
          rw [List.getElem?_cons_succ, ← ih (by simpa using few), unsigned]
          omega

/-- So many groups and the one behind them spell a number in two's complement with nothing but signs
in the last exactly if all its bits are alike. -/
theorem signed_between_iff (formed : Groups groups) {most : Nat}
    (few : groups.length ≤ most + 1) :
    -2 ^ (7 * most) ≤ signed groups ∧ signed groups < 2 ^ (7 * most) ↔
      ∀ byte, groups[most]? = some byte → byte.toNat = 0 ∨ byte.toNat = 0x7f := by
  induction formed generalizing most with
  | @last byte small =>
      cases most with
      | zero =>
          simp only [signed, List.getElem?_cons_zero, Option.some.injEq, forall_eq']
          split <;> omega
      | succ most =>
          have power : (2 : Int) ^ (7 * (most + 1)) = 2 ^ (7 * most) * 128 :=
            Int.pow_add 2 (7 * most) 7
          have positive : (0 : Int) < 2 ^ (7 * most) := Int.pow_pos (by decide)
          simp only [signed, List.getElem?_cons_succ, List.getElem?_nil, reduceCtorEq,
            IsEmpty.forall_iff, implies_true, iff_true]
          split <;> omega
  | @more byte rest announces formed ih =>
      cases most with
      | zero => cases formed <;> simp at few
      | succ most =>
          have power : (2 : Int) ^ (7 * (most + 1)) = 2 ^ (7 * most) * 128 :=
            Int.pow_add 2 (7 * most) 7
          rw [List.getElem?_cons_succ, ← ih (by simpa using few), signed_more formed]
          omega

theorem ofWord_iff :
    OfWord groups ↔ Groups groups ∧ groups.length ≤ 10 ∧ unsigned groups < 2 ^ 64 := by
  constructor
  · rintro ⟨formed, few, tenth⟩
    exact ⟨formed, few, (unsigned_lt_iff formed (few : groups.length ≤ 9 + 1)).mpr tenth⟩
  · rintro ⟨formed, few, small⟩
    exact ⟨formed, few, (unsigned_lt_iff formed (few : groups.length ≤ 9 + 1)).mp small⟩

/-- Groups encode a word in two's complement exactly if they are ten at most and spell one. -/
theorem ofSignedWord_iff :
    OfSignedWord groups ↔ Groups groups ∧ groups.length ≤ 10 ∧
      (-2 ^ 63 ≤ signed groups ∧ signed groups < 2 ^ 63) := by
  constructor
  · rintro ⟨formed, few, tenth⟩
    exact ⟨formed, few, (signed_between_iff formed (few : groups.length ≤ 9 + 1)).mpr tenth⟩
  · rintro ⟨formed, few, between⟩
    exact ⟨formed, few, (signed_between_iff formed (few : groups.length ≤ 9 + 1)).mp between⟩

/-- A pattern of some bits is negative in two's complement if its highest bit is set. -/
theorem ofPattern_twosComplement (bits pattern : Nat) :
    (IntType.twosComplement bits).ofPattern pattern =
      if 2 ^ (bits - 1) ≤ pattern then (pattern : Int) - 2 ^ bits else pattern := by
  simp only [IntType.ofPattern, IntType.twosComplement, IntType.patterns, Nat.one_shiftLeft,
    Bool.true_and, decide_eq_true_eq, Nat.cast_pow, Nat.cast_ofNat]

/-- Groups spell in two's complement what their pattern of bits denotes. -/
theorem signed_eq_ofPattern (formed : Groups groups) :
    signed groups =
      (IntType.twosComplement (7 * groups.length)).ofPattern (unsigned groups) := by
  induction formed with
  | @last byte small =>
      rw [ofPattern_twosComplement, List.length_singleton]
      by_cases positive : byte.toNat < 64
      · rw [signed_positive positive, unsigned, unsigned, if_neg (by omega)]
        omega
      · rw [signed_negative positive, unsigned, unsigned, if_pos (by omega)]
        omega
  | @more byte rest announces formed ih =>
      rw [ofPattern_twosComplement] at ih ⊢
      have some := formed.length_pos
      have half : 2 ^ (7 * (rest.length + 1) - 1) = 2 ^ (7 * rest.length - 1) * 128 := by
        rw [← Nat.pow_add 2 _ 7]
        congr 1
        omega
      have whole : (2 : Int) ^ (7 * (rest.length + 1)) = 2 ^ (7 * rest.length) * 128 :=
        Int.pow_add 2 (7 * rest.length) 7
      rw [signed_more formed, ih, unsigned, List.length_cons, half, whole]
      push_cast
      split <;> split <;> omega

/-- Groups that encode a word in two's complement spell the pattern of their bits, up to the
highest bit of a word. -/
theorem OfSignedWord.signed_eq (h : OfSignedWord groups) : signed groups = signExtended groups := by
  have pattern := signed_eq_ofPattern h.formed
  have small := unsigned_lt groups
  rw [signExtended, sum_eq_unsigned]
  by_cases full : groups.length = 10
  · -- The bits beyond a word repeat its highest one, so they may be left out.
    have word := (ofSignedWord_iff.mp h).2.2
    have bits : min (7 * groups.length) 64 = 64 := by omega
    rw [full] at pattern small
    rw [bits, pattern, ofPattern_twosComplement, ofPattern_twosComplement]
    rw [pattern, ofPattern_twosComplement] at word
    norm_num at word small ⊢
    split at word <;> split <;> omega
  · have few := h.few
    have bits : min (7 * groups.length) 64 = 7 * groups.length := by omega
    rw [bits, Nat.mod_eq_of_lt small]
    exact pattern

/-- The groups of an encoding are formed. -/
theorem groups_encodeUnsigned (value extra : Nat) : Groups (encodeUnsigned value extra) := by
  fun_induction encodeUnsigned value extra with
  | case1 value small =>
      apply Groups.last
      simp only [UInt8.toNat_ofNat']
      omega
  | case2 value small extra ih =>
      refine .more ?_ ih
      simp only [UInt8.toNat_ofNat']
      omega
  | case3 value extra large ih =>
      refine .more ?_ ih
      simp only [UInt8.toNat_ofNat']
      omega

/-- An encoding spells its number. -/
theorem unsigned_encodeUnsigned (value extra : Nat) :
    unsigned (encodeUnsigned value extra) = value := by
  fun_induction encodeUnsigned value extra with
  | case1 value small =>
      simp only [unsigned, UInt8.toNat_ofNat']
      omega
  | case2 value small extra ih =>
      simp only [unsigned, ih, UInt8.toNat_ofNat']
      omega
  | case3 value extra large ih =>
      simp only [unsigned, ih, UInt8.toNat_ofNat']
      omega

theorem length_encodeUnsigned_le {value more : Nat} (small : value < 2 ^ (7 * (more + 1))) :
    (encodeUnsigned value 0).length ≤ more + 1 := by
  induction more generalizing value with
  | zero =>
      rw [encodeUnsigned, if_pos (by omega)]
      exact Nat.le_refl 1
  | succ more ih =>
      have power : 2 ^ (7 * (more + 1 + 1)) = 2 ^ (7 * (more + 1)) * 128 :=
        Nat.pow_add 2 (7 * (more + 1)) 7
      rw [encodeUnsigned]
      split
      · exact Nat.succ_le_succ (Nat.zero_le _)
      · exact Nat.succ_le_succ (ih (by omega))

/-- An encoding of a word in ten groups at most is one of a word, and the shortest one is that. -/
theorem ofWord_encodeUnsigned {value extra : Nat} (word : value ≤ Word.max)
    (few : extra = 0 ∨ (encodeUnsigned value extra).length ≤ 10) :
    OfWord (encodeUnsigned value extra) := by
  have small : value < 2 ^ 64 := Nat.lt_succ_of_le word
  refine ofWord_iff.mpr ⟨groups_encodeUnsigned value extra, ?_, ?_⟩
  · rcases few with rfl | few
    · have bits : value < 2 ^ (7 * (9 + 1)) := by omega
      exact length_encodeUnsigned_le bits
    · exact few
  · rwa [unsigned_encodeUnsigned]

/-- The groups of an encoding in two's complement are formed. -/
theorem groups_encodeSigned (value : Int) (extra : Nat) : Groups (encodeSigned value extra) := by
  fun_induction encodeSigned value extra with
  | case1 value small =>
      apply Groups.last
      simp only [UInt8.toNat_ofNat']
      omega
  | case2 value small extra ih =>
      refine .more ?_ ih
      simp only [UInt8.toNat_ofNat']
      omega
  | case3 value extra large ih =>
      refine .more ?_ ih
      simp only [UInt8.toNat_ofNat']
      omega

/-- An encoding in two's complement spells its number. -/
theorem signed_encodeSigned (value : Int) (extra : Nat) :
    signed (encodeSigned value extra) = value := by
  fun_induction encodeSigned value extra with
  | case1 value small =>
      simp only [signed, UInt8.toNat_ofNat']
      split <;> omega
  | case2 value small extra ih =>
      rw [signed_more (groups_encodeSigned _ extra), ih, UInt8.toNat_ofNat']
      omega
  | case3 value extra large ih =>
      rw [signed_more (groups_encodeSigned _ extra), ih, UInt8.toNat_ofNat']
      omega

/-- The shortest encoding in two's complement takes no more groups than the bits of its number
need, of which one is the sign. -/
theorem length_encodeSigned_le {value : Int} {more : Nat}
    (between : -2 ^ (7 * more + 6) ≤ value ∧ value < 2 ^ (7 * more + 6)) :
    (encodeSigned value 0).length ≤ more + 1 := by
  induction more generalizing value with
  | zero =>
      rw [encodeSigned, if_pos (by omega)]
      exact Nat.le_refl 1
  | succ more ih =>
      have power : (2 : Int) ^ (7 * (more + 1) + 6) = 2 ^ (7 * more + 6) * 128 :=
        Int.pow_add 2 (7 * more + 6) 7
      rw [encodeSigned]
      split
      · exact Nat.succ_le_succ (Nat.zero_le _)
      · exact Nat.succ_le_succ (ih (by omega))

/-- An encoding of a word in two's complement in ten groups at most is one of a word, and the
shortest one is that. -/
theorem ofSignedWord_encodeSigned {value : Int} {extra : Nat}
    (word : IntType.signedWord.holds value)
    (few : extra = 0 ∨ (encodeSigned value extra).length ≤ 10) :
    OfSignedWord (encodeSigned value extra) := by
  have between : -2 ^ 63 ≤ value ∧ value < 2 ^ 63 := by
    simp only [IntType.holds, IntType.signedWord, IntType.twosComplement, IntType.patterns,
      Nat.one_shiftLeft, if_true, Bool.and_eq_true, decide_eq_true_eq] at word
    omega
  refine ofSignedWord_iff.mpr ⟨groups_encodeSigned value extra, ?_, ?_⟩
  · rcases few with rfl | few
    · have bits : -2 ^ (7 * 9 + 6) ≤ value ∧ value < 2 ^ (7 * 9 + 6) := by omega
      exact length_encodeSigned_le bits
    · exact few
  · rwa [signed_encodeSigned]

end Dwarf.Leb128
