import Mathlib.Algebra.Ring.Int.Defs
import Dwarf.Proofs.Leaves
import Dwarf.Proofs.Lengths
/-!
# Steps that read exactly what is there

A grammar says which bytes spell which value.  A step reads a grammar exactly if it succeeds
wherever the window holds something of the grammar, gives the value that is spelt there and stands
behind it, and fails everywhere else.
-/

namespace Dwarf

/-- Which values are spelt in a section, from where on and up to where. -/
abbrev Grammar (α : Type) := (start : Nat) → (value : α) → (finish : Nat) → Prop

namespace Grammar

variable {α β : Type}

/-- One value, and another one right behind it whose grammar may depend on the first. -/
def andThen (first : Grammar α) (second : α → Grammar β) : Grammar β := fun start value finish =>
  ∃ head middle, first start head middle ∧ second head middle value finish

/-- A value that needs no bytes. -/
def nothing (answer : α) : Grammar α := fun start value finish => value = answer ∧ finish = start

/-- Some bytes of the window, whatever they are. -/
def room (stop count : Nat) : Grammar Unit := fun start _ finish =>
  start + count ≤ stop ∧ finish = start + count

end Grammar

theorem DirectReader.run_bind_of_ok {α β : Type} {image : Array UInt8} {first : Decode α}
    {value : α} {reader reached : DirectReader} (ran : run image first.run reader = (.ok value, reached))
    (next : α → Decode β) :
    run image (first >>= next).run reader = run image (next value).run reached := by
  simp only [run] at ran ⊢
  rw [Dialogue.runStep_bind, ran]

/-- A place that a decoder leads to from a sound one is sound. -/
theorem Place.Sound.behind {α : Type} {image : Array UInt8} {decoder : Decoder α} {answer : α}
    {place place' : Place} {context context' : Context} (sound : place.Sound)
    (ran : DirectReader.run image decoder ⟨some place, context⟩ =
      (answer, ⟨some place', context'⟩)) :
    place'.Sound := by
  have start : DirectReader.Sound ⟨some place, context⟩ :=
    fun _ same => Option.some.inj same ▸ sound
  have left := start.run image decoder
  rw [ran] at left
  exact left place' rfl

namespace Decode

variable {α β : Type}

/-- Wherever a step succeeds, a grammar has its value in the window, and the step stands behind
that. -/
def Within (image : Array UInt8) (stop : Nat) (context : Context) (step : Decode α)
    (grammar : Grammar α) : Prop :=
  ∀ (place : Place) (value : α) (reached : DirectReader), place.Sound → place.stop = stop →
    DirectReader.run image step.run ⟨some place, context⟩ = (.ok value, reached) →
      ∃ finish, grammar place.offset value finish ∧
        reached = ⟨some { place with offset := finish }, context⟩

/-- A step succeeds exactly where a grammar has a value in the window, gives that value and stands
behind it. -/
structure Exact (image : Array UInt8) (stop : Nat) (context : Context) (step : Decode α)
    (grammar : Grammar α) : Prop where
  /-- What is read is spelt there. -/
  within : Within image stop context step grammar
  /-- What is spelt there is read. -/
  complete : ∀ (place : Place) (value : α) (finish : Nat), place.Sound → place.stop = stop →
    grammar place.offset value finish →
      DirectReader.run image step.run ⟨some place, context⟩ =
        (.ok value, ⟨some { place with offset := finish }, context⟩)

variable {image : Array UInt8} {stop : Nat} {context : Context}
variable {step first : Decode α} {next : α → Decode β} {grammar grammar' : Grammar α}
variable {second : α → Grammar β}

theorem Within.mono (h : Within image stop context step grammar)
    (larger : ∀ start value finish, grammar start value finish → grammar' start value finish) :
    Within image stop context step grammar' := by
  intro place value reached sound stops ran
  obtain ⟨finish, spelt, stands⟩ := h place value reached sound stops ran
  exact ⟨finish, larger _ _ _ spelt, stands⟩

theorem within_throw (error : Error) :
    Within image stop context (throw error : Decode α) grammar := by
  intro place value reached sound stops ran
  cases ran

theorem Within.bind (h : Within image stop context first grammar)
    (each : ∀ value, Within image stop context (next value) (second value)) :
    Within image stop context (first >>= next) (grammar.andThen second) := by
  intro place value reached sound stops ran
  obtain ⟨head, middle, ran, goes⟩ := Dialogue.runStep_bind_ok _ _ ran
  obtain ⟨between, spelt, rfl⟩ := h place head middle sound stops ran
  obtain ⟨finish, spelt', stands⟩ := each head _ value reached (sound.behind ran) stops goes
  exact ⟨finish, ⟨head, between, spelt, spelt'⟩, stands⟩

theorem Within.map {spans : Nat → Nat → Prop} (f : α → β)
    (h : Within image stop context step (fun start _ finish => spans start finish)) :
    Within image stop context (f <$> step) (fun start _ finish => spans start finish) := by
  rw [map_eq_pure_bind]
  intro place value reached sound stops ran
  obtain ⟨head, middle, ran, ends⟩ := Dialogue.runStep_bind_ok _ _ ran
  cases ends
  exact h place head reached sound stops ran

namespace Exact

theorem congr (h : Exact image stop context step grammar)
    (same : ∀ start value finish, grammar start value finish ↔ grammar' start value finish) :
    Exact image stop context step grammar' where
  within := h.within.mono fun start value finish => (same start value finish).mp
  complete place value finish sound stops spelt :=
    h.complete place value finish sound stops ((same _ _ _).mpr spelt)

theorem pure (answer : α) :
    Exact image stop context (Pure.pure answer) (Grammar.nothing answer) where
  within place value reached sound stops ran := by
    cases ran
    exact ⟨place.offset, ⟨rfl, rfl⟩, rfl⟩
  complete place value finish sound stops spelt := by
    obtain ⟨rfl, rfl⟩ := spelt
    rfl

theorem throw (error : Error) :
    Exact image stop context (MonadExcept.throw error : Decode α) (fun _ _ _ => False) where
  within := within_throw error
  complete _ _ _ _ _ spelt := spelt.elim

theorem bind (h : Exact image stop context first grammar)
    (each : ∀ value, Exact image stop context (next value) (second value)) :
    Exact image stop context (first >>= next) (grammar.andThen second) where
  within := h.within.bind fun value => (each value).within
  complete place value finish sound stops spelt := by
    obtain ⟨head, middle, spelt, spelt'⟩ := spelt
    have ran := h.complete place head middle sound stops spelt
    rw [DirectReader.run_bind_of_ok ran]
    exact (each head).complete _ value finish (sound.behind ran) stops spelt'

theorem map (f : α → β) (h : Exact image stop context step grammar) :
    Exact image stop context (f <$> step)
      (fun start value finish => ∃ head, grammar start head finish ∧ value = f head) := by
  rw [map_eq_pure_bind]
  refine (h.bind fun head => pure (f head)).congr fun start value finish => ?_
  constructor
  · rintro ⟨head, middle, spelt, rfl, rfl⟩
    exact ⟨head, spelt, rfl⟩
  · rintro ⟨head, spelt, rfl⟩
    exact ⟨head, finish, spelt, rfl, rfl⟩

theorem look {f : View → Decode α}
    (h : ∀ seen, seen.context = context → Exact image stop context (f seen) grammar) :
    Exact image stop context (view >>= f) grammar where
  within place value reached sound stops ran :=
    (h (DirectReader.view ⟨some place, context⟩) rfl).within place value reached sound stops ran
  complete place value finish sound stops spelt :=
    (h (DirectReader.view ⟨some place, context⟩) rfl).complete place value finish sound stops spelt

end Exact

theorem exact_skip (count : Nat) :
    Exact image stop context (skip count) (Grammar.room stop count) := by
  have ran (place : Place) : DirectReader.run image (skip count).run ⟨some place, context⟩ =
      DirectReader.changePlace (Place.seek (place.offset + count)) ⟨some place, context⟩ := rfl
  constructor
  · intro place value reached sound stops moves
    rw [ran] at moves
    simp only [DirectReader.changePlace] at moves
    split at moves
    · cases moves
    · rename_i there sought
      cases moves
      obtain ⟨-, inside, rfl⟩ := Place.seek_eq_ok_iff.mp sought
      exact ⟨_, ⟨stops ▸ inside, rfl⟩, rfl⟩
  · rintro place value finish sound stops ⟨inside, rfl⟩
    have sought : place.seek (place.offset + count) =
        .ok { place with offset := place.offset + count } :=
      Place.seek_eq_ok_iff.mpr
        ⟨Nat.le_add_right_of_le sound.first_le_offset, stops ▸ inside, rfl⟩
    rw [ran]
    simp only [DirectReader.changePlace, sought]

/-- An unsigned integer of a fixed width, which needs at least one byte. -/
def field (image : Array UInt8) (stop width : Nat) : Grammar Nat := fun start value finish =>
  Source.fieldAt image stop start width = .ok value ∧ finish = start + width

theorem exact_unsigned {width : Nat} (positive : 0 < width) :
    Exact image stop context (unsigned width) (field image stop width) := by
  constructor
  · intro place value reached sound stops ran
    rw [DirectReader.run_unsigned image width positive sound, stops] at ran
    split at ran
    · rename_i read fielded
      cases ran
      exact ⟨_, ⟨fielded, rfl⟩, rfl⟩
    · cases ran
  · rintro place value finish sound rfl ⟨fielded, rfl⟩
    rw [DirectReader.run_unsigned image width positive sound, fielded]
    rfl

theorem exact_unsignedChecked {width : Nat} (sized : 1 ≤ width ∧ width ≤ 8) :
    Exact image stop context (unsignedChecked width) (field image stop width) := by
  rw [unsignedChecked, if_pos sized]
  exact exact_unsigned sized.1

end Decode

namespace Source

/-- The bytes of an image at an offset, up to a limit, start with the given ones. -/
def Starts (image : Array UInt8) (stop offset : Nat) (bytes : List UInt8) : Prop :=
  offset + bytes.length ≤ stop ∧ (imageBytes image offset bytes.length).toList = bytes

variable {image : Array UInt8} {stop offset : Nat} {byte : UInt8} {bytes : List UInt8}

/-- Bytes start with a first one, and go on with the others behind it. -/
theorem starts_cons_iff :
    Starts image stop offset (byte :: bytes) ↔
      Starts image stop offset [byte] ∧ Starts image stop (offset + 1) bytes := by
  have parts := imageBytes_add image offset 1 bytes.length
  simp only [Starts, List.length_cons, List.length_nil, Nat.zero_add,
    Nat.add_comm bytes.length 1, parts, Array.toList_append]
  constructor
  · rintro ⟨inside, listed⟩
    have size : (imageBytes image offset 1).toList.length = [byte].length := by
      have sizes := congrArg List.length listed
      simp only [List.length_append, Array.length_toList, size_imageBytes, List.length_cons,
        List.length_nil] at sizes ⊢
      omega
    obtain ⟨head, tail⟩ := List.append_inj (listed.trans List.singleton_append.symm) size
    exact ⟨⟨by omega, head⟩, by omega, tail⟩
  · rintro ⟨⟨-, head⟩, inside, tail⟩
    rw [head, tail]
    exact ⟨by omega, rfl⟩

end Source

/-! ### Integers in groups of seven bits -/

namespace Leb128

/-- The bytes of one LEB128 integer: every byte but the last announces another one. -/
inductive Groups : List UInt8 → Prop where
  | last {byte : UInt8} : byte.toNat < 128 → Groups [byte]
  | more {byte : UInt8} {rest : List UInt8} : 128 ≤ byte.toNat → Groups rest → Groups (byte :: rest)

/-- The number that groups denote, seven bits each and the lowest first. -/
def unsigned : List UInt8 → Nat
  | [] => 0
  | byte :: rest => byte.toNat % 128 + 128 * unsigned rest

/-- The number that groups denote in two's complement, whose sign is the highest bit of the last. -/
def signed : List UInt8 → Int
  | [] => 0
  | [last] => if last.toNat < 64 then last.toNat else last.toNat - 128
  | byte :: rest => (byte.toNat % 128 : Nat) + 128 * signed rest

theorem signed_positive {byte : UInt8} (h : byte.toNat < 64) : signed [byte] = byte.toNat :=
  if_pos h

theorem signed_negative {byte : UInt8} (h : ¬ byte.toNat < 64) :
    signed [byte] = (byte.toNat : Int) - 128 :=
  if_neg h

theorem signed_more {byte : UInt8} {rest : List UInt8} (formed : Groups rest) :
    signed (byte :: rest) = (byte.toNat % 128 : Nat) + 128 * signed rest := by
  cases formed <;> rfl

/-- So many groups at most stand at an offset, and denote the value. -/
def Groups.At {ν : Type} (image : Array UInt8) (stop most : Nat) (number : List UInt8 → ν)
    (fits : ν → Prop) : Grammar ν := fun start value finish =>
  ∃ groups, Groups groups ∧ groups.length ≤ most ∧ Source.Starts image stop start groups ∧
    fits value ∧ value = number groups ∧ finish = start + groups.length

end Leb128

namespace Decode

variable {α : Type} {image : Array UInt8} {stop : Nat} {context : Context}

/-- A byte is read where the window and the image have one. -/
theorem exact_byte : Exact image stop context byte
    (fun start value finish => ∃ byte, Source.Starts image stop start [byte] ∧
      value = byte.toNat ∧ finish = start + 1) := by
  refine (exact_unsigned Nat.one_pos).congr fun start value finish => ?_
  have size := Source.size_imageBytes image start 1
  simp only [field, Source.fieldAt, Source.wordAt, Source.Starts, List.length_singleton]
  constructor
  · rintro ⟨read, rfl⟩
    split at read
    · cases read
    · split at read
      · cases read
      · have single : (Source.imageBytes image start 1).toList.length = 1 := by
          rw [Array.length_toList]
          omega
        obtain ⟨byte, listed⟩ := List.length_eq_one_iff.mp single
        rw [listed] at read
        cases read
        exact ⟨byte, ⟨by omega, listed⟩, by simp [littleEndian], rfl⟩
  · rintro ⟨byte, ⟨inside, listed⟩, rfl, rfl⟩
    have single := congrArg List.length listed
    rw [Array.length_toList, List.length_singleton] at single
    rw [if_neg (by omega), if_neg (by omega), listed]
    simp [littleEndian]

/-- A check reads where it holds. -/
theorem Exact.guard {step : Decode α} {grammar : Grammar α} {error : Error} {p : Prop}
    [Decidable p] (h : Exact image stop context step grammar) :
    Exact image stop context (if p then step else MonadExcept.throw error)
      (fun start value finish => p ∧ grammar start value finish) := by
  split
  · rename_i holds
    exact h.congr fun start value finish => ⟨fun spelt => ⟨holds, spelt⟩, And.right⟩
  · rename_i fails
    exact (throw error).congr fun start value finish => ⟨False.elim, fun spelt => fails spelt.1⟩

/-- A choice reads one of two grammars. -/
theorem Exact.ite {step step' : Decode α} {grammar grammar' : Grammar α} {p : Prop} [Decidable p]
    (h : Exact image stop context step grammar) (h' : Exact image stop context step' grammar') :
    Exact image stop context (if p then step else step') (fun start value finish =>
      p ∧ grammar start value finish ∨ ¬ p ∧ grammar' start value finish) := by
  split
  · rename_i holds
    exact h.congr fun start value finish => by simp [holds]
  · rename_i fails
    exact h'.congr fun start value finish => by simp [fails]

/-- The groups of an unsigned encoding are read where they stand, if there are not too many and the
last possible one has a single bit. -/
theorem exact_unsignedGroups (begins more : Nat) :
    Exact image stop context (unsignedGroups begins more)
      (Leb128.Groups.At image stop (more + 1) Leb128.unsigned (· < 2 ^ (7 * more + 1))) := by
  induction more with
  | zero =>
      refine (exact_byte.bind fun last => (Exact.pure last).guard).congr
        fun start value finish => ?_
      constructor
      · rintro ⟨-, -, ⟨byte, there, rfl, rfl⟩, small, rfl, rfl⟩
        refine ⟨[byte], .last (by omega), Nat.le_refl 1, there, by omega, ?_, rfl⟩
        simp only [Leb128.unsigned]
        omega
      · rintro ⟨groups, formed, few, there, fits, rfl, rfl⟩
        cases formed with
        | @last byte small =>
            simp only [Leb128.unsigned] at fits ⊢
            exact ⟨_, _, ⟨byte, there, rfl, rfl⟩, by omega, by omega, rfl⟩
        | @more byte rest announces formed =>
            cases formed <;> simp at few
  | succ more ih =>
      have goes (group : Nat) := Exact.ite (p := group < 128) (Exact.pure group)
        (ih.bind fun rest => Exact.pure (group % 128 + 128 * rest))
      refine (exact_byte.bind goes).congr fun start value finish => ?_
      have power : 2 ^ (7 * (more + 1) + 1) = 2 ^ (7 * more + 1) * 128 :=
        Nat.pow_add 2 (7 * more + 1) 7
      constructor
      · rintro ⟨-, -, ⟨byte, there, rfl, rfl⟩, ⟨small, rfl, rfl⟩ | ⟨large, -, -, ⟨groups, formed,
          few, follow, fits, rfl, rfl⟩, rfl, rfl⟩⟩
        · have positive : 0 < 2 ^ (7 * more + 1) := Nat.two_pow_pos _
          refine ⟨[byte], .last small, by simp, there, by omega, ?_, rfl⟩
          simp only [Leb128.unsigned]
          omega
        · refine ⟨byte :: groups, .more (by omega) formed, by simpa using few,
            Source.starts_cons_iff.mpr ⟨there, follow⟩, by omega, rfl, ?_⟩
          simp only [List.length_cons]
          omega
      · rintro ⟨groups, formed, few, there, fits, rfl, rfl⟩
        cases formed with
        | @last byte small =>
            refine ⟨_, _, ⟨byte, there, rfl, rfl⟩, .inl ⟨small, ?_, rfl⟩⟩
            simp only [Leb128.unsigned]
            omega
        | @more byte rest announces formed =>
            obtain ⟨there, follow⟩ := Source.starts_cons_iff.mp there
            simp only [Leb128.unsigned] at fits
            refine ⟨_, _, ⟨byte, there, rfl, rfl⟩, .inr ⟨by omega, _, _, ⟨rest, formed,
              by simpa using few, follow, by omega, rfl, rfl⟩, rfl, ?_⟩⟩
            simp only [List.length_cons]
            omega

/-- The groups of a signed encoding are read where they stand, if there are not too many and the
last possible one repeats the sign. -/
theorem exact_signedGroups (begins more : Nat) :
    Exact image stop context (signedGroups begins more)
      (Leb128.Groups.At image stop (more + 1) Leb128.signed
        (fun value => -2 ^ (7 * more) ≤ value ∧ value < 2 ^ (7 * more))) := by
  induction more with
  | zero =>
      refine (exact_byte.bind fun last => (Exact.pure 0).ite (Exact.pure (-1)).guard).congr
        fun start value finish => ?_
      constructor
      · rintro ⟨-, -, ⟨byte, there, rfl, rfl⟩, ⟨zero, rfl, rfl⟩ | ⟨-, ones, rfl, rfl⟩⟩
        · refine ⟨[byte], .last (by omega), Nat.le_refl 1, there, by decide, ?_, rfl⟩
          rw [Leb128.signed_positive (by omega), zero]
          rfl
        · refine ⟨[byte], .last (by omega), Nat.le_refl 1, there, by decide, ?_, rfl⟩
          rw [Leb128.signed_negative (by omega), ones]
          rfl
      · rintro ⟨groups, formed, few, there, fits, rfl, rfl⟩
        cases formed with
        | @last byte small =>
            refine ⟨_, _, ⟨byte, there, rfl, rfl⟩, ?_⟩
            by_cases positive : byte.toNat < 64
            · rw [Leb128.signed_positive positive] at fits ⊢
              exact .inl ⟨by omega, by omega, rfl⟩
            · rw [Leb128.signed_negative positive] at fits ⊢
              exact .inr ⟨by omega, by omega, by omega, rfl⟩
        | @more byte rest announces formed =>
            cases formed <;> simp at few
  | succ more ih =>
      have goes (group : Nat) := Exact.ite (p := group < 64) (Exact.pure (group : Int))
        (Exact.ite (p := group < 128) (Exact.pure (group - 128 : Int))
          (ih.bind fun rest => Exact.pure ((group % 128 : Nat) + 128 * rest : Int)))
      refine (exact_byte.bind goes).congr fun start value finish => ?_
      have power : (2 : Int) ^ (7 * (more + 1)) = 2 ^ (7 * more) * 128 :=
        Int.pow_add 2 (7 * more) 7
      have positive : (0 : Int) < 2 ^ (7 * more) := Int.pow_pos (by decide)
      constructor
      · rintro ⟨-, -, ⟨byte, there, rfl, rfl⟩, choice⟩
        rcases choice with ⟨small, rfl, rfl⟩ | ⟨large, ⟨small, rfl, rfl⟩ | ⟨announces, -, -,
          ⟨groups, formed, few, follow, fits, rfl, rfl⟩, rfl, rfl⟩⟩
        · exact ⟨[byte], .last (by omega), by simp, there, by omega,
            (Leb128.signed_positive small).symm, rfl⟩
        · exact ⟨[byte], .last small, by simp, there, by omega,
            (Leb128.signed_negative large).symm, rfl⟩
        · refine ⟨byte :: groups, .more (by omega) formed, by simpa using few,
            Source.starts_cons_iff.mpr ⟨there, follow⟩, by omega,
            (Leb128.signed_more formed).symm, ?_⟩
          simp only [List.length_cons]
          omega
      · rintro ⟨groups, formed, few, there, fits, rfl, rfl⟩
        cases formed with
        | @last byte small =>
            refine ⟨_, _, ⟨byte, there, rfl, rfl⟩, ?_⟩
            by_cases positive : byte.toNat < 64
            · exact .inl ⟨positive, Leb128.signed_positive positive, rfl⟩
            · exact .inr ⟨positive, .inl ⟨small, Leb128.signed_negative positive, rfl⟩⟩
        | @more byte rest announces formed =>
            obtain ⟨there, follow⟩ := Source.starts_cons_iff.mp there
            rw [Leb128.signed_more formed] at fits ⊢
            refine ⟨_, _, ⟨byte, there, rfl, rfl⟩, .inr ⟨by omega, .inr ⟨by omega, _, _, ⟨rest,
              formed, by simpa using few, follow, by omega, rfl, rfl⟩, rfl, ?_⟩⟩⟩
            simp only [List.length_cons]
            omega

/-- A number of groups that a check lets through and that fits any wide enough bound is one that the
check lets through. -/
theorem exact_checkedGroups {ν : Type} {step : Decode ν} {number : List UInt8 → ν}
    {fits : ν → Prop} {accepts : ν → Prop} [DecidablePred accepts] {error : Error}
    (reads : Exact image stop context step (Leb128.Groups.At image stop 10 number fits))
    (narrower : ∀ value, accepts value → fits value) :
    Exact image stop context (do
        let value ← step
        if accepts value then pure value else throw error)
      (Leb128.Groups.At image stop 10 number accepts) := by
  refine (reads.bind fun value => (Exact.pure value).guard).congr fun start value finish => ?_
  constructor
  · rintro ⟨-, -, ⟨groups, formed, few, there, -, rfl, rfl⟩, accepted, rfl, rfl⟩
    exact ⟨groups, formed, few, there, accepted, rfl, rfl⟩
  · rintro ⟨groups, formed, few, there, accepted, rfl, rfl⟩
    exact ⟨_, _, ⟨groups, formed, few, there, narrower _ accepted, rfl, rfl⟩, accepted, rfl, rfl⟩

/-- An unsigned LEB128 integer of a type of 64 bits at most is read where ten groups at most stand
that denote a number of the type. -/
theorem exact_uleb128 {type : IntType} (unsigned : type.signed = false) (bits : type.bits ≤ 64) :
    Exact image stop context (uleb128 type)
      (Leb128.Groups.At image stop 10 Leb128.unsigned (fun value => type.holds value)) := by
  refine Exact.look fun seen _ => exact_checkedGroups (exact_unsignedGroups _ 9)
    fun value holds => ?_
  have word := IntType.le_max_of_holds unsigned bits holds
  unfold Word.max at word
  omega

/-- A signed LEB128 integer of a type of 64 bits at most is read where ten groups at most stand
that denote a number of the type. -/
theorem exact_sleb128 {type : IntType} (signed : type.signed = true) (bits : type.bits ≤ 64) :
    Exact image stop context (sleb128 type)
      (Leb128.Groups.At image stop 10 Leb128.signed (fun value => type.holds value)) := by
  refine Exact.look fun seen _ => exact_checkedGroups (exact_signedGroups _ 9)
    fun value holds => ?_
  have power : 2 ^ (type.bits - 1) ≤ 2 ^ 63 := Nat.pow_le_pow_right (by decide) (by omega)
  simp only [IntType.holds, signed, IntType.patterns, Nat.one_shiftLeft, if_true,
    Bool.and_eq_true, decide_eq_true_eq] at holds
  omega

/-- A text without NUL, and a NUL behind it. -/
def terminated (image : Array UInt8) (stop : Nat) : Grammar (List UInt8) := fun start text finish =>
  (∀ byte ∈ text, byte ≠ 0) ∧ Source.Starts image stop start (text ++ [0]) ∧
    finish = start + (text.length + 1)

/-- A single byte that is taken stands in the window and in the image. -/
theorem starts_of_take {place moved : Place} {bytes : List UInt8} (sound : place.Sound)
    (h : place.take image 1 = (.ok bytes, moved)) :
    ∃ byte, bytes = [byte] ∧ Source.Starts image place.stop place.offset [byte] ∧
      moved = place.advance 1 := by
  have held := Place.holds_of_take h
  have order := sound.offset_le_stop
  rw [Place.take_of_holds held] at h
  cases h
  simp only [Place.Holds, Place.remaining] at held
  have single : (Source.imageBytes image place.offset 1).toList.length = 1 := by
    rw [Array.length_toList, Source.size_imageBytes]
    omega
  obtain ⟨byte, listed⟩ := List.length_eq_one_iff.mp single
  refine ⟨byte, listed, ⟨?_, listed⟩, rfl⟩
  simp only [List.length_singleton]
  omega

/-- Bytes that are taken up to a NUL are a text and its NUL. -/
theorem terminated_of_stringFrom (begins : Nat) (ahead : Ahead) (rest : Nat) {place : Place}
    {taken delivered : List UInt8} {reached : DirectReader} (sound : place.Sound)
    (ran : DirectReader.run image (stringFrom begins ahead taken rest) ⟨some place, context⟩ =
      (⟨delivered, none⟩, reached)) :
    ∃ text finish, delivered = taken.reverse ++ text ∧
      terminated image place.stop place.offset text finish ∧
        reached = ⟨some { place with offset := finish }, context⟩ := by
  induction rest generalizing place taken with
  | zero => cases ran
  | succ rest ih =>
      have step := DirectReader.run_takeAhead image ahead 1 place context
      simp only [DirectReader.run, stringFrom, Dialogue.run_bind] at ran step ih
      rw [step] at ran
      rcases taking : place.take image 1 with ⟨_ | bytes, moved⟩
      · rw [taking] at ran
        cases ran
      · rw [taking] at ran
        obtain ⟨byte, rfl, there, rfl⟩ := starts_of_take sound taking
        dsimp only at ran
        split at ran
        · rename_i nul
          cases nul
          cases ran
          exact ⟨[], _, by simp, ⟨by simp, there, rfl⟩, rfl⟩
        · rename_i plain
          obtain ⟨text, finish, rfl, ⟨plains, follow, rfl⟩, stands⟩ :=
            ih (sound.advance there.1) ran
          refine ⟨byte :: text, _, by simp,
            ⟨?_, Source.starts_cons_iff.mpr ⟨there, follow⟩, rfl⟩, ?_⟩
          · intro other member
            rcases List.mem_cons.mp member with rfl | later
            · exact fun nul => plain (nul ▸ rfl)
            · exact plains other later
          · rw [stands]
            simp only [Place.advance, List.length_cons, List.length_nil]
            congr 3
            omega

/-- A string is read where a text without NUL and a NUL behind it stand, however far ahead its
reader loads. -/
theorem exact_stringAhead (ahead : Ahead) :
    Exact image stop context (completed (stringAhead ahead)) (terminated image stop) := by
  have ran (place : Place) :
      DirectReader.run image (completed (stringAhead ahead)).run ⟨some place, context⟩ =
        let read := DirectReader.run image
          (stringFrom place.offset ahead [] place.remaining) ⟨some place, context⟩
        (read.1.complete, read.2) := by
    rw [← DirectReader.run_stringAhead image ahead place context]
    exact Dialogue.run_map (DirectReader.serve image) Transfer.complete (stringAhead ahead)
      ⟨some place, context⟩
  constructor
  · intro place value reached sound stops reads
    rw [ran] at reads
    rcases read : DirectReader.run image (stringFrom place.offset ahead [] place.remaining)
      ⟨some place, context⟩ with ⟨⟨delivered, _ | error⟩, left⟩
    · rw [read] at reads
      cases reads
      obtain ⟨text, finish, rfl, spelt, stands⟩ := terminated_of_stringFrom _ _ _ sound read
      exact ⟨finish, stops ▸ spelt, stands⟩
    · rw [read] at reads
      cases reads
  · rintro place text finish sound rfl ⟨plain, there, rfl⟩
    have inside := there.1
    have listed := there.2
    have size := congrArg List.length listed
    simp only [List.length_append, List.length_singleton, Array.length_toList,
      Source.size_imageBytes] at inside size listed
    have remains : text.length + 1 ≤ place.remaining := by
      simp only [Place.remaining]
      omega
    have read : DirectReader.run image (stringFrom place.offset ahead [] place.remaining)
        ⟨some place, context⟩ = _ :=
      DirectReader.run_stringFrom_of_holds place.offset ahead text [] remains plain
        ⟨remains, by omega⟩ listed
    rw [ran, read]
    rfl

theorem exact_string : Exact image stop context (completed string) (terminated image stop) :=
  exact_stringAhead .buffer

end Decode

end Dwarf
