import Dwarf.Proofs.Leb128
/-!
# Steps that read codes

A code says which bytes stand for a value.  A step reads a code if it gives a value exactly where
the code of that stands in the window, and stands behind it then, with what is learnt from the
value.
-/

namespace Dwarf

/-- The bytes of an integer of some width, least significant byte first. -/
def toLittleEndian : (width : Nat) → (value : Nat) → List UInt8
  | 0, _ => []
  | width + 1, value => .ofNat (value % 256) :: toLittleEndian width (value / 256)

@[simp] theorem length_toLittleEndian (width value : Nat) :
    (toLittleEndian width value).length = width := by
  induction width generalizing value with
  | zero => rfl
  | succ width ih => rw [toLittleEndian, List.length_cons, ih]

/-- The bytes of an integer denote it, if it is not too wide. -/
theorem littleEndian_toLittleEndian {width value : Nat} (fits : value < 256 ^ width) :
    littleEndian (toLittleEndian width value) = value := by
  induction width generalizing value with
  | zero => exact (Nat.lt_one_iff.mp fits).symm
  | succ width ih =>
      have rest : value / 256 < 256 ^ width := by
        rw [Nat.div_lt_iff_lt_mul (by decide)]
        exact fits
      rw [toLittleEndian, littleEndian, ih rest, UInt8.toNat_ofNat']
      omega

/-- Bytes are those of the integer that they denote. -/
theorem toLittleEndian_littleEndian (bytes : List UInt8) :
    toLittleEndian bytes.length (littleEndian bytes) = bytes := by
  induction bytes with
  | nil => rfl
  | cons byte rest ih =>
      have small := byte.toNat_lt
      have low : (byte.toNat + 256 * littleEndian rest) % 256 = byte.toNat := by omega
      have high : (byte.toNat + 256 * littleEndian rest) / 256 = littleEndian rest := by omega
      rw [List.length_cons, littleEndian, toLittleEndian, low, high, ih, UInt8.ofNat_toNat]

theorem littleEndian_lt (bytes : List UInt8) : littleEndian bytes < 256 ^ bytes.length := by
  induction bytes with
  | nil => exact Nat.one_pos
  | cons byte rest ih =>
      have small := byte.toNat_lt
      rw [littleEndian, List.length_cons, Nat.pow_succ]
      omega

/-- A field holds an integer exactly if its bytes stand there. -/
theorem Source.fieldAt_eq_ok_iff {image : Array UInt8} {stop offset width value : Nat}
    (positive : 0 < width) :
    fieldAt image stop offset width = .ok value ↔
      value < 256 ^ width ∧ Starts image stop offset (toLittleEndian width value) := by
  have size := size_imageBytes image offset width
  simp only [fieldAt, wordAt, Starts, length_toLittleEndian]
  constructor
  · intro read
    split at read
    · cases read
    · split at read
      · cases read
      · have wide : (imageBytes image offset width).toList.length = width := by
          rw [Array.length_toList]
          omega
        have small := littleEndian_lt (imageBytes image offset width).toList
        have listed := toLittleEndian_littleEndian (imageBytes image offset width).toList
        rw [wide] at small listed
        cases read
        exact ⟨small, by omega, listed.symm⟩
  · rintro ⟨small, inside, listed⟩
    have wide := congrArg List.length listed
    rw [Array.length_toList, length_toLittleEndian] at wide
    rw [if_neg (by omega), if_neg (by omega), listed, littleEndian_toLittleEndian small]

/-- Which values have a code, and what it is. -/
structure Code (α : Type) where
  /-- Whether a value has a code. -/
  Fits : α → Prop
  /-- The bytes of a value. -/
  bytes : α → List UInt8

namespace Code

variable {α β : Type}

/-- The code of the one value that needs no bytes. -/
def nothing (answer : α) : Code α := ⟨(· = answer), fun _ => []⟩

/-- The code of no value. -/
def none : Code α := ⟨fun _ => False, fun _ => []⟩

/-- The code of an integer of some width. -/
def fixed (width : Nat) : Code Nat := ⟨(· < 256 ^ width), toLittleEndian width⟩

/-- The code of a part, and that of the whole behind it. -/
def andThen (first : Code α) (part : β → α) (second : α → Code β) : Code β where
  Fits value := first.Fits (part value) ∧ (second (part value)).Fits value
  bytes value := first.bytes (part value) ++ (second (part value)).bytes value

end Code

namespace Decode

variable {α β : Type} {image : Array UInt8} {place : Place} {context : Context} {format : Format}

/-- A step reads a code at a place: it gives a value exactly if the code of that stands in the
window, and then stands behind it and has learnt something. -/
def Reads (image : Array UInt8) (place : Place) (context : Context) (step : Decode α)
    (code : Code α) (learnt : α → Context) : Prop :=
  ∀ value left, DirectReader.run image step.run ⟨some place, context⟩ = (.ok value, left) ↔
    code.Fits value ∧ Source.Starts image place.stop place.offset (code.bytes value) ∧
      left = ⟨some (place.advance (code.bytes value).length), learnt value⟩

namespace Reads

variable {step first : Decode α} {next : α → Decode β} {code code' : Code α}
variable {second : α → Code β} {learnt : α → Context} {learnt' : β → Context}

theorem congr (h : Reads image place context step code learnt)
    (fits : ∀ value, code.Fits value ↔ code'.Fits value)
    (bytes : ∀ value, code'.Fits value → code.bytes value = code'.bytes value) :
    Reads image place context step code' learnt := by
  intro value left
  rw [h value left, fits value]
  apply and_congr_right
  intro fit
  rw [bytes value fit]

theorem learns {learnt' : α → Context} (h : Reads image place context step code learnt)
    (same : ∀ value, code.Fits value → learnt value = learnt' value) :
    Reads image place context step code learnt' := by
  intro value left
  rw [h value left]
  apply and_congr_right
  intro fit
  rw [same value fit]

theorem pure (sound : place.Sound) {answer : α} (known : learnt answer = context) :
    Reads image place context (Pure.pure answer) (.nothing answer) learnt := by
  intro value left
  constructor
  · intro ran
    cases ran
    exact ⟨rfl, ⟨sound.offset_le_stop, by simp [Code.nothing, Source.imageBytes]⟩,
      by rw [known]; rfl⟩
  · rintro ⟨rfl, -, rfl⟩
    rw [known]
    rfl

theorem throw (error : Error) :
    Reads image place context (MonadExcept.throw error) .none learnt := by
  intro value left
  constructor
  · intro ran
    cases ran
  · rintro ⟨⟨⟩, -⟩

/-- One step after another reads one code after another, if the first value is a part of the
last. -/
theorem bind (part : β → α) (sound : place.Sound)
    (h : Reads image place context first code learnt)
    (each : ∀ head, code.Fits head → (place.advance (code.bytes head).length).Sound →
      Reads image (place.advance (code.bytes head).length) (learnt head) (next head) (second head)
        learnt')
    (parts : ∀ head value, code.Fits head → (second head).Fits value → part value = head) :
    Reads image place context (first >>= next) (code.andThen part second) learnt' := by
  intro value left
  simp only [Code.andThen, List.length_append, Source.starts_append_iff]
  constructor
  · intro ran
    obtain ⟨head, middle, ran, goes⟩ := Dialogue.runStep_bind_ok _ _ ran
    obtain ⟨fits, starts, rfl⟩ := (h head middle).mp ran
    have goes := (each head fits (sound.advance starts.1) value left).mp goes
    obtain ⟨fits', starts', rfl⟩ := goes
    obtain rfl := parts head value fits fits'
    rw [Place.advance_advance]
    exact ⟨⟨fits, fits'⟩, ⟨starts, starts'⟩, rfl⟩
  · rintro ⟨⟨fits, fits'⟩, ⟨starts, starts'⟩, rfl⟩
    have ran := (h (part value) _).mpr ⟨fits, starts, rfl⟩
    rw [DirectReader.run_bind_of_ok ran, ← Place.advance_advance]
    exact (each _ fits (sound.advance starts.1) value _).mpr ⟨fits', starts', rfl⟩

end Reads

theorem reads_unsigned {width : Nat} (positive : 0 < width) (sound : place.Sound) :
    Reads image place context (unsigned width) (.fixed width) fun _ => context := by
  intro value left
  rw [DirectReader.run_unsigned image width positive sound]
  simp only [Code.fixed, ← and_assoc, length_toLittleEndian, ← Source.fieldAt_eq_ok_iff positive]
  cases Source.fieldAt image place.stop place.offset width <;> simp [eq_comm]

theorem run_format (known : context.format = some format) :
    DirectReader.run image Decode.format.run ⟨some place, context⟩ =
      (.ok format, ⟨some place, context⟩) := by
  obtain ⟨_, size, version⟩ := context
  cases known
  rfl

theorem reads_record (sound : place.Sound) (change : Context → Context) :
    Reads image place context (record change) (.nothing ()) fun _ => change context := by
  have told : Reads image place (change context) (pure ()) (.nothing ())
      fun _ => change context := .pure sound rfl
  exact told

theorem reads_sectionOffset (sound : place.Sound) (known : context.format = some format) :
    Reads image place context sectionOffset (.fixed format.wordSize) fun _ => context := by
  obtain ⟨_, size, version⟩ := context
  cases known
  have told : Reads image place ⟨some format, size, version⟩ (offset format)
      (.fixed format.wordSize) fun _ => ⟨some format, size, version⟩ :=
    reads_unsigned format.wordSize_pos sound
  exact told

end Decode

end Dwarf
