import Dwarf.Proofs.LongReads
import Dwarf.Unit.Header
/-!
# Initial lengths

The initial length of a unit says where the unit ends.  A direct reader that locates the unit at its
position finds the end that the image says there, and fails as the image says there.
-/

namespace Dwarf

namespace Source

/-- Two images have the same bytes in a range. -/
def Agree (image image' : Array UInt8) (start stop : Nat) : Prop :=
  ∀ index, start ≤ index → index < stop → image[index]? = image'[index]?

variable {image image' : Array UInt8} {start stop offset length : Nat}

theorem Agree.refl (image : Array UInt8) (start stop : Nat) : Agree image image start stop :=
  fun _ _ _ => rfl

theorem Agree.mono {start' stop' : Nat} (h : Agree image image' start stop)
    (later : start ≤ start') (earlier : stop' ≤ stop) : Agree image image' start' stop' :=
  fun index from' upto => h index (Nat.le_trans later from') (Nat.lt_of_lt_of_le upto earlier)

/-- Images that agree on a range deliver the same bytes of it. -/
theorem Agree.imageBytes (h : Agree image image' start stop) (later : start ≤ offset)
    (earlier : offset + length ≤ stop) :
    imageBytes image offset length = imageBytes image' offset length := by
  apply Array.ext_getElem?
  intro index
  rw [getElem?_imageBytes, getElem?_imageBytes]
  split
  · exact h (offset + index) (by omega) (by omega)
  · rfl

/-- The unsigned integer of some bytes at an offset. -/
def wordAt (image : Array UInt8) (offset width : Nat) : Nat :=
  littleEndian (Source.imageBytes image offset width).toList

/-- The unsigned integer of some bytes at an offset, which must lie before a limit and inside the
image. -/
def fieldAt (image : Array UInt8) (limit offset width : Nat) : Except Error Nat :=
  if limit < offset + width then .error (.tooFewBytes offset width (limit - offset))
  else if image.size < offset + width then
    .error (.shortDelivery offset width (image.size - offset))
  else .ok (wordAt image offset width)

end Source

namespace UnitExtent

open Source Decode

/-- The size of the initial length at an offset. -/
def lengthSize (image : Array UInt8) (offset : Nat) : Nat :=
  if wordAt image offset 4 = wideLength then 12 else 4

/-- The length that the initial length at an offset declares. -/
def lengthAt (image : Array UInt8) (offset : Nat) : Nat :=
  if wordAt image offset 4 = wideLength then wordAt image (offset + 4) 8
  else wordAt image offset 4

/-- The format that the initial length at an offset implies. -/
def formatAt (image : Array UInt8) (offset : Nat) : Format :=
  if wordAt image offset 4 = wideLength then .dwarf64 else .dwarf32

/-- The end of a structure of some length at an offset, which must not exceed a limit. -/
def stopAt (limit offset length : Nat) : Except Error Nat :=
  if offset + length ≤ limit then .ok (offset + length)
  else .error (.tooFewBytes offset length (limit - offset))

/-- The end of the unit at an offset, as its initial length says. -/
def link (image : Array UInt8) (limit offset : Nat) : Except Error Nat :=
  match fieldAt image limit offset 4 with
  | .error error => .error error
  | .ok word =>
    if word < reservedLengths then stopAt limit (offset + 4) word
    else if word = wideLength then
      match fieldAt image limit (offset + 4) 8 with
      | .error error => .error error
      | .ok length => stopAt limit (offset + 12) length
    else .error (.reservedLength word)

/-- The reasons why a unit cannot be located: its initial length does not fit before the limit, is
reserved, or declares more bytes than follow. -/
def Unlocatable (image : Array UInt8) (limit offset : Nat) : Prop :=
  limit < offset + lengthSize image offset ∨
    reservedLengths ≤ wordAt image offset 4 ∧ wordAt image offset 4 ≠ wideLength ∨
      limit < offset + lengthSize image offset + lengthAt image offset

variable {image image' : Array UInt8} {limit offset next : Nat} {error : Error}

theorem four_le_lengthSize (image : Array UInt8) (offset : Nat) : 4 ≤ lengthSize image offset := by
  simp only [lengthSize]
  split <;> decide

theorem fieldAt_eq_ok {width value : Nat} (h : fieldAt image limit offset width = .ok value) :
    offset + width ≤ limit ∧ value = wordAt image offset width := by
  simp only [fieldAt] at h
  split at h
  · cases h
  · rename_i before
    split at h
    · cases h
    · cases h
      exact ⟨Nat.le_of_not_lt before, rfl⟩

theorem fieldAt_of_le (inside : limit ≤ image.size) {width : Nat} (before : offset + width ≤ limit) :
    fieldAt image limit offset width = .ok (wordAt image offset width) := by
  simp only [fieldAt]
  rw [if_neg (by omega), if_neg (by omega)]

theorem fieldAt_of_lt (image : Array UInt8) {width : Nat} (beyond : limit < offset + width) :
    fieldAt image limit offset width = .error (.tooFewBytes offset width (limit - offset)) :=
  if_pos beyond

/-- Images that agree on a field, if it lies before the limit, agree on reading it. -/
theorem fieldAt_congr {width : Nat} (positive : 0 < width)
    (h : offset + width ≤ limit → Agree image image' offset (offset + width)) :
    fieldAt image limit offset width = fieldAt image' limit offset width := by
  by_cases beyond : limit < offset + width
  · rw [fieldAt_of_lt image beyond, fieldAt_of_lt image' beyond]
  · have same := (h (Nat.le_of_not_lt beyond)).imageBytes (Nat.le_refl _) (Nat.le_refl _)
    have sizes := congrArg Array.size same
    rw [size_imageBytes, size_imageBytes] at sizes
    simp only [fieldAt, wordAt]
    rw [if_neg beyond, if_neg beyond, same]
    by_cases short : image.size < offset + width
    · have rest : image.size - offset = image'.size - offset := by omega
      rw [if_pos short, if_pos (by omega), rest]
    · rw [if_neg short, if_neg (by omega)]

theorem stopAt_eq_ok_iff {length : Nat} :
    stopAt limit offset length = .ok next ↔ offset + length = next ∧ next ≤ limit := by
  simp only [stopAt]
  split <;> simp only [Except.ok.injEq, reduceCtorEq, false_iff] <;> omega

/-- A link leads behind the initial length by the length that this declares, up to the limit. -/
theorem link_eq_ok (h : link image limit offset = .ok next) :
    next = offset + lengthSize image offset + lengthAt image offset ∧ next ≤ limit := by
  simp only [link] at h
  cases first : fieldAt image limit offset 4 with
  | error error =>
      rw [first] at h
      cases h
  | ok word =>
      rw [first] at h
      obtain ⟨-, rfl⟩ := fieldAt_eq_ok first
      dsimp only at h
      simp only [lengthSize, lengthAt]
      split at h
      · rename_i plain
        rw [if_neg (by unfold wideLength; unfold reservedLengths at plain; omega),
          if_neg (by unfold wideLength; unfold reservedLengths at plain; omega)]
        obtain ⟨rfl, before⟩ := stopAt_eq_ok_iff.mp h
        exact ⟨rfl, before⟩
      · split at h
        · rename_i wide
          rw [if_pos wide, if_pos wide]
          cases second : fieldAt image limit (offset + 4) 8 with
          | error error =>
              rw [second] at h
              cases h
          | ok length =>
              obtain ⟨-, rfl⟩ := fieldAt_eq_ok second
              rw [second] at h
              obtain ⟨rfl, before⟩ := stopAt_eq_ok_iff.mp h
              exact ⟨rfl, before⟩
        · cases h

/-- A link ends where the initial length says, if that can be read and is not reserved. -/
theorem link_eq_stopAt (inside : limit ≤ image.size)
    (fits : offset + lengthSize image offset ≤ limit)
    (regular : wordAt image offset 4 < reservedLengths ∨ wordAt image offset 4 = wideLength) :
    link image limit offset =
      stopAt limit (offset + lengthSize image offset) (lengthAt image offset) := by
  have size := four_le_lengthSize image offset
  simp only [link]
  rw [fieldAt_of_le inside (by omega)]
  dsimp only
  simp only [lengthSize] at fits ⊢
  simp only [lengthAt]
  rcases regular with plain | wide
  · have narrow : wordAt image offset 4 ≠ wideLength := by
      simp only [wideLength]
      simp only [reservedLengths] at plain
      omega
    rw [if_pos plain, if_neg narrow, if_neg narrow]
  · have reserved : ¬ wordAt image offset 4 < reservedLengths := by
      rw [wide]
      decide
    rw [if_pos wide] at fits
    rw [if_neg reserved, if_pos wide, if_pos wide, if_pos wide, fieldAt_of_le inside (by omega)]

/-- A unit without a link cannot be located, if the limit is inside the image. -/
theorem unlocatable_of_link_eq_error (inside : limit ≤ image.size)
    (h : link image limit offset = .error error) : Unlocatable image limit offset := by
  by_cases fits : limit < offset + lengthSize image offset
  · exact .inl fits
  · by_cases regular : wordAt image offset 4 < reservedLengths ∨ wordAt image offset 4 = wideLength
    · rw [link_eq_stopAt inside (Nat.le_of_not_lt fits) regular] at h
      simp only [stopAt] at h
      split at h
      · cases h
      · rename_i beyond
        exact .inr (.inr (Nat.lt_of_not_le beyond))
    · rw [not_or, Nat.not_lt] at regular
      exact .inr (.inl regular)

/-- Images that agree on an initial length, as far as it lies before the limit, agree on the link of
its unit. -/
theorem link_congr
    (h : Agree image image' offset (min limit (offset + lengthSize image offset))) :
    link image limit offset = link image' limit offset := by
  have size := four_le_lengthSize image offset
  have word : fieldAt image limit offset 4 = fieldAt image' limit offset 4 :=
    fieldAt_congr (by decide) fun before => h.mono (Nat.le_refl _) (by omega)
  simp only [link]
  rw [← word]
  cases first : fieldAt image limit offset 4 with
  | error error => rfl
  | ok word =>
      obtain ⟨-, rfl⟩ := fieldAt_eq_ok first
      dsimp only
      split
      · rfl
      · split
        · rename_i wide
          have twelve : lengthSize image offset = 12 := if_pos wide
          rw [fieldAt_congr (by decide) fun before => h.mono (Nat.le_add_right _ _) (by omega)]
        · rfl

/-- Images that agree on an initial length agree on what it says. -/
theorem lengths_congr
    (h : Agree image image' offset (offset + lengthSize image offset)) :
    lengthSize image offset = lengthSize image' offset ∧
      lengthAt image offset = lengthAt image' offset ∧
        formatAt image offset = formatAt image' offset := by
  have size := four_le_lengthSize image offset
  have word : wordAt image offset 4 = wordAt image' offset 4 := by
    rw [wordAt, wordAt, h.imageBytes (Nat.le_refl _) (by omega)]
  simp only [lengthAt, formatAt]
  by_cases wide : wordAt image offset 4 = wideLength
  · have twelve : lengthSize image offset = 12 := if_pos wide
    have second : wordAt image (offset + 4) 8 = wordAt image' (offset + 4) 8 := by
      rw [wordAt, wordAt, h.imageBytes (Nat.le_add_right _ _) (by omega)]
    simp only [lengthSize]
    simp only [← word, second, and_self]
  · simp only [lengthSize]
    simp only [← word, if_neg wide, and_self]

end UnitExtent

namespace DirectReader

open UnitExtent

variable {image : Array UInt8} {place : Place} {context : Context}

/-- A direct reader reads the field at its position. -/
theorem run_unsigned (image : Array UInt8) (width : Nat) (positive : 0 < width)
    (sound : place.Sound) (context : Context) :
    run image (Decode.unsigned width).run ⟨some place, context⟩ =
      match Source.fieldAt image place.stop place.offset width with
      | .ok value => (.ok value, ⟨some (place.advance width), context⟩)
      | .error error => (.error error, ⟨some place, context⟩) := by
  have order := sound.offset_le_stop
  have size := Source.size_imageBytes image place.offset width
  have step := run_takeAhead image .buffer width place context
  simp only [run, Decode.unsigned, Dialogue.runStep_bind, Decode.take] at step ⊢
  rw [step]
  simp only [Source.fieldAt]
  by_cases beyond : place.stop < place.offset + width
  · have few : place.remaining < width := by
      simp only [Place.remaining]
      omega
    simp only [Place.take, if_pos few, if_pos beyond]
    rfl
  · have enough : ¬ place.remaining < width := by
      simp only [Place.remaining]
      omega
    by_cases short : image.size < place.offset + width
    · have fewer : (Source.imageBytes image place.offset width).size < width := by omega
      have rest : (Source.imageBytes image place.offset width).size = image.size - place.offset := by
        omega
      simp only [Place.take, if_neg enough, if_pos fewer, if_neg beyond, if_pos short]
      rw [rest]
    · have whole : ¬ (Source.imageBytes image place.offset width).size < width := by omega
      simp only [Place.take, if_neg enough, if_neg whole, if_neg beyond, if_neg short]
      rfl

/-- A direct reader behind the escape of a wide initial length reads the length, and knows the format
then. -/
theorem run_wideLength (image : Array UInt8) (sound : place.Sound) (context : Context) :
    run image (ExceptT.run (do
        let length ← Decode.unsigned 8
        Decode.record ({ · with format := some .dwarf64 })
        pure length)) ⟨some place, context⟩ =
      match Source.fieldAt image place.stop place.offset 8 with
      | .ok length =>
        (.ok length, ⟨some (place.advance 8), { context with format := some .dwarf64 }⟩)
      | .error error => (.error error, ⟨some place, context⟩) := by
  have reads := run_unsigned image 8 (by decide) sound context
  simp only [run, Dialogue.runStep_bind] at reads ⊢
  rw [reads]
  cases Source.fieldAt image place.stop place.offset 8 with
  | error error => rfl
  | ok length => rfl

/-- A direct reader that reads an initial length stands behind it and knows the format, and fails
where the image has none. -/
theorem run_initialLength (image : Array UInt8) (sound : place.Sound) (context : Context) :
    ∃ result reached,
      run image Decode.initialLength.run ⟨some place, context⟩ = (result, reached) ∧
        match result with
        | .ok length =>
          length = lengthAt image place.offset ∧
            place.offset + lengthSize image place.offset ≤ place.stop ∧
              link image place.stop place.offset =
                  stopAt place.stop (place.offset + lengthSize image place.offset) length ∧
                reached = ⟨some (place.advance (lengthSize image place.offset)),
                  { context with format := some (formatAt image place.offset) }⟩
        | .error error => link image place.stop place.offset = .error error := by
  have first := run_unsigned image 4 (by decide) sound context
  cases field : Source.fieldAt image place.stop place.offset 4 with
  | error error =>
      rw [field] at first
      refine ⟨.error error, ⟨some place, context⟩, ?_, ?_⟩
      · simp only [run, Decode.initialLength, Dialogue.runStep_bind] at first ⊢
        rw [first]
      · simp only [link]
        rw [field]
  | ok word =>
      have goes : run image Decode.initialLength.run ⟨some place, context⟩ =
          run image (ExceptT.run (if word < Decode.reservedLengths then do
              Decode.record ({ · with format := some .dwarf32 })
              pure word
            else if word = Decode.wideLength then do
              let length ← Decode.unsigned 8
              Decode.record ({ · with format := some .dwarf64 })
              pure length
            else throw (.reservedLength word))) ⟨some (place.advance 4), context⟩ := by
        rw [field] at first
        simp only [run, Decode.initialLength, Dialogue.runStep_bind] at first ⊢
        rw [first]
      obtain ⟨before, rfl⟩ := fieldAt_eq_ok field
      have there : (place.advance 4).Sound := sound.advance before
      rw [goes]
      simp only [link, lengthSize, lengthAt, formatAt]
      rw [field]
      dsimp only
      split
      · rename_i plain
        have narrow : Source.wordAt image place.offset 4 ≠ Decode.wideLength := by
          simp only [Decode.wideLength]
          simp only [Decode.reservedLengths] at plain
          omega
        rw [if_neg narrow, if_neg narrow, if_neg narrow]
        exact ⟨_, _, rfl, rfl, before, rfl, rfl⟩
      · split
        · rw [run_wideLength image there context]
          cases further : Source.fieldAt image place.stop (place.offset + 4) 8 with
          | error error =>
              rw [show Source.fieldAt image (place.advance 4).stop (place.advance 4).offset 8 =
                .error error from further]
              exact ⟨_, _, rfl, rfl⟩
          | ok length =>
              rw [show Source.fieldAt image (place.advance 4).stop (place.advance 4).offset 8 =
                .ok length from further]
              obtain ⟨fits, same⟩ := fieldAt_eq_ok further
              exact ⟨_, _, rfl, same, by omega, rfl, by rw [Place.advance_advance]⟩
        · exact ⟨_, _, rfl, rfl⟩

theorem run_stopOf (image : Array UInt8) (length : Nat) (place : Place) (context : Context) :
    run image (Decode.stopOf length).run ⟨some place, context⟩ =
      (stopAt place.limit place.offset length, ⟨some place, context⟩) := by
  have ran : run image (Decode.stopOf length).run ⟨some place, context⟩ =
      run image (ExceptT.run (if place.offset + length ≤ place.limit then
          pure (place.offset + length)
        else throw (.tooFewBytes place.offset length (place.limit - place.offset))))
        ⟨some place, context⟩ := rfl
  rw [ran, stopAt]
  split <;> rfl

/-- A direct reader whose section is wholly open finds the end of the unit at its position.  If it
does, it stands behind the initial length and knows the format. -/
theorem run_unitExtent (image : Array UInt8) (sound : place.Sound)
    (opened : place.stop = place.limit) (context : Context) :
    ∃ reached,
      run image Decode.unitExtent.run ⟨some place, context⟩ =
        ((link image place.limit place.offset).map fun stop =>
          ⟨place.offset - place.first, place.offset, lengthAt image place.offset, stop⟩, reached) ∧
      ∀ stop, link image place.limit place.offset = .ok stop →
        place.offset + lengthSize image place.offset ≤ stop ∧
          reached = ⟨some (place.advance (lengthSize image place.offset)),
            { context with format := some (formatAt image place.offset) }⟩ := by
  obtain ⟨result, reached, ran, spec⟩ := run_initialLength image sound context
  have goes : run image Decode.unitExtent.run ⟨some place, context⟩ =
      run image (ExceptT.run (do
        let length ← Decode.initialLength
        let stop ← Decode.stopOf length
        pure ⟨place.offset - place.first, place.offset, length, stop⟩)) ⟨some place, context⟩ := rfl
  rw [opened] at spec
  rw [goes]
  simp only [run, Dialogue.runStep_bind] at ran ⊢
  rw [ran]
  cases result with
  | error error =>
      rw [spec]
      exact ⟨reached, rfl, fun _ same => by cases same⟩
  | ok length =>
      obtain ⟨rfl, fits, links, rfl⟩ := spec
      have stops := run_stopOf image (lengthAt image place.offset)
        (place.advance (lengthSize image place.offset))
        { context with format := some (formatAt image place.offset) }
      simp only [run] at stops
      simp only [stops]
      rw [links]
      cases located : stopAt place.limit (place.offset + lengthSize image place.offset)
          (lengthAt image place.offset) with
      | error error =>
          rw [show stopAt (place.advance _).limit (place.advance _).offset _ = .error error
            from located]
          exact ⟨_, rfl, fun _ same => by cases same⟩
      | ok stop =>
          rw [show stopAt (place.advance _).limit (place.advance _).offset _ = .ok stop
            from located]
          obtain ⟨ends, -⟩ := stopAt_eq_ok_iff.mp located
          refine ⟨_, rfl, ?_⟩
          rintro _ ⟨⟩
          exact ⟨ends ▸ Nat.le_add_right _ _, rfl⟩

end DirectReader

end Dwarf
