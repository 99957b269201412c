import Mathlib.Data.List.Basic
import Dwarf.Tables.Basic
import Dwarf.Unit.Abbreviation
/-!
# Looking up abbreviations

Counting from one, an abbreviation is counted if it stands where its code says.  A look-up finds the
counted abbreviation with a code, else the first one, and nothing only if no abbreviation has the
code.
-/

namespace Dwarf

namespace Abbreviations

variable {table : Abbreviations} {code position : Nat} {entry other : Abbreviation}

/-- An abbreviation with a code is declared at a position of a table. -/
def Declares (table : Abbreviations) (code position : Nat) (entry : Abbreviation) : Prop :=
  table.entries[position]? = some entry ∧ entry.code = code

/-- An abbreviation is declared where its code says, counting from one. -/
def Counted (table : Abbreviations) (code : Nat) (entry : Abbreviation) : Prop :=
  ∃ position, position + 1 = code ∧ table.Declares code position entry

/-- An abbreviation is declared before all others with its code. -/
def First (table : Abbreviations) (code : Nat) (entry : Abbreviation) : Prop :=
  ∃ position, table.Declares code position entry ∧
    ∀ earlier < position, ∀ other, ¬ table.Declares code earlier other

/-- The first abbreviation with a code, by a search of the whole table. -/
def search? (table : Abbreviations) (code : Nat) : Option Abbreviation :=
  table.entries.find? (·.code == code)

/-- A search finds what is declared first. -/
theorem search?_eq_some_iff : table.search? code = some entry ↔ table.First code entry := by
  rw [search?, List.find?_eq_some_iff_getElem]
  constructor
  · rintro ⟨coded, position, inside, rfl, before⟩
    refine ⟨position, ⟨List.getElem?_eq_getElem inside, eq_of_beq coded⟩, ?_⟩
    rintro earlier sooner other ⟨stands, coded'⟩
    obtain ⟨inside', rfl⟩ := List.getElem?_eq_some_iff.mp stands
    have differs := before earlier sooner
    rw [coded'] at differs
    simp at differs
  · rintro ⟨position, ⟨stands, coded⟩, before⟩
    obtain ⟨inside, rfl⟩ := List.getElem?_eq_some_iff.mp stands
    refine ⟨beq_iff_eq.mpr coded, position, inside, rfl, fun earlier sooner => ?_⟩
    have stands' := List.getElem?_eq_getElem (Nat.lt_trans sooner inside)
    have differs : table.entries[earlier].code ≠ code :=
      fun coded' => before earlier sooner _ ⟨stands', coded'⟩
    simpa using differs

/-- A search finds nothing where nothing is declared. -/
theorem search?_eq_none_iff :
    table.search? code = none ↔ ∀ position entry, ¬ table.Declares code position entry := by
  rw [search?, List.find?_eq_none]
  constructor
  · rintro absent position entry ⟨stands, coded⟩
    exact absent entry (List.mem_of_getElem? stands) (beq_iff_eq.mpr coded)
  · intro absent entry member coded
    obtain ⟨position, stands⟩ := List.mem_iff_getElem?.mp member
    exact absent position entry ⟨stands, eq_of_beq coded⟩

theorem Counted.unique (h : table.Counted code entry) (h' : table.Counted code other) :
    other = entry := by
  obtain ⟨position, rfl, stands, -⟩ := h
  obtain ⟨position', same, stands', -⟩ := h'
  cases Nat.succ.inj same
  exact Option.some.inj (stands'.symm.trans stands)

theorem find?_of_counted (h : table.Counted code entry) : table.find? code = some entry := by
  obtain ⟨position, rfl, stands, coded⟩ := h
  have direct : (table.entries[position]?).filter (·.code == position + 1) = some entry := by
    rw [stands, Option.filter_some, if_pos (beq_iff_eq.mpr coded)]
  simp only [find?, Nat.add_one_ne_zero, if_false, Nat.add_sub_cancel, direct]

/-- Without a counted abbreviation, the table is searched. -/
theorem find?_of_uncounted (h : ∀ other, ¬ table.Counted code other) :
    table.find? code = table.search? code := by
  have direct : (if code = 0 then none else table.entries[code - 1]?).filter (·.code == code) =
      none := by
    refine Option.filter_eq_none_iff.mpr fun entry stands coded => h entry ?_
    cases code with
    | zero => cases stands
    | succ position => exact ⟨position, rfl, stands, eq_of_beq coded⟩
  simp only [find?, direct, search?]

/-- Something is looked up wherever something is declared. -/
theorem find?_eq_none_iff :
    table.find? code = none ↔ ∀ position entry, ¬ table.Declares code position entry := by
  by_cases counts : ∃ counted, table.Counted code counted
  · obtain ⟨counted, counts⟩ := counts
    rw [find?_of_counted counts]
    obtain ⟨position, -, declares⟩ := counts
    exact ⟨nofun, fun absent => absurd declares (absent position counted)⟩
  · rw [find?_of_uncounted fun other counted => counts ⟨other, counted⟩]
    exact search?_eq_none_iff

/-- What is looked up is the counted abbreviation, if there is one, and else the first one. -/
theorem find?_eq_some_iff :
    table.find? code = some entry ↔ table.Counted code entry ∨
      (∀ other, ¬ table.Counted code other) ∧ table.First code entry := by
  by_cases counts : ∃ counted, table.Counted code counted
  · obtain ⟨counted, counts⟩ := counts
    rw [find?_of_counted counts]
    constructor
    · rintro ⟨⟩
      exact .inl counts
    · rintro (counts' | ⟨uncounted, -⟩)
      · rw [counts.unique counts']
      · exact absurd counts (uncounted counted)
  · have uncounted (other : Abbreviation) : ¬ table.Counted code other :=
      fun counted => counts ⟨other, counted⟩
    rw [find?_of_uncounted uncounted, search?_eq_some_iff]
    exact ⟨fun first => .inr ⟨uncounted, first⟩,
      fun either => (either.resolve_left (uncounted entry)).2⟩

/-- A search of the table finds something else exactly if the counted abbreviation is not the
first one. -/
theorem find?_ne_search?_iff :
    table.find? code ≠ table.search? code ↔
      ∃ counted first, table.Counted code counted ∧ table.First code first ∧ counted ≠ first := by
  constructor
  · intro differ
    obtain ⟨counted, counts⟩ : ∃ counted, table.Counted code counted :=
      by_contra fun none => differ (find?_of_uncounted fun other counted => none ⟨other, counted⟩)
    cases searched : table.search? code with
    | none =>
        obtain ⟨position, -, declares⟩ := counts
        exact absurd declares (search?_eq_none_iff.mp searched position counted)
    | some first =>
        rw [find?_of_counted counts, searched] at differ
        exact ⟨counted, first, counts, search?_eq_some_iff.mp searched,
          fun same => differ (congrArg some same)⟩
  · rintro ⟨counted, first, counts, leads, differ⟩ same
    rw [find?_of_counted counts, search?_eq_some_iff.mpr leads] at same
    exact differ (Option.some.inj same)

/-- Nothing is looked up only if no abbreviation has the code.  What is looked up is the counted
abbreviation, if there is one, and else the first one; so it is what a search of the table finds,
unless the counted abbreviation is not the first one. -/
theorem find?_counted_or_first (table : Abbreviations) (code : Nat) :
    (table.find? code = none ↔ ∀ position entry, ¬ table.Declares code position entry) ∧
      (∀ entry, table.find? code = some entry ↔ table.Counted code entry ∨
        (∀ other, ¬ table.Counted code other) ∧ table.First code entry) ∧
      (table.find? code ≠ table.search? code ↔
        ∃ counted first, table.Counted code counted ∧ table.First code first ∧
          counted ≠ first) :=
  ⟨find?_eq_none_iff, fun _ => find?_eq_some_iff, find?_ne_search?_iff⟩

/-- A table can be read in which a code is repeated and the look-up misses the first abbreviation
with it. -/
theorem find?_repeated :
    let image : Array UInt8 := #[2, 0x11, 0, 0, 0, 2, 0x2e, 0, 0, 0, 0]
    let reader : Reader := ⟨some ⟨.zeroed 16, 0, 0, 0, 0, 11, 11, 11⟩, .unknown⟩
    let session : Session := .start ⟨.unbound, reader, .unbound, .unbound, .unbound, .unbound⟩
    ∃ table first,
      (session.run (.ofImage image) ((Decode.abbreviations 0).on .abbreviations).run).1 =
        .ok table ∧
      table.First 2 first ∧ table.find? 2 ≠ some first := by
  refine ⟨⟨[⟨2, ⟨0x11⟩, false, []⟩, ⟨2, ⟨0x2e⟩, false, []⟩]⟩, ⟨2, ⟨0x11⟩, false, []⟩, ?_, ?_, ?_⟩
  · decide +kernel
  · exact search?_eq_some_iff.mp rfl
  · decide

end Abbreviations

end Dwarf
