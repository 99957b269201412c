import Dwarf.Proofs.Meanings
/-!
# What tables of abbreviations declare

Whatever a table is read from, its numbers fit their types, none of its codes and no pair of name
and form is zero, and it keeps a constant exactly for the form that says so.
-/

namespace Dwarf

/-- Attributes that an abbreviation can have. -/
structure AttributeSpecification.WellFormed (spec : AttributeSpecification) : Prop where
  name : IntType.half.holds spec.name.code
  form : IntType.half.holds spec.form.code
  /-- It does not end the attributes. -/
  listed : ¬ (spec.name.code = 0 ∧ spec.form.code = 0)
  /-- A constant is kept exactly for the form that has it there. -/
  formed : spec.Formed
  implicit : ∀ value, spec.implicit = some value → IntType.signedWord.holds value

/-- Abbreviations that a table can have. -/
structure Abbreviation.WellFormed (entry : Abbreviation) : Prop where
  /-- It does not end the table. -/
  listed : entry.code ≠ 0
  code : IntType.word.holds entry.code
  tag : IntType.half.holds entry.tag.code
  attributes : ∀ spec ∈ entry.attributes, spec.WellFormed

/-- Tables that can be read. -/
def Abbreviations.WellFormed (table : Abbreviations) : Prop :=
  ∀ entry ∈ table.entries, entry.WellFormed

namespace Decode

variable {σ : Type} {serve : (query : Query) → σ → query.Reply × σ} {state reached : σ}

theorem holds_of_uleb128 {type : IntType} {value : Nat}
    (ran : (uleb128 type).run.run serve state = (.ok value, reached)) : type.holds value := by
  obtain ⟨_, _, -, ran⟩ := Dialogue.runStep_bind_ok _ _ ran
  obtain ⟨_, _, -, ends⟩ := Dialogue.runStep_bind_ok _ _ ran
  split at ends
  · rename_i holds
    cases ends
    exact holds
  · cases ends

theorem holds_of_sleb128 {type : IntType} {value : Int}
    (ran : (sleb128 type).run.run serve state = (.ok value, reached)) : type.holds value := by
  obtain ⟨_, _, -, ran⟩ := Dialogue.runStep_bind_ok _ _ ran
  obtain ⟨_, _, -, ends⟩ := Dialogue.runStep_bind_ok _ _ ran
  split at ends
  · rename_i holds
    cases ends
    exact holds
  · cases ends

theorem holds_of_constant {family : Family} {value : Constant family}
    (ran : (constant family).run.run serve state = (.ok value, reached)) :
    IntType.half.holds value.code := by
  obtain ⟨code, _, reads, ends⟩ := Dialogue.runStep_bind_ok _ _ ran
  cases ends
  exact holds_of_uleb128 reads

/-- Attributes that are read onto others are well formed if those are. -/
theorem wellFormed_of_attributeSpecsFrom {read specs : List AttributeSpecification} {rest : Nat}
    (formed : ∀ spec ∈ read, spec.WellFormed)
    (ran : (attributeSpecsFrom read rest).run.run serve state = (.ok specs, reached)) :
    ∀ spec ∈ specs, spec.WellFormed := by
  induction rest generalizing read state with
  | zero =>
      cases ran
      exact fun spec member => formed spec (List.mem_reverse.mp member)
  | succ rest ih =>
      obtain ⟨name, _, names, ran⟩ := Dialogue.runStep_bind_ok _ _ ran
      obtain ⟨form, _, forms, ran⟩ := Dialogue.runStep_bind_ok _ _ ran
      split at ran
      · cases ran
        exact fun spec member => formed spec (List.mem_reverse.mp member)
      · rename_i listed
        split at ran
        · rename_i has
          obtain ⟨implicit, _, keeps, ran⟩ := Dialogue.runStep_bind_ok _ _ ran
          rw [map_eq_pure_bind] at keeps
          obtain ⟨value, _, reads, ends⟩ := Dialogue.runStep_bind_ok _ _ keeps
          cases ends
          have one : AttributeSpecification.WellFormed ⟨name, form, some value⟩ := by
            refine ⟨holds_of_constant names, holds_of_constant forms, listed,
              ⟨fun _ => has, fun _ => rfl⟩, ?_⟩
            rintro _ ⟨⟩
            exact holds_of_sleb128 reads
          exact ih (List.forall_mem_cons.mpr ⟨one, formed⟩) ran
        · rename_i lacks
          have one : AttributeSpecification.WellFormed ⟨name, form, none⟩ :=
            ⟨holds_of_constant names, holds_of_constant forms, listed,
              ⟨nofun, fun has => absurd has lacks⟩, nofun⟩
          exact ih (List.forall_mem_cons.mpr ⟨one, formed⟩) ran

/-- An abbreviation that is read behind a code that may be listed is well formed. -/
theorem wellFormed_of_abbreviation {code : Nat} {entry : Abbreviation} (listed : code ≠ 0)
    (holds : IntType.word.holds code)
    (ran : (abbreviation code).run.run serve state = (.ok entry, reached)) :
    entry.WellFormed := by
  obtain ⟨tag, _, tags, ran⟩ := Dialogue.runStep_bind_ok _ _ ran
  obtain ⟨children, _, -, ran⟩ := Dialogue.runStep_bind_ok _ _ ran
  obtain ⟨attributes, _, reads, ends⟩ := Dialogue.runStep_bind_ok _ _ ran
  obtain ⟨seen, _, -, reads⟩ := Dialogue.runStep_bind_ok _ _ reads
  cases ends
  exact ⟨listed, holds, holds_of_constant tags,
    wellFormed_of_attributeSpecsFrom (List.forall_mem_nil _) reads⟩

/-- Abbreviations that are read onto others are well formed if those are. -/
theorem wellFormed_of_abbreviationsFrom {read entries : List Abbreviation} {rest : Nat}
    (formed : ∀ entry ∈ read, entry.WellFormed)
    (ran : (abbreviationsFrom read rest).run.run serve state = (.ok entries, reached)) :
    ∀ entry ∈ entries, entry.WellFormed := by
  induction rest generalizing read state with
  | zero =>
      cases ran
      exact fun entry member => formed entry (List.mem_reverse.mp member)
  | succ rest ih =>
      obtain ⟨seen, _, -, ran⟩ := Dialogue.runStep_bind_ok _ _ ran
      split at ran
      · cases ran
        exact fun entry member => formed entry (List.mem_reverse.mp member)
      · obtain ⟨code, _, codes, ran⟩ := Dialogue.runStep_bind_ok _ _ ran
        split at ran
        · cases ran
          exact fun entry member => formed entry (List.mem_reverse.mp member)
        · rename_i listed
          obtain ⟨entry, _, reads, ran⟩ := Dialogue.runStep_bind_ok _ _ ran
          have one := wellFormed_of_abbreviation listed (holds_of_uleb128 codes) reads
          exact ih (List.forall_mem_cons.mpr ⟨one, formed⟩) ran

/-- Tables that were read are well formed. -/
theorem wellFormed_of_abbreviations {offset : Nat} {table : Abbreviations}
    (ran : (abbreviations offset).run.run serve state = (.ok table, reached)) :
    table.WellFormed := by
  obtain ⟨_, _, -, ran⟩ := Dialogue.runStep_bind_ok _ _ ran
  obtain ⟨_, _, -, ran⟩ := Dialogue.runStep_bind_ok _ _ ran
  obtain ⟨seen, _, -, ran⟩ := Dialogue.runStep_bind_ok _ _ ran
  obtain ⟨entries, _, reads, ends⟩ := Dialogue.runStep_bind_ok _ _ ran
  cases ends
  exact wellFormed_of_abbreviationsFrom (List.forall_mem_nil _) reads

end Decode

end Dwarf
