import Dwarf.Proofs.Inquiries
import Dwarf.Proofs.Standing
/-!
# Counts that never run out

The loops over abbreviations count down the bytes that remain.  Every turn takes one at least, so a
loop ends before its count does, whatever the source answers: a larger count changes nothing.
-/

namespace Dwarf

namespace Reader.Stands

variable {source : Source} {reader moved : Reader} {place : Place} {log log' : AccessLog}

/-- A reader that read a number in groups stands behind its first byte at least. -/
theorem uleb128 (stands : reader.Stands place) {type : IntType} {value : Nat}
    (h : reader.run source (Decode.uleb128 type).run log = (.ok value, moved, log')) :
    ∃ offset, place.offset < offset ∧ moved.Stands { place with offset } := by
  obtain ⟨seen, ⟨viewed, log₁⟩, views, rest⟩ := Dialogue.runStep_bind_ok _ _ h
  cases views
  obtain ⟨number, ⟨reached, log₂⟩, groups, ends⟩ := Dialogue.runStep_bind_ok _ _ rest
  obtain ⟨group, ⟨behind, log₃⟩, first, others⟩ := Dialogue.runStep_bind_ok _ _ groups
  have further := stands.unsigned first
  have obeys : Decode.Obeys Licence.onward
      (if group < 128 then pure group else do
        let rest ← Decode.unsignedGroups reader.view.offset 8
        pure (group % 128 + 128 * rest)) := by
    split
    · exact Judgement.step_pure _
    · exact (Decode.obeys_unsignedGroups _ _).bind fun _ => Judgement.step_pure _
  obtain ⟨offset, ahead, there⟩ := further.onward obeys rfl rfl others
  have same : moved = reached := by
    split at ends
    · cases ends
      rfl
    · cases ends
  rw [same]
  exact ⟨offset, ahead, there⟩

theorem constant (stands : reader.Stands place) {family : Family} {value : Constant family}
    (h : reader.run source (Decode.constant family).run log = (.ok value, moved, log')) :
    ∃ offset, place.offset < offset ∧ moved.Stands { place with offset } := by
  obtain ⟨code, ⟨reached, log₁⟩, reads, gave⟩ := Dialogue.runStep_bind_ok _ _ h
  cases gave
  exact stands.uleb128 reads

/-- The loop over the attributes of an abbreviation ends before its count does. -/
theorem run_attributeSpecsFrom_add (stands : reader.Stands place) {bound : Nat}
    (h : place.remaining < bound) (extra : Nat) (read : List AttributeSpecification)
    (log : AccessLog) :
    reader.run source (Decode.attributeSpecsFrom read (bound + extra)).run log =
      reader.run source (Decode.attributeSpecsFrom read bound).run log := by
  induction bound generalizing reader place read log with
  | zero => exact absurd h (Nat.not_lt_zero _)
  | succ bound ih =>
      rw [Nat.succ_add]
      apply Dialogue.runStep_bind_congr _ _
      intro name reached names
      obtain ⟨offset₁, ahead₁, there₁⟩ := stands.constant names
      apply Dialogue.runStep_bind_congr _ _
      intro form reached forms
      obtain ⟨offset₂, ahead₂, there₂⟩ := there₁.constant forms
      split
      · rfl
      · have fewer {offset : Nat} (further : offset₂ ≤ offset) {reached : Reader}
            (there : reached.Stands { place with offset }) :
            ({ place with offset } : Place).remaining < bound := by
          have inside := there.bounds.offset_le_stop
          simp only [Place.remaining] at h ⊢
          dsimp only at ahead₂ inside ⊢
          omega
        dsimp only
        split
        · apply Dialogue.runStep_bind_congr _ _
          intro implicit reached reads
          have obeys : Decode.Obeys Licence.onward (some <$> Decode.sleb128 .signedWord) :=
            (Decode.obeys_sleb128 .signedWord).map some
          obtain ⟨offset₃, ahead₃, there₃⟩ := there₂.onward obeys rfl rfl reads
          exact ih there₃ (fewer ahead₃ there₃) _ _
        · apply Dialogue.runStep_bind_congr _ _
          intro implicit reached keeps
          cases keeps
          exact ih there₂ (fewer (Nat.le_refl _) there₂) _ _

/-- The loop over a table of abbreviations ends before its count does. -/
theorem run_abbreviationsFrom_add (stands : reader.Stands place) {bound : Nat}
    (h : place.remaining < bound) (extra : Nat) (read : List Abbreviation) (log : AccessLog) :
    reader.run source (Decode.abbreviationsFrom read (bound + extra)).run log =
      reader.run source (Decode.abbreviationsFrom read bound).run log := by
  induction bound generalizing reader place read log with
  | zero => exact absurd h (Nat.not_lt_zero _)
  | succ bound ih =>
      rw [Nat.succ_add]
      apply Dialogue.runStep_bind_congr _ _
      intro seen reached views
      cases views
      split
      · rfl
      · apply Dialogue.runStep_bind_congr _ _
        intro code reached codes
        obtain ⟨offset₁, ahead₁, there₁⟩ := stands.uleb128 codes
        split
        · rfl
        · apply Dialogue.runStep_bind_congr _ _
          intro entry reached entries
          have obeys : Decode.Obeys Licence.onward (Decode.abbreviation code) :=
            Decode.obeys_abbreviation code
          obtain ⟨offset₂, ahead₂, there₂⟩ := there₁.onward obeys rfl rfl entries
          have inside := there₂.bounds.offset_le_stop
          simp only [Place.remaining] at h
          dsimp only at ahead₂ inside
          exact ih there₂ (by unfold Place.remaining; dsimp only; omega) _ _

end Reader.Stands

end Dwarf
