import Dwarf.Proofs.Simulation
/-!
# Where queries lead

A query leads a direct reader to few others, and it leads a sound reader over any source to one that
stands at one of those.  So a licence tells what a decoder leaves of a reader, whatever the source
answers.
-/

namespace Dwarf

namespace DirectReader

/-- The readers that a query may lead to. -/
inductive Leads : Query → DirectReader → DirectReader → Prop where
  /-- Nothing happens. -/
  | stays {query : Query} {reader : DirectReader} : Leads query reader reader
  /-- Bytes are taken. -/
  | takes {place : Place} {context : Context} {count : Nat} {ahead : Ahead} :
    count ≤ place.remaining →
      Leads (.take count ahead) ⟨some place, context⟩
        ⟨some { place with offset := place.offset + count }, context⟩
  /-- The reader moves. -/
  | seeks {place : Place} {context : Context} {target : Nat} :
    place.first ≤ target → target ≤ place.stop →
      Leads (.seek target) ⟨some place, context⟩ ⟨some { place with offset := target }, context⟩
  /-- The end of the window moves. -/
  | narrows {place : Place} {context : Context} {stop : Nat} :
    place.offset ≤ stop → stop ≤ place.limit →
      Leads (.narrow stop) ⟨some place, context⟩ ⟨some { place with stop }, context⟩
  /-- Something is learnt. -/
  | records {place : Option Place} {context learnt : Context} :
    Leads (.record learnt) ⟨place, context⟩ ⟨place, learnt⟩

/-- The end of a reader's window. -/
def stop (reader : DirectReader) : Option Nat := reader.place.map Place.stop

namespace Leads

variable {reader moved : DirectReader} {query : Query} {licence : Licence} {seen : Nat}

/-- Every query keeps the bounds of a reader in order. -/
theorem sound (h : Leads query reader moved) (sound : reader.Sound) : moved.Sound := by
  cases h with
  | stays => exact sound
  | takes enough =>
      rintro _ ⟨⟩
      have bounds := sound _ rfl
      have order := bounds.offset_le_stop
      simp only [Place.remaining] at enough
      exact { bounds with
        first_le_offset := Nat.le_trans bounds.first_le_offset (Nat.le_add_right _ _)
        offset_le_stop := by
          dsimp only
          omega }
  | seeks first stop =>
      rintro _ ⟨⟩
      exact { sound _ rfl with
        first_le_offset := first
        offset_le_stop := stop }
  | narrows offset limit =>
      rintro _ ⟨⟩
      exact { sound _ rfl with
        offset_le_stop := offset
        stop_le_limit := limit }
  | records => exact sound

theorem bounds (h : Leads query reader moved) : moved.bounds = reader.bounds := by
  cases h <;> rfl

theorem stop (h : Leads query reader moved) (permitted : licence.Permits seen query)
    (keeps : licence.narrows = false) : moved.stop = reader.stop := by
  cases h with
  | narrows => exact absurd (keeps.symm.trans permitted) (by decide)
  | stays | takes | seeks | records => rfl

theorem context (h : Leads query reader moved) (permitted : licence.Permits seen query)
    (keeps : licence.records = false) : moved.context = reader.context := by
  cases h with
  | records => exact absurd (keeps.symm.trans permitted) (by decide)
  | stays | takes | seeks | narrows => rfl

/-- Without a licence to move back, a reader stays where it was seen or behind. -/
theorem onward {place : Place} (h : Leads query reader moved)
    (permitted : licence.Permits seen query) (keeps : licence.seeks = false)
    (placed : reader.place = some place) (ahead : seen ≤ place.offset) :
    ∃ place', moved.place = some place' ∧ seen ≤ place'.offset := by
  cases h with
  | stays => exact ⟨place, placed, ahead⟩
  | takes =>
      cases placed
      exact ⟨_, rfl, Nat.le_trans ahead (Nat.le_add_right _ _)⟩
  | seeks =>
      rcases permitted with back | forward
      · exact absurd (keeps.symm.trans back) (by decide)
      · exact ⟨_, rfl, forward⟩
  | narrows =>
      cases placed
      exact ⟨_, rfl, ahead⟩
  | records => exact ⟨place, placed, ahead⟩

end Leads

/-- A direct reader is led to where it serves a query. -/
theorem leads_serve (image : Array UInt8) (query : Query) (reader : DirectReader) :
    Leads query reader (serve image query reader).2 := by
  cases query with
  | view => exact .stays
  | take count ahead =>
      obtain ⟨_ | place, context⟩ := reader
      · exact .stays
      · simp only [serve, take, Place.take]
        split
        · exact .stays
        · rename_i enough
          split
          · exact .stays
          · exact .takes (Nat.le_of_not_lt enough)
  | seek target =>
      obtain ⟨_ | place, context⟩ := reader
      · exact .stays
      · cases seeks : place.seek target with
        | error error =>
            simp only [serve, changePlace, seeks]
            exact .stays
        | ok moved =>
            obtain ⟨first, stop, rfl⟩ := Place.seek_eq_ok_iff.mp seeks
            simp only [serve, changePlace, seeks]
            exact .seeks first stop
  | narrow stop =>
      obtain ⟨_ | place, context⟩ := reader
      · exact .stays
      · cases narrows : place.narrow stop with
        | error error =>
            simp only [serve, changePlace, narrows]
            exact .stays
        | ok narrowed =>
            obtain ⟨offset, limit, rfl⟩ := Place.narrow_eq_ok_iff.mp narrows
            simp only [serve, changePlace, narrows]
            exact .narrows offset limit
  | record context => exact .records

end DirectReader

/-- A sound reader is led to where its direct reader may be led, whatever the source answers. -/
theorem Reader.leads_serve {reader : Reader} (sound : reader.Sound) (source : Source)
    (query : Query) (log : AccessLog) :
    DirectReader.Leads query reader.direct (serve source query (reader, log)).2.1.direct := by
  have changes (query : Query) {moved : Reader}
      (direct : (DirectReader.serve #[] query reader.direct).2 = moved.direct) :
      DirectReader.Leads query reader.direct moved.direct := by
    rw [← direct]
    exact DirectReader.leads_serve #[] query reader.direct
  cases query with
  | view => exact .stays
  | take count ahead =>
      rcases taking : reader.take source count ahead log with ⟨result, moved, log'⟩
      have placed := (sound.take taking).2.2
      simp only [serve, taking]
      cases result with
      | ok bytes =>
          obtain ⟨-, place, direct, behind⟩ := placed
          have before := (sound.direct place direct).offset_le_stop
          have after := ((sound.take taking).1.direct _ (congrArg _ behind)).offset_le_stop
          dsimp only at after
          rw [behind, show reader.direct = ⟨some place, reader.context⟩ by rw [← direct]; rfl]
          exact .takes (by unfold Place.remaining; omega)
      | error error =>
          rw [show moved.direct = reader.direct from placed]
          exact .stays
  | seek target =>
      exact changes _ (congrArg Prod.snd (changeWindow_direct _ (Window.map_place_seek target)))
  | narrow stop =>
      exact changes _ (congrArg Prod.snd (changeWindow_direct _ (Window.map_place_narrow stop)))
  | record context => exact .records

end Dwarf
