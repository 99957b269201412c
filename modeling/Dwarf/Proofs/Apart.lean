import Dwarf.Proofs.Rewalk
/-!
# Units apart from walks

A unit can be decoded at its offset by readers that have read nothing before.  Walks report of every
unit what is decoded so.
-/

namespace Dwarf

namespace Consult

/-- Decodes the unit at an offset of the info section. -/
def unitAt (offset : Nat) : Consult DecodedUnit := do
  (Decode.seekInSection offset).on .info
  let header ← Decode.unitHeader.on .info
  let table ← (Decode.abbreviations header.abbreviationsOffset).on .abbreviations
  let summary ← rootEntry table
  pure ⟨header, summary⟩

variable {σ : Type} {serve : (request : Request) → σ → request.Reply × σ}
variable {state reached entered : σ} {offset : Nat}

/-- Decoding a unit of which nothing is cached is decoding its header, its table and its entry. -/
theorem run_decodedUnit_nil (serve : (request : Request) → σ → request.Reply × σ)
    (extent : UnitExtent) (state : σ) :
    ((decodedUnit extent []).run serve state).1.1 =
      (ExceptT.run (do
        let header ← (Decode.unitHeaderIn extent).on .info
        let table ← (Decode.abbreviations header.abbreviationsOffset).on .abbreviations
        let summary ← rootEntry table
        pure (⟨header, summary⟩ : DecodedUnit)) |>.run serve state).1 := by
  rw [Dialogue.runStep_bind]
  simp only [decodedUnit, Dialogue.run_bind]
  rcases ((Decode.unitHeaderIn extent).on .info).run.run serve state with ⟨_ | header, state⟩
  · rfl
  · dsimp only
    rw [Dialogue.runStep_bind]
    simp only [cachedTable, List.lookup_nil, Dialogue.run_bind]
    rcases ((Decode.abbreviations header.abbreviationsOffset).on .abbreviations).run.run serve state
      with ⟨_ | table, state⟩
    · rfl
    · dsimp only
      rw [Dialogue.runStep_bind]
      simp only [Dialogue.run_pure, Dialogue.run_bind]
      rcases (rootEntry table).run.run serve state with ⟨_ | summary, state⟩
      · rfl
      · rfl

theorem run_unitAt {extent : UnitExtent}
    (seeks : ((Decode.seekInSection offset).on .info).run.run serve state = (.ok (), reached))
    (enters : (Decode.unitExtent.on .info).run.run serve reached = (.ok extent, entered)) :
    ((unitAt offset).run.run serve state).1 =
      ((decodedUnit extent []).run serve entered).1.1 := by
  rw [run_decodedUnit_nil, unitAt, Dialogue.runStep_bind, seeks]
  dsimp only
  rw [Decode.unitHeader, Decode.on_bind, bind_assoc, Dialogue.runStep_bind, enters]

end Consult

/-- A unit that is decoded apart has a property, if everything has of which it is made. -/
theorem Inquiry.Reads.unitAt {J : Judgement Query Query.Reply}
    {P : Judgement Request Request.Reply} [J.LetsKnow] [P.Lawful] (h : Reads .info J P)
    (seeks : ∀ offset, J.Step (Decode.seekInSection offset)) (header : J.Step Decode.unitHeader)
    (tables : ∀ offset, P.Step ((Decode.abbreviations offset).on .abbreviations)) (offset : Nat) :
    P.Step (Consult.unitAt offset) := by
  apply (h.step (seeks offset)).bind
  intro _
  apply (h.step header).bind
  intro header
  apply (tables header.abbreviationsOffset).bind
  intro table
  exact (h.rootEntry table).bind fun summary => Judgement.step_pure _

/-- Licences for a walk suffice for decoding a unit apart. -/
theorem Licences.Walk.unitAt {licences : Licences} (h : licences.Walk) (offset : Nat) :
    (Consult.unitAt offset).run.Licensed licences := by
  have header : Decode.Obeys (licences .info) Decode.unitHeader :=
    (Decode.obeys_unitExtent h.infoRecords).bind fun extent =>
      Decode.obeys_unitHeaderIn extent h.infoNarrows h.infoRecords
  have obeys : Consult.Obeys licences (Consult.unitAt offset) :=
    (h.reads .info).unitAt (fun offset => Decode.obeys_seekInSection offset h.infoSeeks) header
      h.abbreviations offset
  exact obeys.tolerant

namespace DirectPool

variable {image : Array UInt8} {base pool : DirectPool Table} {place : Place}

/-- A poised pool moves to an offset of its section, and is poised there. -/
theorem Poised.seekInSection (poised : Poised base place pool) (offset : Nat)
    (inside : place.first + offset ≤ place.limit) (image : Array UInt8) :
    ∃ moved, ((Decode.seekInSection offset).on .info).run.run (serve image id) pool =
        (.ok (), moved) ∧
      Poised base { place with offset := place.first + offset } moved := by
  have seeks : (pool .info).run image (Decode.seekInSection offset).run =
      (.ok (), ⟨some { place with offset := place.first + offset }, (pool .info).context⟩) := by
    have opened := poised.opened
    have ran := DirectReader.run_seek image (place.first + offset) place (pool .info).context
    rw [if_pos ⟨Nat.le_add_right _ _, by omega⟩] at ran
    rw [show pool .info = ⟨some place, (pool .info).context⟩ by rw [← poised.info]]
    exact ran
  have moves := run_on image id .info (Decode.seekInSection offset).run pool
  simp only [decode, id, seeks] at moves
  have rests := poised.rested.decode .info (fun _ => Decode.obeys_seekInSection offset rfl) image
  rw [DirectPool.decode, seeks] at rests
  exact ⟨_, moves, rests, by rw [Function.update_self], poised.opened⟩

/-- A unit that a poised pool enters is decoded there as it is at its offset with fresh readers. -/
theorem Entered.apart {cache : TableCache} {entered : DirectPool Table} {extent : UnitExtent}
    {context : Context} (start : base.Sound)
    (entry : Entered image base place context extent entered)
    (valid : ValidCache image base cache) (sound : place.Sound)
    (fresh : Poised base { place with offset := place.first } base) :
    (base.run image id (Consult.unitAt extent.sectionOffset).run).1 =
      (entered.run image id (Consult.decodedUnit extent cache)).1.1 := by
  have fits := entry.fits
  have inside := entry.inside
  have here : place.first + (place.offset - place.first) = place.offset :=
    Nat.add_sub_cancel' sound.first_le_offset
  obtain ⟨moved, seeks, poised⟩ := fresh.seekInSection extent.sectionOffset
    (by rw [entry.sectionOffset, here]; dsimp only; omega) image
  rw [entry.sectionOffset, here] at poised
  rcases located : (Decode.unitExtent.on .info).run.run (serve image id) moved with
    ⟨error | extent', entered'⟩
  · have links := poised.breaks located
    cases links.symm.trans entry.link
  · have entry' := poised.enters located
    have same : extent' = extent := entry.extent_congr entry' (.refl _ _ _)
    subst same
    calc (base.run image id (Consult.unitAt extent'.sectionOffset).run).1
        = (entered'.run image id (Consult.decodedUnit extent' [])).1.1 :=
          Consult.run_unitAt seeks located
      _ = (entered.run image id (Consult.decodedUnit extent' cache)).1.1 :=
          entry'.decodedUnit_congr start (.refl image base) entry (.refl _ _ _)
            (validCache_nil image base) valid

end DirectPool

namespace Walked

open DirectPool

variable {image : Array UInt8} {base pool final : DirectPool Table} {place : Place}
variable {cache : TableCache} {visits : List Visit} {failure : Option Error}

/-- A walk reports of every unit what fresh readers decode at its offset. -/
theorem apart (start : base.Sound)
    (walked : Walked (DirectPool.serve image id) pool cache visits failure final)
    (poised : Poised base place pool) (valid : ValidCache image base cache)
    (fresh : Poised base { place with offset := place.first } base) :
    ∀ visit ∈ visits, (base.run image id (Consult.unitAt visit.offset).run).1 = visit.report := by
  induction walked generalizing place with
  | landed | broken => exact fun _ member => nomatch member
  | visited sees ahead enters decodes leaves rest ih =>
      have entry := poised.enters enters
      obtain ⟨left, valid'⟩ := entry.leaves start (.refl image base) poised.opened
        poised.sound valid decodes leaves
      have here := entry.apart start valid poised.sound fresh
      simp only [DirectPool.run, decodes] at here
      exact List.forall_mem_cons.mpr ⟨here, ih left valid' fresh⟩

end Walked

end Dwarf
