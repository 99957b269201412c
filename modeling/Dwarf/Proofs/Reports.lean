import Dwarf.Container.Directory
import Dwarf.Proofs.Apart
/-!
# Reports of units

What a walk reports of a unit does not depend on the capacities of the buffers, on what the readers
were used for before, or on the other units.  Fresh readers decode the same at its offset, and so
does every walk; bytes inside one unit have no say in the reports of the others.
-/

namespace Dwarf

open UnitExtent

namespace SectionDirectory

variable {sections : SectionDirectory} {table : Table} {capacity : Nat} {reader : Reader}

/-- The direct reader for a table. -/
def directReader (sections : SectionDirectory) (table : Table) : DirectReader :=
  match sections.find? table.sectionName with
  | none => .unbound
  | some range => (DirectReader.bind range sections.fileSize).2

/-- A reader for a table is unbound, or bound anew with a buffer that is accepted. -/
theorem reader_eq_ok (h : sections.reader table capacity = .ok reader) :
    (sections.find? table.sectionName = none ∧ reader = .unbound) ∨
      ∃ range, sections.find? table.sectionName = some range ∧
        Reader.minimumCapacity ≤ (Buffer.zeroed capacity).capacity ∧
          reader = (Reader.bind (.zeroed capacity) range sections.fileSize).2 := by
  simp only [SectionDirectory.reader] at h
  cases found : sections.find? table.sectionName with
  | none =>
      rw [found] at h
      cases h
      exact .inl ⟨rfl, rfl⟩
  | some range =>
      rw [found] at h
      dsimp only at h
      refine .inr ⟨range, rfl, ?_⟩
      by_cases accepted : Reader.minimumCapacity ≤ (Buffer.zeroed capacity).capacity
      · refine ⟨accepted, ?_⟩
        simp only [Reader.bind]
        cases bound : Reader.bound (.zeroed capacity) range sections.fileSize with
        | ok bound' =>
            rw [bound] at h
            cases h
            rfl
        | error error =>
            rw [bound] at h
            split at h
            · cases h
              rfl
            · cases h
      · have small := Nat.lt_of_not_le accepted
        simp only [Reader.bound, Reader.checkCapacity, if_pos small] at h
        cases h

theorem direct_of_reader (h : sections.reader table capacity = .ok reader) :
    reader.direct = sections.directReader table := by
  rcases reader_eq_ok h with ⟨none, rfl⟩ | ⟨range, found, accepted, rfl⟩
  · rw [directReader, none]
    rfl
  · rw [directReader, found]
    exact (congrArg Prod.snd (Reader.bind_direct accepted range sections.fileSize)).symm

theorem faithful_reader (image : Array UInt8)
    (h : sections.reader table capacity = .ok reader) : reader.Sound ∧ reader.Shows image := by
  rcases reader_eq_ok h with ⟨none, rfl⟩ | ⟨range, found, accepted, rfl⟩
  · exact ⟨Reader.sound_unbound, Reader.shows_unbound⟩
  · exact Reader.sound_shows_bind image accepted

/-- The direct reader for a table that has one stands at the start of its whole section. -/
theorem directReader_whole {place : Place} (h : (sections.directReader table).place = some place) :
    place = { place with offset := place.first, stop := place.limit } := by
  simp only [directReader] at h
  split at h
  · cases h
  · rename_i range found
    unfold DirectReader.bind Place.open? at h
    split at h
    · rename_i opened
      dsimp only at opened
      split at opened
      · cases opened
      · cases opened
        cases h
        rfl
    · cases h

/-- The readers that were bound are the readers for their tables. -/
theorem reader_of_bind {capacities : List Nat} {bank : Bank Reader}
    (h : sections.bind capacities = .ok bank) (table : Table) :
    ∃ capacity, sections.reader table capacity = .ok (bank.get table) := by
  have parts {α β : Type} {first : Except Error α} {next : α → Except Error β} {answer : β}
      (h : (first >>= next) = .ok answer) :
      ∃ middle, first = .ok middle ∧ next middle = .ok answer := by
    cases first with
    | error error => cases h
    | ok middle => exact ⟨middle, rfl, h⟩
  simp only [SectionDirectory.bind] at h
  split at h
  · obtain ⟨info, boundInfo, h⟩ := parts h
    obtain ⟨abbreviations, boundAbbreviations, h⟩ := parts h
    obtain ⟨strings, boundStrings, h⟩ := parts h
    obtain ⟨lineStrings, boundLineStrings, h⟩ := parts h
    obtain ⟨stringOffsets, boundStringOffsets, h⟩ := parts h
    obtain ⟨lines, boundLines, h⟩ := parts h
    cases h
    cases table with
    | info => exact ⟨_, boundInfo⟩
    | abbreviations => exact ⟨_, boundAbbreviations⟩
    | strings => exact ⟨_, boundStrings⟩
    | lineStrings => exact ⟨_, boundLineStrings⟩
    | stringOffsets => exact ⟨_, boundStringOffsets⟩
    | lines => exact ⟨_, boundLines⟩
  · cases h

theorem direct_start {capacities : List Nat} {bank : Bank Reader}
    (h : sections.bind capacities = .ok bank) :
    (Session.start bank).direct = sections.directReader := by
  ext table : 1
  obtain ⟨capacity, bound⟩ := reader_of_bind h table
  exact direct_of_reader bound

/-- Readers that were bound do not know any version. -/
theorem version_of_bind {capacities : List Nat} {bank : Bank Reader}
    (h : sections.bind capacities = .ok bank) (table : Table) :
    (bank.get table).context.version = none := by
  have direct : (bank.get table).direct = sections.directReader table :=
    congrFun (direct_start h) table
  have fresh : (sections.directReader table).context = .unknown := by
    unfold directReader DirectReader.bind
    split
    · rfl
    · split <;> rfl
  exact congrArg Context.version ((congrArg DirectReader.context direct).trans fresh)

theorem faithful_start (image : Array UInt8) {capacities : List Nat} {bank : Bank Reader}
    (h : sections.bind capacities = .ok bank) : (Session.start bank).pool.Faithful image where
  sound table := by
    obtain ⟨capacity, bound⟩ := reader_of_bind h table
    exact (faithful_reader image bound).1
  shows table := by
    obtain ⟨capacity, bound⟩ := reader_of_bind h table
    exact (faithful_reader image bound).2

end SectionDirectory

/-- A use of the readers of one file. -/
inductive Use where
  /-- The units are walked. -/
  | walk
  /-- The header of the line program at an offset is read. -/
  | lineHeader (offset : Nat)
  deriving DecidableEq, Repr

/-- The session behind a use, whatever that gave. -/
def Use.perform (source : Source) (session : Session) : Use → Session
  | .walk => (session.run source Consult.walk).2
  | .lineHeader offset => (session.run source (Consult.lineHeader offset).run).2

namespace Session

/-- The session behind some uses. -/
def after (source : Source) (uses : List Use) (session : Session) : Session :=
  uses.foldl (Use.perform source) session

variable {image image' : Array UInt8} {base : DirectPool Table} {session session' : Session}
variable {α : Type} {inquiry : Inquiry α}

/-- Some readers over an image were left as the usual licences leave those of a base. -/
structure Used (image : Array UInt8) (base : DirectPool Table) (session : Session) : Prop where
  faithful : session.pool.Faithful image
  leaves : Licences.usual.Leaves base session.direct

namespace Used

theorem refl (faithful : session.pool.Faithful image) : Used image session.direct session :=
  ⟨faithful, fun _ => .refl _ _⟩

theorem runOver {source : Source} (used : Used image base session)
    (truthful : source.Truthful image) (licensed : inquiry.Licensed .usual) :
    Used image base (session.run source inquiry).2 where
  faithful := by
    have kept := used.faithful.run truthful id inquiry
    rwa [run_pool] at kept
  leaves table := (used.leaves table).trans (leaves_run used.faithful.sound source licensed table)

theorem run (used : Used image base session) (licensed : inquiry.Licensed .usual) :
    Used image base (session.run (.ofImage image) inquiry).2 :=
  used.runOver (Source.truthful_ofImage image) licensed

/-- All uses leave readers used, over every truthful source. -/
theorem afterOver {source : Source} (used : Used image base session)
    (truthful : source.Truthful image) (uses : List Use) :
    Used image base (session.after source uses) := by
  induction uses generalizing session with
  | nil => exact used
  | cons use rest ih =>
      refine ih ?_
      cases use with
      | walk => exact used.runOver truthful (Licences.walk_usual.walk rfl)
      | lineHeader offset =>
          exact used.runOver truthful (Licences.walk_usual.lineHeader rfl offset).tolerant

theorem after (used : Used image base session) (uses : List Use) :
    Used image base (session.after (.ofImage image) uses) :=
  used.afterOver (Source.truthful_ofImage image) uses

theorem rested (used : Used image base session) : DirectPool.Rested base session.direct where
  sound table := (used.faithful.sound table).direct
  leaves table _ := used.leaves table

theorem walkOver_unbound (source : Source) (used : Used image base session)
    (unbound : (base .info).place = none) :
    (session.run source Consult.walk).1 = ⟨[], some .unbound⟩ := by
  have bounds := (used.leaves .info).bounds
  obtain ⟨⟨⟨_ | w, context⟩, _, _, _, _, _⟩, log⟩ := session
  · rfl
  · rw [DirectReader.bounds, DirectReader.bounds, unbound] at bounds
    cases bounds

theorem walk_unbound (used : Used image base session) (unbound : (base .info).place = none) :
    (session.run (.ofImage image) Consult.walk).1 = ⟨[], some .unbound⟩ :=
  used.walkOver_unbound (.ofImage image) unbound

/-- A walk of a bound info reader over a truthful source begins at the start of the whole section. -/
theorem walkedOver {source : Source} {place : Place} (used : Used image base session)
    (truthful : source.Truthful image) (placed : (base .info).place = some place) :
    let walk := (session.run source Consult.walk).1
    ∃ begun final,
      begun.pool.Faithful image ∧
        DirectPool.Poised base { place with offset := place.first, stop := place.limit }
          begun.direct ∧
          Walked (serve source) begun [] walk.visits walk.failure final := by
  intro walk
  obtain ⟨before, there, first, limit, fileSize⟩ :=
    DirectReader.place_of_bounds (used.leaves .info).bounds.symm placed
  have stands : session.readers.info.Stands before := ⟨used.faithful.sound .info, there⟩
  obtain ⟨seen, start, visits, failure, final, rewinds, begins, walked, runs⟩ :=
    run_walkBeyond source stands
  have began := used.runOver truthful (Licences.walk_usual.rewind rfl)
  rw [show session.run source (Consult.rewind.on .info).run = _ from rewinds] at began
  have same : walk = ⟨visits, failure⟩ := congrArg Prod.fst (runs 0)
  rw [same, first, limit, fileSize]
  exact ⟨start, final, began.faithful, ⟨began.rested, begins.direct, rfl⟩, walked⟩

/-- A walk of a bound info reader is one of direct readers that begin at the start of the whole
section. -/
theorem walked {place : Place} (used : Used image base session)
    (placed : (base .info).place = some place) :
    let walk := (session.run (.ofImage image) Consult.walk).1
    ∃ begun final,
      DirectPool.Poised base { place with offset := place.first, stop := place.limit } begun ∧
        Walked (DirectPool.serve image id) begun [] walk.visits walk.failure final := by
  intro walk
  obtain ⟨begun, final, faithful, poised, walked⟩ :=
    used.walkedOver (Source.truthful_ofImage image) placed
  exact ⟨begun.direct, final.direct, poised, walked.direct faithful⟩

/-- The visits of a walk are in order. -/
theorem pairwise_visits (used : Used image base session) :
    (session.run (.ofImage image) Consult.walk).1.visits.Pairwise fun earlier later =>
      earlier.offset < later.offset := by
  cases placed : (base .info).place with
  | none =>
      rw [used.walk_unbound placed]
      exact .nil
  | some place =>
      obtain ⟨begun, final, faithful, poised, walked⟩ :=
        used.walkedOver (Source.truthful_ofImage image) placed
      have spaced := walked.spaced ⟨faithful.sound .info, poised.info⟩ rfl
      exact (List.pairwise_map.mp spaced.pairwise).imp fun apart => by omega

theorem unitAt (used : Used image base session) (offset : Nat) :
    (session.run (.ofImage image) (Consult.unitAt offset).run).1 =
      (session.direct.run image id (Consult.unitAt offset).run).1 :=
  (congrArg Prod.fst (run_direct used.faithful (fun _ => rfl) (Licences.walk_plain.unitAt offset)
    (Prod.eta _).symm).1).symm

/-- Walks of used readers make visits at the same offsets and end alike, over images that agree on
the units that fit, and units that are not altered have the same reports. -/
theorem walk_congr {place : Place} {Fits Altered : Nat → Prop} (start : base.Sound)
    (used : Used image base session) (used' : Used image' base session')
    (placed : (base .info).place = some place)
    (agree : DirectPool.AgreeInTables image image' base)
    (units : UnitsAgree image image' place.limit Fits Altered) (fits : Fits place.first) :
    let walk := (session.run (.ofImage image) Consult.walk).1
    let walk' := (session'.run (.ofImage image') Consult.walk).1
    walk'.failure = walk.failure ∧
      List.Forall₂ (fun visit visit' => visit'.offset = visit.offset ∧
        (Altered (place.first + visit.offset) ∨ visit'.report = visit.report))
        walk.visits walk'.visits := by
  obtain ⟨begun, final, poised, walked⟩ := used.walked placed
  obtain ⟨begun', final', poised', walked'⟩ := used'.walked placed
  have alike := walked.congr start agree walked' poised poised' units
    (DirectPool.validCache_nil image base) (DirectPool.validCache_nil image base) fits
  exact alike

/-- Walks of used readers over one image are the same. -/
theorem walk_unique (start : base.Sound) (used : Used image base session)
    (used' : Used image base session') :
    (session'.run (.ofImage image) Consult.walk).1 =
      (session.run (.ofImage image) Consult.walk).1 := by
  cases placed : (base .info).place with
  | none => rw [used.walk_unbound placed, used'.walk_unbound placed]
  | some place =>
      obtain ⟨failed, visits⟩ := used.walk_congr start used' placed (.refl image base)
        (.refl image place.limit) trivial
      have same : ∀ visit visit' : Visit, visit'.offset = visit.offset ∧
          (False ∨ visit'.report = visit.report) → visit = visit' := by
        rintro ⟨_, _⟩ ⟨_, _⟩ ⟨rfl, reports⟩
        cases reports.resolve_left id
        rfl
      have equal := List.forall₂_eq_eq_eq ▸ visits.imp same
      exact congrArg₂ Walk.mk equal.symm failed

/-- A walk of used readers reports of every unit what the readers of the base decode at its offset,
if those stand at the start of the whole section. -/
theorem reports_apart (start : base.Sound) (used : Used image base session)
    (whole : ∀ place, (base .info).place = some place →
      place = { place with offset := place.first, stop := place.limit }) :
    ∀ visit ∈ (session.run (.ofImage image) Consult.walk).1.visits,
      (base.run image id (Consult.unitAt visit.offset).run).1 = visit.report := by
  cases placed : (base .info).place with
  | none =>
      rw [used.walk_unbound placed]
      exact fun _ member => nomatch member
  | some place =>
      obtain ⟨begun, final, poised, walked⟩ := used.walked placed
      have fresh : DirectPool.Poised base
          { place with offset := place.first, stop := place.limit } base :=
        ⟨⟨start, fun _ _ => .refl _ _⟩, placed.trans (congrArg some (whole place placed)), rfl⟩
      exact walked.apart start poised (DirectPool.validCache_nil image base) fresh

/-- A walk of used readers visits the chain of units. -/
theorem chain {place : Place} (used : Used image base session)
    (placed : (base .info).place = some place) :
    let walk := (session.run (.ofImage image) Consult.walk).1
    ∃ stop, UnitChain image place.limit place.first
      (walk.visits.map fun visit => place.first + visit.offset) stop walk.failure := by
  obtain ⟨before, there, first, limit, -⟩ :=
    DirectReader.place_of_bounds (used.leaves .info).bounds.symm placed
  rw [first, limit]
  exact chain_of_walk ⟨used.faithful.sound .info, there⟩ (used.faithful.shows .info)
    (Prod.eta _).symm

end Used

end Session

/-- Two images differ only in the body of the unit at an offset of the info section, and in no other
section that units refer to. -/
def Bank.DifferInBody (bank : Bank Reader) (image image' : Array UInt8) (offset : Nat) : Prop :=
  ∀ index, image[index]? ≠ image'[index]? →
    (∃ w stop, bank.info.window = some w ∧ link image w.limit (w.first + offset) = .ok stop ∧
      w.first + offset + lengthSize image (w.first + offset) ≤ index ∧ index < stop) ∧
    ∀ table w, table.Consulted → (bank.get table).window = some w →
      index < w.first ∨ w.limit ≤ index

namespace Bank

variable {bank : Bank Reader} {image image' : Array UInt8} {offset : Nat}

/-- Images that differ in the body of a unit agree on the sections that units refer to. -/
theorem DifferInBody.agree (differ : bank.DifferInBody image image' offset) :
    DirectPool.AgreeInTables image image' (Session.start bank).direct := by
  intro table consulted place placed index later earlier
  apply by_contra
  intro other
  obtain ⟨w, window, rfl⟩ := Option.map_eq_some_iff.mp placed
  rcases (differ index other).2 table w consulted window with before | behind
  · exact absurd later (Nat.not_le_of_lt before)
  · exact absurd earlier (Nat.not_lt_of_le behind)

/-- Images that differ in the body of a unit agree on the units around it, and on the bodies of the
others. -/
theorem DifferInBody.units {place : Place} {stop : Nat}
    (differ : bank.DifferInBody image image' offset)
    (placed : bank.info.direct.place = some place)
    (links : link image place.limit (place.first + offset) = .ok stop) :
    UnitsAgree image image' place.limit
      (UnitsAgree.Around image place.limit (place.first + offset) stop)
      (· = place.first + offset) := by
  refine .of_body links fun index other => ?_
  obtain ⟨w, window, rfl⟩ := Option.map_eq_some_iff.mp placed
  obtain ⟨w', stop', window', links', inside, before⟩ := (differ index other).1
  cases window.symm.trans window'
  cases links.symm.trans links'
  exact ⟨inside, before⟩

end Bank

namespace Session

/-- If the body of one unit is altered, then a walk of used readers visits the same units and ends
alike, and reports the same of all others. -/
theorem walk_altered {bank : Bank Reader} {image image' : Array UInt8} {session session' : Session}
    (start : (start bank).direct.Sound) (used : Used image (Session.start bank).direct session)
    (used' : Used image' (Session.start bank).direct session') {unit : Visit}
    (member : unit ∈ (session.run (.ofImage image) Consult.walk).1.visits)
    (differ : bank.DifferInBody image image' unit.offset) :
    let walk := (session.run (.ofImage image) Consult.walk).1
    let walk' := (session'.run (.ofImage image') Consult.walk).1
    walk'.failure = walk.failure ∧
      List.Forall₂ (fun visit visit' => visit'.offset = visit.offset ∧
        (visit.offset = unit.offset ∨ visit'.report = visit.report)) walk.visits walk'.visits := by
  intro walk walk'
  cases placed : ((Session.start bank).direct .info).place with
  | none =>
      rw [used.walk_unbound placed] at member
      exact nomatch member
  | some place =>
      obtain ⟨stop, chain⟩ := used.chain placed
      have listed := List.mem_map_of_mem (f := fun visit : Visit => place.first + visit.offset) member
      obtain ⟨next, links⟩ := chain.link_of_mem listed
      obtain ⟨failed, visits⟩ := used.walk_congr start used' placed differ.agree
        (differ.units placed links) (.inr ⟨_, _, _, chain, listed⟩)
      refine ⟨failed, visits.imp fun visit visit' alike => ⟨alike.1, ?_⟩⟩
      exact alike.2.imp_left Nat.add_left_cancel

/-- Readers that were bound with any buffers, and then used in any way, walk alike: a walk reports
of every unit what freshly bound readers decode at its offset, every other walk is the same, and if
the body of one unit is altered, then a walk visits the same units and ends alike, and reports the
same of all others. -/
theorem reports_independent {sections : SectionDirectory} {capacities capacities' : List Nat}
    {bank bank' : Bank Reader} (binds : sections.bind capacities = .ok bank)
    (binds' : sections.bind capacities' = .ok bank') (image : Array UInt8) (uses : List Use) :
    let walkOf (bank : Bank Reader) (image : Array UInt8) (uses : List Use) : Walk :=
      (((start bank).after (.ofImage image) uses).run (.ofImage image) Consult.walk).1
    let walk := walkOf bank image uses
    (∀ visit ∈ walk.visits,
      ((start bank').run (.ofImage image) (Consult.unitAt visit.offset).run).1 = visit.report) ∧
    (∀ uses', walkOf bank' image uses' = walk) ∧
    ∀ unit ∈ walk.visits, ∀ image', bank.DifferInBody image image' unit.offset →
      ∀ uses', (walkOf bank' image' uses').failure = walk.failure ∧
        List.Forall₂ (fun visit visit' => visit'.offset = visit.offset ∧
          (visit.offset = unit.offset ∨ visit'.report = visit.report))
          walk.visits (walkOf bank' image' uses').visits := by
  intro walkOf walk
  have same : (start bank').direct = (start bank).direct := by
    calc (start bank').direct
        = sections.directReader := SectionDirectory.direct_start binds'
      _ = (start bank).direct := (SectionDirectory.direct_start binds).symm
  have used : Used image (start bank).direct (start bank) :=
    ⟨SectionDirectory.faithful_start image binds, fun _ => .refl _ _⟩
  have used' (image : Array UInt8) : Used image (start bank).direct (start bank') :=
    ⟨SectionDirectory.faithful_start image binds', fun table => same ▸ .refl _ _⟩
  have sound : (start bank).direct.Sound := used.rested.sound
  have whole (place : Place) (placed : ((start bank).direct .info).place = some place) :
      place = { place with offset := place.first, stop := place.limit } :=
    SectionDirectory.directReader_whole
      (congrFun (SectionDirectory.direct_start binds) .info ▸ placed)
  refine ⟨fun visit member => ?_, fun uses' => ?_, fun unit member image' differ uses' => ?_⟩
  · rw [(used' image).unitAt, same]
    exact (used.after uses).reports_apart sound whole visit member
  · exact (used.after uses).walk_unique sound ((used' image).after uses')
  · exact walk_altered sound (used.after uses) ((used' image').after uses') member differ

/-- Of two units with one table of abbreviations, the first has its version altered; whatever the
readers were used for before, the report of the second stays the same. -/
theorem reports_independent_altered :
    let sections : SectionDirectory :=
      ⟨[⟨".debug_info", ⟨0, 24⟩, false⟩, ⟨".debug_abbrev", ⟨24, 6⟩, false⟩], 30⟩
    let image : Array UInt8 := #[8, 0, 0, 0, 4, 0, 0, 0, 0, 0, 8, 1, 8, 0, 0, 0, 4, 0, 0, 0, 0, 0, 8,
      1, 1, 17, 0, 0, 0, 0]
    let bank (capacity : Nat) : Bank Reader :=
      ⟨⟨some ⟨.zeroed capacity, 0, 0, 0, 0, 24, 24, 30⟩, .unknown⟩,
        ⟨some ⟨.zeroed capacity, 24, 0, 0, 24, 30, 30, 30⟩, .unknown⟩,
        .unbound, .unbound, .unbound, .unbound⟩
    let walk := (((start (bank 16)).after (.ofImage image) [.lineHeader 0, .walk]).run
      (.ofImage image) Consult.walk).1
    let walk' := (((start (bank 64)).after (.ofImage (image.set! 4 9)) [.walk]).run
      (.ofImage (image.set! 4 9)) Consult.walk).1
    sections.bind (.replicate 6 16) = .ok (bank 16) ∧
      sections.bind (.replicate 6 64) = .ok (bank 64) ∧ walk.visits.map Visit.offset = [0, 12] ∧
        walk'.visits.getLast?.map Visit.report = walk.visits.getLast?.map Visit.report := by
  intro sections image bank walk walk'
  have binds : sections.bind (.replicate 6 16) = .ok (bank 16) := by rfl
  have binds' : sections.bind (.replicate 6 64) = .ok (bank 64) := by rfl
  have offsets : walk.visits.map Visit.offset = [0, 12] := by
    simp only [walk, bank, image]
    decide +kernel
  have links : link image 24 0 = .ok 12 := by rfl
  have behind : lengthSize image 0 = 4 := by rfl
  have differ : (bank 16).DifferInBody image (image.set! 4 9) 0 := by
    intro index other
    have altered : index = 4 :=
      by_contra fun elsewhere => other (Array.getElem?_setIfInBounds_ne (Ne.symm elsewhere)).symm
    subst altered
    refine ⟨⟨_, 12, rfl, links, Nat.le_of_eq behind, by decide⟩, fun table w consulted window => ?_⟩
    cases table with
    | info => exact absurd rfl consulted.1
    | abbreviations =>
        cases window
        exact .inl (by decide)
    | strings | lineStrings | stringOffsets | lines => cases window
  refine ⟨binds, binds', offsets, ?_⟩
  obtain ⟨-, -, altered⟩ := reports_independent binds binds' image [.lineHeader 0, .walk]
  have alike (unit : Visit) (member : unit ∈ walk.visits) (start : unit.offset = 0) :
      List.Forall₂ (fun visit visit' => visit'.offset = visit.offset ∧
        (visit.offset = unit.offset ∨ visit'.report = visit.report)) walk.visits walk'.visits :=
    (altered unit member (image.set! 4 9) (start ▸ differ) [.walk]).2
  clear_value walk walk'
  obtain ⟨first, rest, visits, start, offsets⟩ := List.map_eq_cons_iff.mp offsets
  obtain ⟨second, none, rfl, start', last⟩ := List.map_eq_cons_iff.mp offsets
  cases List.map_eq_nil_iff.mp last
  have pairs := alike first (visits ▸ List.mem_cons_self) start
  rw [visits] at pairs ⊢
  generalize walk'.visits = visits' at pairs ⊢
  obtain - | ⟨-, tail⟩ := pairs
  obtain - | ⟨⟨-, same⟩, none⟩ := tail
  cases none
  rw [start, start'] at same
  exact congrArg some (same.resolve_left (by decide))

end Session

end Dwarf
