import Dwarf.Proofs.Reports
/-!
# Missing tables

Where readers of tables that units refer to are missing, walks visit the same units.  A unit that
asks a missing table is reported to lack its reader; every other is reported as with all readers.

## Implementation notes

Which tables a unit asks is told by decoding it apart.  So it asks for its abbreviations even where
a walk has kept them from an earlier unit, which would have asked a missing table for them as well.
-/

namespace Dwarf

open Judgement

namespace Dialogue

variable {Q : Type} {R : Q → Type} {α β X Y σ : Type} {serve : (query : Q) → X → R query × X}
variable {asked : Q → Prop}

/-- Whether a dialogue asks a query of some kind when it is run. -/
def Asks (serve : (query : Q) → X → R query × X) (asked : Q → Prop) : Dialogue Q R α → X → Prop
  | done _, _ => False
  | ask query next, x => asked query ∨ (next (serve query x).1).Asks serve asked (serve query x).2

/-- What a dialogue asks is found out by running it. -/
instance decidableAsks [DecidablePred asked] :
    (dialogue : Dialogue Q R α) → (x : X) → Decidable (dialogue.Asks serve asked x)
  | done _, _ => inferInstanceAs (Decidable False)
  | ask query next, x =>
    have := decidableAsks (next (serve query x).1) (serve query x).2
    inferInstanceAs (Decidable (asked query ∨ _))

theorem asks_bind (first : Dialogue Q R α) (next : α → Dialogue Q R β) (x : X) :
    (first >>= next).Asks serve asked x ↔ first.Asks serve asked x ∨
      (next (first.run serve x).1).Asks serve asked (first.run serve x).2 := by
  induction first generalizing x with
  | done answer => exact (iff_of_eq (false_or _)).symm
  | ask query rest ih => exact (or_congr_right (ih _ _)).trans or_assoc.symm

/-- Two servers that are related, and whose replies are not told apart, are asked alike. -/
theorem Follows.asks_iff {D : Discipline Q R σ} {failed : α → Prop}
    (serve' : (query : Q) → Y → R query × Y) (Related : X → Y → Prop)
    (step : ∀ state query x y, D.permits state query → Related x y →
      D.alike query (serve query x).1 (serve' query y).1 ∧
        Related (serve query x).2 (serve' query y).2)
    {dialogue : Dialogue Q R α} {state : σ} (follows : dialogue.Follows D failed state) {x : X}
    {y : Y} (h : Related x y) :
    dialogue.Asks serve asked x ↔ dialogue.Asks serve' asked y := by
  induction dialogue generalizing x y state with
  | done answer => exact Iff.rfl
  | ask query next ih =>
      obtain ⟨permitted, blind, goes⟩ := follows
      obtain ⟨alike, related⟩ := step state query x y permitted h
      refine or_congr_right ?_
      rw [← blind _ _ alike]
      exact ih _ (goes _).2 related

end Dialogue

/-- A judgement that asks nothing of dialogues. -/
def Judgement.indifferent {Q : Type} {R : Q → Type} : Judgement Q R := ⟨fun _ _ => True⟩

/-- Whatever decoders do is indifferent. -/
instance : (indifferent : Judgement Query Query.Reply).LetsKnow where
  done _ := trivial
  bind _ _ _ := trivial
  look _ _ := trivial
  takeAhead _ _ _ := trivial
  ensureBound := trivial
  lookAtSizes _ _ := trivial
  skip _ := trivial
  format := trivial
  addressSize := trivial

namespace DirectPool

variable {image : Array UInt8} {missing : List Table} {pool pool' : DirectPool Table} {α : Type}

/-- A pool has no readers of the missing tables. -/
def Lacks (missing : List Table) (pool : DirectPool Table) : Prop :=
  ∀ table ∈ missing, (pool table).place = none

theorem Lacks.run (lacks : Lacks missing pool) (image : Array UInt8) (inquiry : Inquiry α) :
    Lacks missing (pool.run image id inquiry).2 := by
  refine inquiry.run_keeps (Lacks missing) (fun request pool lacks table member => ?_) lacks
  obtain ⟨reader, leads, moved⟩ := leads_serve image request pool
  rw [moved]
  by_cases same : table = request.table
  · subst same
    have bounds := leads.bounds
    rw [DirectReader.bounds, DirectReader.bounds, lacks _ member] at bounds
    rw [Function.update_self]
    exact Option.map_eq_none_iff.mp bounds
  · rw [Function.update_of_ne same]
    exact lacks table member

/-- Inquiries of pools with missing readers that fail if they ask one of those. -/
def sinking (image : Array UInt8) (missing : List Table) : Judgement Request Request.Reply where
  Holds blames inquiry := ∀ pool, Lacks missing pool →
    inquiry.Asks (serve image id) (fun request => request.table ∈ missing) pool →
      blames (pool.run image id inquiry).1 .unbound

/-- Inquiries that fail in their first part or in what follows it fail. -/
instance : (sinking image missing).Lawful where
  done _ _ _ asks := False.elim asks
  bind {α β blames blames' first next} begins goes passes := by
    intro pool lacks asks
    rw [run, Dialogue.run_bind]
    rcases (Dialogue.asks_bind first next pool).mp asks with asks | asks
    · have blamed := begins pool lacks asks
      obtain ⟨answer', ends, same⟩ := passes _ _ blamed
      rw [show first.run (serve image id) pool = pool.run image id first from rfl, ends]
      exact (same _).mpr blamed
    · by_cases clean : ∀ error, ¬ blames (pool.run image id first).1 error
      · exact goes _ clean _ (lacks.run image first) asks
      · obtain ⟨error, blamed⟩ := not_forall_not.mp clean
        obtain ⟨answer', ends, -⟩ := passes _ _ blamed
        rw [show first.run (serve image id) pool = pool.run image id first from rfl, ends] at asks
        exact False.elim asks

/-- A decoder sinks with its table if it fails on a reader that is missing. -/
theorem sinking_on {table : Table} {blames : α → Error → Prop} {decoder : Decoder α}
    (h : table ∈ missing → ∀ context, blames (DirectReader.run image decoder ⟨none, context⟩).1
      .unbound) :
    (sinking image missing).Holds blames (decoder.on table) := by
  intro pool lacks asks
  have member : table ∈ missing := by
    clear h
    induction decoder generalizing pool with
    | done answer => exact False.elim asks
    | ask query next ih =>
        rcases asks with here | later
        · exact here
        · exact ih _ _ (lacks.run image (Dialogue.ask ⟨table, query⟩ .done)) later
  rw [run_on]
  have missed : pool table = ⟨none, (pool table).context⟩ :=
    congrArg (fun place => (⟨place, (pool table).context⟩ : DirectReader)) (lacks table member)
  have sinks := h member (pool table).context
  rwa [← missed] at sinks

theorem reads_sinking (image : Array UInt8) (kept : .info ∉ missing) :
    Inquiry.Reads .info indifferent (sinking image missing) where
  decoder _ := sinking_on fun lost => absurd lost kept
  strings _ := sinking_on fun _ _ => rfl
  lineStrings _ := sinking_on fun _ _ => rfl
  stringOffsets _ _ _ := sinking_on fun _ _ => rfl

theorem sinking_unitAt (image : Array UInt8) (kept : .info ∉ missing) (offset : Nat) :
    (sinking image missing).Step (Consult.unitAt offset) :=
  (reads_sinking image kept).unitAt (fun _ => trivial) trivial
    (fun _ => sinking_on fun _ _ => rfl) offset

/-- Pools that differ in missing readers only reply alike with the others, and go on so. -/
theorem serve_agree (image : Array UInt8) {request : Request}
    (agree : ∀ table, table ∉ missing → pool' table = pool table)
    (kept : request.table ∉ missing) :
    (serve image id request pool').1 = (serve image id request pool).1 ∧
      ∀ table, table ∉ missing →
        (serve image id request pool').2 table = (serve image id request pool).2 table := by
  have same := agree request.table kept
  have moved (pool : DirectPool Table) : (serve image id request pool).2 =
      Function.update pool request.table
        (DirectReader.serve image request.query (pool request.table)).2 := rfl
  refine ⟨congrArg (fun reader => (DirectReader.serve image request.query reader).1) same,
    fun table present => ?_⟩
  rw [moved, moved, same]
  by_cases here : table = request.table
  · rw [here, Function.update_self, Function.update_self]
  · rw [Function.update_of_ne here, Function.update_of_ne here]
    exact agree table present

theorem run_of_not_asks {inquiry : Inquiry α}
    (agree : ∀ table, table ∉ missing → pool' table = pool table)
    (unasked : ¬ inquiry.Asks (serve image id) (fun request => request.table ∈ missing) pool) :
    (pool'.run image id inquiry).1 = (pool.run image id inquiry).1 := by
  induction inquiry generalizing pool pool' with
  | done answer => rfl
  | ask request next ih =>
      obtain ⟨here, later⟩ := not_or.mp unasked
      obtain ⟨reply, agree'⟩ := serve_agree image agree here
      rw [run, Dialogue.run_ask, reply]
      exact ih _ agree' later

end DirectPool

namespace Bank

/-- A bank whose readers of some tables are replaced by unbound ones. -/
def without (bank : Bank Reader) (missing : List Table) : Bank Reader :=
  missing.foldl (fun bank table => bank.set .unbound table) bank

theorem get_without (bank : Bank Reader) (missing : List Table) (table : Table) :
    (bank.without missing).get table = if table ∈ missing then .unbound else bank.get table := by
  induction missing generalizing bank with
  | nil => rfl
  | cons first rest ih =>
      rw [show bank.without (first :: rest) = (bank.set .unbound first).without rest from rfl, ih]
      by_cases here : table = first
      · rw [here, get_set_self, if_pos List.mem_cons_self, ite_self]
      · rw [get_set_of_ne _ _ here]
        simp only [List.mem_cons, here, false_or]

end Bank

namespace Session

variable {image : Array UInt8} {session session' : Session} {α : Type} {inquiry : Inquiry α}
variable {base base' : DirectPool Table}

theorem direct_without (bank : Bank Reader) (missing : List Table) (table : Table) :
    (start (bank.without missing)).direct table =
      if table ∈ missing then .unbound else (start bank).direct table :=
  (congrArg Reader.direct (bank.get_without missing table)).trans (apply_ite Reader.direct _ _ _)

theorem faithful_without {bank : Bank Reader} (faithful : (start bank).pool.Faithful image)
    (missing : List Table) : (start (bank.without missing)).pool.Faithful image := by
  have each (table : Table) : ((bank.without missing).get table).Sound ∧
      ((bank.without missing).get table).Shows image := by
    rw [bank.get_without missing table]
    split
    · exact ⟨Reader.sound_unbound, Reader.shows_unbound⟩
    · exact ⟨faithful.sound table, faithful.shows table⟩
  constructor
  · exact fun table => (each table).1
  · exact fun table => (each table).2

/-- Whether an inquiry asks some tables when the readers of a session answer it. -/
def Asks (source : Source) (tables : List Table) (inquiry : Inquiry α) (session : Session) : Prop :=
  Dialogue.Asks (serve source) (fun request => request.table ∈ tables) inquiry session

/-- What an inquiry asks is found out by running it. -/
instance (source : Source) (tables : List Table) (inquiry : Inquiry α) (session : Session) :
    Decidable (session.Asks source tables inquiry) :=
  Dialogue.decidableAsks inquiry session

/-- Over an image, licensed inquiries without bulk ask a session what they ask its direct
readers. -/
theorem asks_direct {licences : Licences} {tables : List Table}
    (faithful : session.pool.Faithful image) (plain : ∀ table, (licences table).bulk = false)
    (licensed : inquiry.Licensed licences) :
    session.Asks (.ofImage image) tables inquiry ↔
      inquiry.Asks (DirectPool.serve image id) (fun request => request.table ∈ tables)
        session.direct := by
  refine (licensed fun _ => 0).asks_iff (DirectPool.serve image id)
    (fun session pool => session.pool.Faithful image ∧ pool = session.direct) ?_ ⟨faithful, rfl⟩
  rintro seen request session _ permitted ⟨faithful, rfl⟩
  have served := Pool.serve_direct faithful (Source.truthful_ofImage image)
    (Source.matches_ofImage image) plain id seen request permitted
  have pooled := run_pool (.ofImage image) (Dialogue.ask request .done) session
  rw [show Pool.serve (.ofImage image) id request session.pool = _ from pooled] at served
  exact served.resolve_left fun lost => lost.1

/-- Walks over one info section make visits at the same offsets and end alike, whatever the other
readers are. -/
theorem Used.offsets_eq (used : Used image base session) (used' : Used image base' session')
    (info : base' .info = base .info) :
    let walk := (session.run (.ofImage image) Consult.walk).1
    let walk' := (session'.run (.ofImage image) Consult.walk).1
    walk'.visits.map Visit.offset = walk.visits.map Visit.offset ∧
      walk'.failure = walk.failure := by
  intro walk walk'
  cases placed : (base .info).place with
  | none =>
      rw [show walk = _ from used.walk_unbound placed,
        show walk' = _ from used'.walk_unbound (info ▸ placed)]
      exact ⟨rfl, rfl⟩
  | some place =>
      obtain ⟨stop, chain⟩ := used.chain placed
      obtain ⟨stop', chain'⟩ := used'.chain (info ▸ placed)
      obtain ⟨units, failure⟩ := chain'.unique chain
      refine ⟨?_, failure⟩
      have add : Function.Injective (place.first + ·) := fun _ _ => Nat.add_left_cancel
      apply List.map_injective_iff.mpr add
      rw [List.map_map, List.map_map]
      exact units

/-- The visits of a walk are told by their offsets, if its readers were left as those of a base that
stand at the start of the whole section. -/
theorem Used.visits_eq (start : base.Sound) (used : Used image base session)
    (whole : ∀ place, (base .info).place = some place →
      place = { place with offset := place.first, stop := place.limit }) :
    let walk := (session.run (.ofImage image) Consult.walk).1
    walk.visits = (walk.visits.map Visit.offset).map fun offset =>
      ⟨offset, (base.run image id (Consult.unitAt offset).run).1⟩ := by
  intro walk
  rw [List.map_map]
  refine (List.map_id _).symm.trans (List.map_congr_left fun visit member => ?_)
  exact congrArg (Visit.mk visit.offset) (used.reports_apart start whole visit member).symm

/-- Without the readers of some tables, but the info reader, a unit is decoded as with them or fails
for an unbound reader; and it is decoded alike unless it asks one of the tables. -/
theorem unitAt_without {missing : List Table} {base base' : DirectPool Table} (image : Array UInt8)
    (kept : .info ∉ missing) (agree : ∀ table, table ∉ missing → base' table = base table)
    (lacks : DirectPool.Lacks missing base') (offset : Nat) :
    let decoded := (base.run image id (Consult.unitAt offset).run).1
    let decoded' := (base'.run image id (Consult.unitAt offset).run).1
    (decoded' = decoded ∨ decoded' = .error .unbound) ∧
      (¬ (Consult.unitAt offset).run.Asks (DirectPool.serve image id)
          (fun request => request.table ∈ missing) base → decoded' = decoded) := by
  intro decoded decoded'
  refine ⟨?_, DirectPool.run_of_not_asks agree⟩
  by_cases asks : (Consult.unitAt offset).run.Asks (DirectPool.serve image id)
      (fun request => request.table ∈ missing) base'
  · exact .inr (DirectPool.sinking_unitAt image kept offset base' lacks asks)
  · refine .inl (DirectPool.run_of_not_asks (fun table present => ?_) asks).symm
    exact (agree table present).symm

/-- Whichever readers are missing of the tables that units refer to, a walk visits the same units
and ends alike; it reports of every unit what it reports with all readers, or that a reader is
unbound, and it reports alike every unit whose decoding asks none of the missing tables, the table
of abbreviations being asked even where the walk has kept it. -/
theorem walk_without {sections : SectionDirectory} {capacities : List Nat} {bank : Bank Reader}
    (binds : sections.bind capacities = .ok bank) (image : Array UInt8) {missing : List Table}
    (kept : .info ∉ missing) :
    let full := ((start bank).run (.ofImage image) Consult.walk).1
    let part := ((start (bank.without missing)).run (.ofImage image) Consult.walk).1
    part.failure = full.failure ∧
      List.Forall₂ (fun visit visit' => visit'.offset = visit.offset ∧
        (visit'.report = visit.report ∨ visit'.report = .error .unbound) ∧
          (¬ (start bank).Asks (.ofImage image) missing (Consult.unitAt visit.offset).run →
            visit'.report = visit.report)) full.visits part.visits := by
  intro full part
  have faithful := SectionDirectory.faithful_start image binds
  have used := Used.refl faithful
  have used' := Used.refl (faithful_without faithful missing)
  have agree (table : Table) (present : table ∉ missing) :
      (start (bank.without missing)).direct table = (start bank).direct table := by
    rw [direct_without, if_neg present]
  have lacks : DirectPool.Lacks missing (start (bank.without missing)).direct := by
    intro table member
    rw [direct_without, if_pos member]
    rfl
  have whole (place : Place) (placed : ((start bank).direct .info).place = some place) :
      place = { place with offset := place.first, stop := place.limit } :=
    SectionDirectory.directReader_whole
      (congrFun (SectionDirectory.direct_start binds) .info ▸ placed)
  obtain ⟨offsets, failure⟩ := used.offsets_eq used' (agree .info kept)
  refine ⟨failure, ?_⟩
  rw [show full.visits = _ from used.visits_eq used.rested.sound whole,
    show part.visits = _ from used'.visits_eq used'.rested.sound (agree .info kept ▸ whole),
    offsets, List.forall₂_map_left_iff, List.forall₂_map_right_iff, List.forall₂_same]
  intro offset member
  obtain ⟨alike, unasked⟩ := unitAt_without image kept agree lacks offset
  refine ⟨rfl, alike, fun silent => unasked fun asks => silent ?_⟩
  exact (asks_direct faithful (fun _ => rfl) (Licences.walk_plain.unitAt offset)).mpr asks

/-- Of two units, the first has its name in the table of strings: without that table it cannot be
decoded, and the second is decoded as before. -/
theorem walk_without_strings :
    let sections : SectionDirectory :=
      ⟨[⟨".debug_info", ⟨0, 28⟩, false⟩, ⟨".debug_abbrev", ⟨28, 13⟩, false⟩,
        ⟨".debug_str", ⟨41, 2⟩, false⟩], 43⟩
    let image : Array UInt8 := #[12, 0, 0, 0, 4, 0, 0, 0, 0, 0, 8, 1, 0, 0, 0, 0, 8, 0, 0, 0, 4, 0,
      0, 0, 0, 0, 8, 2, 1, 17, 0, 3, 14, 0, 0, 2, 17, 0, 0, 0, 0, 97, 0]
    let bank : Bank Reader :=
      ⟨⟨some ⟨.zeroed 16, 0, 0, 0, 0, 28, 28, 43⟩, .unknown⟩,
        ⟨some ⟨.zeroed 16, 28, 0, 0, 28, 41, 41, 43⟩, .unknown⟩,
        ⟨some ⟨.zeroed 16, 41, 0, 0, 41, 43, 43, 43⟩, .unknown⟩, .unbound, .unbound, .unbound⟩
    let full := ((start bank).run (.ofImage image) Consult.walk).1
    let part := ((start (bank.without [.strings])).run (.ofImage image) Consult.walk).1
    sections.bind (.replicate 6 16) = .ok bank ∧
      full.visits.map (fun visit => visit.report.isOk) = [true, true] ∧
        part.visits.map (fun visit => visit.report.isOk) = [false, true] ∧
          part.visits.getLast?.map Visit.report = full.visits.getLast?.map Visit.report := by
  intro sections image bank full part
  have binds : sections.bind (.replicate 6 16) = .ok bank := by rfl
  have reports : full.visits.map (fun visit => visit.report.isOk) = [true, true] := by
    simp only [full, bank, image]
    decide +kernel
  have reports' : part.visits.map (fun visit => visit.report.isOk) = [false, true] := by
    simp only [part, bank, image]
    decide +kernel
  have offsets : full.visits.map Visit.offset = [0, 16] := by
    simp only [full, bank, image]
    decide +kernel
  have silent : ¬ (start bank).Asks (.ofImage image) [.strings] (Consult.unitAt 16).run := by
    simp only [bank, image]
    decide +kernel
  have kept : Table.info ∉ [Table.strings] := by decide
  have alike : List.Forall₂ (fun visit visit' : Visit =>
      ¬ (start bank).Asks (.ofImage image) [.strings] (Consult.unitAt visit.offset).run →
        visit'.report = visit.report) full.visits part.visits :=
    (walk_without binds image kept).2.imp fun _ _ alike => alike.2.2
  refine ⟨binds, reports, reports', ?_⟩
  clear_value full part
  obtain ⟨first, rest, visits, -, offsets⟩ := List.map_eq_cons_iff.mp offsets
  obtain ⟨second, none, rfl, here, last⟩ := List.map_eq_cons_iff.mp offsets
  cases List.map_eq_nil_iff.mp last
  rw [visits] at alike ⊢
  generalize part.visits = visits' at alike ⊢
  obtain - | ⟨-, tail⟩ := alike
  obtain - | ⟨same, none⟩ := tail
  cases none
  exact congrArg some (same (here ▸ silent))

end Session

end Dwarf
