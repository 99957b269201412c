import Dwarf.Proofs.AbbreviationCodes
import Dwarf.Proofs.EntrySizes
/-!
# Steps on the line table

While the header of a line program is read, the line reader goes from place to place, and the readers
of the string tables are moved in their sections.  Steps are told by the places between which they
lead and the value that they give, or by the bytes that they take.
-/

namespace Dwarf

/-- Over an image, the line reader of a session stands at a place, and the readers of the string
tables were left in their sections. -/
structure Session.LinesAt (image : Array UInt8) (base : DirectPool Table) (place : Place)
    (context : Context) (session : Session) : Prop where
  reached : session.pool.Reachable (.ofImage image)
  lines : session.readers.lines.direct = ⟨some place, context⟩
  strings : ∀ table, table.Consulted →
    (Licences.usual table).Leaves (base table) (session.readers.get table).direct

/-- A step on the line table leaves the other readers, so only its own one has to be followed. -/
theorem Session.LinesAt.behind {α : Type} {image : Array UInt8} {base : DirectPool Table}
    {place place' : Place} {context context' : Context} {session left : Session} {step : Decode α}
    {result : Except Error α} (there : session.LinesAt image base place context)
    (goes : session.run (.ofImage image) (step.on .lines).run = (result, left))
    (moved : left.readers.lines.direct = ⟨some place', context'⟩) :
    left.LinesAt image base place' context' := by
  refine ⟨Session.reachable_run there.reached goes, moved, fun table consulted => ?_⟩
  have kept : (session.run (.ofImage image) (step.run.on .lines)).2.readers.get table =
      session.readers.get table :=
    Session.get_run_on (.ofImage image) consulted.2 session
  rw [show session.run (.ofImage image) (step.run.on .lines) = (result, left) from goes] at kept
  rw [show left.readers.get table = session.readers.get table from kept]
  exact there.strings table consulted

namespace Consult

variable {α β : Type} {image : Array UInt8} {base : DirectPool Table}
variable {place place' place'' : Place} {context context' context'' : Context}

/-- A step leads from one place of the line reader to another one and gives a value. -/
def Leads (image : Array UInt8) (base : DirectPool Table) (place : Place) (context : Context)
    (step : Consult α) (value : α) (place' : Place) (context' : Context) : Prop :=
  ∀ session : Session, session.LinesAt image base place context →
    ∃ left : Session, session.run (.ofImage image) step.run = (.ok value, left) ∧
      left.LinesAt image base place' context'

namespace Leads

variable {first : Consult α} {next : α → Consult β} {head : α} {value : β}

theorem pure (answer : α) : Leads image base place context (Pure.pure answer) answer place context :=
  fun session there => ⟨session, rfl, there⟩

theorem bind (h : Leads image base place context first head place' context')
    (h' : Leads image base place' context' (next head) value place'' context'') :
    Leads image base place context (first >>= next) value place'' context'' := by
  intro session there
  obtain ⟨middle, ran, there⟩ := h session there
  obtain ⟨left, goes, there⟩ := h' middle there
  refine ⟨left, ?_, there⟩
  simp only [Session.run] at ran goes ⊢
  rw [Dialogue.runStep_bind, ran]
  exact goes

theorem map (f : α → β) (h : Leads image base place context first head place' context') :
    Leads image base place context (f <$> first) (f head) place' context' := by
  rw [map_eq_pure_bind]
  exact h.bind (pure (f head))

end Leads

theorem leads_on {step : Decode α} {value : α} (obeys : step.Obeys .plain)
    (ran : DirectReader.run image step.run ⟨some place, context⟩ =
      (.ok value, ⟨some place', context'⟩)) :
    Leads image base place context (step.on .lines) value place' context' := by
  intro session there
  let left := (session.run (.ofImage image) (step.on .lines).run).2
  have goes : session.run (.ofImage image) (step.on .lines).run = (_, left) := (Prod.eta _).symm
  have direct := Session.direct_run_on (there.reached .lines) obeys goes
  rw [show (session.readers.get .lines).direct = _ from there.lines, ran] at direct
  obtain ⟨ok, moved⟩ := Prod.mk.inj direct
  exact ⟨left, Prod.ext ok.symm rfl, there.behind goes moved.symm⟩

/-- A string is looked up where it stands in its table, and the line reader stays. -/
theorem leads_stringAt {table : Table} (strings : table = .strings ∨ table = .lineStrings)
    {offset : Nat} {text : List UInt8} (stands : (base table).HasText image offset text) :
    Leads image base place context (completed ((Decode.stringAt offset).on table)) text place
      context := by
  intro session there
  have usual : Licences.usual table = ⟨true, false, false, false⟩ := by
    rcases strings with rfl | rfl <;> rfl
  have consulted : table.Consulted := by
    rcases strings with rfl | rfl <;> decide
  have mapped : completed ((Decode.stringAt offset).on table) =
      (Decode.completed (Decode.stringAt offset)).on table :=
    (Decoder.on_map table Transfer.complete (Decode.stringAt offset)).symm
  let step := Decode.completed (Decode.stringAt offset)
  let left := (session.run (.ofImage image) (step.on table).run).2
  have goes : session.run (.ofImage image) (step.on table).run = (_, left) := (Prod.eta _).symm
  have plain : step.Obeys .plain := Decode.obeys_completed (Decode.obeys_stringAt offset rfl)
  have obeys : step.Obeys (Licences.usual table) :=
    Decode.obeys_completed (Decode.obeys_stringAt offset (by rw [usual]))
  have direct := Session.direct_run_on (there.reached table) plain goes
  have leaves := there.strings table consulted
  have sound := (there.reached table).sound.direct
  have found : (DirectReader.run image step.run (session.readers.get table).direct).1 = .ok text :=
    (DirectReader.run_stringAt_eq_ok_iff sound).mpr ((DirectReader.hasText_congr leaves.symm
      (by rw [usual]) sound fun _ _ => .refl _ _ _).mpr stands)
  have left_table := DirectReader.leaves_run obeys image (session.readers.get table).direct
  rw [direct] at found left_table
  have kept {other : Table} (apart : other ≠ table) :
      left.readers.get other = session.readers.get other :=
    Session.get_run_on (.ofImage image) apart session
  rw [mapped]
  refine ⟨left, Prod.ext found rfl, Session.reachable_run there.reached goes, ?_, ?_⟩
  · exact (congrArg Reader.direct (kept consulted.2.symm)).trans there.lines
  · intro other consulted
    by_cases same : other = table
    · subst same
      exact leaves.trans left_table
    · rw [kept same]
      exact there.strings other consulted

/-- Bytes are taken where they stand, in whatever pieces. -/
theorem leads_bytes {bytes : List UInt8} (sound : place.Sound)
    (stands : Source.Starts image place.stop place.offset bytes) :
    Leads image base place context ((Decode.completed (Decode.bytes bytes.length)).on .lines) bytes
      (place.advance bytes.length) context := by
  intro session there
  let step := Decode.completed (Decode.bytes bytes.length)
  let left := (session.run (.ofImage image) (step.on .lines).run).2
  have goes : session.run (.ofImage image) (step.on .lines).run = (_, left) := (Prod.eta _).symm
  have reader : session.readers.lines.Reachable (.ofImage image) := there.reached .lines
  have held : place.Holds image bytes.length := by
    have size := congrArg List.length stands.2
    have inside := stands.1
    have bounds := sound.offset_le_stop
    rw [Array.length_toList, Source.size_imageBytes] at size
    simp only [Place.Holds, Place.remaining]
    omega
  let pieces := Decode.pieces bytes.length (max session.readers.lines.view.capacity 1)
  have sum : pieces.sum = bytes.length := Decode.sum_pieces _ _
  have taken := DirectReader.run_bytesFrom_of_holds context pieces [] (sum.symm ▸ held)
  have shown := (reader.shows (Source.truthful_ofImage image)).run_bytes_ofImage reader.sound
    bytes.length session.log
  rw [there.lines, taken, sum, stands.2, List.reverse_nil, List.nil_append] at shown
  obtain ⟨transfer, moved⟩ := Prod.mk.inj shown
  have completes : session.readers.lines.run (.ofImage image) step.run session.log = _ :=
    Dialogue.run_map (Reader.serve (.ofImage image)) Transfer.complete (Decode.bytes bytes.length)
      (session.readers.lines, session.log)
  obtain ⟨complete, reached⟩ := Prod.mk.inj (completes.symm.trans (Session.step_on goes))
  refine ⟨left, Prod.ext ?_ rfl, there.behind goes ?_⟩
  · exact complete.symm.trans (congrArg Transfer.complete transfer.symm)
  · exact (congrArg (fun moved => moved.1.direct) reached).symm.trans moved.symm

theorem leads_look {next : View → Consult α} {value : α}
    (each : ∀ seen : View, seen.offset = place.offset → seen.stop = place.stop →
      seen.context = context →
        Leads image base place context (next seen) value place' context') :
    Leads image base place context (Decode.view.on .lines >>= next) value place' context' := by
  intro session there
  have stands : session.readers.lines.Stands place :=
    ⟨(there.reached .lines).sound, congrArg DirectReader.place there.lines⟩
  have shows := stands.view_eq
  have knows : session.readers.lines.context = context :=
    congrArg DirectReader.context there.lines
  exact each session.readers.lines.view (congrArg View.offset shows) (congrArg View.stop shows)
    ((congrArg View.context shows).trans knows) session there

variable {stop : Nat}

/-- A consultation takes some bytes of the line table wherever they stand in the window, and gives a
value. -/
def Takes (image : Array UInt8) (base : DirectPool Table) (stop : Nat) (context : Context)
    (step : Consult α) (bytes : List UInt8) (value : α) : Prop :=
  ∀ place : Place, place.Sound → place.stop = stop → Source.Starts image stop place.offset bytes →
    Leads image base place context step value (place.advance bytes.length) context

namespace Takes

variable {first : Consult α} {next : α → Consult β} {bytes rest : List UInt8} {head : α} {value : β}

theorem pure (answer : α) : Takes image base stop context (Pure.pure answer) [] answer :=
  fun _ _ _ _ => Leads.pure answer

theorem bind (h : Takes image base stop context first bytes head)
    (h' : Takes image base stop context (next head) rest value) :
    Takes image base stop context (first >>= next) (bytes ++ rest) value := by
  intro place sound stops there
  obtain ⟨there, follow⟩ := Source.starts_append_iff.mp there
  rw [List.length_append, ← Place.advance_advance]
  exact (h place sound stops there).bind
    (h' (place.advance bytes.length) (sound.advance (stops ▸ there.1)) stops follow)

theorem bind_nil (h : Takes image base stop context first bytes head)
    (h' : Takes image base stop context (next head) [] value) :
    Takes image base stop context (first >>= next) bytes value := by
  rw [← List.append_nil bytes]
  exact h.bind h'

theorem map (f : α → β) (h : Takes image base stop context first bytes head) :
    Takes image base stop context (f <$> first) bytes (f head) :=
  fun place sound stops there => (h place sound stops there).map f

theorem on {step : Decode α} (obeys : step.Obeys .plain)
    (h : Decode.Takes image stop context step bytes head) :
    Takes image base stop context (step.on .lines) bytes head :=
  fun place sound stops there => leads_on obeys (h place sound stops there)

end Takes

theorem takes_bytes (bytes : List UInt8) :
    Takes image base stop context ((Decode.completed (Decode.bytes bytes.length)).on .lines) bytes
      bytes := by
  rintro place sound rfl there
  exact leads_bytes sound there

theorem takes_stringAt {table : Table} (strings : table = .strings ∨ table = .lineStrings)
    {offset : Nat} {text : List UInt8} (stands : (base table).HasText image offset text) :
    Takes image base stop context (completed ((Decode.stringAt offset).on table)) [] text :=
  fun _ _ _ _ => leads_stringAt strings stands

end Consult

end Dwarf
