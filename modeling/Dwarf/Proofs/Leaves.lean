import Dwarf.Proofs.Moves
/-!
# What licences leave of readers

Whatever an inquiry asks within its licences, every reader keeps to its section; a reader that may
not move the end of its window leaves it where it is, and one that may not record learns nothing.
Buffered readers over any source do so as direct readers do.
-/

namespace Dwarf

/-- What a licence leaves of a reader, however it is used. -/
structure Licence.Leaves (licence : Licence) (reader moved : DirectReader) : Prop where
  bounds : moved.bounds = reader.bounds
  stop : licence.narrows = false → moved.stop = reader.stop
  context : licence.records = false → moved.context = reader.context

namespace Licence.Leaves

variable {licence : Licence} {reader moved further : DirectReader}

theorem refl (licence : Licence) (reader : DirectReader) : licence.Leaves reader reader :=
  ⟨rfl, fun _ => rfl, fun _ => rfl⟩

theorem trans (h : licence.Leaves reader moved) (h' : licence.Leaves moved further) :
    licence.Leaves reader further where
  bounds := h'.bounds.trans h.bounds
  stop keeps := (h'.stop keeps).trans (h.stop keeps)
  context keeps := (h'.context keeps).trans (h.context keeps)

theorem symm (h : licence.Leaves reader moved) : licence.Leaves moved reader where
  bounds := h.bounds.symm
  stop keeps := (h.stop keeps).symm
  context keeps := (h.context keeps).symm

theorem of_leads {query : Query} {seen : Nat} (leads : DirectReader.Leads query reader moved)
    (permitted : licence.Permits seen query) : licence.Leaves reader moved :=
  ⟨leads.bounds, leads.stop permitted, leads.context permitted⟩

end Licence.Leaves

theorem DirectReader.leaves_run {α : Type} {failed : α → Prop} {licence : Licence}
    {decoder : Decoder α} (obeys : decoder.Obeys licence failed) (image : Array UInt8)
    (reader : DirectReader) : licence.Leaves reader (reader.run image decoder).2 := by
  obtain ⟨-, leaves⟩ := (obeys 0).run_keeps (serve image)
    (fun _ moved => licence.Leaves reader moved)
    (fun _ query moved permitted leaves =>
      leaves.trans (.of_leads (leads_serve image query moved) permitted))
    (.refl licence reader)
  exact leaves

theorem Reader.Sound.leaves_run {α : Type} {failed : α → Prop} {licence : Licence}
    {decoder : Decoder α} {reader : Reader} (sound : reader.Sound)
    (obeys : decoder.Obeys licence failed) (source : Source) (log : AccessLog) :
    licence.Leaves reader.direct (reader.run source decoder log).2.1.direct := by
  obtain ⟨-, -, leaves⟩ := (obeys 0).run_keeps (x := (reader, log)) (Reader.serve source)
    (fun _ state => state.1.Sound ∧ licence.Leaves reader.direct state.1.direct)
    (fun _ query state permitted kept => ⟨kept.1.serve source query state.2,
      kept.2.trans (.of_leads (leads_serve kept.1 source query state.2) permitted)⟩)
    ⟨sound, .refl licence reader.direct⟩
  exact leaves

theorem Reader.Sound.context_run {α : Type} {failed : α → Prop} {licence : Licence}
    {decoder : Decoder α} {reader moved : Reader} {source : Source} {answer : α}
    {log log' : AccessLog} (sound : reader.Sound) (obeys : decoder.Obeys licence failed)
    (records : licence.records = false)
    (h : reader.run source decoder log = (answer, moved, log')) :
    moved.context = reader.context := by
  have leaves := sound.leaves_run obeys source log
  rw [h] at leaves
  exact leaves.context records

theorem DirectReader.Sound.run {α : Type} {reader : DirectReader} (sound : reader.Sound)
    (image : Array UInt8) (decoder : Decoder α) : (reader.run image decoder).2.Sound :=
  decoder.run_keeps _ (fun query moved sound => (leads_serve image query moved).sound sound) sound

/-- What licences leave of the readers of all tables. -/
def Licences.Leaves (licences : Licences) (pool moved : DirectPool Table) : Prop :=
  ∀ table, (licences table).Leaves (pool table) (moved table)

namespace DirectPool

/-- The bounds of all readers are in order. -/
def Sound (pool : DirectPool Table) : Prop := ∀ table, (pool table).Sound

/-- The pools that a request may lead to. -/
def Leads (request : Request) (pool moved : DirectPool Table) : Prop :=
  ∃ reader, DirectReader.Leads request.query (pool request.table) reader ∧
    moved = Function.update pool request.table reader

variable {pool moved : DirectPool Table} {request : Request} {licences : Licences}

theorem Leads.leaves {seen : Table → Nat} (leads : Leads request pool moved)
    (permitted : (licences request.table).Permits (seen request.table) request.query) :
    licences.Leaves pool moved := by
  obtain ⟨reader, leads, rfl⟩ := leads
  intro table
  by_cases same : table = request.table
  · subst same
    rw [Function.update_self]
    exact .of_leads leads permitted
  · rw [Function.update_of_ne same]
    exact .refl _ _

theorem Leads.sound (leads : Leads request pool moved) (sound : pool.Sound) : moved.Sound := by
  obtain ⟨reader, leads, rfl⟩ := leads
  intro table
  by_cases same : table = request.table
  · subst same
    rw [Function.update_self]
    exact leads.sound (sound _)
  · rw [Function.update_of_ne same]
    exact sound table

variable {α : Type} {inquiry : Inquiry α}

/-- A licensed inquiry leaves what its licences leave, if the server leads each request as readers
do. -/
theorem leaves_run {X : Type} (serve : (request : Request) → X → request.Reply × X)
    (Good : X → Prop) (direct : X → DirectPool Table)
    (step : ∀ request x, Good x →
      Leads request (direct x) (direct (serve request x).2) ∧ Good (serve request x).2)
    (licensed : inquiry.Licensed licences) {x : X} (good : Good x) :
    licences.Leaves (direct x) (direct (inquiry.run serve x).2) := by
  have goes (seen : Table → Nat) (request : Request) (y : X)
      (permitted : (Licences.discipline licences).tolerant.permits seen request)
      (kept : Good y ∧ licences.Leaves (direct x) (direct y)) :
      Good (serve request y).2 ∧ licences.Leaves (direct x) (direct (serve request y).2) := by
    obtain ⟨leads, good'⟩ := step request y kept.1
    exact ⟨good', fun table => (kept.2 table).trans (leads.leaves permitted table)⟩
  obtain ⟨-, -, leaves⟩ := (licensed fun _ => 0).run_keeps serve
    (fun _ y => Good y ∧ licences.Leaves (direct x) (direct y)) goes ⟨good, fun _ => .refl _ _⟩
  exact leaves

theorem leads_serve (image : Array UInt8) (request : Request) (pool : DirectPool Table) :
    Leads request pool (serve image id request pool).2 :=
  ⟨_, DirectReader.leads_serve image request.query (pool request.table), rfl⟩

theorem Sound.run (sound : pool.Sound) (image : Array UInt8) (inquiry : Inquiry α) :
    (pool.run image id inquiry).2.Sound :=
  inquiry.run_keeps Sound
    (fun request pool sound => (leads_serve image request pool).sound sound) sound

theorem Sound.leaves_run (sound : pool.Sound) (image : Array UInt8)
    (licensed : inquiry.Licensed licences) : licences.Leaves pool (pool.run image id inquiry).2 :=
  DirectPool.leaves_run (serve image id) Sound id
    (fun request pool sound =>
      ⟨leads_serve image request pool, (leads_serve image request pool).sound sound⟩)
    licensed sound

end DirectPool

namespace Session

/-- The readers of a session as a pool. -/
def pool (session : Session) : Pool Table := ⟨session.readers.get, session.log⟩

variable {α : Type} {source : Source} {session : Session} {inquiry : Inquiry α}

theorem run_pool (source : Source) (inquiry : Inquiry α) (session : Session) :
    session.pool.run source id inquiry =
      ((session.run source inquiry).1, (session.run source inquiry).2.pool) := by
  refine inquiry.run_project pool (fun request session => ?_) session
  have readers (reader : Reader) :
      Function.update session.readers.get request.table reader =
        (session.readers.set reader request.table).get := by
    ext table : 1
    by_cases same : table = request.table
    · subst same
      rw [Function.update_self, Bank.get_set_self]
    · rw [Function.update_of_ne same, Bank.get_set_of_ne _ _ same]
  simp only [Pool.serve, serve, pool, id, readers]

/-- The direct readers that stand where the readers of a session stand. -/
def direct (session : Session) : DirectPool Table := session.pool.direct

/-- A licensed inquiry leaves of the readers of a session what its licences leave, whatever the
source answers. -/
theorem leaves_run {licences : Licences} (sound : session.pool.Sound) (source : Source)
    (licensed : inquiry.Licensed licences) :
    licences.Leaves session.direct (session.run source inquiry).2.direct := by
  have leaves := DirectPool.leaves_run (Pool.serve source id) Pool.Sound Pool.direct ?_ licensed
    sound
  · rw [show inquiry.run (Pool.serve source id) session.pool = _ from
      run_pool source inquiry session] at leaves
    exact leaves
  · intro request pool sound
    refine ⟨⟨_, Reader.leads_serve (sound request.table) source request.query pool.log, ?_⟩,
      sound.update _ _ ((sound _).serve source request.query _)⟩
    rw [Pool.serve, Pool.direct_update]
    rfl

end Session

end Dwarf
