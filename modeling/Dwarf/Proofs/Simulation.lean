import Dwarf.Proofs.Pool
/-!
# Simulation of buffered readers by direct ones

Over an image, a pool of buffered readers and its direct pool answer every inquiry without bulk
alike and stand alike behind it.  Over any other truthful source they do so as long as the inquiry
does not fail.

## Implementation notes

The two cases share one simulation, in which a failure to take bytes either does not occur or ends
the inquiry.  The relation is that the direct readers stand where the buffered ones do.
-/

namespace Dwarf

/-- A source lets every reader that shows an image take a value as its direct reader does; a lossy
one may fail instead. -/
def Source.Matches (lossy : Prop) (image : Array UInt8) (source : Source) : Prop :=
  ∀ (reader : Reader) (count : Nat) (ahead : Ahead) (log : AccessLog)
    (result : Except Error (List UInt8)) (moved : Reader) (log' : AccessLog),
    reader.Sound → reader.Shows image → count ≤ Reader.minimumCapacity →
      reader.take source count ahead log = (result, moved, log') →
        lossy ∧ Failed result ∨ reader.direct.take image count = (result, moved.direct)

variable {image : Array UInt8} {source : Source}

theorem Source.matches_ofImage (image : Array UInt8) : (ofImage image).Matches False image :=
  fun _ _ _ _ _ _ _ sound shows small taking => .inr (shows.take_ofImage sound
    (fun w bound => Nat.le_trans small (sound w bound).minimum_le_capacity) taking)

theorem Source.Truthful.matches (truthful : source.Truthful image) : source.Matches True image := by
  intro reader count ahead log result moved log' sound shows small taking
  cases result with
  | ok bytes => exact .inr ((shows.take sound truthful taking).2 bytes rfl)
  | error error => exact .inl ⟨trivial, error, rfl⟩

/-- A direct reader replies to a permitted query as the buffered reader does, unless that loses
bytes. -/
theorem Reader.serve_direct {lossy : Prop} {reader : Reader} {licence : Licence} {seen : Nat}
    (sound : reader.Sound) (shows : reader.Shows image) (h : source.Matches lossy image)
    (plain : licence.bulk = false) (query : Query) (permitted : licence.Permits seen query)
    (log : AccessLog) :
    lossy ∧ Licence.Fatal query (serve source query (reader, log)).1 ∨
      licence.Alike query (serve source query (reader, log)).1
          (DirectReader.serve image query reader.direct).1 ∧
        (DirectReader.serve image query reader.direct).2 =
          (serve source query (reader, log)).2.1.direct := by
  cases query with
  | view => exact .inr ⟨.inr ⟨plain, reader.direct.view.capacity, view_direct reader⟩, rfl⟩
  | take count ahead =>
      have small : count ≤ minimumCapacity := by
        rcases permitted with bulk | small
        · exact absurd (bulk.symm.trans plain) (by decide)
        · exact small
      rcases taking : reader.take source count ahead log with ⟨result, moved, log'⟩
      simp only [serve, DirectReader.serve, taking]
      rcases h reader count ahead log result moved log' sound shows small taking with lost | direct
      · exact .inl lost
      · rw [direct]
        exact .inr ⟨rfl, rfl⟩
  | seek target =>
      have moved := changeWindow_direct reader (Window.map_place_seek target)
      exact .inr ⟨congrArg Prod.fst moved, congrArg Prod.snd moved⟩
  | narrow stop =>
      have moved := changeWindow_direct reader (Window.map_place_narrow stop)
      exact .inr ⟨congrArg Prod.fst moved, congrArg Prod.snd moved⟩
  | record context => exact .inr ⟨rfl, rfl⟩

namespace Pool

variable {ι : Type} [DecidableEq ι] {α : Type} {failed : α → Prop} {licences : Licences}
variable {inquiry : Inquiry α} {pool : Pool ι}

/-- A direct pool replies to a permitted request as its pool does, unless that loses bytes. -/
theorem serve_direct {lossy : Prop} (faithful : pool.Faithful image)
    (truthful : source.Truthful image) (h : source.Matches lossy image)
    (plain : ∀ table, (licences table).bulk = false) (seat : Table → ι) (seen : Table → Nat)
    (request : Request)
    (permitted : (Licences.discipline licences).permits seen request) :
    lossy ∧ (Licences.discipline licences).fatal request (serve source seat request pool).1 ∨
      (Licences.discipline licences).alike request (serve source seat request pool).1
          (DirectPool.serve image seat request pool.direct).1 ∧
        (serve source seat request pool).2.Faithful image ∧
          (DirectPool.serve image seat request pool.direct).2 =
            (serve source seat request pool).2.direct := by
  have served := Reader.serve_direct (faithful.sound (seat request.table)) (faithful.shows _) h
    (plain request.table) request.query permitted pool.log
  rcases served with lost | ⟨alike, direct⟩
  · exact .inl lost
  · refine .inr ⟨alike, faithful.serve truthful seat request, ?_⟩
    rw [serve, direct_update, ← direct]
    rfl

/-- A direct pool answers an inquiry without bulk as its pool does, unless that loses bytes and
fails. -/
theorem run_direct {lossy : Prop} (faithful : pool.Faithful image)
    (truthful : source.Truthful image) (h : source.Matches lossy image)
    (plain : ∀ table, (licences table).bulk = false) (obeys : inquiry.Obeys licences failed)
    (seat : Table → ι) :
    lossy ∧ failed (pool.run source seat inquiry).1 ∨
      pool.direct.run image seat inquiry =
        ((pool.run source seat inquiry).1, (pool.run source seat inquiry).2.direct) := by
  have simulated := (obeys fun _ => 0).simulate (x := pool) (y := pool.direct) lossy
    (serve source seat) (DirectPool.serve image seat)
    (fun _ x y => x.Faithful image ∧ y = x.direct) ?_ ⟨faithful, rfl⟩
  · rcases simulated with lost | ⟨same, seen, -, direct⟩
    · exact .inl lost
    · exact .inr (Prod.ext same.symm direct)
  · rintro seen request x y permitted ⟨faithful, rfl⟩
    exact serve_direct faithful truthful h plain seat seen request permitted

/-- Over an image, a direct pool answers every licensed inquiry without bulk as its pool does and
stands alike behind it. -/
theorem run_ofImage (faithful : pool.Faithful image)
    (plain : ∀ table, (licences table).bulk = false) (licensed : inquiry.Licensed licences)
    (seat : Table → ι) :
    pool.direct.run image seat inquiry =
      ((pool.run (Source.ofImage image) seat inquiry).1,
        (pool.run (Source.ofImage image) seat inquiry).2.direct) := by
  have simulated := (licensed fun _ => 0).simulate (x := pool) (y := pool.direct) False
    (serve (Source.ofImage image) seat) (DirectPool.serve image seat)
    (fun _ x y => x.Faithful image ∧ y = x.direct) ?_ ⟨faithful, rfl⟩
  · obtain ⟨same, seen, -, direct⟩ := simulated.resolve_left fun lost => lost.1
    exact Prod.ext same.symm direct
  · rintro seen request x y permitted ⟨faithful, rfl⟩
    have served := serve_direct faithful (Source.truthful_ofImage image)
      (Source.matches_ofImage image) plain seat seen request permitted
    exact .inr (served.resolve_left fun lost => lost.1)

end Pool

/-- Over an image, a direct reader answers every decoder without bulk as its reader does and stands
alike behind it. -/
theorem Reader.run_ofImage {α : Type} {failed : α → Prop} {licence : Licence} {reader : Reader}
    {decoder : Decoder α} (sound : reader.Sound) (shows : reader.Shows image)
    (plain : licence.bulk = false) (obeys : decoder.Obeys licence failed) (log : AccessLog) :
    reader.direct.run image decoder =
      ((reader.run (Source.ofImage image) decoder log).1,
        (reader.run (Source.ofImage image) decoder log).2.1.direct) := by
  have on : Inquiry.Obeys (fun _ => licence) failed (decoder.on .info) := Decoder.Obeys.on obeys
  have faithful : Pool.Faithful image (⟨fun _ => reader, log⟩ : Pool Unit) :=
    ⟨fun _ => sound, fun _ => shows⟩
  have ran := Pool.run_ofImage faithful (fun _ => plain) on.tolerant fun _ => ()
  rw [Pool.run_on, DirectPool.run_on] at ran
  have answers := congrArg Prod.fst ran
  have readers := congrFun (congrArg Prod.snd ran) ()
  simp only [Pool.decode, DirectPool.decode, Pool.direct, Function.update_self] at answers readers
  exact Prod.ext answers readers

end Dwarf
