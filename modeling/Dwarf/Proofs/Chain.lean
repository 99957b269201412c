import Dwarf.Proofs.Lengths
import Dwarf.Proofs.Loops
import Dwarf.Proofs.Progress
/-!
# The chain of units

Over an image, a walk visits the units that the initial lengths link one to the next, from the start
of the section on, and it succeeds where the chain ends with the section.  Bytes outside the initial
lengths have no say in it.
-/

namespace Dwarf

open UnitExtent

/-- The units from an offset on up to a limit, where their chain stops, and what is wrong there. -/
inductive UnitChain (image : Array UInt8) (limit : Nat) :
    Nat → List Nat → Nat → Option Error → Prop where
  /-- The chain ends with the section. -/
  | landed : UnitChain image limit limit [] limit none
  /-- The next unit cannot be located. -/
  | broken {offset : Nat} {error : Error} :
    offset < limit → link image limit offset = .error error →
      UnitChain image limit offset [] offset (some error)
  /-- A unit is linked to the next. -/
  | linked {offset next stop : Nat} {units : List Nat} {failure : Option Error} :
    offset < limit → link image limit offset = .ok next →
      UnitChain image limit next units stop failure →
        UnitChain image limit offset (offset :: units) stop failure

namespace UnitChain

variable {image image' : Array UInt8} {limit offset stop stop' : Nat} {units units' : List Nat}
variable {failure failure' : Option Error}

theorem failure_eq_none_iff (chain : UnitChain image limit offset units stop failure) :
    failure = none ↔ stop = limit := by
  induction chain with
  | landed => exact iff_of_true rfl rfl
  | broken before breaks => exact iff_of_false (fun none => nomatch none) (Nat.ne_of_lt before)
  | linked before links rest ih => exact ih

theorem unlocatable {error : Error} (inside : limit ≤ image.size)
    (chain : UnitChain image limit offset units stop (some error)) :
    Unlocatable image limit stop := by
  generalize failed : some error = failure at chain
  induction chain with
  | landed => cases failed
  | broken before breaks => exact unlocatable_of_link_eq_error inside breaks
  | linked before links rest ih => exact ih failed

theorem le_of_mem {unit : Nat} (chain : UnitChain image limit offset units stop failure)
    (member : unit ∈ units) : offset ≤ unit := by
  induction chain with
  | landed | broken => exact nomatch member
  | linked before links rest ih =>
      rcases List.mem_cons.mp member with rfl | later
      · exact Nat.le_refl _
      · have next := (link_eq_ok links).1
        have onward := ih later
        omega

theorem link_of_mem {unit : Nat} (chain : UnitChain image limit offset units stop failure)
    (member : unit ∈ units) : ∃ next, link image limit unit = .ok next := by
  induction chain with
  | landed | broken => exact nomatch member
  | linked before links rest ih =>
      rcases List.mem_cons.mp member with rfl | later
      · exact ⟨_, links⟩
      · exact ih later

/-- An image fixes the chain from an offset on. -/
theorem unique (chain : UnitChain image limit offset units stop failure)
    (chain' : UnitChain image limit offset units' stop' failure') :
    units = units' ∧ failure = failure' := by
  induction chain generalizing units' stop' failure' with
  | landed =>
      cases chain' with
      | landed => exact ⟨rfl, rfl⟩
      | broken before breaks => exact absurd before (Nat.lt_irrefl _)
      | linked before links rest => exact absurd before (Nat.lt_irrefl _)
  | broken before breaks =>
      cases chain' with
      | landed => exact absurd before (Nat.lt_irrefl _)
      | broken before' breaks' =>
          cases breaks.symm.trans breaks'
          exact ⟨rfl, rfl⟩
      | linked before' links' rest' => cases breaks.symm.trans links'
  | linked before links rest ih =>
      cases chain' with
      | landed => exact absurd before (Nat.lt_irrefl _)
      | broken before' breaks' => cases links.symm.trans breaks'
      | linked before' links' rest' =>
          cases links.symm.trans links'
          obtain ⟨rfl, rfl⟩ := ih rest'
          exact ⟨rfl, rfl⟩

/-- A chain is one in every image with the same initial lengths, as far as they lie before the
limit. -/
theorem congr (chain : UnitChain image limit offset units stop failure)
    (h : ∀ unit ∈ units ++ [stop],
      Source.Agree image image' unit (min limit (unit + lengthSize image unit))) :
    UnitChain image' limit offset units stop failure := by
  induction chain with
  | landed => exact .landed
  | broken before breaks =>
      have here := link_congr (h _ (List.mem_singleton_self _))
      exact .broken before (here.symm.trans breaks)
  | linked before links rest ih =>
      have here := link_congr (h _ (List.mem_cons_self))
      exact .linked before (here.symm.trans links)
        (ih fun unit member => h unit (List.mem_cons_of_mem _ member))

end UnitChain

namespace Session

variable {image : Array UInt8} {session reached : Session} {place : Place}

theorem shows_info {α : Type} {inquiry : Inquiry α} {answer : α}
    (kept : session.readers.info.Sound ∧ session.readers.info.Shows image)
    (h : inquiry.run (serve (Source.ofImage image)) session = (answer, reached)) :
    reached.readers.info.Sound ∧ reached.readers.info.Shows image := by
  have truthful := Source.truthful_ofImage image
  have step (query : Query) (reader : Reader) (log : AccessLog)
      (kept : reader.Sound ∧ reader.Shows image) :
      (Reader.serve (Source.ofImage image) query (reader, log)).2.1.Sound ∧
        (Reader.serve (Source.ofImage image) query (reader, log)).2.1.Shows image :=
    ⟨kept.1.serve _ query log, kept.2.serve kept.1 truthful query log⟩
  have after := keeps_info step inquiry kept
  rw [h] at after
  exact after

/-- Over an image, an info reader finds the end of the unit at its position as the image tells. -/
theorem link_of_unitExtent {result : Except Error UnitExtent}
    (stands : session.readers.info.Stands place) (shows : session.readers.info.Shows image)
    (opened : place.stop = place.limit)
    (h : (Decode.unitExtent.on .info).run.run (serve (Source.ofImage image)) session =
      (result, reached)) :
    result.map UnitExtent.stop = link image place.limit place.offset := by
  obtain ⟨reader, log, reads, rfl⟩ := of_run_on_info h
  have obeys : Decode.Obeys Licence.plain Decode.unitExtent := Decode.obeys_unitExtent rfl
  have direct := Reader.run_ofImage stands.sound shows rfl obeys session.log
  rw [reads, show session.readers.info.direct = ⟨some place, session.readers.info.context⟩ by
    rw [← stands.direct]; rfl] at direct
  obtain ⟨moved, ran, -⟩ := DirectReader.run_unitExtent image stands.bounds opened
    session.readers.info.context
  cases ran.symm.trans direct
  cases link image place.limit place.offset <;> rfl

end Session

namespace Walked

variable {image : Array UInt8} {session final : Session} {place : Place} {cache : TableCache}
variable {visits : List Visit} {failure : Option Error}

/-- Over an image, the visits of a walk are the units of the chain from the position of the info
reader on. -/
theorem chain
    (walked : Walked (Session.serve (Source.ofImage image)) session cache visits failure final)
    (stands : session.readers.info.Stands place) (shows : session.readers.info.Shows image)
    (opened : place.stop = place.limit) :
    ∃ stop, UnitChain image place.limit place.offset
      (visits.map fun visit => place.first + visit.offset) stop failure := by
  induction walked generalizing place with
  | landed sees atEnd =>
      have ended := (Session.ends_iff stands sees).mp atEnd
      rw [ended, opened]
      exact ⟨_, .landed⟩
  | broken sees ahead breaks =>
      have links := Session.link_of_unitExtent stands shows opened breaks
      exact ⟨_, .broken (opened ▸ Session.before_stop stands sees ahead) links.symm⟩
  | visited sees ahead enters decodes leaves rest ih =>
      have links := Session.link_of_unitExtent stands shows opened enters
      obtain ⟨starts, -, -, left, left', there⟩ := Session.leaves_unit stands opened enters
        (Consult.decodedUnit _ _)
      rw [decodes] at left'
      cases left'.symm.trans leaves
      have shown := Session.shows_info ⟨stands.sound, shows⟩ enters
      have shown' := Session.shows_info shown decodes
      obtain ⟨stop, chain⟩ := ih there (Session.shows_info shown' leaves).2 opened
      refine ⟨stop, ?_⟩
      have start : place.first + (place.offset - place.first) = place.offset :=
        Nat.add_sub_cancel' stands.bounds.first_le_offset
      rw [List.map_cons, starts, start]
      exact .linked (opened ▸ Session.before_stop stands sees ahead) links.symm chain

end Walked

namespace Consult

/-- The walk whose loop may make more visits than the section has room for. -/
def walkBeyond (extra : Nat) : Inquiry Walk := do
  match ← (rewind.on .info).run with
  | .error error => pure ⟨[], some error⟩
  | .ok seen => visitsFrom [] [] (seen.remaining + 1 + extra)

end Consult

namespace Session

variable {source : Source} {session : Session} {place : Place}

/-- A walk rewinds the info reader and makes the visits of its loop from there, however many more
the loop may make. -/
theorem run_walkBeyond (source : Source) (stands : session.readers.info.Stands place) :
    ∃ seen start visits failure final,
      (Consult.rewind.on .info).run.run (serve source) session = (.ok seen, start) ∧
        start.readers.info.Stands { place with offset := place.first, stop := place.limit } ∧
          Walked (serve source) start [] visits failure final ∧
            ∀ extra, session.run source (Consult.walkBeyond extra) = (⟨visits, failure⟩, final) := by
  obtain ⟨seen, moved, rewinds, sees, there⟩ := stands.rewind source session.log
  have onInfo := run_on_info rewinds
  obtain ⟨visits, failure, final, walked⟩ := exists_walked source
    (show (session.withInfo moved session.log).readers.info.Stands _ from there) rfl []
  have room := (walked.spaced there rfl).length_le
  rw [List.length_map] at room
  refine ⟨seen, _, visits, failure, final, onInfo, there, walked, fun extra => ?_⟩
  have ran : (Consult.walkBeyond extra).run (serve source) session =
      (Consult.visitsFrom [] [] (seen.remaining + 1 + extra)).run (serve source)
        (session.withInfo moved session.log) := by
    simp only [Consult.walkBeyond, Dialogue.run_bind]
    rw [show (Consult.rewind.on .info).run.run (serve source) session = _ from onInfo]
  have larger : visits.length < seen.remaining + 1 + extra := by
    rw [sees]
    dsimp only at room
    omega
  exact ran.trans (walked.run [] larger)

/-- A walk of an info reader that shows an image visits the chain of its units. -/
theorem chain_of_walk {image : Array UInt8} {walk : Walk} {final : Session}
    (stands : session.readers.info.Stands place) (shows : session.readers.info.Shows image)
    (walks : session.run (.ofImage image) Consult.walk = (walk, final)) :
    ∃ stop, UnitChain image place.limit place.first
      (walk.visits.map fun visit => place.first + visit.offset) stop walk.failure := by
  obtain ⟨seen, start, visits, failure, final', rewinds, there, walked, runs⟩ :=
    run_walkBeyond (.ofImage image) stands
  cases (runs 0).symm.trans walks
  exact walked.chain there (shows_info ⟨stands.sound, shows⟩ rewinds).2 rfl

/-- A walk on a bound info reader ends by itself, whatever the source answers: larger counts change
neither it nor the loops over abbreviations inside it.  Its visits are four bytes apart at least,
and it succeeds only with the info reader at the end of the whole section.  Over an image that has
the whole file, it visits the chain of units and fails only where the next cannot be located, and
the bytes outside the initial lengths of the chain, the other readers and everything that happened
before have no say in which units it visits. -/
theorem walk_follows_chain {w : Window} {walk : Walk} {final : Session}
    (window : session.readers.info.window = some w)
    (reachable : Reader.Reachable source session.readers.info)
    (walks : session.run source Consult.walk = (walk, final)) :
    (∀ extra, session.run source (Consult.walkBeyond extra) = (walk, final)) ∧
    (∀ (reader : Reader) (place : Place) (bound extra : Nat) (log : AccessLog),
      reader.Stands place → place.remaining < bound →
        (∀ read, reader.run source (Decode.abbreviationsFrom read (bound + extra)).run log =
          reader.run source (Decode.abbreviationsFrom read bound).run log) ∧
        ∀ read, reader.run source (Decode.attributeSpecsFrom read (bound + extra)).run log =
          reader.run source (Decode.attributeSpecsFrom read bound).run log) ∧
    (walk.visits.map Visit.offset).Pairwise (fun earlier later => earlier + 4 ≤ later) ∧
    4 * walk.visits.length ≤ w.limit - w.first ∧
    (∀ count, walk.count = .ok count → count = walk.visits.length ∧
      final.readers.info.Stands ⟨w.limit, w.first, w.limit, w.limit, w.fileSize⟩) ∧
    ∀ image, source = .ofImage image → w.fileSize ≤ image.size →
      ∃ stop,
        UnitChain image w.limit w.first (walk.visits.map fun visit => w.first + visit.offset) stop
          walk.failure ∧
        (walk.failure = none ↔ stop = w.limit) ∧
        (∀ error, walk.failure = some error → Unlocatable image w.limit stop) ∧
        ∀ (image' : Array UInt8) (session' final' : Session) (w' : Window) (walk' : Walk),
          session'.readers.info.window = some w' →
          Reader.Reachable (.ofImage image') session'.readers.info →
          session'.run (.ofImage image') Consult.walk = (walk', final') →
          w'.first = w.first → w'.limit = w.limit →
          (∀ unit ∈ (walk.visits.map fun visit => w.first + visit.offset) ++ [stop],
            Source.Agree image image' unit (min w.limit (unit + lengthSize image unit))) →
          walk'.visits.map Visit.offset = walk.visits.map Visit.offset ∧
            walk'.failure = walk.failure := by
  have stands := Reader.stands_of_window reachable.sound window
  obtain ⟨seen, start, visits, failure, final', rewinds, there, walked, runs⟩ :=
    run_walkBeyond source stands
  cases (runs 0).symm.trans walks
  have spaced := walked.spaced there rfl
  have room := spaced.length_le
  rw [List.length_map] at room
  dsimp only at room ⊢
  refine ⟨runs, fun reader place bound extra log stands fewer => ⟨fun read => ?_, fun read => ?_⟩,
    spaced.pairwise, ?_, fun count counted => ?_, ?_⟩
  · exact stands.run_abbreviationsFrom_add fewer extra read log
  · exact stands.run_attributeSpecsFrom_add fewer extra read log
  · exact Nat.le_trans (Nat.le_add_left _ _) room
  · cases failure with
    | some error => cases counted
    | none =>
        cases counted
        exact ⟨rfl, walked.landed_of_none there rfl⟩
  · rintro image rfl inside
    have within := Nat.le_trans stands.bounds.limit_le_fileSize inside
    have truthful := Source.truthful_ofImage image
    obtain ⟨stop, chain⟩ : ∃ stop, UnitChain image w.limit w.first
        (visits.map fun visit : Visit => w.first + visit.offset) stop failure :=
      chain_of_walk stands (reachable.shows truthful) walks
    refine ⟨stop, chain, chain.failure_eq_none_iff, ?_, ?_⟩
    · rintro error rfl
      exact chain.unlocatable within
    · intro image' session' final' w' walk' window' reachable' walks' first limit agree
      have stands' := Reader.stands_of_window reachable'.sound window'
      obtain ⟨stop', chain'⟩ := chain_of_walk stands'
        (reachable'.shows (Source.truthful_ofImage image')) walks'
      rw [show w'.place.first = w.first from first, show w'.place.limit = w.limit from limit]
        at chain'
      have moved := chain.congr agree
      obtain ⟨same, failed⟩ := chain'.unique moved
      refine ⟨?_, failed⟩
      have offsets (visits : List Visit) : (visits.map fun visit => w.first + visit.offset) =
          (visits.map Visit.offset).map (w.first + ·) := by
        rw [List.map_map]
        rfl
      rw [offsets, offsets] at same
      exact (List.map_inj_right fun _ _ => Nat.add_left_cancel).mp same

/-- Eight zeros are two units of no length, which a walk visits. -/
theorem walk_visits_empty_units :
    let image : Array UInt8 := .replicate 8 0
    let w : Window := ⟨.zeroed 16, 0, 0, 0, 0, 8, 8, 8⟩
    let walk := ((start (.replicate ⟨some w, .unknown⟩)).run (.ofImage image) Consult.walk).1
    UnitChain image 8 0 [0, 4] 8 none ∧ walk.visits.map Visit.offset = [0, 4] := by
  intro image w walk
  have bound : Reader.bound (.zeroed 16) ⟨0, 8⟩ 8 = .ok ⟨some w, .unknown⟩ := by rfl
  have chain : UnitChain image 8 0 [0, 4] 8 none :=
    .linked (by decide) (by rfl) (.linked (by decide) (by rfl) .landed)
  have small : w.fileSize ≤ image.size := by decide
  refine ⟨chain, ?_⟩
  have walks : (start (.replicate ⟨some w, .unknown⟩)).run (.ofImage image) Consult.walk =
      (walk, _) := (Prod.eta _).symm
  have follows := walk_follows_chain (w := w) rfl (.bound bound) walks
  clear_value walk
  obtain ⟨stop, visited, -⟩ := follows.2.2.2.2.2 image rfl small
  have same := (visited.unique chain).1
  have start : (fun visit : Visit => w.first + visit.offset) = Visit.offset :=
    funext fun visit => Nat.zero_add visit.offset
  rwa [start] at same
end Session

end Dwarf
