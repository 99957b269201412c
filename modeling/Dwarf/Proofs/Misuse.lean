import Dwarf.Proofs.Blameless
import Dwarf.Proofs.Task
/-!
# Input is never taken for misuse

Whatever a file holds, and whatever comes of accesses to it, walks and line programs on bound
readers fail by no misuse: every size that a decoder asks for was learnt in the header before it,
and no value is wider than the least buffer.

## Implementation notes

Of the readers of a session, one is decoded from and others are looked up in; only of the first it
matters what it knows.  A unit that fails leaves it bound, but perhaps without the sizes, which the
next unit learns again.
-/

namespace Dwarf

open Judgement Dialogue

/-- Whether a walk was ended by an error, or reports it of a unit. -/
def Walk.Blames (walk : Walk) (error : Error) : Prop :=
  walk.failure = some error ∨ ∃ visit ∈ walk.visits, visit.report = .error error

/-- No report of some visits is a misuse. -/
def Visit.AllBlameless (visits : List Visit) : Prop :=
  ∀ visit ∈ visits, ∀ error, visit.report = .error error → error.category ≠ .misuse

/-- Visits that report no misuse make a walk that blames none, if it is not ended by one. -/
theorem Visit.AllBlameless.category {made : List Visit} {failure : Option Error}
    (clean : AllBlameless made)
    (failed : ∀ error, failure = some error → error.category ≠ .misuse) (error : Error)
    (blamed : Walk.Blames ⟨made.reverse, failure⟩ error) : error.category ≠ .misuse := by
  rcases blamed with ended | ⟨visit, member, reported⟩
  · exact failed error ended
  · exact clean visit (List.mem_reverse.mp member) error reported

namespace Session

variable {source : Source} {session : Session} {α : Type} {own table : Table}
variable {others : List Table} {Knows Anyway Learns : Context → Prop}
variable {blames : α → Error → Prop} {decoder : Decoder α}

/-- The reader of one table is bound and knows something, and those of others are bound. -/
structure Bound (own : Table) (others : List Table) (Knows : Context → Prop)
    (session : Session) : Prop where
  own : (session.readers.get own).Apt Knows
  others : ∀ table ∈ others, (session.readers.get table).Apt fun _ => True

theorem Bound.forget (bound : session.Bound own others Knows) :
    session.Bound own others fun _ => True :=
  ⟨bound.own.mono fun _ _ => trivial, bound.others⟩

/-- What is blameless on readers of the own table is so in sessions. -/
theorem blameless_on_own (apart : own ∉ others)
    (h : decoder.Blameless (Reader.serve source) (Reader.Knowing Knows) (Reader.Knowing Anyway)
      (Reader.Knowing Learns) blames) :
    (decoder.on own).Blameless (serve source) (Bound own others Knows) (Bound own others Anyway)
      (Bound own others Learns) blames := by
  intro session bound
  obtain ⟨anyway, allowed, succeeds⟩ := h (session.readers.get own, session.log) bound.own
  have ran := run_on source own decoder session
  rw [show (decoder.on own).run (serve source) session = _ from ran]
  dsimp only
  have left {Leaves : Context → Prop} {reader : Reader} {log : AccessLog}
      (apt : reader.Apt Leaves) :
      Bound own others Leaves ⟨session.readers.set reader own, log⟩ := by
    refine ⟨?_, fun table member => ?_⟩
    · rw [Bank.get_set_self]
      exact apt
    · rw [Bank.get_set_of_ne _ _ (ne_of_mem_of_not_mem member apart)]
      exact bound.others table member
  exact ⟨left anyway, allowed, fun clean => left (succeeds clean)⟩

theorem teaches_on_own (apart : own ∉ others) (h : decoder.Teaches source Knows Learns blames) :
    (decoder.on own).Blameless (serve source) (Bound own others Knows)
      (Bound own others fun _ => True) (Bound own others Learns) blames :=
  blameless_on_own apart h

/-- Blameless inquiries that leave what is known as it is. -/
def knowing (source : Source) (own : Table) (others : List Table) (Knows : Context → Prop) :
    Judgement Request Request.Reply :=
  steady (serve source) (Bound own others Knows)

instance : (knowing source own others Knows).Lawful :=
  inferInstanceAs (steady (serve source) (Bound own others Knows)).Lawful

/-- What is blameless on bound readers of another table is so in sessions. -/
theorem knowing_on_other (member : table ∈ others) (apart : own ∉ others)
    (h : (Judgement.knowing source fun _ => True).Holds blames decoder) :
    (knowing source own others Knows).Holds blames (decoder.on table) := by
  intro session bound
  obtain ⟨apt, allowed, -⟩ :=
    h (session.readers.get table, session.log) (bound.others table member)
  have ran := run_on source table decoder session
  rw [show (decoder.on table).run (serve source) session = _ from ran]
  dsimp only
  have left {reader : Reader} {log : AccessLog} (left : reader.Apt fun _ => True) :
      Bound own others Knows ⟨session.readers.set reader table, log⟩ := by
    refine ⟨?_, fun other member' => ?_⟩
    · rw [Bank.get_set_of_ne _ _ (ne_of_mem_of_not_mem member apart).symm]
      exact bound.own
    · by_cases same : other = table
      · rw [same, Bank.get_set_self]
        exact left
      · rw [Bank.get_set_of_ne _ _ same]
        exact bound.others other member'
  exact ⟨left apt, allowed, fun _ => left apt⟩

theorem forgotten {inquiry : Inquiry α}
    (h : (knowing source own others Knows).Holds blames inquiry) :
    inquiry.Blameless (serve source) (Bound own others Knows) (Bound own others fun _ => True)
      (Bound own others fun _ => True) blames :=
  Blameless.weaken h (fun _ => id) (fun _ => Bound.forget) fun _ => Bound.forget

section Units

/-- The tables that units refer to. -/
def referred : List Table := [.abbreviations, .strings, .lineStrings, .stringOffsets]

theorem knowing_reads (source : Source) (Knows : Context → Prop) :
    Inquiry.Reads .info (Judgement.knowing source Knows) (knowing source .info referred Knows) where
  decoder h := blameless_on_own (by decide) h
  strings offset :=
    knowing_on_other (by decide) (by decide) (Decode.lets_stringAt Decode.knowing_seeks offset)
  lineStrings offset :=
    knowing_on_other (by decide) (by decide) (Decode.lets_stringAt Decode.knowing_seeks offset)
  stringOffsets base index format :=
    knowing_on_other (by decide) (by decide) (Decode.lets_stringOffsetEntry Decode.knowing_seeks
      Decode.knowing_narrows base index format)

theorem blameless_decodedUnit (extent : UnitExtent) (cache : TableCache) :
    (Consult.decodedUnit extent cache).Blameless (serve source)
      (Bound .info referred Context.HasFormat) (Bound .info referred fun _ => True)
      (Bound .info referred fun _ => True) fun result => Blames result.1 := by
  have header : ((Decode.unitHeaderIn extent).on .info).run.Blameless (serve source)
      (Bound .info referred Context.HasFormat) (Bound .info referred fun _ => True)
      (Bound .info referred Context.HasSizes) Blames :=
    teaches_on_own (by decide) (Decode.teaches_unitHeaderIn extent)
  refine header.bind (fun result clean => ?_) ?_
  · cases result with
    | error error => exact absurd rfl (clean error)
    | ok header =>
        refine forgotten ((knowing_reads source Context.HasSizes).summary (fun offset => ?_)
          header cache)
        exact knowing_on_other (by decide) (by decide)
          (Decode.lets_abbreviations Decode.knowing_seeks Decode.knowing_narrows offset)
  · rintro result error ⟨⟩
    exact ⟨_, rfl, fun other => (blames_error _ _).trans (blames_error _ _).symm⟩

theorem blameless_leaveUnit (stop : Nat) :
    (knowing source .info referred fun _ => True).Step (Consult.leaveUnit stop) := by
  have reads := knowing_reads source fun _ => True
  apply (reads.step (Decode.lets_widen Decode.knowing_narrows)).bind
  intro _
  exact reads.step (Decode.knowing_seeks stop)

/-- The loop of a walk is blameless if the visits before it are. -/
theorem blameless_visitsFrom (made : List Visit) (clean : Visit.AllBlameless made)
    (cache : TableCache) (rest : Nat) :
    (knowing source .info referred fun _ => True).Holds Walk.Blames
      (Consult.visitsFrom made cache rest) := by
  induction rest generalizing made cache with
  | zero => exact .done (fun _ => id) (clean.category nofun)
  | succ rest ih =>
      have looks : (Decoder.view.on .info).Blameless (serve source)
          (Bound .info referred fun _ => True) (Bound .info referred fun _ => True)
          (Bound .info referred fun _ => True) fun _ _ => False :=
        (knowing_reads source _).decoder Decode.knowing_viewAlone
      rw [Consult.visitsFrom]
      refine looks.andThen fun seen _ => ?_
      split
      · exact .done (fun _ => id) (clean.category nofun)
      · refine (teaches_on_own (by decide) Decode.teaches_unitExtent).bindEach
          (fun result fine => ?_) fun result error blamed allowed => ?_
        · cases result with
          | error error => exact absurd rfl (fine error)
          | ok extent =>
              refine (blameless_decodedUnit extent cache).andThen fun result allowed => ?_
              have clean' : Visit.AllBlameless (⟨extent.sectionOffset, result.1⟩ :: made) := by
                rintro visit (_ | ⟨_, member⟩)
                · exact allowed
                · exact clean visit member
              refine Blameless.andThen (blameless_leaveUnit extent.stop) fun left allowed => ?_
              cases left with
              | error error =>
                  refine .done (fun _ => id) (clean'.category ?_)
                  rintro _ ⟨⟩
                  exact allowed error rfl
              | ok _ => exact ih _ clean' _
        · cases blamed
          refine .done (fun _ => id) (clean.category ?_)
          rintro _ ⟨⟩
          exact allowed error rfl

theorem blameless_walk :
    (knowing source .info referred fun _ => True).Holds Walk.Blames Consult.walk := by
  have rewinds : (Judgement.knowing source fun _ => True).Step Consult.rewind := by
    apply (Decode.lets_widen Decode.knowing_narrows).bind
    intro _
    apply (Decode.lets_seekInSection Decode.knowing_seeks 0).bind
    intro _
    exact Decode.knowing_viewAlone.lift
  have clean : Visit.AllBlameless [] := fun _ member => absurd member List.not_mem_nil
  refine Blameless.andThen ((knowing_reads source _).step rewinds) fun result allowed => ?_
  cases result with
  | error error =>
      refine .done (fun _ => id) (clean.category ?_)
      rintro _ ⟨⟩
      exact allowed error rfl
  | ok seen => exact blameless_visitsFrom [] clean [] _

end Units

section Lines

/-- The tables that line programs refer to. -/
def referredByLines : List Table := [.strings, .lineStrings]

theorem knowing_readsLines (source : Source) (Knows : Context → Prop) :
    Inquiry.ReadsLines (Judgement.knowing source Knows)
      (knowing source .lines referredByLines Knows) where
  decoder h := blameless_on_own (by decide) h
  strings offset :=
    knowing_on_other (by decide) (by decide) (Decode.lets_stringAt Decode.knowing_seeks offset)
  lineStrings offset :=
    knowing_on_other (by decide) (by decide) (Decode.lets_stringAt Decode.knowing_seeks offset)
  bytes count := blameless_on_own (by decide) (Decode.knowing_bytes count)

theorem blameless_lineHeader (offset : Nat) :
    (knowing source .lines referredByLines fun _ => True).Step (Consult.lineHeader offset) := by
  have look {Knows : Context → Prop} {α : Type} {f : View → Consult α} (_ : ∀ (seen : View)
      capacity context, f { seen with capacity, context } = f seen)
      (each : ∀ seen, (knowing source .lines referredByLines Knows).Step (f seen)) :
      (knowing source .lines referredByLines Knows).Step (Decode.view.on .lines >>= f) :=
    ((knowing_readsLines source Knows).step Decode.knowing_viewAlone.lift).bind each
  refine (teaches_on_own (by decide) (Decode.teaches_lineExtent offset)).stepBind fun extent => ?_
  -- A header of version five reads its address size; an older one never asks for any.
  by_cases late : 5 ≤ extent.version
  · have reads := knowing_readsLines source Context.HasSizes
    refine (teaches_on_own (by decide) (Decode.teaches_targetSizes late)).stepBind fun sizes => ?_
    exact forgotten (reads.contents Decode.obeys_sectionOffset look Decode.knowing_seeks extent
      sizes (reads.lineTables extent.version))
  · have reads := knowing_readsLines source Context.HasFormat
    rw [Decode.targetSizes, if_neg late]
    exact forgotten (reads.contents Decode.knowing_sectionOffset look Decode.knowing_seeks extent
      none (reads.lineLists late))

end Lines

/-- No file and no failing access makes a misuse: a walk on bound readers neither reports one nor is
ended by one, and no header of a line program fails by one, whatever was recorded and wherever the
readers were left. -/
theorem category_ne_misuse (reached : session.pool.Reachable source) :
    ((∀ table ≠ .lines, (session.readers.get table).view.isBound = true) →
        ∀ error, (session.run source Consult.walk).1.Blames error → error.category ≠ .misuse) ∧
      ((∀ table ∈ [.lines, .strings, .lineStrings],
          (session.readers.get table).view.isBound = true) →
        ∀ offset error, (session.run source (Consult.lineHeader offset).run).1 = .error error →
          error.category ≠ .misuse) := by
  have apt (table : Table) (bound : (session.readers.get table).view.isBound = true) :
      (session.readers.get table).Apt fun _ => True := ⟨reached.sound table, bound, trivial⟩
  constructor
  · intro bound
    have others (table : Table) (member : table ∈ referred) :
        (session.readers.get table).Apt fun _ => True :=
      apt table (bound table (ne_of_mem_of_not_mem member (by decide)))
    exact (blameless_walk session ⟨apt .info (bound .info (by decide)), others⟩).2.1
  · intro bound offset
    have others (table : Table) (member : table ∈ referredByLines) :
        (session.readers.get table).Apt fun _ => True :=
      apt table (bound table (List.mem_cons_of_mem _ member))
    have lines := apt .lines (bound .lines List.mem_cons_self)
    exact (blameless_lineHeader offset session ⟨lines, others⟩).2.1

/-- An interrupted access, an address size of three and a truncated unit are reported, none of them
as a misuse; and neither is the byte that a line program has for its address size. -/
theorem category_ne_misuse_interrupted :
    let image : Array UInt8 := #[8, 0, 0, 0, 4, 0, 0, 0, 0, 0, 4, 1, 7, 0, 0, 0, 5, 0, 1, 3, 0, 0,
      0, 0, 0, 0, 0]
    let source := Source.faulty image ⟨some 8, 0, [(.call 1, .interrupted)]⟩
    let session := start (.replicate ⟨some ⟨.zeroed 16, 0, 0, 0, 0, 27, 27, 27⟩, .unknown⟩)
    let walk := (session.run source Consult.walk).1
    let parsed := (session.run source (Consult.lineHeader 12).run).1
    walk.visits.map Visit.report = [.error (.access 6 6 .interrupted),
        .error (.addressSizeInvalid 3), .error (.tooFewBytes 27 2 0)] ∧
      parsed = .error (.addressSizeInvalid 1) ∧
        (∀ error, walk.Blames error → error.category ≠ .misuse) ∧
          ∀ error, parsed = .error error → error.category ≠ .misuse := by
  intro image source session walk parsed
  have binds : Reader.bound (.zeroed 16) ⟨0, 27⟩ 27 =
      .ok ⟨some ⟨.zeroed 16, 0, 0, 0, 0, 27, 27, 27⟩, .unknown⟩ := rfl
  have reached : session.pool.Reachable source := by
    intro table
    cases table <;> exact .bound binds
  have bound (table : Table) : (session.readers.get table).view.isBound = true := by
    cases table <;> rfl
  have reports : walk.visits.map Visit.report = [.error (.access 6 6 .interrupted),
      .error (.addressSizeInvalid 3), .error (.tooFewBytes 27 2 0)] := by
    simp only [walk, session, source, image]
    decide +kernel
  have fails : parsed = .error (.addressSizeInvalid 1) := by
    simp only [parsed, session, source, image]
    decide +kernel
  obtain ⟨walks, parses⟩ := category_ne_misuse reached
  exact ⟨reports, fails, walks fun table _ => bound table, parses (fun table _ => bound table) 12⟩

end Session

end Dwarf
