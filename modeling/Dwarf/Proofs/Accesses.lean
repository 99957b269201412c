import Dwarf.Proofs.Task
/-!
# Accesses

Every query is noted, with what was seen of its reader before, the bytes it delivered and the
accesses it made.  A query makes one access at most, at the position and inside the window that are
in force, and delivers bytes inside that window only.

## Implementation notes

The notes are kept beside the readers and change nothing of what these do.  The accesses of a query
are what the log has gained behind it, so an access that stands in no note would stand in no log.
-/

namespace Dwarf

theorem Source.take_imageBytes (image : Array UInt8) (start : Nat) {part length : Nat}
    (h : part ≤ length) :
    (imageBytes image start length).toList.take part = (imageBytes image start part).toList := by
  apply List.ext_getElem?
  intro index
  rw [List.getElem?_take, Array.getElem?_toList, Array.getElem?_toList, getElem?_imageBytes,
    getElem?_imageBytes]
  by_cases small : index < part
  · rw [if_pos small, if_pos small, if_pos (Nat.lt_of_lt_of_le small h)]
  · rw [if_neg small, if_neg small]

/-- What one query came to. -/
structure Moment where
  /-- What was seen of the reader before. -/
  seen : View
  /-- The bytes that were delivered. -/
  delivered : List UInt8
  /-- The accesses that were made. -/
  accesses : List Access

/-- An access starts at the position that is seen, asks for a byte at least and for no more than the
buffer holds, and stays in the window, and so in the section. -/
structure Access.Within (seen : View) (access : Access) : Prop where
  offset_eq : access.offset = seen.offset
  one_le_length : 1 ≤ access.length
  length_le_capacity : access.length ≤ seen.capacity
  first_le_offset : seen.first ≤ access.offset
  stop_le : access.offset + access.length ≤ seen.stop
  limit_le : access.offset + access.length ≤ seen.limit

/-- A query makes one access at most, which is within the window that is seen, and delivers bytes
from the position on that are within it. -/
structure Moment.Confined (moment : Moment) : Prop where
  once : moment.accesses.length ≤ 1
  within : ∀ access ∈ moment.accesses, access.Within moment.seen
  delivered_le : moment.seen.offset + moment.delivered.length ≤ moment.seen.stop

/-- The bytes that a query delivers are those of an image from the position on. -/
def Moment.Shows (image : Array UInt8) (moment : Moment) : Prop :=
  moment.delivered =
    (Source.imageBytes image moment.seen.offset moment.delivered.length).toList

namespace Window

variable {source : Source} {w v : Window} {log log' : AccessLog} {context : Context}

/-- A load makes one access at most, within the window. -/
theorem Sound.load_log {needed : Nat} {ahead : Ahead} {result : Except Error Unit} (sound : w.Sound)
    (positive : 1 ≤ needed) (h : w.load source needed ahead log = (result, v, log')) :
    log' = log ∨
      ∃ access, log' = log.push access ∧ access.Within (Reader.view ⟨some w, context⟩) := by
  simp only [Window.load] at h
  split at h
  · cases h
    exact .inl rfl
  · split at h
    · cases h
      exact .inl rfl
    · rename_i enough large
      obtain ⟨needed_le, le_capacity⟩ := limit_ahead ahead (Nat.le_of_not_lt large)
      have inside := sound.toPlace.offset_le_stop
      have length : 1 ≤ min w.remaining (ahead.limit needed w.capacity) := by omega
      have upto : w.offset + min w.remaining (ahead.limit needed w.capacity) ≤ w.stop := by
        simp only [Window.place] at inside
        simp only [remaining]
        omega
      have within (outcome : Except AccessFailure Nat) :
          Access.Within (Reader.view ⟨some w, context⟩)
            ⟨w.offset, min w.remaining (ahead.limit needed w.capacity), outcome⟩ :=
        ⟨rfl, length, Nat.le_trans (Nat.min_le_right _ _) le_capacity,
          sound.toPlace.first_le_offset, upto, Nat.le_trans upto sound.stop_le_limit⟩
      split at h
      · cases h
        exact .inr ⟨_, rfl, within _⟩
      · cases h
        exact .inr ⟨_, rfl, within _⟩

/-- A take makes one access at most, within the window, and none for bytes that are loaded. -/
theorem Sound.take_log {count : Nat} {ahead : Ahead} {result : Except Error (List UInt8)}
    (sound : w.Sound) (h : w.take source count ahead log = (result, v, log')) :
    log' = log ∨ w.available < count ∧
      ∃ access, log' = log.push access ∧ access.Within (Reader.view ⟨some w, context⟩) := by
  simp only [Window.take] at h
  split at h
  · cases h
    exact .inl rfl
  · rename_i few
    have missing : w.available < count := Nat.lt_of_not_le few
    rcases loading : w.load source count ahead log with ⟨error | _, x, log₁⟩
    all_goals
      rw [loading] at h
      cases h
      exact (sound.load_log (Nat.one_le_of_lt missing) loading).imp_right fun made =>
        ⟨missing, made⟩

end Window

namespace Query

/-- The bytes that the reply to a query delivers. -/
def delivered : (query : Query) → query.Reply → List UInt8
  | .take _ _, .ok bytes => bytes
  | _, _ => []

end Query

/-- What came of a query to a reader that delivered bytes and left a log. -/
def Moment.of (reader : Reader) (delivered : List UInt8) (log log' : AccessLog) : Moment :=
  ⟨reader.view, delivered, log'.toList.drop log.size⟩

/-- A log has gained nothing, or one access within the window of a reader. -/
def Reader.Gains (reader : Reader) (log log' : AccessLog) : Prop :=
  log' = log ∨ ∃ access, log' = log.push access ∧ access.Within reader.view

namespace Reader

variable {source : Source} {image : Array UInt8} {reader : Reader} {log log' : AccessLog}
variable {delivered : List UInt8}

/-- What a log has gained is what a moment says, and one access at most. -/
theorem Gains.confined (gains : reader.Gains log log')
    (fits : reader.view.offset + delivered.length ≤ reader.view.stop) :
    (Moment.of reader delivered log log').Confined ∧
      log'.toList = log.toList ++ (Moment.of reader delivered log log').accesses := by
  rcases gains with rfl | ⟨access, rfl, within⟩
  · have none : (Moment.of reader delivered log' log').accesses = [] :=
      List.drop_eq_nil_of_le (Nat.le_of_eq Array.length_toList)
    refine ⟨⟨?_, ?_, fits⟩, ?_⟩
    · rw [none]
      exact Nat.zero_le 1
    · rw [none]
      exact fun access absent => nomatch absent
    · rw [none, List.append_nil]
  · have one : (Moment.of reader delivered log (log.push access)).accesses = [access] := by
      rw [Moment.of, Array.toList_push]
      exact List.drop_left' Array.length_toList
    refine ⟨⟨?_, ?_, fits⟩, ?_⟩
    · rw [one]
      exact Nat.le_refl 1
    · rw [one]
      intro made member
      rwa [List.mem_singleton.mp member]
    · rw [one, Array.toList_push]

/-- The number of loaded bytes that were not taken yet. -/
def available (reader : Reader) : Nat := (reader.window.map Window.available).getD 0

theorem Sound.take_log {count : Nat} {ahead : Ahead} {result : Except Error (List UInt8)}
    {moved : Reader} (sound : reader.Sound)
    (h : reader.take source count ahead log = (result, moved, log')) :
    log' = log ∨ reader.available < count ∧
      ∃ access, log' = log.push access ∧ access.Within reader.view := by
  obtain ⟨_ | w, context⟩ := reader
  · cases h
    exact .inl rfl
  · obtain ⟨v, taking, rfl⟩ := take_some h
    exact (sound w rfl).take_log taking

/-- Bytes that were taken lie between the position and the end of the window. -/
theorem Sound.taken_le {count : Nat} {ahead : Ahead} {bytes : List UInt8} {moved : Reader}
    (sound : reader.Sound) (h : reader.take source count ahead log = (.ok bytes, moved, log')) :
    reader.view.offset + bytes.length ≤ reader.view.stop := by
  obtain ⟨_ | w, context⟩ := reader
  · cases h
  · obtain ⟨v, taking, rfl⟩ := take_some h
    obtain ⟨v_sound, -, rfl, place⟩ := (sound w rfl).take taking
    have inside := v_sound.toPlace.offset_le_stop
    rw [place] at inside
    exact inside

/-- Bytes that were taken over a truthful source are those of its image from the position on. -/
theorem Shows.taken_eq {count : Nat} {ahead : Ahead} {bytes : List UInt8} {moved : Reader}
    (shows : reader.Shows image) (sound : reader.Sound) (truthful : source.Truthful image)
    (h : reader.take source count ahead log = (.ok bytes, moved, log')) :
    bytes = (Source.imageBytes image reader.view.offset bytes.length).toList := by
  obtain ⟨_ | w, context⟩ := reader
  · cases h
  · obtain ⟨v, taking, rfl⟩ := take_some h
    obtain ⟨-, -, rfl, -⟩ := (sound w rfl).take taking
    have direct := ((shows w rfl).take (sound w rfl) truthful taking).2 bytes rfl
    simp only [Place.take] at direct
    split at direct
    · cases direct
    · split at direct
      · cases direct
      · exact (Except.ok.inj (congrArg Prod.fst direct)).symm

/-- A query gains one access at most and delivers bytes of the window. -/
theorem Sound.serve_gains (sound : reader.Sound) (source : Source) (query : Query)
    (log : AccessLog) :
    reader.Gains log (Reader.serve source query (reader, log)).2.2 ∧
      reader.view.offset + (query.delivered (Reader.serve source query (reader, log)).1).length ≤
        reader.view.stop := by
  cases query with
  | take count ahead =>
      rcases taking : reader.take source count ahead log with ⟨result, moved, log'⟩
      simp only [Reader.serve, taking]
      refine ⟨(sound.take_log taking).imp_right And.right, ?_⟩
      cases result with
      | ok bytes => exact sound.taken_le taking
      | error error => exact sound.offset_in_window.2
  | view => exact ⟨.inl rfl, sound.offset_in_window.2⟩
  | seek target => exact ⟨.inl rfl, sound.offset_in_window.2⟩
  | narrow stop => exact ⟨.inl rfl, sound.offset_in_window.2⟩
  | record context => exact ⟨.inl rfl, sound.offset_in_window.2⟩

/-- What a query delivers over a truthful source are bytes of its image from the position on. -/
theorem Shows.serve_delivers (shows : reader.Shows image) (sound : reader.Sound)
    (truthful : source.Truthful image) (query : Query) (log : AccessLog) :
    query.delivered (Reader.serve source query (reader, log)).1 =
      (Source.imageBytes image reader.view.offset
        (query.delivered (Reader.serve source query (reader, log)).1).length).toList := by
  have nothing : ([] : List UInt8) = (Source.imageBytes image reader.view.offset 0).toList := by
    simp [Source.imageBytes]
  cases query with
  | take count ahead =>
      rcases taking : reader.take source count ahead log with ⟨result, moved, log'⟩
      simp only [Reader.serve, taking]
      cases result with
      | ok bytes => exact shows.taken_eq sound truthful taking
      | error error => exact nothing
  | view => exact nothing
  | seek target => exact nothing
  | narrow stop => exact nothing
  | record context => exact nothing

/-- Taking a string as it lies in the buffer gains one access at most, and the string lies in the
window. -/
theorem Sound.takeLoadedString_gains {result : Except Error (List UInt8)} {moved : Reader}
    (sound : reader.Sound) (h : reader.takeLoadedString source log = (result, moved, log')) :
    reader.Gains log log' ∧
      reader.view.offset + (result.toOption.getD []).length ≤ reader.view.stop := by
  obtain ⟨_ | w, context⟩ := reader
  · cases h
    exact ⟨.inl rfl, sound.offset_in_window.2⟩
  · obtain ⟨v, reached, outcome⟩ := takeLoadedString_cases h
    have gains : Gains ⟨some w, context⟩ log log' := by
      rcases reached with ⟨-, rfl⟩ | ⟨loading, loads⟩
      · exact .inl rfl
      · exact (sound w rfl).load_log (Nat.le_refl 1) loads
    have v_stands : v.Sound ∧ v.place = w.place := by
      rcases reached with ⟨rfl, -⟩ | ⟨loading, loads⟩
      · exact ⟨sound v rfl, rfl⟩
      · exact ⟨((sound w rfl).load loads).1, ((sound w rfl).load loads).2.1⟩
    obtain ⟨v_sound, v_place⟩ := v_stands
    refine ⟨gains, ?_⟩
    rcases outcome with ⟨text, loaded, rfl, -⟩ | ⟨⟨error, rfl⟩, -⟩
    · have inside := (v_sound.advance (v_sound.loadedString loaded)).toPlace.offset_le_stop
      have offset : v.offset = w.offset := congrArg Place.offset v_place
      have stop : v.stop = w.stop := congrArg Place.stop v_place
      simp only [Window.place, Window.offset] at inside offset
      simp only [Except.toOption, Option.getD_some, Reader.view, Window.offset]
      omega
    · exact sound.offset_in_window.2

/-- A string that was taken as it lies in the buffer, over a truthful source, is that of its image
from the position on. -/
theorem Shows.takeLoadedString_delivers {text : List UInt8} {moved : Reader}
    (shows : reader.Shows image) (sound : reader.Sound) (truthful : source.Truthful image)
    (h : reader.takeLoadedString source log = (.ok text, moved, log')) :
    text = (Source.imageBytes image reader.view.offset text.length).toList := by
  obtain ⟨_ | w, context⟩ := reader
  · cases h
  · obtain ⟨v, reached, outcome⟩ := takeLoadedString_cases h
    have v_stands : v.Sound ∧ v.Shows image ∧ v.offset = w.offset := by
      rcases reached with ⟨rfl, -⟩ | ⟨loading, loads⟩
      · exact ⟨sound v rfl, shows v rfl, rfl⟩
      · obtain ⟨v_sound, v_place, -⟩ := (sound w rfl).load loads
        exact ⟨v_sound, (shows w rfl).load truthful loads, congrArg Place.offset v_place⟩
    obtain ⟨v_sound, v_shows, v_offset⟩ := v_stands
    rcases outcome with ⟨found, loaded, taken, -⟩ | ⟨⟨error, failed⟩, -⟩
    · cases taken
      have ended := (v_shows.loadedString v_sound loaded).2
      rw [v_offset] at ended
      have start := congrArg (List.take text.length) ended
      rw [List.take_left' rfl, Source.take_imageBytes image w.offset (Nat.le_succ _)] at start
      exact start.symm
    · cases failed

end Reader

variable {ι : Type} {source : Source}

theorem Task.log_rebind [DecidableEq ι] (source : Source) (i : ι) (range : Section)
    (pool : Pool ι) :
    ((Task.rebind i range).perform source pool).log = pool.log := by
  simp only [Task.perform]
  split <;> rfl

/-- Readers, and the moments that were noted of them, oldest first. -/
structure Notebook (ι : Type) where
  /-- The readers. -/
  pool : Pool ι
  /-- The moments. -/
  moments : List Moment

namespace Notebook

/-- Unbound readers of which nothing was noted. -/
def unbound : Notebook ι := ⟨.unbound, []⟩

variable [DecidableEq ι]

/-- One reader has changed, delivered bytes and left a log. -/
def note (i : ι) (moved : Reader) (delivered : List UInt8) (log : AccessLog)
    (notebook : Notebook ι) : Notebook ι :=
  ⟨⟨Function.update notebook.pool.readers i moved, log⟩,
    notebook.moments ++
      [Moment.of (notebook.pool.readers i) delivered notebook.pool.log log]⟩

/-- Replies to one request, and notes it. -/
def serve (source : Source) (seat : Table → ι) (request : Request) (notebook : Notebook ι) :
    request.Reply × Notebook ι :=
  let i := seat request.table
  let (reply, reader, log) :=
    Reader.serve source request.query (notebook.pool.readers i, notebook.pool.log)
  (reply, notebook.note i reader (request.query.delivered reply) log)

/-- Performs a task, and notes every query. -/
def perform (source : Source) : Task ι → Notebook ι → Notebook ι
  | .loadedString i, notebook =>
    let (result, reader, log) :=
      (notebook.pool.readers i).takeLoadedString source notebook.pool.log
    notebook.note i reader (result.toOption.getD []) log
  | .inquire seat inquiry, notebook => (inquiry.run (serve source seat) notebook).2
  | task, notebook => { notebook with pool := task.perform source notebook.pool }

/-- Performs tasks in order, and notes every query. -/
def performAll (source : Source) (tasks : List (Task ι)) (notebook : Notebook ι) : Notebook ι :=
  tasks.foldl (fun notebook task => notebook.perform source task) notebook

/-- What is noted of a task does not change what it does. -/
theorem pool_perform (source : Source) (task : Task ι) (notebook : Notebook ι) :
    (notebook.perform source task).pool = task.perform source notebook.pool := by
  cases task with
  | inquire seat inquiry =>
      have runs : inquiry.run (Pool.serve source seat) notebook.pool =
          ((inquiry.run (serve source seat) notebook).1,
            (inquiry.run (serve source seat) notebook).2.pool) :=
        Dialogue.run_project pool (fun request notebook => rfl) inquiry notebook
      exact (congrArg Prod.snd runs).symm
  | bind i buffer range fileSize => rfl
  | rebind i range => rfl
  | disable i => rfl
  | loadedString i => rfl

theorem pool_performAll (source : Source) (tasks : List (Task ι)) (notebook : Notebook ι) :
    (notebook.performAll source tasks).pool = Task.performAll source tasks notebook.pool := by
  induction tasks generalizing notebook with
  | nil => rfl
  | cons task rest ih =>
      have rests := ih (notebook.perform source task)
      rw [pool_perform] at rests
      exact rests

/-- The moments account for all accesses, each of them is confined, and over a truthful source it
shows the image. -/
structure Accounts (source : Source) (notebook : Notebook ι) : Prop where
  reached : notebook.pool.Reachable source
  log_eq : notebook.pool.log.toList = notebook.moments.flatMap Moment.accesses
  confined : ∀ moment ∈ notebook.moments, moment.Confined
  shows : ∀ image, source.Truthful image → ∀ moment ∈ notebook.moments, moment.Shows image

variable {notebook : Notebook ι}

/-- Notes of a query that gains one access at most and delivers bytes of the window account for
it. -/
theorem Accounts.note (accounts : notebook.Accounts source) {i : ι} {moved : Reader}
    {delivered : List UInt8} {log : AccessLog} (reached : moved.Reachable source)
    (gains : (notebook.pool.readers i).Gains notebook.pool.log log)
    (fits : (notebook.pool.readers i).view.offset + delivered.length ≤
      (notebook.pool.readers i).view.stop)
    (shows : ∀ image, source.Truthful image →
      delivered = (Source.imageBytes image (notebook.pool.readers i).view.offset
        delivered.length).toList) :
    (notebook.note i moved delivered log).Accounts source := by
  obtain ⟨confined, gained⟩ := gains.confined fits
  constructor
  · exact accounts.reached.update i log reached
  · simp only [Notebook.note, List.flatMap_append, List.flatMap_singleton, gained, accounts.log_eq]
  · intro moment member
    rcases List.mem_append.mp member with earlier | last
    · exact accounts.confined moment earlier
    · rwa [List.mem_singleton.mp last]
  · intro image truthful moment member
    rcases List.mem_append.mp member with earlier | last
    · exact accounts.shows image truthful moment earlier
    · rw [List.mem_singleton.mp last]
      exact shows image truthful

theorem Accounts.serve (accounts : notebook.Accounts source) (seat : Table → ι)
    (request : Request) : (Notebook.serve source seat request notebook).2.Accounts source := by
  have reached := accounts.reached (seat request.table)
  obtain ⟨gains, fits⟩ := reached.sound.serve_gains source request.query notebook.pool.log
  exact accounts.note (reached.serve request.query _) gains fits fun image truthful =>
    (reached.shows truthful).serve_delivers reached.sound truthful request.query _

theorem Accounts.quiet (accounts : notebook.Accounts source) {task : Task ι}
    (h : (task.perform source notebook.pool).log = notebook.pool.log) :
    Accounts source ⟨task.perform source notebook.pool, notebook.moments⟩ where
  reached := Task.reachable_perform accounts.reached task
  log_eq := h ▸ accounts.log_eq
  confined := accounts.confined
  shows := accounts.shows

theorem Accounts.perform (accounts : notebook.Accounts source) (task : Task ι) :
    (notebook.perform source task).Accounts source := by
  cases task with
  | inquire seat inquiry =>
      exact inquiry.run_keeps (Accounts source)
        (fun request _ accounts => accounts.serve seat request) accounts
  | loadedString i =>
      rcases taking : (notebook.pool.readers i).takeLoadedString source notebook.pool.log with
        ⟨result, moved, log⟩
      have reached := accounts.reached i
      have reaches := reached.takeLoadedString notebook.pool.log
      obtain ⟨gains, fits⟩ := reached.sound.takeLoadedString_gains taking
      rw [taking] at reaches
      simp only [Notebook.perform, taking]
      refine accounts.note reaches gains fits fun image truthful => ?_
      cases result with
      | ok text =>
          exact (reached.shows truthful).takeLoadedString_delivers reached.sound truthful taking
      | error error => simp [Except.toOption, Source.imageBytes]
  | bind i buffer range fileSize => exact accounts.quiet rfl
  | rebind i range => exact accounts.quiet (Task.log_rebind source i range notebook.pool)
  | disable i => exact accounts.quiet rfl

theorem Accounts.performAll (accounts : notebook.Accounts source) (tasks : List (Task ι)) :
    (notebook.performAll source tasks).Accounts source := by
  induction tasks generalizing notebook with
  | nil => exact accounts
  | cons task rest ih => exact ih (accounts.perform task)

omit [DecidableEq ι] in
theorem accounts_unbound : Accounts source (unbound : Notebook ι) where
  reached := Pool.reachable_unbound
  log_eq := rfl
  confined _ absent := nomatch absent
  shows _ _ _ absent := nomatch absent

end Notebook

end Dwarf
