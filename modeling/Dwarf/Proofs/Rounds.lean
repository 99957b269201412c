import Dwarf.Proofs.LongReads
/-!
# Long reads in rounds

A buffered reader copies bytes and looks for a NUL in rounds: a round of copying takes as many bytes
as fit the buffer, and a round of looking takes whatever is loaded, after a load if nothing is.
Both loops end, whatever the source answers, and they come to what the long reads come to.

## Implementation notes

The loops have a bound on their rounds and give nothing when it is reached, so that a bound that
suffices is something to prove.  A round that does not end its loop takes a byte, since a load that
brings none is a failure.
-/

namespace Dwarf

namespace Buffer

theorem slice_cons (buffer : Buffer) {start stop : Nat} (h : start < stop) :
    buffer.slice start stop = buffer.byte start :: buffer.slice (start + 1) stop := by
  apply List.ext_getElem?
  rintro (_ | index)
  · rw [getElem?_slice, List.getElem?_cons_zero, Nat.add_zero, if_pos h]
  · rw [getElem?_slice, List.getElem?_cons_succ, getElem?_slice, Nat.add_right_comm, Nat.add_assoc]

end Buffer

/-- The first piece of a number of bytes is as large as it may be. -/
theorem Decode.pieces_eq (count : Nat) {size : Nat} (positive : 0 < size) :
    pieces count size =
      if count = 0 then [] else min count size :: pieces (count - min count size) size := by
  by_cases none : count = 0
  · simp [none, pieces]
  · rw [if_neg none]
    by_cases small : count < size
    · simp [pieces, Nat.min_eq_left (Nat.le_of_lt small), Nat.div_eq_of_lt small,
        Nat.mod_eq_of_lt small, none]
    · have large : size ≤ count := Nat.le_of_not_lt small
      have parts : count / size = (count - size) / size + 1 :=
        Nat.div_eq_sub_div positive large
      have rest : count % size = (count - size) % size := Nat.mod_eq_sub_mod large
      rw [Nat.min_eq_right large, pieces, pieces, parts, rest, List.replicate_succ,
        List.cons_append]

namespace Window

variable {w v : Window} {source : Source} {ahead : Ahead} {log log' : AccessLog} {count : Nat}

/-- Loads bytes for a string that began at a position, unless some are there. -/
def refill (source : Source) (ahead : Ahead) (start : Nat) (w : Window) (log : AccessLog) :
    Except Error Unit × Window × AccessLog :=
  if w.available = 0 then
    if w.remaining = 0 then (.error (.stringWithoutEnd start), w, log)
    else w.load source 1 ahead log
  else (.ok (), w, log)

/-- Looks for a NUL in some rounds, of which each takes what is loaded, onto the bytes already
taken. -/
def scanRounds (source : Source) (ahead : Ahead) (start : Nat) :
    Nat → List UInt8 → Window → AccessLog → Option (Transfer × Window × AccessLog)
  | 0, _, _, _ => none
  | rounds + 1, taken, w, log =>
    match w.refill source ahead start log with
    | (.error error, w, log) => some (⟨taken, some error⟩, w, log)
    | (.ok (), w, log) =>
      match w.loadedString? with
      | some text =>
        some (⟨taken ++ text, none⟩, { w with cursor := w.cursor + text.length + 1 }, log)
      | none =>
        scanRounds source ahead start rounds (taken ++ w.loaded w.available)
          { w with cursor := w.filled } log

/-- A refill that succeeds leaves something loaded, and as many bytes to the end of the window. -/
theorem Sound.refill (sound : w.Sound) {start : Nat}
    (h : w.refill source ahead start log = (.ok (), v, log')) :
    v.Sound ∧ v.remaining = w.remaining ∧ 1 ≤ v.available := by
  simp only [Window.refill] at h
  split at h
  · split at h
    · cases h
    · obtain ⟨v_sound, place, -, there⟩ := sound.load h
      exact ⟨v_sound, congrArg Place.remaining place, there rfl⟩
  · rename_i some_loaded
    cases h
    exact ⟨sound, rfl, Nat.one_le_iff_ne_zero.mpr some_loaded⟩

/-- What is loaded starts with the next byte, and goes on with what is loaded behind it. -/
theorem Sound.loaded_cons (sound : w.Sound) (there : 1 ≤ w.available) :
    w.loaded 1 = [w.buffer.byte w.cursor] ∧
      w.loaded w.available = w.buffer.byte w.cursor ::
        ({ w with cursor := w.cursor + 1 } : Window).loaded
          ({ w with cursor := w.cursor + 1 } : Window).available := by
  have filled := sound.cursor_le_filled
  simp only [available] at there
  have next : min w.filled (w.cursor + 1) = w.cursor + 1 := by omega
  have all : min w.filled (w.cursor + w.available) = w.filled := by
    simp only [available]
    omega
  have rest : min w.filled (w.cursor + 1 + (w.filled - (w.cursor + 1))) = w.filled := by omega
  constructor
  · rw [loaded, next, Buffer.slice_cons _ (Nat.lt_succ_self _)]
    exact congrArg _ (List.length_eq_zero_iff.mp (by rw [Buffer.length_slice, Nat.sub_self]))
  · rw [loaded, all, Buffer.slice_cons _ (by omega)]
    simp only [loaded, available, rest]

/-- A string lies in the buffer if its first byte is a NUL, or if what follows that byte does. -/
theorem Sound.loadedString?_cons (sound : w.Sound) (there : 1 ≤ w.available) :
    w.loadedString? =
      if w.buffer.byte w.cursor = 0 then some []
      else (({ w with cursor := w.cursor + 1 } : Window).loadedString?).map
        (w.buffer.byte w.cursor :: ·) := by
  have split := (sound.loaded_cons there).2
  simp only [loadedString?]
  rw [split]
  by_cases nul : w.buffer.byte w.cursor = 0
  · simp [nul]
  · simp only [ne_eq, List.takeWhile_cons, nul, not_false_eq_true, decide_true, if_true, if_false,
      List.length_cons, Nat.add_lt_add_iff_right]
    split <;> rfl

theorem take_of_load (few : w.available < count)
    (h : w.load source count ahead log = (.ok (), v, log')) (there : count ≤ v.available) :
    w.take source count ahead log = v.take source count ahead log' := by
  simp only [take, if_neg (Nat.not_le_of_lt few), h, if_pos there]

end Window

namespace Reader

variable {reader moved : Reader} {source : Source} {log log' : AccessLog}

theorem run_bytesFrom_cons (source : Source) (taken : List UInt8) (piece : Nat) (rest : List Nat)
    (reader : Reader) (log : AccessLog) :
    reader.run source (Decode.bytesFrom taken (piece :: rest)) log =
      match reader.take source piece .buffer log with
      | (.ok bytes, moved, log') =>
        moved.run source (Decode.bytesFrom (bytes.reverse ++ taken) rest) log'
      | (.error error, moved, log') => (⟨taken.reverse, some error⟩, moved, log') := by
  have step : (Decode.takeAhead .buffer piece).run.run (serve source) (reader, log) =
      reader.take source piece .buffer log := rfl
  simp only [Decode.bytesFrom, Decode.take, run, Dialogue.run_bind]
  rw [step]
  rcases reader.take source piece .buffer log with ⟨_ | bytes, moved, log'⟩ <;> rfl

/-- The bytes of a string are taken from a reader one after another. -/
theorem run_stringFrom_succ (source : Source) (start : Nat) (ahead : Ahead) (taken : List UInt8)
    (rest : Nat) (reader : Reader) (log : AccessLog) :
    reader.run source (Decode.stringFrom start ahead taken (rest + 1)) log =
      match reader.take source 1 ahead log with
      | (.ok bytes, moved, log') =>
        if bytes = [0] then (⟨taken.reverse, none⟩, moved, log')
        else moved.run source (Decode.stringFrom start ahead (bytes.reverse ++ taken) rest) log'
      | (.error error, moved, log') => (⟨taken.reverse, some error⟩, moved, log') := by
  have step : (Decode.takeAhead ahead 1).run.run (serve source) (reader, log) =
      reader.take source 1 ahead log := rfl
  simp only [Decode.stringFrom, run, Dialogue.run_bind]
  rw [step]
  rcases reader.take source 1 ahead log with ⟨_ | bytes, moved, log'⟩
  · rfl
  · dsimp only
    split <;> rfl

theorem run_stringAhead (source : Source) (ahead : Ahead) (w : Window) (context : Context)
    (log : AccessLog) :
    Reader.run source (Decode.stringAhead ahead) ⟨some w, context⟩ log =
      Reader.run source (Decode.stringFrom w.offset ahead [] w.remaining) ⟨some w, context⟩
        log := by
  have seen : Decode.view.run.run (serve source) ((⟨some w, context⟩ : Reader), log) =
      (.ok (view ⟨some w, context⟩), ⟨some w, context⟩, log) := rfl
  simp only [run, Decode.stringAhead, Decode.orFailed, Dialogue.run_bind]
  simp only [Decode.ensureBound, Dialogue.runStep_bind, Dialogue.runStep_lift, seen]
  rfl

/-- Copies so many bytes in some rounds, of which each takes as many as are missing and fit the
buffer, onto the bytes already copied. -/
def copyRounds (source : Source) (count : Nat) :
    Nat → List UInt8 → Reader → AccessLog → Option (Transfer × Reader × AccessLog)
  | 0, _, _, _ => none
  | rounds + 1, copied, reader, log =>
    if copied.length < count then
      let chunk := min (count - copied.length) (max reader.view.capacity 1)
      match reader.take source chunk .buffer log with
      | (.error error, reader, log) => some (⟨copied, some error⟩, reader, log)
      | (.ok bytes, reader, log) => copyRounds source count rounds (copied ++ bytes) reader log
    else some (⟨copied, none⟩, reader, log)

/-- Rounds that are more than the missing bytes copy what a read in pieces takes. -/
theorem Sound.copyRounds_onto (sound : reader.Sound) {count rounds : Nat} (copied : List UInt8)
    (within : copied.length ≤ count) (enough : count - copied.length < rounds) :
    copyRounds source count rounds copied reader log =
      some (reader.run source (Decode.bytesFrom copied.reverse
        (Decode.pieces (count - copied.length) (max reader.view.capacity 1))) log) := by
  induction rounds generalizing copied reader log with
  | zero => exact absurd enough (Nat.not_lt_zero _)
  | succ rounds ih =>
      have positive : 0 < max reader.view.capacity 1 :=
        Nat.lt_of_lt_of_le Nat.one_pos (Nat.le_max_right _ _)
      rw [copyRounds, Decode.pieces_eq _ positive]
      by_cases missing : copied.length < count
      · have some_missing : ¬ count - copied.length = 0 := Nat.sub_ne_zero_of_lt missing
        rw [if_pos missing, if_neg some_missing, run_bytesFrom_cons]
        dsimp only
        generalize chunk : min (count - copied.length) (max reader.view.capacity 1) = piece
        rcases taking : reader.take source piece .buffer log with ⟨error | bytes, moved, log'⟩
        · dsimp only
          rw [List.reverse_reverse]
        · obtain ⟨moved_sound, capacity, length, -⟩ := sound.take taking
          have fewer : count - (copied ++ bytes).length = count - copied.length - piece := by
            rw [List.length_append, length, Nat.sub_add_eq]
          dsimp only
          rw [ih moved_sound _ (by rw [List.length_append]; omega) (by omega), fewer, capacity,
            List.reverse_append]
      · have done : count - copied.length = 0 := by omega
        have ended : reader.run source (Decode.bytesFrom copied.reverse []) log =
            (⟨copied.reverse.reverse, none⟩, reader, log) := rfl
        rw [if_neg missing, if_pos done, ended, List.reverse_reverse]

/-- A string is looked for in what is loaded at once. -/
theorem run_stringFrom_loaded {w : Window} (sound : w.Sound) (context : Context) (start : Nat)
    (ahead : Ahead) (taken : List UInt8) {rest : Nat} (inside : w.available ≤ rest) :
    Reader.run source (Decode.stringFrom start ahead taken rest) ⟨some w, context⟩ log =
      match w.loadedString? with
      | some text =>
        (⟨taken.reverse ++ text, none⟩,
          ⟨some { w with cursor := w.cursor + text.length + 1 }, context⟩, log)
      | none =>
        Reader.run source
          (Decode.stringFrom start ahead ((w.loaded w.available).reverse ++ taken)
            (rest - w.available))
          ⟨some { w with cursor := w.filled }, context⟩ log := by
  induction there : w.available generalizing w taken rest with
  | zero =>
      have cursor : w.cursor = w.filled := by
        have := sound.cursor_le_filled
        simp only [Window.available] at there
        omega
      have nothing : w.loaded 0 = [] := by
        rw [← there]
        exact List.length_eq_zero_iff.mp
          ((Window.length_loaded sound (Nat.le_refl _)).trans there)
      have unended : w.loadedString? = none := by
        simp only [Window.loadedString?, there, nothing, List.takeWhile_nil, List.length_nil,
          Nat.lt_irrefl, if_false]
      have same : ({ w with cursor := w.filled } : Window) = w :=
        congrArg (fun cursor => { w with cursor := cursor }) cursor.symm
      rw [unended, nothing, same]
      rfl
  | succ more ih =>
      have one : 1 ≤ w.available := by omega
      obtain ⟨rest, rfl⟩ : ∃ fewer, rest = fewer + 1 := ⟨rest - 1, by omega⟩
      obtain ⟨first, whole⟩ := sound.loaded_cons one
      rw [there] at whole
      have taking : take source 1 ahead ⟨some w, context⟩ log =
          (.ok [w.buffer.byte w.cursor], ⟨some { w with cursor := w.cursor + 1 }, context⟩,
            log) := by
        simp only [take, Window.take, if_pos one, first]
      rw [run_stringFrom_succ, taking, sound.loadedString?_cons one, whole]
      dsimp only
      by_cases nul : w.buffer.byte w.cursor = 0
      · simp only [nul, if_true, List.append_nil, List.length_nil, Nat.add_zero]
      · have next : ({ w with cursor := w.cursor + 1 } : Window).available = more := by
          simp only [Window.available] at there ⊢
          omega
        have other : ¬ [w.buffer.byte w.cursor] = [0] := by simpa using nul
        rw [if_neg other, if_neg nul, ih (sound.advance one) _ (by omega) next]
        cases ({ w with cursor := w.cursor + 1 } : Window).loadedString? with
        | some text => simp [Nat.add_right_comm, Nat.add_assoc]
        | none => simp [next, Nat.add_sub_add_right]

/-- A string that began at a position is looked for from what is loaded then, or not at all. -/
theorem run_stringFrom_refill {w : Window} (sound : w.Sound) (context : Context) (start : Nat)
    (ahead : Ahead) (taken : List UInt8) :
    Reader.run source (Decode.stringFrom start ahead taken w.remaining) ⟨some w, context⟩ log =
      match w.refill source ahead start log with
      | (.error error, v, log') => (⟨taken.reverse, some error⟩, ⟨some v, context⟩, log')
      | (.ok (), v, log') =>
        Reader.run source (Decode.stringFrom start ahead taken v.remaining) ⟨some v, context⟩
          log' := by
  simp only [Window.refill]
  by_cases empty : w.available = 0
  · rw [if_pos empty]
    by_cases none_left : w.remaining = 0
    · rw [if_pos none_left, none_left]
      rfl
    · rw [if_neg none_left]
      obtain ⟨rest, some_left⟩ := Nat.exists_eq_succ_of_ne_zero none_left
      have few : w.available < 1 := Nat.lt_one_iff.mpr empty
      rcases loading : w.load source 1 ahead log with ⟨error | _, v, log'⟩
      · have failed : w.take source 1 ahead log = (.error error, v, log') := by
          simp only [Window.take, if_neg (Nat.not_le_of_lt few), loading]
        rw [some_left, run_stringFrom_succ]
        simp only [take, failed]
      · obtain ⟨v_sound, place, -, there⟩ := sound.load loading
        have remaining : v.remaining = w.remaining := congrArg Place.remaining place
        have taking := Window.take_of_load few loading (there rfl)
        dsimp only
        rw [remaining, some_left, run_stringFrom_succ, run_stringFrom_succ]
        simp only [take, taking]
  · rw [if_neg empty]

/-- Rounds that are more than the bytes of the window find the string that is taken from there. -/
theorem run_stringFrom_rounds {w : Window} (sound : w.Sound) (context : Context) (start : Nat)
    (ahead : Ahead) (taken : List UInt8) {rounds : Nat} (enough : w.remaining < rounds) :
    (w.scanRounds source ahead start rounds taken log).map
        (fun (transfer, v, log) => (transfer, (⟨some v, context⟩ : Reader), log)) =
      some (Reader.run source (Decode.stringFrom start ahead taken.reverse w.remaining)
        ⟨some w, context⟩ log) := by
  induction rounds generalizing w taken log with
  | zero => exact absurd enough (Nat.not_lt_zero _)
  | succ rounds ih =>
      rw [run_stringFrom_refill sound, Window.scanRounds]
      rcases loading : w.refill source ahead start log with ⟨error | _, v, log'⟩
      · rw [List.reverse_reverse]
        rfl
      · obtain ⟨v_sound, remaining, some_loaded⟩ := sound.refill loading
        have inside : v.available ≤ v.remaining := by
          have stop := v_sound.loaded_le_stop
          simp only [Window.available, Window.remaining, Window.offset]
          omega
        dsimp only
        rw [run_stringFrom_loaded v_sound context start ahead _ inside]
        cases v.loadedString? with
        | some text =>
            dsimp only
            rw [List.reverse_reverse]
            rfl
        | none =>
            have onward : ({ v with cursor := v.filled } : Window).Sound := by
              have advanced := v_sound.advance (Nat.le_refl v.available)
              rwa [Window.available, Nat.add_sub_cancel' v_sound.cursor_le_filled] at advanced
            have left : ({ v with cursor := v.filled } : Window).remaining =
                v.remaining - v.available := by
              have cursor := v_sound.cursor_le_filled
              simp only [Window.remaining, Window.offset, Window.available]
              omega
            dsimp only
            rw [ih onward _ (by omega), left, List.reverse_append]

/-- Looks for a NUL from the position of a reader on, in some rounds. -/
def scanRounds (source : Source) (ahead : Ahead) (rounds : Nat) (reader : Reader)
    (log : AccessLog) : Option (Transfer × Reader × AccessLog) :=
  match reader.window with
  | none => some (.failed .unbound, reader, log)
  | some w =>
    (w.scanRounds source ahead w.offset rounds [] log).map fun (transfer, v, log) =>
      (transfer, ⟨some v, reader.context⟩, log)

/-- Copying ends within one round more than there are bytes, with what a read of them gives. -/
theorem Sound.copyRounds_eq (sound : reader.Sound) {count rounds : Nat} (enough : count < rounds) :
    copyRounds source count rounds [] reader log =
      some (reader.run source (Decode.bytes count) log) :=
  sound.copyRounds_onto [] (Nat.zero_le _) enough

/-- Looking for a NUL ends within one round more than the window has bytes left, with what a string
that is taken from there gives. -/
theorem Sound.scanRounds_eq (sound : reader.Sound) (ahead : Ahead) {rounds : Nat}
    (enough : reader.view.remaining < rounds) :
    reader.scanRounds source ahead rounds log =
      some (reader.run source (Decode.stringAhead ahead) log) := by
  obtain ⟨_ | w, context⟩ := reader
  · rfl
  · rw [run_stringAhead]
    exact run_stringFrom_rounds (sound w rfl) context w.offset ahead [] enough

end Reader

end Dwarf
