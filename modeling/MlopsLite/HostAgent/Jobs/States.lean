import MlopsLite.HostAgent.Jobs.Relaunch

/-!
# Jobs — the words for a state

Which states `JobManager` and the journal write, over the lives of an agent:
a run of the manager, and the restart that flips what it left unfinished.
Every record names one of six words, and one that is over says when it ended.
`_checksum_state` (`hostagent/journalread.py`) reads a record by its word and
its two times.
-/

namespace MlopsLite.HostAgent.Jobs

open PlatformLib.Jobs

/-- The words a record's state is one of. -/
inductive Word
  | queued
  | running
  | completed
  | succeeded
  | failed
  | interrupted
  deriving DecidableEq, Repr

namespace Word

def text : Word → String
  | .queued => "queued"
  | .running => "running"
  | .completed => "completed"
  | .succeeded => "succeeded"
  | .failed => "failed"
  | .interrupted => "interrupted"

/-- The job is not over: what `cancel` goes by. -/
def live : Word → Bool
  | .queued | .running => true
  | _ => false

/-- The runner returned a result. -/
def successful : Word → Bool
  | .completed | .succeeded => true
  | _ => false

end Word

/-- The word of what a runner returned. -/
def Finished.word : Finished → Word
  | .finetuned .. | .studied .. => .completed
  | .scored _ => .succeeded
  | .failed _ => .failed

inductive Checksum
  | ok
  | torn
  deriving DecidableEq, Repr

/-- The state of a record, as its readers get it. -/
def stateOf? (r : Record) : Option String := (r.get? "state").bind text

/-- `record.get(key)` is a time that counts as one: not absent and not 0. -/
def stamped (r : Record) (key : String) : Bool := (r.get? key).any Json.truthy

/-- `_checksum_state`. -/
def checksumState (r : Record) : Checksum :=
  if (stateOf? r).any (· ∈ ["running", "succeeded", "failed", "cancelled", "interrupted"]) &&
      !stamped r "started_at" then .torn
  else if (stateOf? r).any (· ∈ ["succeeded", "failed", "cancelled"]) &&
      !stamped r "ended_at" then .torn
  else .ok

/-! ## What a record tells -/

/-- A reading of a clock that is past its epoch. -/
def Clocked (v : Option Value) : Prop := ∃ t, 1 ≤ t ∧ v = some (.num t)

/-- A record names its state, and its end when it is over. -/
def Told (r : Record) : Prop :=
  ∃ w : Word, r.get? "state" = some (.str w.text) ∧
    (w.live = false → Clocked (r.get? "ended_at"))

/-- Every record does, in memory and as read back from its row. -/
structure Journal.Told (j : Journal) : Prop where
  jobs : ∀ id r, j.jobs.get? id = some r → Jobs.Told r
  rows : ∀ id row, j.rows.get? id = some row → row.Tidy ∧ Jobs.Told (jobRowToRecord row)

variable {j j' : Journal} {r : Record} {row : JobRow} {id : String} {now : ℚ}

/-- At stored precision the clock is past its epoch too. -/
theorem one_le_epoch_micros {t : ℚ} (h : 1 ≤ t) : 1 ≤ epoch (micros t) := by
  have hscaled : (1000000 : ℚ) ≤ t * 1000000 := by linarith
  have hfloor : (1000000 : ℤ) ≤ ⌊t * 1000000⌋ := Int.le_floor.mpr (by exact_mod_cast hscaled)
  have hmicros : (1000000 : ℤ) ≤ micros t :=
    hfloor.trans (Rounding.floor_le_roundHalfEven _)
  have hcast : (1000000 : ℚ) ≤ (micros t : ℚ) := by exact_mod_cast hmicros
  rw [epoch]
  linarith

theorem Clocked.num (h : 1 ≤ now) : Clocked (some (.num now)) := ⟨now, h, rfl⟩

theorem stamped_of_clocked {key : String} (h : Clocked (r.get? key)) : stamped r key = true := by
  obtain ⟨t, ht, hget⟩ := h
  have hne : t ≠ 0 := by
    rintro rfl
    exact absurd ht (by norm_num)
  simp [stamped, hget, Json.truthy, hne]

theorem text_ne_empty (w : Word) : w.text ≠ "" := by
  cases w <;> decide

/-! ### Through the table -/

theorem get?_state_jobRowToRecord (h : row.Tidy) :
    (jobRowToRecord row).get? "state" = some (.str row.state) := by
  rw [get?_jobRowToRecord_column h (by decide)]
  simp [get?_withTime, columns, Dict.get?_insert]

theorem get?_endedAt_jobRowToRecord (h : row.Tidy) {us : ℤ} (hus : row.endedAt = some us) :
    (jobRowToRecord row).get? "ended_at" = some (.num (epoch us)) := by
  rw [get?_jobRowToRecord_column h (by decide)]
  simp [get?_withTime, hus]

/-- A told record, written and read back, is told. -/
theorem Told.split (h : Told r) (hsplit : jobSplit r = some row) :
    row.Tidy ∧ Told (jobRowToRecord row) := by
  obtain ⟨w, hstate, hended⟩ := h
  have htidy := tidy_of_jobSplit hsplit
  have hs := splits_of_jobSplit hsplit
  refine ⟨htidy, w, ?_, ?_⟩
  · have hrow := hs.state
    rw [hstate, orElse_of_str fun h => absurd h (text_ne_empty w)] at hrow
    rw [get?_state_jobRowToRecord htidy, ← Option.some.inj hrow]
  · intro hover
    obtain ⟨t, ht, hget⟩ := hended hover
    have hrow := hs.endedAt
    rw [hget] at hrow
    rw [get?_endedAt_jobRowToRecord htidy (Option.some.inj hrow).symm]
    exact ⟨_, one_le_epoch_micros ht, rfl⟩

/-- A told record is written under its id, in memory and in the table. -/
theorem Journal.Told.write (h : j.Told) (hr : Jobs.Told r) {rows : Dict String JobRow}
    (hrows : upsertJob j.rows r = some rows) (id : String) :
    Journal.Told ⟨j.jobs.insert id r, rows⟩ := by
  constructor
  · intro id' r' hget
    by_cases hid : id' = id
    · subst hid
      rw [Dict.get?_insert_self] at hget
      exact Option.some.inj hget ▸ hr
    · rw [Dict.get?_insert_ne _ _ hid] at hget
      exact h.jobs id' r' hget
  · intro id' row' hget
    obtain ⟨row, hsplit, rfl⟩ := Option.map_eq_some_iff.mp hrows
    by_cases hid : id' = row.jobId
    · subst hid
      rw [Dict.get?_insert_self] at hget
      exact Option.some.inj hget ▸ hr.split hsplit
    · rw [Dict.get?_insert_ne _ _ hid] at hget
      exact h.rows id' row' hget

/-! ### The records that are written -/

theorem told_queuedRecord (kind : Kind) (jobId modality : Value) (request : Record) (now : ℚ) :
    Told (queuedRecord kind.spec jobId modality request now) := by
  refine ⟨.queued, ?_, fun h => by cases h⟩
  rw [get?_queuedRecord (by decide)]
  simp [Dict.get?_insert, Word.text]

theorem told_running (r : Record) (now : ℚ) : Told ((Change.running now).apply r) :=
  ⟨.running, Change.get?_apply_state, fun h => by cases h⟩

theorem told_ended (r : Record) (update : Finished) (h : 1 ≤ now) :
    Told ((Change.ended update now).apply r) := by
  refine ⟨update.word, ?_, ?_⟩
  · rw [Change.get?_apply_state]
    cases update <;> rfl
  · intro _
    have hget : ((Change.ended update now).apply r).get? "ended_at" = some (.num now) := by
      have hextra : (Change.ended update now).extra.get? "ended_at" = some (.num now) := by
        rw [Change.extra, get?_insertSome_of_ne _ (by decide)]
        simp [Change.ended, insertSome]
      simp [Change.apply, Dict.get?_update, Dict.get?_filterKeys, fixedKeys, hextra]
    rw [hget]
    exact .num h

theorem told_interrupted (r : Record) (reason : String) (h : 1 ≤ now) :
    Told (Journal.interrupted r reason now) := by
  refine ⟨.interrupted, ?_, ?_⟩
  · rw [Journal.get?_interrupted]
    rfl
  · intro _
    rw [Journal.get?_interrupted]
    exact .num h

theorem told_interrupt (hrow : row.Tidy) (reason : String) (h : 1 ≤ now) :
    Told (jobRowToRecord (row.interrupt reason (micros now))) := by
  refine ⟨.interrupted, ?_, ?_⟩
  · rw [get?_jobRowToRecord_interrupt hrow]
    rfl
  · intro _
    rw [get?_jobRowToRecord_interrupt hrow]
    exact .num (one_le_epoch_micros h)

/-! ## The lives of an agent -/

/-- What one section of the manager writes to the journal. -/
inductive Writes (now : ℚ) (j : Journal) : Journal → Prop
  | nothing : Writes now j j
  | submits (kind : Kind) (jobId modality : Value) (request : Record) {j' : Journal}
      (h : j.submit (queuedRecord kind.spec jobId modality request now) = some j') :
      Writes now j j'
  | runs (id : String) {j' : Journal} (h : j.transition id (.running now) = some j') :
      Writes now j j'
  | ends (id : String) (update : Finished) {j' : Journal}
      (h : j.transition id (.ended update now) = some j') : Writes now j j'

theorem Writes.of_eq (h : j' = j) : Writes now j j' := h ▸ .nothing

section

variable {cfg : JobConfig} {t : Lifecycle.ThreadId} {c : Choice} {x x' : Shared} {k k' : Pc}

/-- Three kinds of write, each at the clock's reading; the clock does not go back. -/
theorem writes_of_advance (h : advance cfg t c x k = some (x', k')) :
    Writes x.now x.journal x'.journal ∧ x.now ≤ x'.now := by
  have hrecords := records_of_advance h
  cases hrecords with
  | stays journal launched runKeys hnow owned slot past => exact ⟨.of_eq journal, hnow⟩
  | launches sub key took id hid hjournal => exact ⟨.submits _ _ _ _ hjournal, le_rfl⟩
  | runs run owned owned' runKeys hnow journal launched =>
    refine ⟨?_, hnow.ge⟩
    cases k <;> simp only [Pc.owned?, reduceCtorEq] at owned
    case began =>
      simp only [advance] at h
      split at h
      · rename_i x₁ hw
        cases h
        obtain ⟨j, hj, rfl⟩ := Option.map_eq_some_iff.mp (of_written hw)
        exact .runs _ hj
      · cases h
        exact .nothing
    case ending =>
      simp only [advance] at h
      split at h
      · rename_i x₁ hw
        cases h
        obtain ⟨j, hj, rfl⟩ := Option.map_eq_some_iff.mp (of_written hw)
        exact .ends _ _ hj
      · cases h
        exact .nothing
    case start => cases c <;> cases h <;> exact .nothing
    case working =>
      cases c <;> cases h
      exact .nothing
    case abandon =>
      simp only [advance] at h
      split at h
      · cases h
      · cases h
        exact .of_eq (giveBack_records x).1
    case free =>
      simp only [advance] at h
      split at h
      · cases h
      · cases h
        exact .of_eq (giveBack_records x).1

end

theorem Journal.Told.writes (h : j.Told) (hnow : 1 ≤ now) (hw : Writes now j j') : j'.Told := by
  cases hw with
  | nothing => exact h
  | submits kind jobId modality request hsubmit =>
    simp only [Journal.submit, Option.bind_eq_bind, Option.bind_eq_some_iff, Option.pure_def,
      Option.some.injEq] at hsubmit
    obtain ⟨rows, hrows, id, -, rfl⟩ := hsubmit
    exact h.write (told_queuedRecord ..) hrows id
  | runs id htransition =>
    simp only [Journal.transition, Option.bind_eq_bind, Option.bind_eq_some_iff, Option.pure_def,
      Option.some.injEq] at htransition
    obtain ⟨rows, hrows, rfl⟩ := htransition
    exact h.write (told_running _ now) hrows id
  | ends id update htransition =>
    simp only [Journal.transition, Option.bind_eq_bind, Option.bind_eq_some_iff, Option.pure_def,
      Option.some.injEq] at htransition
    obtain ⟨rows, hrows, rfl⟩ := htransition
    exact h.write (told_ended _ update hnow) hrows id

theorem Journal.Told.hydrate (h : j.Told) : j.hydrate.Told := by
  refine ⟨?_, h.rows⟩
  intro id r hget
  have hmap : (j.rows.get? id).map jobRowToRecord = some r :=
    (Dict.get?_map ..).symm.trans hget
  obtain ⟨row, hrow, rfl⟩ := Option.map_eq_some_iff.mp hmap
  exact (h.rows id row hrow).2

theorem Journal.Told.markInterrupted (h : j.Told) (reason : String) (hnow : 1 ≤ now) :
    (j.markInterrupted reason now).Told := by
  constructor
  · intro id r hget
    have hmap : (j.jobs.get? id).map _ = some r := (Dict.get?_map ..).symm.trans hget
    obtain ⟨r₀, hr₀, rfl⟩ := Option.map_eq_some_iff.mp hmap
    split
    · exact told_interrupted r₀ reason hnow
    · exact h.jobs id r₀ hr₀
  · intro id row hget
    have hmap : (j.rows.get? id).map _ = some row := (Dict.get?_map ..).symm.trans hget
    obtain ⟨row₀, hrow₀, rfl⟩ := Option.map_eq_some_iff.mp hmap
    obtain ⟨htidy, htold⟩ := h.rows id row₀ hrow₀
    split
    · exact ⟨htidy.interrupt reason _, told_interrupt htidy reason hnow⟩
    · exact ⟨htidy, htold⟩

/-- The journals an agent comes by: an empty one, those of the runs of its
manager, and after a restart, with the unfinished jobs flipped if that write
lands. The clock is past its epoch. -/
inductive Lives (cfg : JobConfig) : Journal → Prop
  | fresh : Lives cfg .init
  | runs {j : Journal} {now : ℚ} {s : Sys} : Lives cfg j → 1 ≤ now →
      Runs.Reachable (next cfg) Runs.anyStep (Sys.init j now) s → Lives cfg s.shared.journal
  | restarts {j : Journal} : Lives cfg j → Lives cfg j.hydrate
  | flips {j : Journal} (reason : String) {now : ℚ} : Lives cfg j → 1 ≤ now →
      Lives cfg (j.hydrate.markInterrupted reason now)

theorem told_of_reachable {cfg : JobConfig} {s : Sys} (h : j.Told) (hnow : 1 ≤ now)
    (hr : Runs.Reachable (next cfg) Runs.anyStep (Sys.init j now) s) :
    s.shared.journal.Told ∧ 1 ≤ s.shared.now := by
  refine hr.invariant (I := fun s => s.shared.journal.Told ∧ 1 ≤ s.shared.now) ⟨h, hnow⟩ ?_
  rintro s a s' - ⟨htold, hclock⟩ - hstep
  obtain ⟨hw, hle⟩ := writes_of_advance (Interleaving.of_next hstep).1
  exact ⟨htold.writes hclock hw, hclock.trans hle⟩

theorem told_of_lives {cfg : JobConfig} (h : Lives cfg j) : j.Told := by
  induction h with
  | fresh =>
    constructor
    · intro id r hr
      cases hr
    · intro id row hrow
      cases hrow
  | runs _ hnow hr ih => exact (told_of_reachable ih hnow hr).1
  | restarts _ ih => exact ih.hydrate
  | flips reason _ hnow ih => exact ih.hydrate.markInterrupted reason hnow

end MlopsLite.HostAgent.Jobs
