import MlopsLite.HostAgent.Jobs.Kinds
import MlopsLite.Lib.Runs

/-!
# Jobs — the journal

`hostagent/journal.py`: the job table in memory and the rows behind it. A
write is committed before memory moves, or raises and leaves both as they
were. After every call memory is what a restart would read back from the
rows (`hydrate_eq_memory`).
-/

namespace MlopsLite.HostAgent.Jobs

open PlatformLib.Jobs

structure Journal where
  jobs : Dict String Record
  rows : Dict String JobRow

/-- What a state change carries; `None` is not carried. -/
structure Change where
  state : String
  reason : Option Value
  startedAt : Option Value
  endedAt : Option Value
  result : Option Value
  fields : Record

/-- The keys no caller's field may shadow. -/
def fixedKeys : List String :=
  ["job_id", "kind", "modality", "request", "submitted_at", "state"]

/-- `if v is not None: extra[k] = v`. -/
def insertSome (r : Record) (k : String) : Option Value → Record
  | none | some .null => r
  | some v => r.insert k v

namespace Change

def extra (c : Change) : Record :=
  insertSome (insertSome (insertSome (insertSome c.fields "reason" c.reason)
    "started_at" c.startedAt) "ended_at" c.endedAt) "result" c.result

/-- The record after the change. -/
def apply (c : Change) (r : Record) : Record :=
  (r.insert "state" (.str c.state)).update (c.extra.filterKeys fun k => k ∉ fixedKeys)

/-- A worker's first. -/
def running (now : ℚ) : Change := ⟨"running", none, some (.num now), none, none, .empty⟩

/-- A worker's last. -/
def ended (update : Finished) (now : ℚ) : Change :=
  ⟨update.status, none, none, some (.num now), update.result, update.fields⟩

end Change

namespace Journal

def init : Journal := ⟨.empty, .empty⟩

/-- `submit`: `none` where it raises. -/
def submit (j : Journal) (record : Record) : Option Journal := do
  let rows ← upsertJob j.rows record
  let id ← (record.get? "job_id").bind text
  return ⟨j.jobs.insert id record, rows⟩

/-- `transition`: `none` where it raises. -/
def transition (j : Journal) (id : String) (c : Change) : Option Journal := do
  let record := c.apply ((j.jobs.get? id).getD (Dict.empty.insert "job_id" (.str id)))
  let rows ← upsertJob j.rows record
  return ⟨j.jobs.insert id record, rows⟩

/-- The cached record of a flipped job. -/
def interrupted (r : Record) (reason : String) (now : ℚ) : Record :=
  ((r.insert "state" (.str "interrupted")).insert "reason" (.str reason)).insert
    "ended_at" (.num now)

def markInterrupted (j : Journal) (reason : String) (now : ℚ) : Journal :=
  let flipped := markJobsInterrupted j.rows reason now
  { jobs := j.jobs.map fun id r => if id ∈ flipped.2 then interrupted r reason now else r
    rows := flipped.1 }

/-- `_hydrate`, in a new agent. -/
def hydrate (j : Journal) : Journal := { j with jobs := listJobs j.rows }

end Journal

/-- The calls of the agent. `fails`: the store write raises, and is not
applied. -/
inductive Call
  | submit (kind : Kind) (request : Record) (fresh : String) (now : ℚ) (fails : Bool)
  | running (id : String) (now : ℚ) (fails : Bool)
  | ended (id : String) (update : Finished) (now : ℚ) (fails : Bool)
  | markInterrupted (reason : String) (now : ℚ) (fails : Bool)
  | restart

namespace Journal

/-- A call; one that raises leaves the journal as it was. -/
def next (j : Journal) : Call → Option Journal
  | .submit kind request fresh now fails =>
      match validate kind.spec request with
      | .error _ => some j
      | .ok (request, modality) =>
          if fails then some j
          else some ((j.submit (queuedRecord kind.spec (jobIdOf kind.spec request fresh) modality
            request now)).getD j)
  | .running id now fails =>
      if fails then some j else some ((j.transition id (.running now)).getD j)
  | .ended id update now fails =>
      if fails then some j else some ((j.transition id (.ended update now)).getD j)
  | .markInterrupted reason now fails =>
      if fails then some j else some (j.markInterrupted reason now)
  | .restart => some j.hydrate

/-- Memory and the rows: the same jobs, each record its row's, with times at
stored precision. -/
structure Agrees (j : Journal) : Prop where
  valid : ∀ id row, j.rows.get? id = some row → row.Valid id
  kept : ∀ id r, j.jobs.get? id = some r → WellFormed id r
  same : ∀ id, Option.Rel SameRecord ((j.jobs.get? id).map stored)
    ((j.rows.get? id).map jobRowToRecord)

end Journal

variable {j j' : Journal} {id : String} {r : Record} {c : Change}

/-! ## Records stay well formed -/

theorem get?_insertSome_eq_some {r : Record} {key k : String} {v : Option Value} {w : Value}
    (h : (insertSome r key v).get? k = some w) :
    k = key ∧ v = some w ∨ r.get? k = some w := by
  cases v with
  | none => exact .inr h
  | some x =>
    by_cases hk : k = key
    · subst hk
      cases x <;> simp_all [insertSome]
    · right
      cases x <;> simpa [insertSome, Dict.get?_insert, hk] using h

theorem get?_insertSome_of_ne {r : Record} {key k : String} (v : Option Value) (hk : k ≠ key) :
    (insertSome r key v).get? k = r.get? k := by
  cases v with
  | none => rfl
  | some x => cases x <;> simp [insertSome, Dict.get?_insert, hk]

namespace Change

/-- A change that keeps a record well formed: its times are numbers, and no
field is a time. -/
structure Proper (c : Change) : Prop where
  state : c.state ≠ ""
  startedAt : ∀ v, c.startedAt = some v → ∃ t, v = .num t
  endedAt : ∀ v, c.endedAt = some v → ∃ t, v = .num t
  fields : c.fields.get? "started_at" = none ∧ c.fields.get? "ended_at" = none

theorem proper_running (now : ℚ) : (running now).Proper := by
  constructor
  · simp [running]
  · intro v hv
    exact ⟨now, (Option.some.inj hv).symm⟩
  · intro v hv
    cases hv
  · exact ⟨rfl, rfl⟩

theorem proper_ended (update : Finished) (now : ℚ) : (ended update now).Proper := by
  constructor
  · cases update <;> simp [ended, Finished.status]
  · intro v hv
    cases hv
  · intro v hv
    exact ⟨now, (Option.some.inj hv).symm⟩
  · cases update <;> simp [ended, Finished.fields, Dict.get?_insert]

/-- The identity of a job, and its request, are not changed. -/
theorem get?_apply_fixed {k : String} (hk : k ∈ fixedKeys) (hstate : k ≠ "state") :
    (c.apply r).get? k = r.get? k := by
  simp [apply, Dict.get?_update, Dict.get?_filterKeys, hk, Dict.get?_insert, hstate]

theorem get?_apply_state : (c.apply r).get? "state" = some (.str c.state) := by
  simp [apply, Dict.get?_update, Dict.get?_filterKeys, fixedKeys]

/-- A time of the record after the change: the old one, or a number. -/
theorem Proper.time (hc : c.Proper) {k : String} (hk : k = "started_at" ∨ k = "ended_at") {v : Value}
    (hv : (c.apply r).get? k = some v) : r.get? k = some v ∨ ∃ t, v = .num t := by
  have hfixed : k ∉ fixedKeys := by rcases hk with rfl | rfl <;> decide
  have hstate : k ≠ "state" := by rcases hk with rfl | rfl <;> decide
  have hreason : k ≠ "reason" := by rcases hk with rfl | rfl <;> decide
  have hresult : k ≠ "result" := by rcases hk with rfl | rfl <;> decide
  simp only [apply, Dict.get?_update, Dict.get?_filterKeys, hfixed, not_false_eq_true,
    decide_true, if_true, Dict.get?_insert, hstate, if_false] at hv
  rcases Option.or_eq_some_iff.mp hv with hextra | ⟨-, hold⟩
  · right
    rw [extra, get?_insertSome_of_ne _ hresult] at hextra
    rcases get?_insertSome_eq_some hextra with ⟨-, hend⟩ | hextra
    · exact hc.endedAt v hend
    rcases get?_insertSome_eq_some hextra with ⟨-, hstart⟩ | hextra
    · exact hc.startedAt v hstart
    rw [get?_insertSome_of_ne _ hreason] at hextra
    rcases hk with rfl | rfl
    · cases hc.fields.1.symm.trans hextra
    · cases hc.fields.2.symm.trans hextra
  · exact .inl hold

theorem Proper.wellFormed (hc : c.Proper) (hr : WellFormed id r) : WellFormed id (c.apply r) := by
  constructor
  · rw [get?_apply_fixed (by decide) (by decide)]
    exact hr.jobId
  · rw [get?_apply_fixed (by decide) (by decide)]
    exact hr.kind
  · rw [get?_apply_fixed (by decide) (by decide)]
    exact hr.modality
  · rw [get?_apply_fixed (by decide) (by decide)]
    exact hr.request
  · exact ⟨c.state, hc.state, get?_apply_state⟩
  · rw [get?_apply_fixed (by decide) (by decide)]
    exact hr.submittedAt
  · intro v hv
    rcases hc.time (.inl rfl) hv with hold | hnum
    · exact hr.startedAt v hold
    · exact hnum
  · intro v hv
    rcases hc.time (.inr rfl) hv with hold | hnum
    · exact hr.endedAt v hold
    · exact hnum

end Change

theorem get?_setDefault_of_ne (r : Record) {f k : String} (hk : k ≠ f) :
    (setDefault r f).get? k = r.get? k := by
  unfold setDefault
  split
  · rfl
  · rw [Dict.get?_insert_ne _ _ hk]

/-- The defaults reach their own keys only. -/
theorem get?_foldl_setDefault (extra : List String) (r : Record) {k : String} (hk : k ∉ extra) :
    (extra.foldl setDefault r).get? k = r.get? k := by
  induction extra generalizing r with
  | nil => rfl
  | cons f extra ih =>
    obtain ⟨hf, hextra⟩ : k ≠ f ∧ k ∉ extra := by simpa using hk
    rw [List.foldl_cons, ih _ hextra, get?_setDefault_of_ne _ hf]

/-- No kind's own key is a column's. -/
theorem not_mem_kind_keys (kind : Kind) {k : String} (hk : reserved k = true) :
    k ≠ kind.spec.idKey ∧ k ∉ kind.spec.extra := by
  simp only [reserved, jobReserved, decide_eq_true_eq, List.mem_cons, List.not_mem_nil,
    or_false] at hk
  cases kind <;> rcases hk with rfl | rfl | rfl | rfl | rfl | rfl | rfl | rfl <;> decide

/-- A column's key of a new record. -/
theorem get?_queuedRecord {kind : Kind} {jobId modality : Value} {request : Record} {now : ℚ}
    {k : String} (hk : reserved k = true) :
    (queuedRecord kind.spec jobId modality request now).get? k =
      ((((((Dict.empty.insert "job_id" jobId).insert "kind" (.str kind.spec.name)).insert
        "state" (.str "queued")).insert "modality" modality).insert
        "request" (.obj request.items)).insert "submitted_at" (.num now)).get? k := by
  obtain ⟨hid, hextra⟩ := not_mem_kind_keys kind hk
  rw [queuedRecord, get?_foldl_setDefault _ _ hextra, Dict.get?_insert_ne _ _ hid]

/-- A modality that passed the checks is not empty. -/
theorem modality_of_validate {kind : Kind} {request request' : Record} {modality : Value}
    (h : validate kind.spec request = .ok (request', modality)) :
    modality.truthy = true ∨ ∃ s, modality = .str s := by
  unfold validate at h
  split at h
  · cases h
  · rename_i hgiven
    split at h
    · rename_i hset
      left
      have hkind : kind = .shadow := by
        cases kind with
        | shadow => rfl
        | _ => cases hset
      subst hkind
      obtain ⟨-, rfl⟩ := Prod.mk.inj (Except.ok.inj h)
      have hmod := List.find?_eq_none.mp hgiven "modality" (by decide)
      simp only [given, Bool.not_eq_true', Bool.not_eq_false] at hmod
      cases hm : request.get? "modality" with
      | none => simp [hm] at hmod
      | some v => simpa [hm] using hmod
    · split at h
      · split at h
        · obtain ⟨-, rfl⟩ := Prod.mk.inj (Except.ok.inj h)
          exact .inr ⟨_, rfl⟩
        · cases h
      · cases h

/-- A new record that can be written is well formed. -/
theorem wellFormed_queuedRecord {kind : Kind} {request request' : Record} {modality jobId : Value}
    {now : ℚ} {row : JobRow} (h : validate kind.spec request = .ok (request', modality))
    (hrow : jobSplit (queuedRecord kind.spec jobId modality request' now) = some row) :
    jobId = .str row.jobId ∧
      WellFormed row.jobId (queuedRecord kind.spec jobId modality request' now) := by
  have hs := splits_of_jobSplit hrow
  have hid : jobId = .str row.jobId := by
    have hjob := hs.jobId
    rw [get?_queuedRecord (by decide)] at hjob
    simp only [Dict.get?_insert, String.reduceEq, if_false, if_true, Option.bind_some] at hjob
    cases jobId <;> simp [text] at hjob
    rw [hjob]
  refine ⟨hid, ?_⟩
  constructor
  · rw [get?_queuedRecord (by decide)]
    simp [Dict.get?_insert, hid]
  · rw [get?_queuedRecord (by decide)]
    simp [Dict.get?_insert]
  · rw [get?_queuedRecord (by decide)]
    rcases modality_of_validate h with htrue | ⟨s, rfl⟩
    · have hmod := hs.modality
      rw [get?_queuedRecord (by decide)] at hmod
      simp only [Dict.get?_insert, String.reduceEq, if_false, if_true, Json.orElse, htrue] at hmod
      cases modality <;> simp [text] at hmod
      exact ⟨row.modality, by simp [Dict.get?_insert, hmod]⟩
    · exact ⟨s, by simp [Dict.get?_insert]⟩
  · rw [get?_queuedRecord (by decide)]
    refine ⟨.obj request'.items, by simp [Dict.get?_insert], ?_⟩
    cases hitems : request'.items with
    | nil => exact .inr rfl
    | cons kv items => exact .inl rfl
  · rw [get?_queuedRecord (by decide)]
    exact ⟨"queued", by decide, by simp [Dict.get?_insert]⟩
  · rw [get?_queuedRecord (by decide)]
    exact ⟨now, by simp⟩
  · intro v hv
    rw [get?_queuedRecord (by decide)] at hv
    simp [Dict.get?_insert] at hv
  · intro v hv
    rw [get?_queuedRecord (by decide)] at hv
    simp [Dict.get?_insert] at hv

/-! ## The calls keep them in step -/

namespace Journal

/-- A record that was written. -/
theorem Agrees.write (h : j.Agrees) (hr : WellFormed id r) {rows : Dict String JobRow}
    (hup : upsertJob j.rows r = some rows) : Agrees ⟨j.jobs.insert id r, rows⟩ := by
  obtain ⟨row, hrow, rfl⟩ := Option.map_eq_some_iff.mp hup
  have hvalid := valid_of_jobSplit hrow hr
  have hid := hvalid.jobId
  constructor
  · intro k row' hrow'
    rw [Dict.get?_insert, hid] at hrow'
    split at hrow'
    · rename_i hk
      obtain rfl := Option.some.inj hrow'
      rw [hk]
      exact hvalid
    · exact h.valid k row' hrow'
  · intro k r' hr'
    rw [Dict.get?_insert] at hr'
    split at hr'
    · rename_i hk
      obtain rfl := Option.some.inj hr'
      rw [hk]
      exact hr
    · exact h.kept k r' hr'
  · intro k
    rw [Dict.get?_insert, Dict.get?_insert, hid]
    split
    · exact .some (sameRecord_of_jobSplit hrow hr)
    · exact h.same k

theorem Agrees.submit (h : j.Agrees) {kind : Kind} {request request' : Record}
    {jobId modality : Value} {now : ℚ} (hv : validate kind.spec request = .ok (request', modality))
    (hs : j.submit (queuedRecord kind.spec jobId modality request' now) = some j') : j'.Agrees := by
  obtain ⟨rows, hup, hs⟩ := Option.bind_eq_some_iff.mp hs
  obtain ⟨id, hid, hs⟩ := Option.bind_eq_some_iff.mp hs
  obtain rfl := Option.some.inj hs
  obtain ⟨row, hrow, -⟩ := Option.map_eq_some_iff.mp hup
  obtain ⟨-, hr⟩ := wellFormed_queuedRecord hv hrow
  have hjob : row.jobId = id := by
    rw [hr.jobId] at hid
    exact Option.some.inj hid
  exact h.write (hjob ▸ hr) hup

theorem Agrees.transition (h : j.Agrees) (hc : c.Proper) (ht : j.transition id c = some j') :
    j'.Agrees := by
  obtain ⟨rows, hup, ht⟩ := Option.bind_eq_some_iff.mp ht
  obtain rfl := Option.some.inj ht
  cases hget : j.jobs.get? id with
  | some r =>
    rw [hget] at hup
    exact h.write (hc.wellFormed (h.kept id r hget)) hup
  | none =>
    -- the row of a job not in memory has no submission time
    rw [hget] at hup
    obtain ⟨row, hrow, -⟩ := Option.map_eq_some_iff.mp hup
    have hsub := (splits_of_jobSplit hrow).submittedAt
    rw [Change.get?_apply_fixed (by decide) (by decide)] at hsub
    cases hsub

theorem get?_interrupted (r : Record) (reason : String) (now : ℚ) (k : String) :
    (interrupted r reason now).get? k =
      if k = "state" then some (.str "interrupted")
      else if k = "ended_at" then some (.num now)
      else if k = "reason" then some (.str reason)
      else r.get? k := by
  simp only [interrupted, Dict.get?_insert]
  by_cases hstate : k = "state"
  · simp [hstate]
  · by_cases hend : k = "ended_at"
    · simp [hend]
    · simp [hstate, hend]

theorem wellFormed_interrupted (hr : WellFormed id r) (reason : String) (now : ℚ) :
    WellFormed id (interrupted r reason now) := by
  constructor <;> simp only [get?_interrupted, String.reduceEq, if_false, if_true]
  · exact hr.jobId
  · exact hr.kind
  · exact hr.modality
  · exact hr.request
  · exact ⟨"interrupted", by decide, rfl⟩
  · exact hr.submittedAt
  · exact hr.startedAt
  · intro v hv
    exact ⟨now, (Option.some.inj hv).symm⟩

/-- A flipped record and its row. -/
theorem sameRecord_interrupted {row : JobRow} (hrow : row.Valid id) (reason : String) (now : ℚ)
    (h : SameRecord (stored r) (jobRowToRecord row)) :
    SameRecord (stored (interrupted r reason now))
      (jobRowToRecord (row.interrupt reason (micros now))) := by
  intro k
  rw [get?_stored, get?_interrupted, get?_jobRowToRecord_interrupt hrow.tidy]
  by_cases hstate : k = "state"
  · simp [hstate, timeKeys]
  by_cases hend : k = "ended_at"
  · simp [hend, timeKeys, storedTime]
  by_cases hreason : k = "reason"
  · simp [hreason, timeKeys]
  · rw [if_neg hstate, if_neg hend, if_neg hreason, if_neg hstate, if_neg hend, if_neg hreason,
      ← get?_stored]
    exact h k

theorem Agrees.markInterrupted (h : j.Agrees) (reason : String) (now : ℚ) :
    (j.markInterrupted reason now).Agrees := by
  have hrows : ∀ k, (j.markInterrupted reason now).rows.get? k =
      (j.rows.get? k).map fun row =>
        if row.unfinished then row.interrupt reason (micros now) else row :=
    fun k => Dict.get?_map ..
  have hjobs : ∀ k, (j.markInterrupted reason now).jobs.get? k =
      (j.jobs.get? k).map fun r =>
        if k ∈ (markJobsInterrupted j.rows reason now).2 then interrupted r reason now else r :=
    fun k => Dict.get?_map ..
  constructor
  · intro k row' hrow'
    rw [hrows] at hrow'
    obtain ⟨row, hrow, rfl⟩ := Option.map_eq_some_iff.mp hrow'
    split
    · exact (h.valid k row hrow).interrupt reason _
    · exact h.valid k row hrow
  · intro k r' hr'
    rw [hjobs] at hr'
    obtain ⟨r, hr, rfl⟩ := Option.map_eq_some_iff.mp hr'
    split
    · exact wellFormed_interrupted (h.kept k r hr) reason now
    · exact h.kept k r hr
  · intro k
    have hsame := h.same k
    rw [hrows, hjobs]
    cases hrow : j.rows.get? k with
    | none =>
      rw [hrow] at hsame
      cases hjob : j.jobs.get? k with
      | none => exact .none
      | some r =>
        rw [hjob] at hsame
        cases hsame
    | some row =>
      rw [hrow] at hsame
      cases hjob : j.jobs.get? k with
      | none =>
        rw [hjob] at hsame
        cases hsame
      | some r =>
        rw [hjob] at hsame
        obtain ⟨hsame⟩ := hsame
        have hmem : k ∈ (markJobsInterrupted j.rows reason now).2 ↔ row.unfinished = true := by
          rw [mem_markJobsInterrupted, hrow]
          simp
        by_cases hun : row.unfinished = true
        · simp only [Option.map_some, hmem, hun, if_true]
          exact .some (sameRecord_interrupted (h.valid k row hrow) reason now hsame)
        · simp only [Option.map_some, hmem, hun, if_false, Bool.false_eq_true]
          exact .some hsame

/-- A new agent's memory is the rows' records. -/
theorem Agrees.hydrate (h : j.Agrees) : j.hydrate.Agrees := by
  have hjobs : ∀ k, j.hydrate.jobs.get? k = (j.rows.get? k).map jobRowToRecord :=
    fun k => Dict.get?_map ..
  constructor
  · exact h.valid
  · intro k r hr
    rw [hjobs] at hr
    obtain ⟨row, hrow, rfl⟩ := Option.map_eq_some_iff.mp hr
    exact (h.valid k row hrow).wellFormed
  · intro k
    rw [hjobs]
    show Option.Rel SameRecord _ ((j.rows.get? k).map jobRowToRecord)
    cases hrow : j.rows.get? k with
    | none => exact .none
    | some row => exact .some (sameRecord_stored_jobRowToRecord (h.valid k row hrow))

/-- One call. -/
theorem Agrees.next (h : j.Agrees) {call : Call} (hn : j.next call = some j') : j'.Agrees := by
  cases call with
  | submit kind request fresh now fails =>
    simp only [Journal.next] at hn
    split at hn
    · obtain rfl := Option.some.inj hn
      exact h
    · rename_i request' modality hv
      split at hn
      · obtain rfl := Option.some.inj hn
        exact h
      · obtain rfl := Option.some.inj hn
        cases hs : j.submit (queuedRecord kind.spec (jobIdOf kind.spec request' fresh) modality
          request' now) with
        | none => exact h
        | some j' => exact h.submit hv hs
  | running id now fails =>
    simp only [Journal.next] at hn
    split at hn
    · obtain rfl := Option.some.inj hn
      exact h
    · obtain rfl := Option.some.inj hn
      cases ht : j.transition id (.running now) with
      | none => exact h
      | some j' => exact h.transition (Change.proper_running now) ht
  | ended id update now fails =>
    simp only [Journal.next] at hn
    split at hn
    · obtain rfl := Option.some.inj hn
      exact h
    · obtain rfl := Option.some.inj hn
      cases ht : j.transition id (.ended update now) with
      | none => exact h
      | some j' => exact h.transition (Change.proper_ended update now) ht
  | markInterrupted reason now fails =>
    simp only [Journal.next] at hn
    split at hn
    · obtain rfl := Option.some.inj hn
      exact h
    · obtain rfl := Option.some.inj hn
      exact h.markInterrupted reason now
  | restart =>
    obtain rfl := Option.some.inj hn
    exact h.hydrate

theorem agrees_init : init.Agrees := by
  constructor
  · intro id row hrow
    cases hrow
  · intro id r hr
    cases hr
  · intro id
    exact .none

/-- The recorded state of a job. -/
def stateOf (j : Journal) (id : String) : Option String :=
  ((j.jobs.get? id).bind fun r => r.get? "state").bind text

def batchRequest : Record :=
  ((Dict.empty.insert "dataset_name" (.str "d")).insert "dataset_version" (.str "1")).insert
    "model" (.str "m")

/-- A job ends, and is read back; the next one's end is not written, and a
restart interrupts it. -/
def endNotWritten : List Call :=
  [.submit .batch batchRequest "a" (1/3) false, .running "a" (2/3) false,
    .ended "a" (.scored (.num 1)) 1 false, .restart, .submit .batch batchRequest "b" 2 false,
    .running "b" (7/3) false, .ended "b" (.scored .null) 3 true, .restart,
    .markInterrupted "agent restart" (10/3) false]

end Journal

end MlopsLite.HostAgent.Jobs
