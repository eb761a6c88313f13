import MlopsLite.Lib.Dict
import MlopsLite.Lib.Json
import MlopsLite.Lib.Rounding

/-!
# Jobs — a record and its row

A job record is a flat dict; its row has a column for some of its keys and
one `result` column for all the others (`platformlib/storeimpl/jobs.py`).
Times are seconds in a record and microseconds in a row. Numbers are exact,
and a jsonb column gives back the value it was given.
-/

namespace MlopsLite.PlatformLib.Jobs

abbrev Value := Json ℚ

abbrev Record := Dict String Value

/-- A row of `jobs`. -/
structure JobRow where
  jobId : String
  kind : String
  modality : String
  request : Value
  state : String
  submittedAt : ℤ
  startedAt : Option ℤ
  endedAt : Option ℤ
  result : Option Record

/-- `_JOB_RESERVED`. -/
def jobReserved : List String :=
  ["job_id", "kind", "modality", "request", "state", "submitted_at", "started_at", "ended_at"]

def reserved (k : String) : Bool := k ∈ jobReserved

/-! ## The seam -/

/-- The timestamptz of a number of seconds. -/
def micros (t : ℚ) : ℤ := Rounding.roundHalfEven (t * 1000000)

/-- `_epoch`. -/
def epoch (us : ℤ) : ℚ := us / 1000000

/-- `_dt`: of a number or nothing; another value raises. -/
def dt : Option Value → Option (Option ℤ)
  | none | some .null => some none
  | some (.num t) => some (some (micros t))
  | some (.bool b) => some (some (micros (if b then 1 else 0)))
  | some _ => none

/-- What a `text NOT NULL` column takes. -/
def text : Value → Option String
  | .str s => some s
  | _ => none

/-! ## Both ways -/

/-- What the record has beside the columns. -/
def catchAll (r : Record) : Record := r.filterKeys fun k => !reserved k

/-- `_job_split` and the columns' types: `none` where the INSERT raises. -/
def jobSplit (r : Record) : Option JobRow := do
  let jobId ← (r.get? "job_id").bind text
  let kind ← text (Json.orElse (r.get? "kind") (.str ""))
  let modality ← text (Json.orElse (r.get? "modality") (.str ""))
  let state ← text (Json.orElse (r.get? "state") (.str "queued"))
  let submittedAt ← (dt (r.get? "submitted_at")).bind id
  let startedAt ← dt (r.get? "started_at")
  let endedAt ← dt (r.get? "ended_at")
  return {
    jobId, kind, modality, request := Json.orElse (r.get? "request") (.obj []), state,
    submittedAt, startedAt, endedAt
    result := if (catchAll r).isEmpty then none else some (catchAll r) }

/-- A time column, where it is set. -/
def withTime (r : Record) (key : String) : Option ℤ → Record
  | none => r
  | some us => r.insert key (.num (epoch us))

/-- The typed columns. -/
def columns (row : JobRow) : Record :=
  (((((Dict.empty.insert "job_id" (.str row.jobId)).insert "kind" (.str row.kind)).insert
    "modality" (.str row.modality)).insert "request" row.request).insert
    "state" (.str row.state)).insert "submitted_at" (.num (epoch row.submittedAt))

/-- `_job_row_to_record`. -/
def jobRowToRecord (row : JobRow) : Record :=
  (withTime (withTime (columns row) "started_at" row.startedAt) "ended_at" row.endedAt).update
    (row.result.getD .empty)

/-! ## The table -/

/-- `upsert_job`: `none` where it raises. -/
def upsertJob (rows : Dict String JobRow) (r : Record) : Option (Dict String JobRow) :=
  (jobSplit r).map fun row => rows.insert row.jobId row

/-- `state IN ('queued', 'running')`. -/
def JobRow.unfinished (row : JobRow) : Bool := row.state = "queued" || row.state = "running"

/-- What `mark_jobs_interrupted` sets. -/
def JobRow.interrupt (row : JobRow) (reason : String) (endedAt : ℤ) : JobRow :=
  { row with
    state := "interrupted"
    endedAt := some endedAt
    result := some ((row.result.getD .empty).insert "reason" (.str reason)) }

/-- `mark_jobs_interrupted`: the table, and the ids it flipped. -/
def markJobsInterrupted (rows : Dict String JobRow) (reason : String) (endedAt : ℚ) :
    Dict String JobRow × List String :=
  (rows.map fun _ row => if row.unfinished then row.interrupt reason (micros endedAt) else row,
    (rows.items.filter fun kv => kv.2.unfinished).map Prod.fst)

/-- `list_jobs`, each record under its id. -/
def listJobs (rows : Dict String JobRow) : Dict String Record :=
  rows.map fun _ row => jobRowToRecord row

/-! ## At stored precision -/

def timeKeys : List String := ["submitted_at", "started_at", "ended_at"]

/-- A time at the precision of its column. -/
def storedTime : Value → Value
  | .num t => .num (epoch (micros t))
  | v => v

/-- A record with its times at stored precision. -/
def stored (r : Record) : Record := r.map fun k v => if k ∈ timeKeys then storedTime v else v

/-- Equal as dicts. -/
def SameRecord (r r' : Record) : Prop := ∀ k, r.get? k = r'.get? k

/-- A record as the journal keeps it. -/
structure WellFormed (id : String) (r : Record) : Prop where
  jobId : r.get? "job_id" = some (.str id)
  kind : ∃ s, r.get? "kind" = some (.str s)
  modality : ∃ s, r.get? "modality" = some (.str s)
  request : ∃ v, r.get? "request" = some v ∧ (v.truthy = true ∨ v = .obj [])
  state : ∃ s, s ≠ "" ∧ r.get? "state" = some (.str s)
  submittedAt : ∃ t, r.get? "submitted_at" = some (.num t)
  startedAt : ∀ v, r.get? "started_at" = some v → ∃ t, v = .num t
  endedAt : ∀ v, r.get? "ended_at" = some v → ∃ t, v = .num t

/-- A row whose `result` holds no column's key. -/
def JobRow.Tidy (row : JobRow) : Prop :=
  ∀ d, row.result = some d → ∀ k, reserved k = true → d.get? k = none

variable {r r' : Record} {row : JobRow} {id k : String}

@[simp] theorem micros_epoch (us : ℤ) : micros (epoch us) = us := by
  have hmul : epoch us * 1000000 = us := by
    unfold epoch
    field_simp
  rw [micros, hmul, Rounding.roundHalfEven_intCast]

theorem get?_stored (r : Record) (k : String) : (stored r).get? k =
    (r.get? k).map fun v => if k ∈ timeKeys then storedTime v else v := by
  simp [stored]

theorem get?_catchAll (r : Record) (k : String) :
    (catchAll r).get? k = if reserved k then none else r.get? k := by
  rw [catchAll, Dict.get?_filterKeys]
  cases reserved k <;> simp

/-! ## The keys of a row's record -/

theorem get?_withTime (r : Record) (key : String) (t : Option ℤ) (k : String) :
    (withTime r key t).get? k =
      if k = key then (t.map fun us => Json.num (epoch us)).or (r.get? k) else r.get? k := by
  cases t with
  | none => simp [withTime]
  | some us => simp [withTime, Dict.get?_insert]

/-- A column's key is read from its column. -/
theorem get?_jobRowToRecord_column (hrow : row.Tidy) (hk : reserved k = true) :
    (jobRowToRecord row).get? k =
      (withTime (withTime (columns row) "started_at" row.startedAt) "ended_at"
        row.endedAt).get? k := by
  have hnone : (row.result.getD .empty).get? k = none := by
    cases hd : row.result with
    | none => rfl
    | some d => exact hrow d hd k hk
  rw [jobRowToRecord, Dict.get?_update, hnone, Option.none_or]

/-- Any other key is read from `result`. -/
theorem get?_jobRowToRecord_rest (hk : reserved k = false) :
    (jobRowToRecord row).get? k = row.result.bind fun d => d.get? k := by
  have hne : ∀ c ∈ jobReserved, k ≠ c := by
    rintro c hc rfl
    simp [reserved, hc] at hk
  have hcolumns : (withTime (withTime (columns row) "started_at" row.startedAt) "ended_at"
      row.endedAt).get? k = none := by
    simp only [jobReserved, List.forall_mem_cons] at hne
    obtain ⟨h₁, h₂, h₃, h₄, h₅, h₆, h₇, h₈, -⟩ := hne
    simp [get?_withTime, columns, Dict.get?_insert, h₁, h₂, h₃, h₄, h₅, h₆, h₇, h₈]
  rw [jobRowToRecord, Dict.get?_update, hcolumns, Option.or_none]
  cases row.result <;> simp

/-! ## Round trip -/

/-- What a row that was written says of the record. -/
structure Splits (r : Record) (row : JobRow) : Prop where
  jobId : (r.get? "job_id").bind text = some row.jobId
  kind : text (Json.orElse (r.get? "kind") (.str "")) = some row.kind
  modality : text (Json.orElse (r.get? "modality") (.str "")) = some row.modality
  request : row.request = Json.orElse (r.get? "request") (.obj [])
  state : text (Json.orElse (r.get? "state") (.str "queued")) = some row.state
  submittedAt : dt (r.get? "submitted_at") = some (some row.submittedAt)
  startedAt : dt (r.get? "started_at") = some row.startedAt
  endedAt : dt (r.get? "ended_at") = some row.endedAt
  result : row.result = if (catchAll r).isEmpty then none else some (catchAll r)

theorem splits_of_jobSplit (h : jobSplit r = some row) : Splits r row := by
  simp only [jobSplit, Option.bind_eq_bind, Option.bind_eq_some_iff, Option.pure_def,
    Option.some.injEq, id] at h
  obtain ⟨jobId, hjob, kind, hkind, modality, hmod, state, hstate, submitted, ⟨s, hs, rfl⟩, started,
    hstarted, ended, hended, rfl⟩ := h
  exact ⟨Option.bind_eq_some_iff.mpr hjob, hkind, hmod, rfl, hstate, hs, hstarted, hended, rfl⟩

theorem tidy_of_jobSplit (h : jobSplit r = some row) : row.Tidy := by
  intro d hd k hk
  rw [(splits_of_jobSplit h).result] at hd
  split at hd
  · cases hd
  · cases hd
    rw [get?_catchAll, if_pos hk]

theorem orElse_of_str {s : String} {d : Value} (h : s = "" → d = .str "") :
    Json.orElse (some (.str s)) d = .str s := by
  by_cases hs : s = ""
  · simp [Json.orElse, Json.truthy, hs, h hs]
  · simp [Json.orElse, Json.truthy, hs]

/-- A time that is a number or absent comes back at its precision. -/
theorem storedTime_of_dt {v : Option Value} {t : Option ℤ} (h : dt v = some t)
    (hv : ∀ x, v = some x → ∃ n, x = .num n) :
    v.map storedTime = t.map fun us => Json.num (epoch us) := by
  cases v with
  | none =>
    cases h
    rfl
  | some x =>
    obtain ⟨n, rfl⟩ := hv x rfl
    cases h
    rfl

/-- Reading back what was written: the record, its times at stored precision. -/
theorem sameRecord_of_jobSplit (h : jobSplit r = some row) (hr : WellFormed id r) :
    SameRecord (stored r) (jobRowToRecord row) := by
  have hs := splits_of_jobSplit h
  intro k
  rw [get?_stored]
  cases hk : reserved k with
  | false =>
    have htime : k ∉ timeKeys := by
      intro hmem
      simp only [timeKeys, List.mem_cons, List.not_mem_nil, or_false] at hmem
      rcases hmem with rfl | rfl | rfl <;> cases hk
    have hrest : (catchAll r).get? k = r.get? k := by simp [get?_catchAll, hk]
    rw [get?_jobRowToRecord_rest hk, hs.result]
    simp only [htime, if_false, Option.map_id']
    split
    · rename_i hempty
      rw [← hrest, Dict.isEmpty_iff.mp hempty k]
      rfl
    · exact hrest.symm
  | true =>
    rw [get?_jobRowToRecord_column (tidy_of_jobSplit h) hk]
    simp only [reserved, jobReserved, decide_eq_true_eq, List.mem_cons, List.not_mem_nil,
      or_false] at hk
    obtain ⟨kind, hkind⟩ := hr.kind
    obtain ⟨modality, hmod⟩ := hr.modality
    obtain ⟨request, hreq, htruthy⟩ := hr.request
    obtain ⟨state, hne, hstate⟩ := hr.state
    -- what each column holds
    have hjob' : row.jobId = id := by
      have := hs.jobId
      rw [hr.jobId] at this
      exact (Option.some.inj this).symm
    have hkind' : row.kind = kind := by
      have := hs.kind
      rw [hkind, orElse_of_str fun _ => rfl] at this
      exact (Option.some.inj this).symm
    have hmod' : row.modality = modality := by
      have := hs.modality
      rw [hmod, orElse_of_str fun _ => rfl] at this
      exact (Option.some.inj this).symm
    have hstate' : row.state = state := by
      have := hs.state
      rw [hstate, orElse_of_str fun h => absurd h hne] at this
      exact (Option.some.inj this).symm
    have hreq' : row.request = request := by
      rw [hs.request, hreq]
      rcases htruthy with h | rfl
      · simp [Json.orElse, h]
      · rfl
    have hsub := storedTime_of_dt hs.submittedAt fun x hx => by
      obtain ⟨t, ht⟩ := hr.submittedAt
      exact ⟨t, Option.some.inj (hx.symm.trans ht)⟩
    have hstarted := storedTime_of_dt hs.startedAt hr.startedAt
    have hended := storedTime_of_dt hs.endedAt hr.endedAt
    rcases hk with rfl | rfl | rfl | rfl | rfl | rfl | rfl | rfl
    · simp [get?_withTime, columns, Dict.get?_insert, timeKeys, hr.jobId, hjob']
    · simp [get?_withTime, columns, Dict.get?_insert, timeKeys, hkind, hkind']
    · simp [get?_withTime, columns, Dict.get?_insert, timeKeys, hmod, hmod']
    · simp [get?_withTime, columns, Dict.get?_insert, timeKeys, hreq, hreq']
    · simp [get?_withTime, columns, Dict.get?_insert, timeKeys, hstate, hstate']
    · simpa [get?_withTime, columns, Dict.get?_insert, timeKeys] using hsub
    · simpa [get?_withTime, columns, Dict.get?_insert, timeKeys] using hstarted
    · simpa [get?_withTime, columns, Dict.get?_insert, timeKeys] using hended

/-- A row as the table has them. -/
structure JobRow.Valid (row : JobRow) (id : String) : Prop where
  jobId : row.jobId = id
  request : row.request.truthy = true ∨ row.request = .obj []
  state : row.state ≠ ""
  tidy : row.Tidy

theorem valid_of_jobSplit (h : jobSplit r = some row) (hr : WellFormed id r) : row.Valid id := by
  have hs := splits_of_jobSplit h
  obtain ⟨request, hreq, htruthy⟩ := hr.request
  obtain ⟨state, hne, hstate⟩ := hr.state
  refine ⟨?_, ?_, ?_, tidy_of_jobSplit h⟩
  · have := hs.jobId
    rw [hr.jobId] at this
    exact (Option.some.inj this).symm
  · rw [hs.request, hreq]
    rcases htruthy with ht | rfl
    · exact .inl (by simp [Json.orElse, ht])
    · exact .inr rfl
  · have := hs.state
    rw [hstate, orElse_of_str fun h => absurd h hne] at this
    rw [← Option.some.inj this]
    exact hne

/-- The record of a row is one the journal keeps. -/
theorem JobRow.Valid.wellFormed (h : row.Valid id) : WellFormed id (jobRowToRecord row) := by
  have hcol : ∀ k, reserved k = true → (jobRowToRecord row).get? k = _ := fun k hk =>
    get?_jobRowToRecord_column h.tidy hk
  constructor
  · rw [hcol _ (by decide), ← h.jobId]
    simp [get?_withTime, columns, Dict.get?_insert]
  · refine ⟨row.kind, ?_⟩
    rw [hcol _ (by decide)]
    simp [get?_withTime, columns, Dict.get?_insert]
  · refine ⟨row.modality, ?_⟩
    rw [hcol _ (by decide)]
    simp [get?_withTime, columns, Dict.get?_insert]
  · refine ⟨row.request, ?_, h.request⟩
    rw [hcol _ (by decide)]
    simp [get?_withTime, columns, Dict.get?_insert]
  · refine ⟨row.state, h.state, ?_⟩
    rw [hcol _ (by decide)]
    simp [get?_withTime, columns, Dict.get?_insert]
  · refine ⟨epoch row.submittedAt, ?_⟩
    rw [hcol _ (by decide)]
    simp [get?_withTime, columns]
  · intro v hv
    rw [hcol _ (by decide)] at hv
    simp only [get?_withTime, columns, Dict.get?_insert] at hv
    cases hs : row.startedAt <;> simp [hs] at hv
    exact ⟨_, hv.symm⟩
  · intro v hv
    rw [hcol _ (by decide)] at hv
    simp only [get?_withTime, columns, Dict.get?_insert] at hv
    cases hs : row.endedAt <;> simp [hs] at hv
    exact ⟨_, hv.symm⟩

/-- A stored time is at stored precision. -/
theorem sameRecord_stored_jobRowToRecord (h : row.Valid id) :
    SameRecord (stored (jobRowToRecord row)) (jobRowToRecord row) := by
  intro k
  rw [get?_stored]
  by_cases htime : k ∈ timeKeys
  · have hk : reserved k = true := by
      simp only [timeKeys, List.mem_cons, List.not_mem_nil, or_false] at htime
      rcases htime with rfl | rfl | rfl <;> rfl
    have hnum : ∀ v, (jobRowToRecord row).get? k = some v → ∃ us, v = .num (epoch us) := by
      intro v hv
      rw [get?_jobRowToRecord_column h.tidy hk] at hv
      simp only [timeKeys, List.mem_cons, List.not_mem_nil, or_false] at htime
      simp only [get?_withTime, columns, Dict.get?_insert] at hv
      rcases htime with rfl | rfl | rfl
      · simp only [String.reduceEq, if_false, if_true, Option.some.injEq] at hv
        exact ⟨_, hv.symm⟩
      · cases hs : row.startedAt <;> simp [hs] at hv
        exact ⟨_, hv.symm⟩
      · cases hs : row.endedAt <;> simp [hs] at hv
        exact ⟨_, hv.symm⟩
    cases hv : (jobRowToRecord row).get? k with
    | none => rfl
    | some v =>
      obtain ⟨us, rfl⟩ := hnum v hv
      simp [htime, storedTime]
  · simp [htime]

/-! ## An interrupted row -/

theorem JobRow.Tidy.interrupt (h : row.Tidy) (reason : String) (us : ℤ) :
    (row.interrupt reason us).Tidy := by
  intro d hd k hk
  obtain rfl := Option.some.inj hd
  have hne : k ≠ "reason" := by
    rintro rfl
    cases hk
  rw [Dict.get?_insert_ne _ _ hne]
  cases hres : row.result with
  | none => rfl
  | some d => exact h d hres k hk

theorem JobRow.Valid.interrupt (h : row.Valid id) (reason : String) (us : ℤ) :
    (row.interrupt reason us).Valid id :=
  ⟨h.jobId, h.request, (by decide : "interrupted" ≠ ""), h.tidy.interrupt reason us⟩

/-- The record of an interrupted row: three keys differ. -/
theorem get?_jobRowToRecord_interrupt (h : row.Tidy) (reason : String) (us : ℤ) (k : String) :
    (jobRowToRecord (row.interrupt reason us)).get? k =
      if k = "state" then some (.str "interrupted")
      else if k = "ended_at" then some (.num (epoch us))
      else if k = "reason" then some (.str reason)
      else (jobRowToRecord row).get? k := by
  cases hk : reserved k with
  | true =>
    have hne : k ≠ "reason" := by
      rintro rfl
      cases hk
    rw [get?_jobRowToRecord_column (h.interrupt reason us) hk,
      get?_jobRowToRecord_column h hk, if_neg hne]
    by_cases hstate : k = "state"
    · subst hstate
      simp [get?_withTime, columns, Dict.get?_insert, JobRow.interrupt]
    · by_cases hend : k = "ended_at"
      · subst hend
        simp [get?_withTime, JobRow.interrupt]
      · simp [get?_withTime, columns, Dict.get?_insert, JobRow.interrupt, hstate, hend]
  | false =>
    have hstate : k ≠ "state" := by
      rintro rfl
      cases hk
    have hend : k ≠ "ended_at" := by
      rintro rfl
      cases hk
    rw [get?_jobRowToRecord_rest hk, get?_jobRowToRecord_rest hk, if_neg hstate, if_neg hend]
    cases hres : row.result <;> simp [JobRow.interrupt, hres, Dict.get?_insert]

theorem mem_markJobsInterrupted {rows : Dict String JobRow} {reason : String} {now : ℚ} :
    id ∈ (markJobsInterrupted rows reason now).2 ↔
      ∃ row, rows.get? id = some row ∧ row.unfinished = true := by
  simp [markJobsInterrupted, Dict.mem_items]

end MlopsLite.PlatformLib.Jobs
