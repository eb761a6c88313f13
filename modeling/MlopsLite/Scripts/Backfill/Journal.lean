import MlopsLite.Scripts.Backfill.Steps

/-!
# Journal — the records of the legacy jobs

`_fold_journal` (`scripts/backfill_store.py`) keeps a record for each job id and folds the
entries of the job into it. The record of a job is the left fold of that job's entries,
whatever stands between them.
-/

namespace MlopsLite.Scripts.Backfill

variable {ν τ : Type}

/-- A line, stripped: nothing, a text that `json.loads` refuses, bytes that are no UTF-8,
or a value. -/
inductive Line (ν : Type)
  | blank
  | torn
  | undecodable
  | json (value : Json ν)

abbrev Entry (ν : Type) := List (String × Json ν)

/-- A job id as a dict has it: `true` is 1. -/
inductive JobKey (ν : Type)
  | str (s : String)
  | num (x : ν)
  deriving DecidableEq

/-- `none` says that the value cannot be hashed (or is false). -/
def keyOf [One ν] : Json ν → Option (JobKey ν)
  | .str s => some (.str s)
  | .num x => some (.num x)
  | .bool true => some (.num 1)
  | _ => none

/-- The keys that never go into the record. -/
def control : List String := ["record", "from", "to", "ts", "job_id"]

section

variable [Zero ν] [One ν] [DecidableEq ν] (d : Driver ν τ)

def Entry.jobId (entry : Entry ν) : Json ν := (entry.lookup "job_id").getD .null

/-- `dict(entry.get("record") or {"job_id": job_id})`. -/
def start (entry : Entry ν) : Option (Record ν) :=
  match Json.orElse (entry.lookup "record") (.obj [("job_id", entry.jobId)]) with
  | .obj members => some (Dict.ofItems members)
  | .arr items => d.dict items
  | _ => none

/-- What an entry makes of its job's record. -/
def foldEntry (record : Record ν) (entry : Entry ν) : Record ν :=
  let to_ := (entry.lookup "to").getD .null
  let record := if to_.truthy then record.insert "state" to_ else record
  entry.foldl (fun record kv =>
    if kv.1 ∈ control ∨ notNull kv.2 = false then record else record.insert kv.1 kv.2) record

/-- A line; `none` raises. -/
def foldLine (jobs : Dict (JobKey ν) (Record ν)) : Line ν → Option (Dict (JobKey ν) (Record ν))
  | .blank => some jobs
  | .torn => some jobs
  | .undecodable => none
  | .json (.obj entry) =>
    if Entry.jobId entry |>.truthy then
      match keyOf (Entry.jobId entry) with
      | none => none
      | some key =>
        match jobs.get? key with
        | some record => some (jobs.insert key (foldEntry record entry))
        | none => (start d entry).map fun record => jobs.insert key (foldEntry record entry)
    else some jobs
  | .json _ => none

/-- `_fold_journal`, before `jobs.values()`. -/
def foldJournal (lines : List (Line ν)) : Option (Dict (JobKey ν) (Record ν)) :=
  lines.foldlM (foldLine d) Dict.empty

/-! ## The entries of one job -/

/-- The entry of a line, if it is one of the job's. -/
def entryOf (key : JobKey ν) : Line ν → Option (Entry ν)
  | .json (.obj entry) =>
    if (Entry.jobId entry).truthy ∧ keyOf (Entry.jobId entry) = some key then some entry else none
  | _ => none

/-- The left fold of a job's entries. -/
def recordOf (entries : List (Entry ν)) : Option (Record ν) :=
  match entries with
  | [] => none
  | entry :: _ => (start d entry).map fun record => entries.foldl foldEntry record

end

variable [Zero ν] [One ν] [DecidableEq ν] {d : Driver ν τ} {jobs jobs' : Dict (JobKey ν) (Record ν)}
  {key : JobKey ν} {line : Line ν} {lines : List (Line ν)} {entries : List (Entry ν)}
  {record : Record ν} {entry : Entry ν}

omit [One ν] in
theorem recordOf_concat (h : recordOf d entries = some record) (entry : Entry ν) :
    recordOf d (entries ++ [entry]) = some (foldEntry record entry) := by
  cases entries with
  | nil => cases h
  | cons first rest =>
    obtain ⟨r, hr, rfl⟩ := Option.map_eq_some_iff.mp h
    rw [List.cons_append, recordOf, hr, Option.map_some, ← List.cons_append, List.foldl_append]
    rfl

/-- What a line does to the record of a job. -/
theorem get?_foldLine (h : foldLine d jobs line = some jobs') (key : JobKey ν) :
    (entryOf key line = none ∧ jobs'.get? key = jobs.get? key) ∨
      ∃ entry, entryOf key line = some entry ∧ ∃ record,
        (jobs.get? key).or (start d entry) = some record ∧
          jobs'.get? key = some (foldEntry record entry) := by
  cases line with
  | blank | torn =>
    cases h
    exact .inl ⟨rfl, rfl⟩
  | undecodable => cases h
  | json value =>
    cases value with
    | obj entry =>
      rw [foldLine] at h
      split at h
      next htruthy =>
        cases hkey : keyOf (Entry.jobId entry) with
        | none => simp [hkey] at h
        | some k =>
          simp only [hkey] at h
          obtain ⟨record, hrecord, rfl⟩ : ∃ record,
              (jobs.get? k).or (start d entry) = some record ∧
                jobs' = jobs.insert k (foldEntry record entry) := by
            cases hk : jobs.get? k with
            | some record =>
              simp only [hk] at h
              cases h
              exact ⟨record, rfl, rfl⟩
            | none =>
              simp only [hk] at h
              obtain ⟨record, hstart, rfl⟩ := Option.map_eq_some_iff.mp h
              exact ⟨record, hstart, rfl⟩
          by_cases hne : k = key
          · subst hne
            exact .inr ⟨entry, by simp [entryOf, htruthy, hkey], record, hrecord,
              Dict.get?_insert_self _ _ _⟩
          · exact .inl ⟨by simp [entryOf, hkey, hne], Dict.get?_insert_ne _ _ (Ne.symm hne)⟩
      next hfalse =>
        cases h
        exact .inl ⟨by simp [entryOf, hfalse], rfl⟩
    | null | bool | num | str | arr => cases h

/-- A job that has an entry has a record, for a fold that does not raise. -/
theorem foldJournal_spec (h : foldJournal d lines = some jobs) (key : JobKey ν) :
    jobs.get? key = recordOf d (lines.filterMap (entryOf key)) ∧
      (jobs.get? key = none → lines.filterMap (entryOf key) = []) := by
  induction lines using List.reverseRecOn generalizing jobs with
  | nil =>
    cases h
    exact ⟨rfl, fun _ => rfl⟩
  | append_singleton lines line ih =>
    rw [foldJournal, List.foldlM_append] at h
    obtain ⟨before, hbefore, hline⟩ := Option.bind_eq_some_iff.mp h
    have hline : foldLine d before line = some jobs := by simpa using hline
    obtain ⟨hrecord, hentries⟩ := ih hbefore
    rw [List.filterMap_append]
    rcases get?_foldLine hline key with ⟨hnone, hsame⟩ | ⟨entry, hentry, record, hor, hnew⟩
    · have hnothing : List.filterMap (entryOf key) [line] = [] := by simp [hnone]
      rw [hsame, hnothing, List.append_nil]
      exact ⟨hrecord, hentries⟩
    · have hone : List.filterMap (entryOf key) [line] = [entry] := by simp [hentry]
      rw [hnew, hone]
      refine ⟨?_, fun hnone => by cases hnone⟩
      cases hk : before.get? key with
      | some old =>
        rw [hk] at hor hrecord
        cases hor
        exact (recordOf_concat hrecord.symm entry).symm
      | none =>
        rw [hk] at hor
        rw [hentries hk, List.nil_append, recordOf, show start d entry = some record from hor]
        rfl

/-- The record of a job is the left fold of the job's entries. -/
theorem get?_foldJournal (h : foldJournal d lines = some jobs) (key : JobKey ν) :
    jobs.get? key = recordOf d (lines.filterMap (entryOf key)) :=
  (foldJournal_spec h key).1

end MlopsLite.Scripts.Backfill
