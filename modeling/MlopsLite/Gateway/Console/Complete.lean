import MlopsLite.Gateway.Console.CatalogPages
import MlopsLite.Gateway.Console.Joins

/-!
# Console — what is found

The reads `jobs`, `broker_jobs` and `tracking_runs`
(`gateway/app/console/sources.py`) over stores of any size, and `console_job` and
the catalog's routes (`gateway/app/routers/console.py`) over what they return. All
reads succeed.
-/

namespace MlopsLite.Gateway.Console.Jobs

open CatalogPages (PageSizes Registry)

/-! ## The stores -/

/-- `JOB_LIMIT`. -/
def jobLimit : ℕ := 200

/-- The gateway's lane and the agent's table, newest first, and the runs of each
experiment as a search gives them. -/
structure Stores where
  gateway : List JobRecord
  agent : List JobRecord
  experiments : List (List TrackingRun)
  job_id : ∀ job ∈ gateway ++ agent, ∃ id, job.jobId = some id ∧ id ≠ ""
  run_id : ∀ runs ∈ experiments, ∀ run ∈ runs, ∃ id, run.runId = some id ∧ id ≠ ""

namespace Stores

variable (sizes : PageSizes) (s : Stores)

/-- `broker_jobs`. -/
def brokerJobs : List JobRecord := s.gateway.take jobLimit

/-- `jobs`. -/
def jobs : List JobRecord := s.agent.take jobLimit

/-- `tracking_runs`: a page of experiments, and of the runs of each. -/
def trackingRuns : List TrackingRun :=
  ((s.experiments.take sizes.experiments).flatMap (List.take jobLimit)).take jobLimit

/-- Every run there is. -/
def runs : List TrackingRun := s.experiments.flatten

/-- What a request reads; `stamp` is the clock of each answer. -/
def sources (stamp : String → String × ℚ) : Sources :=
  ⟨.answered s.brokerJobs, .answered s.jobs, .answered (s.trackingRuns sizes), stamp⟩

/-- A source has the job: a run has the one it is filed under. -/
def Has (id : String) : Prop :=
  (∃ job ∈ s.gateway ++ s.agent, job.jobId = some id) ∨ ∃ run ∈ s.runs, run.key = some id

/-- A record of the job was read from the lane or from the table. -/
def JobRead (id : String) : Prop := ∃ job ∈ s.brokerJobs ++ s.jobs, job.jobId = some id

/-- The run makes up a row of its own: it is the last that was read under its key, and no
job that was read is. -/
structure Alone (run : TrackingRun) : Prop where
  last : lastOf TrackingRun.key run.key (s.trackingRuns sizes) = some run
  key : ∀ id, run.key = some id → ¬ s.JobRead id

/-- The id is that of a row: of a job that was read, or of a run alone in its row. -/
def Row (id : String) : Prop :=
  s.JobRead id ∨ ∃ run, Alone sizes s run ∧ run.runId = some id

/-- No limit leaves out a job, or the job of a run. -/
structure Fits : Prop where
  jobs : ∀ job ∈ s.gateway ++ s.agent, ∀ id, job.jobId = some id → s.Row sizes id
  runs : ∀ run ∈ s.runs, ∀ id, run.key = some id → s.Row sizes id
  alone : ∀ run, Alone sizes s run → ∀ id, run.runId = some id → s.Has id

end Stores

/-! ## The rows of a join -/

theorem TrackingRun.key_ne_empty {run : TrackingRun} (h : ∃ id, run.runId = some id ∧ id ≠ "") :
    ∃ id, run.key = some id ∧ id ≠ "" := by
  rw [key, orText]
  split_ifs with htag
  · obtain ⟨id, hid, hne⟩ := (Option.any_eq_true _ _).mp htag
    exact ⟨id, hid, of_decide_eq_true hne⟩
  · exact h

/-- A key that is filed has a record. -/
theorem exists_record {r : Reads} {k : Option String} {p : Parts} (h : (byId r).get? k = some p) :
    (∃ job ∈ r.gateway.getD [] ++ r.agent.getD [], job.jobId = k) ∨
      ∃ run ∈ r.tracking.getD [], run.key = k := by
  have hstep : ∀ {α : Type} (key : α → Option String) (put : α → Parts → Parts) (records : List α)
      (filed : Filed), ((fileAll key put records filed).get? k).isSome = true →
      (∃ a ∈ records, key a = k) ∨ (filed.get? k).isSome = true := by
    intro α key put records
    induction records with
    | nil => exact fun filed hfiled => .inr hfiled
    | cons a rest ih =>
      intro filed hfiled
      rcases ih _ hfiled with ⟨b, hb, hkey⟩ | hinsert
      · exact .inl ⟨b, List.mem_cons_of_mem _ hb, hkey⟩
      · by_cases hk : k = key a
        · exact .inl ⟨a, List.mem_cons_self, hk.symm⟩
        · rw [Dict.get?_insert_ne _ _ hk] at hinsert
          exact .inr hinsert
  have hfiled : (byId r).get? k ≠ none := by
    rw [h]
    exact Option.some_ne_none p
  rcases hstep _ _ _ _ (Option.isSome_iff_ne_none.mpr hfiled) with hrun | hjobs
  · exact .inr hrun
  rcases hstep _ _ _ _ hjobs with ⟨job, hjob, hkey⟩ | hgateway
  · exact .inl ⟨job, List.mem_append_right _ hjob, hkey⟩
  rcases hstep _ _ _ _ hgateway with ⟨job, hjob, hkey⟩ | hempty
  · exact .inl ⟨job, List.mem_append_left _ hjob, hkey⟩
  · cases hempty

theorem identifier_of_job {p : Parts} {id : String} (hne : id ≠ "")
    (hgateway : ∀ job, p.gateway = some job → job.jobId = some id)
    (hagent : ∀ job, p.agent = some job → job.jobId = some id)
    (h : p.gateway.isSome = true ∨ p.agent.isSome = true) : p.identifier = id := by
  have htruthy : (some id).any (· ≠ "") = true := decide_eq_true hne
  rw [Parts.identifier]
  cases hg : p.gateway with
  | some job => rw [Option.bind_some, hgateway job hg, orText, if_pos htruthy, Option.getD_some]
  | none =>
    cases ha : p.agent with
    | none => simp [hg, ha] at h
    | some job =>
      rw [Option.bind_none, Option.bind_some, hagent job ha, orText, if_neg (by simp), orText,
        if_pos htruthy, Option.getD_some]

theorem identifier_of_run {p : Parts} {run : TrackingRun} {id : String} (hne : id ≠ "")
    (hgateway : p.gateway = none) (hagent : p.agent = none) (hrun : p.tracking = some run)
    (hid : run.runId = some id) : p.identifier = id := by
  have htruthy : (some id).any (· ≠ "") = true := decide_eq_true hne
  rw [Parts.identifier, hgateway, hagent, hrun, Option.bind_some, hid]
  simp [orText, hne]

/-! ## The detail route -/

variable {sizes : PageSizes} {s : Stores}

theorem mem_runs_of_trackingRuns {run : TrackingRun} (h : run ∈ s.trackingRuns sizes) :
    run ∈ s.runs := by
  obtain ⟨runs, hruns, hrun⟩ := List.mem_flatMap.mp (List.mem_of_mem_take h)
  exact List.mem_flatten.mpr ⟨runs, List.mem_of_mem_take hruns, List.mem_of_mem_take hrun⟩

theorem mem_jobs_of_read {job : JobRecord} (h : job ∈ s.brokerJobs ++ s.jobs) :
    job ∈ s.gateway ++ s.agent := by
  rcases List.mem_append.mp h with h | h
  · exact List.mem_append_left _ (List.mem_of_mem_take h)
  · exact List.mem_append_right _ (List.mem_of_mem_take h)

/-- The parts of a row, as they were read. -/
theorem parts_of_key {stamp : String → String × ℚ} {k : Option String} {p : Parts}
    (hp : (byId (s.sources sizes stamp).reads).get? k = some p) :
    p.gateway = lastOf JobRecord.jobId k s.brokerJobs ∧
      p.agent = lastOf JobRecord.jobId k s.jobs ∧
      p.tracking = lastOf TrackingRun.key k (s.trackingRuns sizes) := by
  have hgateway := gateway_byId (s.sources sizes stamp).reads k
  have hagent := agent_byId (s.sources sizes stamp).reads k
  have htracking := tracking_byId (s.sources sizes stamp).reads k
  rw [hp, Option.bind_some] at hgateway hagent htracking
  exact ⟨hgateway, hagent, htracking⟩

/-- A row has a job's record exactly if one was read under its key. -/
theorem isSome_job_iff {stamp : String → String × ℚ} {p : Parts} {id : String}
    (hp : (byId (s.sources sizes stamp).reads).get? (some id) = some p) :
    p.gateway.isSome = true ∨ p.agent.isSome = true ↔ s.JobRead id := by
  obtain ⟨hgateway, hagent, -⟩ := parts_of_key hp
  have hpart : ∀ records : List JobRecord,
      (lastOf JobRecord.jobId (some id) records).isSome = true ↔
        ∃ job ∈ records, job.jobId = some id := by
    intro records
    constructor
    · intro h
      obtain ⟨job, hjob⟩ := Option.isSome_iff_exists.mp h
      exact ⟨job, lastOf_some hjob⟩
    · rintro ⟨job, hmem, hid⟩
      obtain ⟨last, hlast⟩ := lastOf_key JobRecord.jobId hmem
      rw [← hid, hlast]
      rfl
  rw [hgateway, hagent, hpart, hpart, Stores.JobRead]
  simp only [List.mem_append, or_and_right, exists_or]

/-- What a row with a job's record is called. -/
theorem identifier_eq {stamp : String → String × ℚ} {p : Parts} {id : String} (hne : id ≠ "")
    (hp : (byId (s.sources sizes stamp).reads).get? (some id) = some p) (h : s.JobRead id) :
    p.identifier = id := by
  obtain ⟨hgateway, hagent, -⟩ := parts_of_key hp
  refine identifier_of_job hne (fun job hjob => ?_) (fun job hjob => ?_) ((isSome_job_iff hp).mpr h)
  · exact (lastOf_some (hgateway.symm.trans hjob)).2
  · exact (lastOf_some (hagent.symm.trans hjob)).2

/-- A row that has none is called after its run. -/
theorem identifier_eq_runId {stamp : String → String × ℚ} {p : Parts} {id rid : String}
    {run : TrackingRun} (hne : rid ≠ "") (hrun : run.runId = some rid)
    (hp : (byId (s.sources sizes stamp).reads).get? (some id) = some p) (h : ¬ s.JobRead id)
    (hlast : lastOf TrackingRun.key (some id) (s.trackingRuns sizes) = some run) :
    p.identifier = rid := by
  obtain ⟨-, -, htracking⟩ := parts_of_key hp
  have hnone := (not_congr (isSome_job_iff hp)).mpr h
  rw [not_or, Option.not_isSome_iff_eq_none, Option.not_isSome_iff_eq_none] at hnone
  exact identifier_of_run hne hnone.1 hnone.2 (htracking.trans hlast) hrun

theorem jobId_ne_empty {id : String} (h : s.JobRead id) : id ≠ "" := by
  obtain ⟨job, hmem, hid⟩ := h
  obtain ⟨id', hid', hne⟩ := s.job_id job (mem_jobs_of_read hmem)
  rw [hid] at hid'
  exact Option.some.inj hid' ▸ hne

theorem runId_ne_empty {run : TrackingRun} (h : run ∈ s.runs) : ∃ id, run.runId = some id ∧ id ≠ "" := by
  obtain ⟨runs, hruns, hrun⟩ := List.mem_flatten.mp h
  exact s.run_id runs hruns run hrun

/-- What a row is called is the id of a row. -/
theorem row_identifier {stamp : String → String × ℚ} {k : Option String} {p : Parts}
    (hp : (byId (s.sources sizes stamp).reads).get? k = some p) : s.Row sizes p.identifier := by
  have hkey : (∃ id, k = some id ∧ s.JobRead id) ∨
      ∃ run ∈ s.trackingRuns sizes, run.key = k := by
    rcases exists_record hp with ⟨job, hjob, hid⟩ | hrun
    · obtain ⟨id, hsome, -⟩ := s.job_id job (mem_jobs_of_read hjob)
      exact .inl ⟨id, hid.symm.trans hsome, job, hjob, hsome⟩
    · exact .inr hrun
  rcases hkey with ⟨id, rfl, hread⟩ | ⟨run, hmem, hkey⟩
  · left
    rw [identifier_eq (jobId_ne_empty hread) hp hread]
    exact hread
  · obtain ⟨id, hid, hne⟩ := TrackingRun.key_ne_empty (runId_ne_empty (mem_runs_of_trackingRuns hmem))
    obtain rfl : k = some id := hkey.symm.trans hid
    by_cases hread : s.JobRead id
    · left
      rw [identifier_eq hne hp hread]
      exact hread
    · obtain ⟨last, hlast⟩ := lastOf_key TrackingRun.key hmem
      rw [hkey] at hlast
      obtain ⟨hmem, hkey⟩ := lastOf_some hlast
      obtain ⟨rid, hrid, hrne⟩ := runId_ne_empty (mem_runs_of_trackingRuns hmem)
      right
      refine ⟨last, ⟨hkey ▸ hlast, fun id' hid' => ?_⟩, ?_⟩
      · rw [hkey] at hid'
        exact Option.some.inj hid' ▸ hread
      · rw [identifier_eq_runId hrne hrid hp hread hlast]
        exact hrid

/-- The id of a row is what it is called. -/
theorem exists_identifier (stamp : String → String × ℚ) {id : String} (h : s.Row sizes id) :
    ∃ k p, (byId (s.sources sizes stamp).reads).get? k = some p ∧ p.identifier = id := by
  rcases h with hread | ⟨run, halone, hrun⟩
  · have hne := jobId_ne_empty hread
    obtain ⟨job, hmem, hid⟩ := hread
    have hfiled : ∃ p, (byId (s.sources sizes stamp).reads).get? (some id) = some p := by
      rcases List.mem_append.mp hmem with hmem | hmem
      · obtain ⟨last, hlast⟩ := lastOf_key JobRecord.jobId hmem
        rw [hid] at hlast
        obtain ⟨p, hp, -⟩ := Option.bind_eq_some_iff.mp ((gateway_byId (s.sources sizes stamp).reads _).trans hlast)
        exact ⟨p, hp⟩
      · obtain ⟨last, hlast⟩ := lastOf_key JobRecord.jobId hmem
        rw [hid] at hlast
        obtain ⟨p, hp, -⟩ := Option.bind_eq_some_iff.mp ((agent_byId (s.sources sizes stamp).reads _).trans hlast)
        exact ⟨p, hp⟩
    obtain ⟨p, hp⟩ := hfiled
    exact ⟨some id, p, hp, identifier_eq hne hp ⟨job, hmem, hid⟩⟩
  · have hlast := halone.last
    obtain ⟨hmem, -⟩ := lastOf_some hlast
    have hne := runId_ne_empty (mem_runs_of_trackingRuns hmem)
    obtain ⟨key, hkey, -⟩ := TrackingRun.key_ne_empty hne
    obtain ⟨rid, hrid, hrne⟩ := hne
    obtain rfl : rid = id := Option.some.inj (hrid.symm.trans hrun)
    rw [hkey] at hlast
    obtain ⟨p, hp, -⟩ := Option.bind_eq_some_iff.mp ((tracking_byId (s.sources sizes stamp).reads _).trans hlast)
    exact ⟨some key, p, hp, identifier_eq_runId hrne hrun hp (halone.key key hkey) hlast⟩

/-- The route finds a job exactly if the id is that of a row. -/
theorem isSome_consoleJob (stamp : String → String × ℚ) (id : String) :
    (consoleJob (s.sources sizes stamp) id).isSome = true ↔ s.Row sizes id := by
  rw [consoleJob, Option.isSome_map, List.find?_isSome]
  simp only [mem_join, decide_eq_true_eq]
  constructor
  · rintro ⟨row, ⟨k, p, hp, rfl⟩, rfl⟩
    exact row_identifier hp
  · intro h
    obtain ⟨k, p, hp, hid⟩ := exists_identifier stamp h
    exact ⟨_, ⟨k, p, hp, rfl⟩, hid⟩

/-- The detail route finds a job exactly if a source has it. -/
def JobsComplete (sizes : PageSizes) (s : Stores) : Prop :=
  ∀ stamp id, (consoleJob (s.sources sizes stamp) id).isSome = true ↔ s.Has id

theorem jobsComplete_iff : JobsComplete sizes s ↔ s.Fits sizes := by
  simp only [JobsComplete, isSome_consoleJob]
  constructor
  · intro h
    have hrow : ∀ id, s.Row sizes id ↔ s.Has id := h fun _ => ("", 0)
    refine ⟨fun job hjob id hid => ?_, fun run hrun id hid => ?_, fun run halone id hid => ?_⟩
    · exact (hrow id).mpr (.inl ⟨job, hjob, hid⟩)
    · exact (hrow id).mpr (.inr ⟨run, hrun, hid⟩)
    · exact (hrow id).mp (.inr ⟨run, halone, hid⟩)
  · intro h _ id
    constructor
    · rintro (⟨job, hjob, hid⟩ | ⟨run, halone, hid⟩)
      · exact .inl ⟨job, mem_jobs_of_read hjob, hid⟩
      · exact h.alone run halone id hid
    · rintro (⟨job, hjob, hid⟩ | ⟨run, hrun, hid⟩)
      · exact h.jobs job hjob id hid
      · exact h.runs run hrun id hid

/-! ## All of it -/

/-- Lookups and pages are complete. -/
structure Complete (sizes : PageSizes) (registry : Registry) (s : Stores) : Prop where
  catalog : CatalogPages.CatalogComplete sizes registry
  jobs : JobsComplete sizes s

/-- They are exactly if what there is fits the pages and the limits. -/
theorem complete_iff_fits (sizes : PageSizes) (registry : Registry) (s : Stores) :
    Complete sizes registry s ↔ CatalogPages.Fits sizes registry ∧ s.Fits sizes := by
  rw [← CatalogPages.catalogComplete_iff, ← jobsComplete_iff]
  exact ⟨fun h => ⟨h.catalog, h.jobs⟩, fun h => ⟨h.1, h.2⟩⟩

/-- The pages of the registry's client. -/
def clientSizes : PageSizes := ⟨100, 10000, 1000⟩

/-- One version more than the console reads. -/
def manyVersions : Registry :=
  [⟨"m", none, (List.range 101).map fun n => ⟨n + 1, none, none, .empty, none⟩⟩]

def noJobs : Stores where
  gateway := []
  agent := []
  experiments := []
  job_id _ h := by cases h
  run_id _ h := by cases h

/-- The first version is not found. -/
theorem manyVersions_incomplete :
    (CatalogPages.consoleCatalogDetail clientSizes manyVersions (fun _ => none) "m" "1"
      false).isNone = true ∧ ¬ Complete clientSizes manyVersions noJobs := by
  refine ⟨by decide +kernel, fun h => ?_⟩
  have hfits := (CatalogPages.catalogComplete_iff.mp h.catalog).limit
  simp [CatalogPages.allVersions, manyVersions, Endpoints.modelLimit] at hfits

end MlopsLite.Gateway.Console.Jobs
