import MlopsLite.Lib.Dict

/-!
# Jobs — the three-way join

`normalize`, `detect_conflict`, `platform_job` and `join`
(`gateway/app/console/jobs.py`), and the two routes over them
(`console_jobs`, `console_job` in `gateway/app/routers/console.py`). A state is
the text its source gave; `none` where the source has no record of the job,
and also where the source was not read.
-/

namespace MlopsLite.Gateway.Console.Jobs

/-- `JobState`. -/
inductive JobState
  | draft
  | queued
  | admissionCheck
  | admitted
  | starting
  | running
  | completing
  | succeeded
  | failed
  | cancelled
  | rejected
  | orphaned
  | unknown
  deriving DecidableEq, Repr

/-- `TERMINAL`. -/
def JobState.terminal : JobState → Bool
  | .succeeded | .failed | .cancelled | .rejected => true
  | _ => false

/-- `SKEW_THRESHOLD_S`. -/
def skewThresholdS : ℚ := 30

abbrev Native := Option String

/-- The text is one of these words. -/
def oneOf (state : Native) (words : List String) : Bool := state.any (· ∈ words)

/-- The end of `normalize`, after the rules on a job out for execution. -/
def settled (gateway agent : Native) : JobState :=
  if oneOf gateway ["done", "succeeded"] &&
      (agent.isNone || oneOf agent ["done", "succeeded", "finished"]) then .succeeded
  else if gateway = some "failed" then .failed
  else if oneOf agent ["done", "succeeded", "finished"] then .succeeded
  else if agent = some "running" then .running
  else .unknown

/-- The rules on a job the gateway holds as dispatched or running. -/
def outForExecution (gateway agent tracking : Native) : JobState :=
  match agent with
  | none => if gateway = some "running" then .orphaned else .admissionCheck
  | some _ =>
      if oneOf agent ["admission", "pending"] then .admissionCheck
      else if agent = some "admitted" then .admitted
      else if oneOf agent ["starting", "queued"] then .starting
      else if agent = some "running" then
        if oneOf tracking ["FINISHED", "FAILED"] then .completing else .running
      else if oneOf agent ["done", "succeeded", "finished"] then
        if tracking = some "RUNNING" then .completing else .succeeded
      else settled gateway agent

/-- `gateway in ("dispatched", "running")`. -/
def out (gateway : Native) : Bool := oneOf gateway ["dispatched", "running"]

/-- `normalize`. -/
def normalize (gateway agent tracking : Native) : JobState :=
  if agent = some "unreachable" || gateway = some "unreachable" then .unknown
  else if oneOf agent ["failed", "error"] then .failed
  else if agent = some "cancelled" || gateway = some "cancelled" || tracking = some "KILLED" then
    .cancelled
  else if agent = some "refused" then .rejected
  else if agent = some "interrupted" then .failed
  else if (gateway.isNone || gateway = some "draft") && agent.isNone && tracking.isNone then
    if gateway = some "draft" then .draft else .unknown
  else if gateway = some "queued" || (gateway = some "accepted" && agent.isNone) then .queued
  else if out gateway then outForExecution gateway agent tracking
  else settled gateway agent

/-! ## Conflicts -/

/-- What one source said of a job, and when it was read. -/
structure Observation where
  source : String
  state : Native
  observedAt : Option String
  observedEpoch : Option ℚ
  deriving DecidableEq

inductive Action
  | refresh
  | inspectJournal
  deriving DecidableEq, Repr

structure StateConflict where
  entity : String
  entityId : String
  sources : List Observation
  skewExceeded : Bool
  suggestedAction : Action
  conflict : Bool
  deriving DecidableEq

/-- `_EQUIVALENT`. -/
def equivalent : List (String × String) :=
  [("done", "finished"), ("succeeded", "finished"), ("finished", "finished"), ("failed", "failed"),
    ("error", "failed"), ("killed", "cancelled"), ("cancelled", "cancelled"),
    ("running", "running"), ("queued", "queued"), ("pending", "queued")]

/-- `_comparable`; `lower` is `str.lower`. -/
def comparableBy (lower : String → String) (state : String) : String :=
  (equivalent.lookup (lower state)).getD (lower state)

/-- `_comparable` of the words that the sources use. -/
abbrev comparable : String → String := comparableBy String.toLower

/-- The sources that have a state to compare. -/
def known (sources : List Observation) : List Observation :=
  sources.filter fun s => s.state.any (· ≠ "unreachable")

/-- The spread of the times at which they were read. -/
def skewExceeded (sources : List Observation) : Bool :=
  let epochs := sources.filterMap Observation.observedEpoch
  match epochs.max?, epochs.min? with
  | some late, some early => decide (skewThresholdS < late - early)
  | _, _ => false

/-- `detect_conflict`. -/
def detectConflictBy (lower : String → String) (entity entityId : String)
    (sources : List Observation) : Option StateConflict :=
  let known := known sources
  let states := known.filterMap fun s => s.state.map (comparableBy lower)
  if known.length < 2 then none
  else if states.toFinset.card < 2 then none
  else if skewExceeded known then
    some ⟨entity, entityId, known, true, .refresh, false⟩
  else some ⟨entity, entityId, known, false, .inspectJournal, true⟩

abbrev detectConflict : String → String → List Observation → Option StateConflict :=
  detectConflictBy String.toLower

/-! ## Rows -/

/-- A job record of the gateway's lane or of the agent's table. -/
structure JobRecord where
  jobId : Option String
  state : Native
  kind : Option String := none
  runId : Option String := none
  studyId : Option String := none
  model : Option String := none
  host : Option String := none
  deviceIndex : Option ℤ := none
  vramGb : Option ℚ := none
  reason : Option String := none
  submittedAt : Option ℚ := none
  startedAt : Option ℚ := none
  endedAt : Option ℚ := none
  deriving DecidableEq

def JobRecord.empty : JobRecord := { jobId := none, state := none }

structure TrackingRun where
  jobId : Option String
  runId : Option String
  status : Native
  deriving DecidableEq

/-- The sources that answered, with the time of each. -/
abbrev Observed := List (String × String × ℚ)

/-- `a or b` on texts. -/
def orText (a b : Option String) : Option String := if a.any (· ≠ "") then a else b

/-- `_TYPES`. -/
def types : List (String × String) :=
  [("finetune", "training"), ("train", "training"), ("training", "training"), ("hpo", "hpo"),
    ("study", "hpo"), ("batch", "batch"), ("shadow", "shadow"), ("evaluate", "evaluation"),
    ("evaluation", "evaluation")]

/-- `_job_type`. -/
def jobType (kind : Option String) : String :=
  (types.lookup (kind.getD "").toLower).getD "inference"

structure PlatformJob where
  id : String
  type : String
  normalizedState : JobState
  gatewayState : Native
  agentState : Native
  trackingRunState : Native
  runId : Option String
  studyId : Option String
  modelId : Option String
  assignedHost : Option String
  assignedDevice : Option ℤ
  admissionReason : Option String
  createdAt : Option ℚ
  startedAt : Option ℚ
  completedAt : Option ℚ
  observed : List (String × String)
  conflict : Option StateConflict
  deriving DecidableEq

/-- The records filed under one key. -/
structure Parts where
  gateway : Option JobRecord := none
  agent : Option JobRecord := none
  tracking : Option TrackingRun := none

namespace Parts

def putGateway (job : JobRecord) (p : Parts) : Parts := { p with gateway := some job }

def putAgent (job : JobRecord) (p : Parts) : Parts := { p with agent := some job }

def putTracking (run : TrackingRun) (p : Parts) : Parts := { p with tracking := some run }

variable (p : Parts) (observed : Observed)

def gatewayState : Native := p.gateway.bind JobRecord.state

def agentState : Native := p.agent.bind JobRecord.state

def trackingState : Native := p.tracking.bind TrackingRun.status

def identifier : String :=
  (orText (p.gateway.bind JobRecord.jobId) (orText (p.agent.bind JobRecord.jobId)
    (orText (p.tracking.bind TrackingRun.runId) none))).getD "unknown"

def state : JobState := normalize p.gatewayState p.agentState p.trackingState

/-- A source, a state, and the time under the source's name. -/
def observation (source : String) (state : Native) : Observation :=
  ⟨source, state, (observed.lookup source).map Prod.fst, (observed.lookup source).map Prod.snd⟩

/-- The claim that goes with an orphan. -/
def orphanConflict : StateConflict :=
  { entity := "job", entityId := p.identifier, conflict := true, skewExceeded := false
    suggestedAction := .inspectJournal
    sources := [
      { observation observed "gateway" p.gatewayState with observedEpoch := none },
      { observation observed "agent" (some "no record") with observedEpoch := none }] }

def conflict : Option StateConflict :=
  if p.state = .orphaned then some (p.orphanConflict observed)
  else detectConflict "job" p.identifier [observation observed "gateway" p.gatewayState,
    observation observed "agent" p.agentState, observation observed "tracking" p.trackingState]

end Parts

/-- `platform_job`. -/
def platformJob (p : Parts) (observed : Observed) : PlatformJob :=
  let source := (p.agent.or p.gateway).getD .empty
  { id := p.identifier
    type := jobType source.kind
    normalizedState := p.state
    gatewayState := p.gatewayState
    agentState := p.agentState
    trackingRunState := p.trackingState
    runId := orText source.runId (p.tracking.bind TrackingRun.runId)
    studyId := source.studyId
    modelId := source.model
    assignedHost := orText source.host (if p.agent.isSome then some "local" else none)
    assignedDevice := source.deviceIndex
    admissionReason := if p.state = .rejected then source.reason else none
    createdAt := source.submittedAt
    startedAt := source.startedAt
    completedAt := source.endedAt
    observed := observed.map fun o => (o.1 ++ "At", o.2.1)
    conflict := p.conflict observed }

/-! ## The join -/

abbrev Filed := Dict (Option String) Parts

/-- `by_id.setdefault(key, {})[part] = record`, record by record. -/
def fileAll {α : Type} (key : α → Option String) (put : α → Parts → Parts) (records : List α)
    (filed : Filed) : Filed :=
  records.foldl (fun d a => d.insert (key a) (put a ((d.get? (key a)).getD {}))) filed

def fileGateway : List JobRecord → Filed → Filed :=
  fileAll JobRecord.jobId Parts.putGateway

def fileAgent : List JobRecord → Filed → Filed :=
  fileAll JobRecord.jobId Parts.putAgent

def fileTracking : List TrackingRun → Filed → Filed :=
  fileAll (fun run => orText run.jobId run.runId) Parts.putTracking

/-- What the three reads came to: `none` for a source that did not answer. -/
structure Reads where
  gateway : Option (List JobRecord)
  agent : Option (List JobRecord)
  tracking : Option (List TrackingRun)

def byId (r : Reads) : Filed :=
  fileTracking (r.tracking.getD [])
    (fileAgent (r.agent.getD []) (fileGateway (r.gateway.getD []) .empty))

/-- The order of the list: what is not over first, then the newest. -/
def before (a b : PlatformJob) : Bool :=
  if a.normalizedState.terminal = b.normalizedState.terminal then
    decide (b.createdAt.getD 0 ≤ a.createdAt.getD 0)
  else !a.normalizedState.terminal

/-- `join`. -/
def join (r : Reads) (observed : Observed) : List PlatformJob :=
  ((byId r).values.map fun p => platformJob p observed).mergeSort before

/-! ## The routes -/

/-- How the read of one source ends. -/
inductive Outcome (α : Type)
  | answered (value : α)
  | raised
  | timedOut

/-- `Projection.read`. -/
def Outcome.read {α : Type} : Outcome α → Option α
  | .answered value => some value
  | .raised | .timedOut => none

/-- The three sources of a request, and the clock readings of the answers. -/
structure Sources where
  gateway : Outcome (List JobRecord)
  store : Outcome (List JobRecord)
  tracking : Outcome (List TrackingRun)
  stamp : String → String × ℚ

namespace Sources

variable (s : Sources)

def reads : Reads := ⟨s.gateway.read, s.store.read, s.tracking.read⟩

/-- `projection.observed`, under the names the route reads the sources by. -/
def observed : Observed :=
  [("gateway", s.gateway.read.isSome), ("store", s.store.read.isSome),
    ("tracking", s.tracking.read.isSome)].filterMap fun o =>
      if o.2 then some (o.1, s.stamp o.1) else none

end Sources

/-- `console_jobs`. -/
def consoleJobs (s : Sources) (limit : ℕ) : Option (List PlatformJob) :=
  if s.observed = [] then none else some ((join s.reads s.observed).take limit)

structure JobDetail where
  row : PlatformJob
  timeline : List (ℚ × String)
  deviceIndex : Option ℤ
  vramGb : Option ℚ
  host : Option String

/-- `console_job`. -/
def consoleJob (s : Sources) (jobId : String) : Option JobDetail :=
  ((join s.reads s.observed).find? fun row => row.id = jobId).map fun row =>
    let record := ((s.reads.agent.getD []).find? fun j => j.jobId = some jobId).getD .empty
    { row
      timeline := [(record.submittedAt, "submitted"), (record.startedAt, "started"),
        (record.endedAt, "ended")].filterMap fun e => e.1.map fun t => (t, e.2)
      deviceIndex := record.deviceIndex
      vramGb := record.vramGb
      host := row.assignedHost }

/-! ## The records under a key -/

variable {α : Type}

/-- The record a key ends with: the last one of that key. -/
def lastOf (key : α → Option String) (k : Option String) (records : List α) : Option α :=
  records.foldl (fun found a => if key a = k then some a else found) none

theorem foldl_lastOf (key : α → Option String) (k : Option String) (records : List α)
    (found : Option α) :
    records.foldl (fun found a => if key a = k then some a else found) found =
      (lastOf key k records).or found := by
  induction records generalizing found with
  | nil => rfl
  | cons a rest ih =>
    simp only [lastOf, List.foldl_cons]
    rw [ih, ih (if key a = k then some a else none)]
    by_cases h : key a = k <;> cases lastOf key k rest <;> simp [h]

theorem lastOf_cons (key : α → Option String) (k : Option String) (a : α) (records : List α) :
    lastOf key k (a :: records) = (lastOf key k records).or (if key a = k then some a else none) :=
  foldl_lastOf key k records _

/-- Filing records that leave a part alone leaves it under every key. -/
theorem part_fileAll_same {β : Type} (key : α → Option String) (put : α → Parts → Parts)
    (part : Parts → Option β) (hput : ∀ a p, part (put a p) = part p) (hnew : part {} = none)
    (records : List α) (filed : Filed) (k : Option String) :
    ((fileAll key put records filed).get? k).bind part = (filed.get? k).bind part := by
  induction records generalizing filed with
  | nil => rfl
  | cons a rest ih =>
    rw [fileAll, List.foldl_cons]
    refine (ih _).trans ?_
    by_cases h : key a = k
    · subst h
      rw [Dict.get?_insert_self, Option.bind_some, hput]
      cases filed.get? (key a) <;> simp [hnew]
    · rw [Dict.get?_insert_ne _ _ fun hk => h hk.symm]

/-- Filing records of a part puts the last one of a key there. -/
theorem part_fileAll (key : α → Option String) (put : α → Parts → Parts)
    (part : Parts → Option α) (hput : ∀ a p, part (put a p) = some a)
    (records : List α) (filed : Filed) (k : Option String) :
    ((fileAll key put records filed).get? k).bind part =
      (lastOf key k records).or ((filed.get? k).bind part) := by
  induction records generalizing filed with
  | nil => rfl
  | cons a rest ih =>
    rw [fileAll, List.foldl_cons, lastOf_cons]
    refine (ih _).trans ?_
    by_cases h : key a = k
    · subst h
      rw [Dict.get?_insert_self, Option.bind_some, hput]
      cases lastOf key (key a) rest <;> simp
    · rw [Dict.get?_insert_ne _ _ fun hk => h hk.symm]
      simp [h]

theorem gateway_byId (r : Reads) (k : Option String) :
    ((byId r).get? k).bind Parts.gateway = lastOf JobRecord.jobId k (r.gateway.getD []) := by
  have htracking := part_fileAll_same (fun run => orText run.jobId run.runId) Parts.putTracking
    Parts.gateway (fun _ _ => rfl) rfl
  have hagent := part_fileAll_same JobRecord.jobId Parts.putAgent Parts.gateway
    (fun _ _ => rfl) rfl
  have hgateway := part_fileAll JobRecord.jobId Parts.putGateway Parts.gateway fun _ _ => rfl
  rw [byId, fileTracking, htracking, fileAgent, hagent, fileGateway, hgateway]
  simp

theorem agent_byId (r : Reads) (k : Option String) :
    ((byId r).get? k).bind Parts.agent = lastOf JobRecord.jobId k (r.agent.getD []) := by
  have htracking := part_fileAll_same (fun run => orText run.jobId run.runId) Parts.putTracking
    Parts.agent (fun _ _ => rfl) rfl
  have hagent := part_fileAll JobRecord.jobId Parts.putAgent Parts.agent fun _ _ => rfl
  have hgateway := part_fileAll_same JobRecord.jobId Parts.putGateway Parts.agent
    (fun _ _ => rfl) rfl
  rw [byId, fileTracking, htracking, fileAgent, hagent, fileGateway, hgateway]
  simp

theorem mem_join {r : Reads} {observed : Observed} {row : PlatformJob} :
    row ∈ join r observed ↔
      ∃ k p, (byId r).get? k = some p ∧ platformJob p observed = row := by
  simp only [join, List.mem_mergeSort, List.mem_map, Dict.mem_values]
  constructor
  · rintro ⟨p, ⟨k, hk⟩, rfl⟩
    exact ⟨k, p, hk, rfl⟩
  · rintro ⟨k, p, hk, rfl⟩
    exact ⟨p, ⟨k, hk⟩, rfl⟩

/-! ## When the agent did not answer -/

/-- What a row may say of a job when the agent was not read. -/
structure Fair (row : PlatformJob) : Prop where
  notOrphaned : row.normalizedState ≠ .orphaned
  claims : ∀ c, row.conflict = some c → ∀ o ∈ c.sources,
    ¬ (o.source = "agent" ∧ o.state = some "no record")
  unseen : out row.gatewayState = true → row.normalizedState = .unknown

/-- The list, every page of it and every detail are fair. -/
def AllFair (s : Sources) : Prop :=
  (∀ row ∈ join s.reads s.observed, Fair row) ∧
    (∀ limit rows, consoleJobs s limit = some rows → ∀ row ∈ rows, Fair row) ∧
    ∀ jobId detail, consoleJob s jobId = some detail → Fair detail.row

/-- The gateway holds some job as dispatched or running. -/
def HeldOut (s : Sources) : Prop :=
  ∃ k job, lastOf JobRecord.jobId k (s.reads.gateway.getD []) = some job ∧ out job.state = true

theorem mem_join_of_page {s : Sources} {limit : ℕ} {rows : List PlatformJob} {row : PlatformJob}
    (h : consoleJobs s limit = some rows) (hrow : row ∈ rows) :
    row ∈ join s.reads s.observed := by
  rw [consoleJobs] at h
  split_ifs at h
  cases h
  exact List.mem_of_mem_take hrow

theorem mem_join_of_detail {s : Sources} {jobId : String} {detail : JobDetail}
    (h : consoleJob s jobId = some detail) : detail.row ∈ join s.reads s.observed := by
  obtain ⟨row, hfound, rfl⟩ := Option.map_eq_some_iff.mp h
  exact List.mem_of_find?_eq_some hfound

/-- A job out for execution whose agent record is missing is never unknown. -/
theorem normalize_out {gateway : Native} (h : out gateway = true) (tracking : Native) :
    normalize gateway none tracking ≠ .unknown := by
  cases gateway with
  | none => cases h
  | some g =>
    have hg : g = "dispatched" ∨ g = "running" := by simpa [out, oneOf] using h
    rcases hg with rfl | rfl <;> by_cases hk : tracking = some "KILLED" <;>
      simp [normalize, outForExecution, out, oneOf, hk]

theorem settled_ne_orphaned (gateway agent : Native) : settled gateway agent ≠ .orphaned := by
  rw [settled]
  split_ifs <;> simp

/-- Only such a job is taken for an orphan. -/
theorem normalize_orphaned {gateway agent tracking : Native}
    (h : normalize gateway agent tracking = .orphaned) : out gateway = true := by
  rw [normalize] at h
  split_ifs at h
  · assumption
  · exact absurd h (settled_ne_orphaned gateway agent)

theorem fair_of_not_out {p : Parts} (observed : Observed) (hagent : p.agent = none)
    (h : ¬ out p.gatewayState = true) : Fair (platformJob p observed) where
  notOrphaned horphaned := h (normalize_orphaned horphaned)
  claims c hc o ho hsaid := by
    have hstate : p.state ≠ .orphaned := fun horphaned => h (normalize_orphaned horphaned)
    have hdetect : p.conflict observed = some c := hc
    rw [Parts.conflict, if_neg hstate, detectConflict, detectConflictBy] at hdetect
    have hknown : o ∈ known [Parts.observation observed "gateway" p.gatewayState,
        Parts.observation observed "agent" p.agentState,
        Parts.observation observed "tracking" p.trackingState] := by
      split_ifs at hdetect <;> cases hdetect <;> exact ho
    have hnone : p.agentState = none := by simp [Parts.agentState, hagent]
    rw [known, List.mem_filter] at hknown
    obtain ⟨hmem, hstate⟩ := hknown
    -- the agent's own observation has no state, the other two another source
    simp only [List.mem_cons, List.not_mem_nil, or_false] at hmem
    rcases hmem with rfl | rfl | rfl
    · simp [Parts.observation] at hsaid
    · simp [Parts.observation, hnone] at hsaid
    · simp [Parts.observation] at hsaid
  unseen hout := absurd hout h

/-- With the agent not read the answers are fair exactly when the gateway holds
no job as dispatched or running. -/
theorem allFair_iff (s : Sources) (h : s.store.read = none) : AllFair s ↔ ¬ HeldOut s := by
  have hagent : s.reads.agent = none := h
  constructor
  · rintro ⟨hfair, -⟩ ⟨k, job, hlast, hout⟩
    rw [← gateway_byId] at hlast
    obtain ⟨p, hp, hjob⟩ := Option.bind_eq_some_iff.mp hlast
    have hnone : p.agent = none := by
      have hkey := agent_byId s.reads k
      rwa [hp, hagent] at hkey
    have hrow := hfair _ (mem_join.mpr ⟨k, p, hp, rfl⟩)
    have hgateway : p.gatewayState = job.state := by simp [Parts.gatewayState, hjob]
    have hunknown : p.state = .unknown := hrow.unseen (by rw [← hout, ← hgateway]; rfl)
    rw [Parts.state, hgateway, Parts.agentState, hnone] at hunknown
    exact normalize_out hout _ hunknown
  · intro hnone
    have hall : ∀ row ∈ join s.reads s.observed, Fair row := by
      intro row hrow
      obtain ⟨k, p, hp, rfl⟩ := mem_join.mp hrow
      refine fair_of_not_out _ ?_ ?_
      · have hkey := agent_byId s.reads k
        rwa [hp, hagent] at hkey
      · intro hout
        have hkey := gateway_byId s.reads k
        rw [hp] at hkey
        obtain ⟨job, hjob, hstate⟩ : ∃ job, p.gateway = some job ∧ out job.state = true := by
          cases hg : p.gateway with
          | none =>
            rw [Parts.gatewayState, hg] at hout
            cases hout
          | some job => exact ⟨job, rfl, by simpa [Parts.gatewayState, hg] using hout⟩
        exact hnone ⟨k, job, hkey.symm.trans hjob, hstate⟩
    refine ⟨hall, ?_, ?_⟩
    · intro limit rows hpage row hrow
      exact hall row (mem_join_of_page hpage hrow)
    · intro jobId detail hdetail
      exact hall _ (mem_join_of_detail hdetail)

/-- One job of the gateway; the agent's table could not be read. -/
def unread (state : String) : Sources where
  gateway := .answered [{ jobId := some "j", state := some state }]
  store := .timedOut
  tracking := .answered []
  stamp _ := ("now", 0)

theorem unread_fair : AllFair (unread "queued") := by
  refine (allFair_iff (unread "queued") rfl).mpr ?_
  rintro ⟨k, job, hlast, hout⟩
  have hjob : job = { jobId := some "j", state := some "queued" } := by
    change (if some "j" = k then some _ else none) = some job at hlast
    split_ifs at hlast
    exact (Option.some.inj hlast).symm
  subst hjob
  cases hout

/-- A running job whose agent record was not read is called an orphan. -/
theorem unread_running_orphaned :
    (consoleJob (unread "running") "j").map (fun d => d.row.normalizedState) = some .orphaned ∧
      ¬ AllFair (unread "running") := by
  have hrow : (join (unread "running").reads (unread "running").observed).map
      PlatformJob.normalizedState = [.orphaned] := by decide +kernel
  refine ⟨by decide +kernel, fun h => ?_⟩
  obtain ⟨row, hmem, hstate⟩ := List.mem_map.mp
    (hrow ▸ List.mem_singleton.mpr rfl : .orphaned ∈ (join (unread "running").reads
      (unread "running").observed).map PlatformJob.normalizedState)
  exact (h.1 row hmem).notOrphaned hstate

end MlopsLite.Gateway.Console.Jobs
