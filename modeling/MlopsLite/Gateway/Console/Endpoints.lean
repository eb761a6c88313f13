import MlopsLite.Gateway.Console.Catalog
import MlopsLite.HostAgent.EngineRows

/-!
# Endpoints — the console's word on the engines

`console_endpoints` and `console_compatibility` (`gateway/app/routers/console.py`)
with `endpoint` and `_status` (`gateway/app/console/endpoints.py`), fed the
agent's engines as they arrive. Both routes run through the `engines` of the body
as through a list of rows.
-/

namespace MlopsLite.Gateway.Console.Endpoints

open HostAgent (AdmissionView)
open HostAgent.EngineRows (Table Runtime row engineRows body)

abbrev Body := Json ℚ

abbrev Read (α : Type) := Except Json.Misread α

/-! ## The registry -/

structure ModelVersion where
  version : String
  tags : Dict String String

/-- A registered model, its serving alias and its versions, newest first. -/
structure Model where
  name : String
  servingVersion : Option String
  versions : List ModelVersion

structure Pointer where
  modelName : String
  version : String
  modality : Option String
  engine : Option String

/-- `serving_pointers`. -/
def servingPointers (models : List Model) : List Pointer :=
  models.filterMap fun model =>
    match model.servingVersion with
    | none => none
    | some version =>
        if version = "" then none
        else
          let tags := ((model.versions.find? fun v => v.version = version).map
            ModelVersion.tags).getD .empty
          some ⟨model.name, version, tags.get? "task", tags.get? "serving_engine"⟩

/-- `MODEL_LIMIT`. -/
def modelLimit : ℕ := 100

/-- `model_versions`: the versions of all models, each with its model's name. -/
def modelVersions (models : List Model) : List (String × ModelVersion) :=
  (models.flatMap fun model => model.versions.map fun v => (model.name, v)).take modelLimit

/-! ## One endpoint -/

inductive Status
  | unconfigured
  | pending
  | starting
  | healthy
  | degraded
  | draining
  | stopped
  | failed
  | unknown
  deriving DecidableEq, Repr

/-- `CPU_MODALITIES`. -/
def cpuModalities : List String := ["embedding", "tabular"]

/-- `_SERVING_STATES`. -/
def servingStates : List String := ["ready", "cold", "idle"]

/-- A report on an engine: the members of one row. -/
abbrev Report := List (String × Body)

/-- `str(engine.get(key) or "").lower()`; a value that is no text is no word. -/
def word (engine : Report) (key : String) : Option String :=
  match engine.lookup key with
  | some (.str s) => some s.toLower
  | some v => if v.truthy then none else some ""
  | none => some ""

/-- `bool(engine.get(key))`. -/
def holds (engine : Report) (key : String) : Bool := (engine.lookup key).any Json.truthy

def holdsVersion (engine : Report) : Option String :=
  match engine.lookup "registry_version" with
  | some (.str s) => if s = "" then none else some s
  | _ => none

/-- `_status`; the route hands it no activation. -/
def status (modality : String) (desired : Pointer) (engine : Report)
    (jobHoldsGpu agentReachable : Bool) : Status :=
  if desired.modelName = "" ∧ engine = [] then .unconfigured
  else if !agentReachable then .unknown
  else
    let engineState := word engine "state"
    let residency := word engine "residency_state"
    if residency = some "draining" then .draining
    else if residency = some "loading" ∨ residency = some "rolling-back" ∨
        engineState = some "loading" then .starting
    else if engineState.any ["wedged", "error", "crashed", "failed"].contains then .failed
    else if modality ∈ cpuModalities then
      if engineState.any servingStates.contains then .healthy else .stopped
    else if holds engine "model_identity" ∧
        (residency = some "" ∨ residency = some "resident") then
      match holdsVersion engine with
      | some v => if desired.version ≠ "" ∧ desired.version ≠ v then .degraded else .healthy
      | none => .healthy
    else if jobHoldsGpu then .stopped
    else if desired.modelName ≠ "" then .pending
    else .stopped

/-- What the two sides claim, where they disagree. -/
structure Conflict where
  desired : String
  resident : String

/-- `_conflict`. -/
def conflict (desired : Pointer) (engine : Report) (status : Status) : Option Conflict :=
  if status = .unknown ∨ status = .unconfigured then none
  else
    match holdsVersion engine with
    | some v =>
        if desired.version = "" ∨ desired.version = v then none else some ⟨desired.version, v⟩
    | none => none

/-- An `Endpoint`; `resident` repeats what the report says. -/
structure Endpoint where
  modality : String
  desired : Pointer
  resident : Report
  status : Status
  conflict : Option Conflict

/-- `endpoint`. -/
def endpoint (desired : Pointer) (engine : Option Report) (jobHoldsGpu agentReachable : Bool) :
    Endpoint :=
  let modality :=
    match desired.modality with
    | some m => if m = "" then "unknown" else m
    | none => "unknown"
  let engine := engine.getD []
  let status := status modality desired engine jobHoldsGpu agentReachable
  ⟨modality, desired, engine, status, conflict desired engine status⟩

/-! ## The two routes -/

/-- The key a dict files a value under: a text, or `None`; another value that
hashes is under no key that is looked up. -/
def keyOf : Option Body → Read (Option (Option String))
  | some (.str s) => .ok (some (some s))
  | none | some .null => .ok (some none)
  | some (.arr _) | some (.obj _) => .error .unhashable
  | some _ => .ok none

/-- `{e.get("engine_id"): e for e in …}`: a later row replaces an earlier one. -/
def byId : List Body → Dict (Option String) Report → Read (Dict (Option String) Report)
  | [], found => .ok found
  | e :: rest, found => do
      let id ← keyOf (← e.get "engine_id")
      match id, e with
      | some id, .obj members => byId rest (found.insert id members)
      | _, _ => byId rest found

/-- `(data or {}).get("engines")`. -/
def enginesOf (data : Option Body) : Read (Option Body) :=
  (Json.orElse data (.obj [])).get "engines"

/-- The engines of the body, as the endpoints route files them. -/
def engineTable (data : Option Body) : Read (Dict (Option String) Report) := do
  let engines ← enginesOf data
  byId (← (Json.orElse engines (.arr [])).iter) .empty

/-- `console_endpoints`: the agent's engines and admission view, `none` where it
did not answer, and the registry. -/
def consoleEndpoints (data : Option Body) (admission : Option AdmissionView)
    (registry : Option (List Model)) : Read (Option (List Endpoint)) := do
  let pointers := registry.map servingPointers
  if pointers.isNone && data.isNone then return none
  else
    let engines ← engineTable data
    let jobHoldsGpu := admission.any fun a => a.jobBarrier || a.activeJob.isSome
    return some ((pointers.getD []).map fun p =>
      endpoint p (engines.get? p.engine) jobHoldsGpu data.isSome)

/-- `_estimated_vram_gb`. -/
def estimatedVramGb (required : Option String) : List Body → Read (Option ℚ)
  | [] => .ok none
  | e :: rest => do
      let id ← e.get "engine_id"
      if keyOf id = .ok (some required) then
        match ← e.get "est_vram_gb" with
        | some (.num q) => return some q
        | _ => return none
      else estimatedVramGb required rest

/-- The ids of the rows; no ids where the agent named no engines. -/
def engineIds (engines : Option Body) (rows : List Body) : Option (List String) :=
  match engines with
  | none | some .null => none
  | some _ => some (rows.filterMap fun e =>
      match e.get "engine_id" with
      | .ok (some (.str id)) => some id
      | _ => none)

/-- `baseResolvable` of `platform_model`. -/
def baseResolvable (tags : Dict String String) : Bool :=
  (tags.get? "base_model").isNone || (tags.get? "serving_engine").any (· ≠ "")

/-- `console_compatibility`. `compatibility` looks for the required engine after
`_estimated_vram_gb` did, in the same rows: it stops at none the other passed. -/
def consoleCompatibility (data : Option Body) (admission : Option AdmissionView)
    (registry : Option (List Model)) (name version : String) : Read RuntimeCompatibility := do
  let found := ((registry.map modelVersions).getD []).find? fun v =>
    v.1 = name && v.2.version = version
  let tags := (found.map fun v => v.2.tags).getD .empty
  let engines ← if data.any Json.truthy then enginesOf data else .ok none
  let requiredEngine := tags.get? "serving_engine"
  let rows ← (Json.orElse engines (.arr [])).iter
  let estimated ← estimatedVramGb requiredEngine rows
  return compatibility {
    estimatedGb := estimated
    admission
    engines := engineIds engines rows
    requiredEngine
    acceleratorRequired := true
    artifactAvailable := none
    hostCompatible := none
    requiredComputeCapability := none
    baseResolvable := found.isNone || baseResolvable tags }

/-! ## What the console owes the engines -/

/-- A row names what its engine's child has loaded. -/
def reportsIdentity : Body → Bool
  | .obj members => holds members "model_identity"
  | _ => false

/-- The engine of a pointer is up: its child lives, answers, and is known to the
console by name where the modality needs the GPU. -/
def Up (table : Table) (p : Pointer) : Prop :=
  ∃ id rt, p.engine = some id ∧ table.get? id = some rt ∧ rt.serving = true ∧
    (p.modality.getD "" ∉ cpuModalities →
      reportsIdentity (row id rt) = true)

/-- The engine of a pointer is up and serves the version pointed at. -/
def Serves (table : Table) (p : Pointer) : Prop :=
  ∃ id rt, p.engine = some id ∧ table.get? id = some rt ∧ rt.servedVersion = some p.version

/-- The status of an endpoint is right about its engine. -/
structure Truthful (table : Table) (p : Pointer) (e : Endpoint) : Prop where
  up : e.status = .healthy → Up table p
  healthy : Serves table p → e.status = .healthy

/-- The endpoints route answers, and is right about each engine. -/
def EndpointsTruthful (table : Table) (admission : Option AdmissionView)
    (registry : Option (List Model)) : Prop :=
  ∃ rows, consoleEndpoints (some (body table)) admission registry =
      .ok (some rows) ∧
    List.Forall₂ (Truthful table) ((registry.map servingPointers).getD []) rows

/-- The compatibility route answers, and misses no engine that has a row. -/
def CompatibilityTruthful (table : Table) (admission : Option AdmissionView)
    (registry : Option (List Model)) (name version : String) : Prop :=
  ∃ c, consoleCompatibility (some (body table)) admission registry name
      version = .ok c ∧
    ∀ e, .engineUnavailable e ∈ c.reasons → table.get? e = none

/-- The console tells the truth about the engines, whatever the registry and the
admission view hold. -/
def TellsTheTruth (table : Table) : Prop :=
  ∀ admission registry, EndpointsTruthful table admission registry ∧
    ∀ name version, CompatibilityTruthful table admission registry name version

/-! ## Reading the agent's body -/

variable {table : Table}

/-- The engines are an object: a row is never reached, its name is. -/
theorem iter_engineRows (table : Table) :
    (Json.orElse (some (engineRows table)) (.arr [])).iter =
      .ok (table.items.map fun kv => .str kv.1) := by
  cases hitems : table.items with
  | nil => simp [engineRows, hitems, Json.orElse, Json.truthy, Json.iter]
  | cons kv rest =>
    simp [engineRows, hitems, Json.orElse, Json.truthy, Json.iter, Function.comp_def]

theorem enginesOf_body (table : Table) :
    enginesOf (some (body table)) = .ok (some (engineRows table)) := rfl

theorem engineTable_of_ne (h : table.items ≠ []) :
    engineTable (some (body table)) = .error .noAttribute := by
  obtain ⟨kv, rest, hitems⟩ := List.exists_cons_of_ne_nil h
  have hiter := iter_engineRows table
  rw [hitems] at hiter
  simp only [engineTable, enginesOf_body, bind, Except.bind, hiter]
  rfl

theorem engineTable_of_nil (h : table.items = []) :
    engineTable (some (body table)) = .ok .empty := by
  have hiter := iter_engineRows table
  rw [h] at hiter
  simp only [engineTable, enginesOf_body, bind, Except.bind, hiter]
  rfl

/-- With no report nothing is healthy. -/
theorem status_nil (modality : String) (p : Pointer) (job reachable : Bool) :
    status modality p [] job reachable ≠ .healthy := by
  have hstate : word [] "state" = some "" := rfl
  have hresidency : word [] "residency_state" = some "" := rfl
  have hidentity : holds [] "model_identity" = false := rfl
  have hserving : "" ∉ servingStates := by decide
  simp only [status, hstate, hresidency, hidentity]
  split_ifs <;> simp_all

/-! ## When it does -/

/-- A table with a row stops the endpoints route. -/
theorem items_of_endpoints {admission : Option AdmissionView} {registry : Option (List Model)}
    (h : EndpointsTruthful table admission registry) : table.items = [] := by
  obtain ⟨rows, hrows, -⟩ := h
  by_contra hne
  have hstop : consoleEndpoints (some (body table)) admission registry = .error .noAttribute := by
    cases registry <;>
      simp [consoleEndpoints, engineTable_of_ne hne, bind, Except.bind]
  rw [hstop] at hrows
  cases hrows

theorem consoleEndpoints_of_nil (h : table.items = []) (admission : Option AdmissionView)
    (registry : Option (List Model)) :
    consoleEndpoints (some (body table)) admission registry =
      .ok (some (((registry.map servingPointers).getD []).map fun p =>
        endpoint p none (admission.any fun a => a.jobBarrier || a.activeJob.isSome) true)) := by
  cases registry <;>
    simp [consoleEndpoints, engineTable_of_nil h, bind, Except.bind, pure, Except.pure]

/-- With no engine there is nothing to be wrong about. -/
theorem endpointsTruthful_of_nil (h : table.items = []) (admission : Option AdmissionView)
    (registry : Option (List Model)) : EndpointsTruthful table admission registry := by
  refine ⟨_, consoleEndpoints_of_nil h admission registry, ?_⟩
  rw [List.forall₂_map_right_iff, List.forall₂_same]
  intro p _
  constructor
  · intro hp
    exact (status_nil _ p _ true hp).elim
  · rintro ⟨id, rt, -, hrt, -⟩
    simp [Dict.get?, h] at hrt

theorem consoleCompatibility_of_nil (h : table.items = []) (admission : Option AdmissionView)
    (registry : Option (List Model)) (name version : String) :
    ∃ c, consoleCompatibility (some (body table)) admission registry name version = .ok c := by
  have hiter := iter_engineRows table
  have hbody : (some (body table)).any Json.truthy = true := rfl
  rw [h, List.map_nil] at hiter
  simp only [consoleCompatibility, hbody, if_true, enginesOf_body, bind, Except.bind, hiter,
    estimatedVramGb]
  exact ⟨_, rfl⟩

theorem compatibilityTruthful_of_nil (h : table.items = []) (admission : Option AdmissionView)
    (registry : Option (List Model)) (name version : String) :
    CompatibilityTruthful table admission registry name version := by
  obtain ⟨c, hc⟩ := consoleCompatibility_of_nil h admission registry name version
  refine ⟨c, hc, ?_⟩
  intro e _
  simp [Dict.get?, h]

/-- The console tells the truth about the engines exactly when there are none. -/
theorem tellsTheTruth_iff (table : Table) : TellsTheTruth table ↔ table.items = [] := by
  constructor
  · intro h
    exact items_of_endpoints (h none none).1
  · intro h admission registry
    exact ⟨endpointsTruthful_of_nil h admission registry,
      compatibilityTruthful_of_nil h admission registry⟩

/-! ## A table with one engine -/

/-- The LLM engine with a live child that answers. -/
def oneEngine : Table :=
  Dict.empty.insert "llm" ⟨true, none, (true, none), some ⟨false, some "3"⟩, true, true, false⟩

/-- Both routes stop at the name of the engine. -/
theorem oneEngine_stops_console :
    (consoleEndpoints (some (body oneEngine)) none none).isOk = false ∧
      (consoleCompatibility (some (body oneEngine)) none none "m" "1").isOk = false ∧
      ¬ TellsTheTruth oneEngine := by
  refine ⟨rfl, rfl, fun h => ?_⟩
  obtain ⟨rows, hrows, -⟩ := (h none none).1
  cases hrows

end MlopsLite.Gateway.Console.Endpoints
