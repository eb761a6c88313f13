import MlopsLite.Lib.Dict
import MlopsLite.Lib.Filling
import MlopsLite.Lib.Json

/-!
# Store — the tables that a backfill fills

The calls of `platformlib/storeimpl` that `scripts/backfill_store.py` makes, over the
tables of `migrations/001_baseline.sql`. `none` says that a call raises. What a column
takes of a value is the driver's and Postgres' affair: it is a parameter, but for a
text, that a text column takes as it is or refuses.
-/

namespace MlopsLite.Scripts.Backfill

/-! ## Columns -/

/-- What psycopg and Postgres make of a value: `chars` says that a text is taken, `cast` is
the text that a text column takes of another value, `jsonb` says that a jsonb column takes
it, `time` is `datetime.fromtimestamp`, `str` Python's `str` and `dict` its `dict`, of a
list. -/
structure Driver (ν τ : Type) where
  chars : String → Bool
  cast : Json ν → Option String
  jsonb : Json ν → Bool
  time : Json ν → Option τ
  str : Json ν → String
  dict : List (Json ν) → Option (Dict String (Json ν))

variable {ν τ : Type}

def notNull : Json ν → Bool
  | .null => false
  | _ => true

namespace Driver

variable (d : Driver ν τ)

/-- A `text NOT NULL` column. -/
def text : Json ν → Option String
  | .null => none
  | .str s => if d.chars s then some s else none
  | v => d.cast v

/-- A `text` column that may be null. -/
def text? (v : Json ν) : Option (Option String) :=
  if notNull v then (d.text v).map some else some none

def jsonbOf (v : Json ν) : Option (Json ν) := if d.jsonb v then some v else none

/-- `_dt`. -/
def dt (v : Json ν) : Option (Option τ) := if notNull v then (d.time v).map some else some none

/-- A value that a `text` column is compared with: a null equals nothing. -/
def param : Json ν → Option (Option String)
  | .null => some none
  | .str s => if d.chars s then some (some s) else none
  | _ => none

end Driver

/-! ## Tables -/

/-- The rows under their keys. -/
abbrev Table (ρ : Type) := String → Option ρ

structure Prediction (τ : Type) where
  modelName : String
  version : String
  modality : String
  servedAt : τ
  streamed : Bool
  payloadRef : String

structure Label (ν τ : Type) where
  label : Json ν
  submittedAt : τ

/-- A row of `capture_index`. -/
structure Capture (τ : Type) where
  modality : String
  inputRef : String
  capturedAt : τ

structure Policy (ν τ : Type) where
  document : Json ν
  updatedAt : τ
  updatedBy : String
  pending : Option (Json ν)
  status : Option (Json ν)

structure Suggestion (ν τ : Type) where
  modelName : String
  candidateVersion : String
  gateVerdict : Json ν
  shadowVerdict : Option (Json ν)
  state : String
  createdAt : τ
  resolvedAt : Option τ
  actor : Option String

abbrev Record (ν : Type) := Dict String (Json ν)

structure JobRow (ν τ : Type) where
  kind : String
  modality : String
  request : Json ν
  state : String
  submittedAt : τ
  startedAt : Option τ
  endedAt : Option τ
  result : Option (Record ν)

@[ext]
structure Database (ν τ : Type) where
  predictions : Table (Prediction τ)
  labels : Table (Label ν τ)
  captures : Table (Capture τ)
  policies : Table (Policy ν τ)
  suggestions : Table (Suggestion ν τ)
  jobs : Table (JobRow ν τ)

/-- `INSERT`, of a key that is not there. -/
def Table.put {ρ : Type} (t : Table ρ) (id : String) (row : ρ) : Table ρ :=
  Function.update t id (some row)

/-- `SELECT ... WHERE key = ...`. -/
def find {ρ : Type} (d : Driver ν τ) (t : Table ρ) (id : Json ν) : Option (Option ρ) :=
  (d.param id).map fun id => id.bind t

/-- `INSERT ... ON CONFLICT DO NOTHING`, and whether there is a new row. -/
def insert {ρ : Type} (d : Driver ν τ) (t : Table ρ) (id : Json ν) (row : ρ) :
    Option (Bool × Table ρ) :=
  (d.text id).map fun id => if (t id).isSome then (false, t) else (true, t.put id row)

section

variable [Zero ν] [DecidableEq ν] (d : Driver ν τ) (db : Database ν τ)

/-! ## Calls -/

/-- `prediction_exists`. -/
def predictionExists (pid : Json ν) : Option Bool := (find d db.predictions pid).map Option.isSome

/-- `log_prediction`. -/
def logPrediction (pid : Json ν) (row : Prediction τ) : Option (Database ν τ) :=
  (insert d db.predictions pid row).map fun t => { db with predictions := t.2 }

/-- `attach_label`: `false` is `LabelExists`. The key is looked at in front of the reference
to the prediction. -/
def attachLabel (pid label : Json ν) (submittedAt : Option τ) :
    Option (Bool × Database ν τ) := do
  let id ← d.text pid
  let label ← d.jsonbOf label
  let submittedAt ← submittedAt
  if (db.labels id).isSome then some (false, db)
  else if (db.predictions id).isSome then
    some (true, { db with labels := db.labels.put id ⟨label, submittedAt⟩ })
  else none

/-- `capture_exists`. -/
def captureExists (pid : Json ν) : Option Bool := (find d db.captures pid).map Option.isSome

/-- `capture_input`. -/
def captureInput (pid : Json ν) (row : Capture τ) : Option (Database ν τ) :=
  (insert d db.captures pid row).map fun t => { db with captures := t.2 }

/-- `get_policy`: a JSON null is read as nothing. -/
def getPolicy (model : Json ν) : Option (Option (Json ν)) :=
  (find d db.policies model).map fun row => (row.map Policy.document).filter notNull

/-- `put_policy`: pending and status outlive it. -/
def putPolicy (model document : Json ν) (updatedAt : Option τ) (updatedBy : Json ν) :
    Option (Database ν τ) := do
  let id ← d.text model
  let document ← d.jsonbOf document
  let updatedAt ← updatedAt
  let updatedBy ← d.text updatedBy
  let row : Policy ν τ :=
    match db.policies id with
    | some old => { old with document, updatedAt, updatedBy }
    | none => ⟨document, updatedAt, updatedBy, none, none⟩
  return { db with policies := db.policies.put id row }

/-- `SELECT pending` or `status`: a JSON null is read as nothing. -/
def getColumn (column : Policy ν τ → Option (Json ν)) (model : String) :
    Option (Option (Json ν)) :=
  (find d db.policies (.str model)).map fun row => (row.bind column).filter notNull

/-- `UPDATE ... SET pending` or `status`. -/
def setColumn (set : Policy ν τ → Json ν → Policy ν τ) (model : String) (value : Json ν) :
    Option (Database ν τ) := do
  let value ← d.jsonbOf value
  let row ← find d db.policies (.str model)
  match row with
  | some row => some { db with policies := db.policies.put model (set row value) }
  | none => some db

def getPending (model : String) : Option (Option (Json ν)) := getColumn d db Policy.pending model

def setPending (model : String) (pending : Json ν) : Option (Database ν τ) :=
  setColumn d db (fun row v => { row with pending := some v }) model pending

def getStatus (model : String) : Option (Option (Json ν)) := getColumn d db Policy.status model

def setStatus (model : String) (status : Json ν) : Option (Database ν τ) :=
  setColumn d db (fun row v => { row with status := some v }) model status

/-- `get_suggestion`. -/
def getSuggestion (id : Json ν) : Option (Option (Suggestion ν τ)) := find d db.suggestions id

/-- `create_suggestion`: an `INSERT` that raises where the id is taken. -/
def createSuggestion (id : Json ν) (row : Suggestion ν τ) : Option (Database ν τ) :=
  (insert d db.suggestions id row).bind fun t =>
    if t.1 then some { db with suggestions := t.2 } else none

/-- `_JOB_RESERVED`. -/
def jobReserved : List String :=
  ["job_id", "kind", "modality", "request", "state", "submitted_at", "started_at", "ended_at"]

/-- `_job_split`, and the types of the columns. -/
def jobSplit (r : Record ν) : Option (Json ν × JobRow ν τ) := do
  let jobId ← r.get? "job_id"
  let kind ← d.text (Json.orElse (r.get? "kind") (.str ""))
  let modality ← d.text (Json.orElse (r.get? "modality") (.str ""))
  let request ← d.jsonbOf (Json.orElse (r.get? "request") (.obj []))
  let state ← d.text (Json.orElse (r.get? "state") (.str "queued"))
  let submittedAt ← (d.dt ((r.get? "submitted_at").getD .null)).join
  let startedAt ← d.dt ((r.get? "started_at").getD .null)
  let endedAt ← d.dt ((r.get? "ended_at").getD .null)
  let rest := r.filterKeys fun k => k ∉ jobReserved
  let result ← if rest.isEmpty then some none else
    (d.jsonbOf (.obj rest.items)).map fun _ => some rest
  return (jobId, { kind, modality, request, state, submittedAt, startedAt, endedAt, result })

/-- `import_job`. -/
def importJob (r : Record ν) : Option (Bool × Database ν τ) := do
  let (jobId, row) ← jobSplit d r
  let t ← insert d db.jobs jobId row
  return (t.1, { db with jobs := t.2 })

end

/-! ## Cells -/

/-- What is written at once, and never again: a row, or one of the columns of a policy's
row that are filled later. -/
inductive Cell
  | prediction (id : String)
  | label (id : String)
  | capture (id : String)
  | policy (model : String)
  | pending (model : String)
  | status (model : String)
  | suggestion (id : String)
  | job (id : String)
  deriving DecidableEq

inductive Content (ν τ : Type)
  | prediction (row : Prediction τ)
  | label (row : Label ν τ)
  | capture (row : Capture τ)
  | policy (document : Json ν) (updatedAt : τ) (updatedBy : String)
  | column (value : Json ν)
  | suggestion (row : Suggestion ν τ)
  | job (row : JobRow ν τ)

/-- A JSON null is taken for nothing. -/
def Content.live : Content ν τ → Prop
  | .policy document _ _ => notNull document = true
  | .column value => notNull value = true
  | _ => True

def Database.cells (db : Database ν τ) : Filling.Store Cell (Content ν τ)
  | .prediction id => (db.predictions id).map .prediction
  | .label id => (db.labels id).map .label
  | .capture id => (db.captures id).map .capture
  | .policy model =>
      (db.policies model).map fun p => .policy p.document p.updatedAt p.updatedBy
  | .pending model => (db.policies model).bind fun p => p.pending.map .column
  | .status model => (db.policies model).bind fun p => p.status.map .column
  | .suggestion id => (db.suggestions id).map .suggestion
  | .job id => (db.jobs id).map .job

/-- The cells are all that there is. -/
theorem cells_injective : Function.Injective (Database.cells (ν := ν) (τ := τ)) := by
  intro db db' h
  have hcell := fun c => congrFun h c
  ext1
  · funext id
    exact Option.map_injective (fun _ _ h => by injection h) (hcell (.prediction id))
  · funext id
    exact Option.map_injective (fun _ _ h => by injection h) (hcell (.label id))
  · funext id
    exact Option.map_injective (fun _ _ h => by injection h) (hcell (.capture id))
  · funext model
    have hpolicy := hcell (.policy model)
    have hpending := hcell (.pending model)
    have hstatus := hcell (.status model)
    have hcolumn : Function.Injective (Content.column (ν := ν) (τ := τ)) :=
      fun _ _ h => by injection h
    simp only [Database.cells] at hpolicy hpending hstatus
    cases hp : db.policies model with
    | none =>
      cases hp' : db'.policies model with
      | none => rfl
      | some p' => simp [hp, hp'] at hpolicy
    | some p =>
      cases hp' : db'.policies model with
      | none => simp [hp, hp'] at hpolicy
      | some p' =>
        obtain ⟨document, updatedAt, updatedBy, pending, status⟩ := p
        obtain ⟨document', updatedAt', updatedBy', pending', status'⟩ := p'
        simp only [hp, hp', Option.map_some, Option.bind_some, Option.some.injEq,
          Content.policy.injEq] at hpolicy hpending hstatus
        obtain ⟨rfl, rfl, rfl⟩ := hpolicy
        obtain rfl := Option.map_injective hcolumn hpending
        obtain rfl := Option.map_injective hcolumn hstatus
        rfl
  · funext id
    exact Option.map_injective (fun _ _ h => by injection h) (hcell (.suggestion id))
  · funext id
    exact Option.map_injective (fun _ _ h => by injection h) (hcell (.job id))

/-! ## Writing a cell -/

variable {db : Database ν τ}

section

variable {ρ β : Type} (t : Table ρ) (id : String) (row : ρ) (k : String)

theorem map_put (f : ρ → β) :
    (t.put id row k).map f = if k = id then some (f row) else (t k).map f := by
  rw [Table.put, Function.update_apply]
  split_ifs <;> rfl

theorem bind_put (f : ρ → Option β) :
    (t.put id row k).bind f = if k = id then f row else (t k).bind f := by
  rw [Table.put, Function.update_apply]
  split_ifs <;> rfl

end

theorem cells_putPrediction (id : String) (row : Prediction τ) :
    ({ db with predictions := db.predictions.put id row } : Database ν τ).cells =
      Function.update db.cells (.prediction id) (some (.prediction row)) := by
  funext c
  cases c <;> simp [Database.cells, map_put, Function.update_apply]

theorem cells_putLabel (id : String) (row : Label ν τ) :
    ({ db with labels := db.labels.put id row } : Database ν τ).cells =
      Function.update db.cells (.label id) (some (.label row)) := by
  funext c
  cases c <;> simp [Database.cells, map_put, Function.update_apply]

theorem cells_putCapture (id : String) (row : Capture τ) :
    ({ db with captures := db.captures.put id row } : Database ν τ).cells =
      Function.update db.cells (.capture id) (some (.capture row)) := by
  funext c
  cases c <;> simp [Database.cells, map_put, Function.update_apply]

theorem cells_putSuggestion (id : String) (row : Suggestion ν τ) :
    ({ db with suggestions := db.suggestions.put id row } : Database ν τ).cells =
      Function.update db.cells (.suggestion id) (some (.suggestion row)) := by
  funext c
  cases c <;> simp [Database.cells, map_put, Function.update_apply]

theorem cells_putJob (id : String) (row : JobRow ν τ) :
    ({ db with jobs := db.jobs.put id row } : Database ν τ).cells =
      Function.update db.cells (.job id) (some (.job row)) := by
  funext c
  cases c <;> simp [Database.cells, map_put, Function.update_apply]

/-- A new policy has no column that is filled later. -/
theorem cells_putPolicy {id : String} (hnew : db.policies id = none) (document : Json ν)
    (updatedAt : τ) (updatedBy : String) :
    ({ db with policies := db.policies.put id ⟨document, updatedAt, updatedBy, none, none⟩ } :
      Database ν τ).cells =
      Function.update db.cells (.policy id) (some (.policy document updatedAt updatedBy)) := by
  funext c
  cases c with
  | policy model => simp [Database.cells, map_put, Function.update_apply]
  | pending model =>
    by_cases hmodel : model = id
    · simp [Database.cells, bind_put, hmodel, hnew]
    · simp [Database.cells, bind_put, hmodel]
  | status model =>
    by_cases hmodel : model = id
    · simp [Database.cells, bind_put, hmodel, hnew]
    · simp [Database.cells, bind_put, hmodel]
  | _ => simp [Database.cells]

theorem cells_putPending {id : String} {p : Policy ν τ} (hp : db.policies id = some p)
    (value : Json ν) :
    ({ db with policies := db.policies.put id { p with pending := some value } } :
      Database ν τ).cells =
      Function.update db.cells (.pending id) (some (.column value)) := by
  funext c
  cases c with
  | policy model =>
    by_cases hmodel : model = id
    · simp [Database.cells, map_put, hmodel, hp]
    · simp [Database.cells, map_put, hmodel]
  | pending model => simp [Database.cells, bind_put, Function.update_apply]
  | status model =>
    by_cases hmodel : model = id
    · simp [Database.cells, bind_put, hmodel, hp]
    · simp [Database.cells, bind_put, hmodel]
  | _ => simp [Database.cells]

theorem cells_putStatus {id : String} {p : Policy ν τ} (hp : db.policies id = some p)
    (value : Json ν) :
    ({ db with policies := db.policies.put id { p with status := some value } } :
      Database ν τ).cells =
      Function.update db.cells (.status id) (some (.column value)) := by
  funext c
  cases c with
  | policy model =>
    by_cases hmodel : model = id
    · simp [Database.cells, map_put, hmodel, hp]
    · simp [Database.cells, map_put, hmodel]
  | pending model =>
    by_cases hmodel : model = id
    · simp [Database.cells, bind_put, hmodel, hp]
    · simp [Database.cells, bind_put, hmodel]
  | status model => simp [Database.cells, bind_put, Function.update_apply]
  | _ => simp [Database.cells]

end MlopsLite.Scripts.Backfill
