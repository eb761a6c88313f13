import MlopsLite.Scripts.Backfill.Store

/-!
# Steps — one object, one write

What `_backfill_predictions` and its siblings (`scripts/backfill_store.py`) do with one
object, and what `_backfill_jobs` does with one record. `none` says that a step raises,
with nothing written. An item's offer is the cell that it would fill in an empty
database, and the cell that must be there first.
-/

namespace MlopsLite.Scripts.Backfill

variable {ν τ : Type}

/-! ## Reading an object -/

/-- `rec[name]`. -/
def item (rec : Json ν) (name : String) : Option (Json ν) :=
  match rec with
  | .obj members => members.lookup name
  | _ => none

/-- `rec.get(name)`, of a dict. -/
def get (rec : Json ν) (name : String) : Json ν := (item rec name).getD .null

/-- `_model_from_key`. -/
def modelFromKey (key pre : String) : String :=
  let name := key.toList.drop pre.length
  if ".json".toList.isSuffixOf name then String.ofList (name.take (name.length - 5))
  else String.ofList name

def policyPrefix : String := "policies/"

def pendingPrefix : String := "policies/_pending/"

def statusPrefix : String := "policies/_status/"

section

variable [Zero ν] [DecidableEq ν] (d : Driver ν τ)

/-- The arguments of `log_prediction`, as the columns take them. -/
def predictionRow (key : String) (rec : Json ν) : Option (Prediction τ) := do
  let modelName ← (item rec "model_name").bind d.text
  let version ← (item rec "model_version").bind fun v => d.text (.str (d.str v))
  let modality ← (item rec "modality").bind d.text
  let servedAt ← (d.dt (get rec "ts")).join
  let payloadRef ← d.text (.str key)
  return { modelName, version, modality, servedAt, payloadRef
           streamed := !notNull (get rec "prediction") }

def captureRow (key : String) (rec : Json ν) : Option (Capture τ) := do
  let modality ← (item rec "modality").bind d.text
  let inputRef ← d.text (.str key)
  let capturedAt ← (d.dt (get rec "ts")).join
  return { modality, inputRef, capturedAt }

/-- The arguments of `create_suggestion`, as the columns take them. -/
def suggestionRow (rec : Json ν) : Option (Suggestion ν τ) := do
  let modelName ← (item rec "model_name").bind d.text
  let candidateVersion ← (item rec "candidate_version").bind fun v => d.text (.str (d.str v))
  let gateVerdict ← d.jsonbOf (Json.orElse (item rec "gate_verdict") (.obj []))
  let shadow := get rec "shadow_verdict"
  let shadowVerdict ← if notNull shadow then (d.jsonbOf shadow).map some else some none
  let state ← (item rec "state").bind d.text
  let createdAt ← (d.dt (get rec "created_at")).join
  let resolvedAt ← d.dt (get rec "resolved_at")
  let actor ← d.text? (get rec "actor")
  return { modelName, candidateVersion, gateVerdict, shadowVerdict, state, createdAt, resolvedAt,
           actor }

/-- `doc.get("model_name") or _model_from_key(key, POLICY_PREFIX)`. -/
def policyModel (key : String) (doc : Json ν) : Option (Json ν) :=
  match doc with
  | .obj members =>
      some (Json.orElse (members.lookup "model_name") (.str (modelFromKey key policyPrefix)))
  | _ => none

/-! ## Steps -/

inductive Done
  | inserted
  | skipped

abbrev Step (ν τ : Type) := Database ν τ → Option (Done × Database ν τ)

def predictionStep (key : String) (body : Option (Json ν)) : Step ν τ := fun db => do
  let rec ← body
  let pid ← item rec "prediction_id"
  let known ← predictionExists d db pid
  if known then some (.skipped, db)
  else do
    let row ← predictionRow d key rec
    let db ← logPrediction d db pid row
    some (.inserted, db)

def labelStep (body : Option (Json ν)) : Step ν τ := fun db => do
  let rec ← body
  let pid ← item rec "prediction_id"
  let label ← item rec "label"
  let submittedAt ← d.dt (get rec "ts")
  let (added, db) ← attachLabel d db pid label submittedAt
  some (if added then .inserted else .skipped, db)

def captureStep (key : String) (body : Option (Json ν)) : Step ν τ := fun db => do
  let rec ← body
  let pid ← item rec "prediction_id"
  let known ← captureExists d db pid
  if known then some (.skipped, db)
  else do
    let row ← captureRow d key rec
    let db ← captureInput d db pid row
    some (.inserted, db)

def policyStep (key : String) (body : Option (Json ν)) : Step ν τ := fun db => do
  let doc ← body
  let model ← policyModel key doc
  let known ← getPolicy d db model
  if known.isSome then some (.skipped, db)
  else do
    let updatedAt ← d.dt (get doc "updated_at")
    let db ← putPolicy d db model doc updatedAt ((item doc "updated_by").getD (.str "operator"))
    some (.inserted, db)

/-- `_backfill_column`: an object without a policy is skipped, and so is a column that is set. -/
def columnStep (getter : Database ν τ → String → Option (Option (Json ν)))
    (setter : Database ν τ → String → Json ν → Option (Database ν τ)) (model : String)
    (body : Option (Json ν)) : Step ν τ := fun db => do
  let body ← body
  let policy ← getPolicy d db (.str model)
  if policy.isNone then some (.skipped, db)
  else do
    let value ← getter db model
    if value.isSome then some (.skipped, db)
    else do
      let db ← setter db model body
      some (.inserted, db)

def suggestionStep (body : Option (Json ν)) : Step ν τ := fun db => do
  let rec ← body
  let sid ← item rec "id"
  let known ← getSuggestion d db sid
  if known.isSome then some (.skipped, db)
  else do
    let row ← suggestionRow d rec
    let db ← createSuggestion d db sid row
    some (.inserted, db)

def jobStep (rec : Record ν) : Step ν τ := fun db => do
  let (added, db) ← importJob d db rec
  some (if added then .inserted else .skipped, db)

/-- What a run comes to. -/
inductive Item (ν : Type)
  | prediction (key : String) (body : Option (Json ν))
  | label (body : Option (Json ν))
  | capture (key : String) (body : Option (Json ν))
  | policy (key : String) (body : Option (Json ν))
  | pending (key : String) (body : Option (Json ν))
  | status (key : String) (body : Option (Json ν))
  | suggestion (body : Option (Json ν))
  | job (rec : Record ν)

def Item.step : Item ν → Step ν τ
  | .prediction key body => predictionStep d key body
  | .label body => labelStep d body
  | .capture key body => captureStep d key body
  | .policy key body => policyStep d key body
  | .pending key body =>
      columnStep d (getPending d) (setPending d) (modelFromKey key pendingPrefix) body
  | .status key body =>
      columnStep d (getStatus d) (setStatus d) (modelFromKey key statusPrefix) body
  | .suggestion body => suggestionStep d body
  | .job rec => jobStep d rec

/-! ## Offers -/

abbrev Offer (ν τ : Type) := Filling.Offer Cell (Content ν τ)

/-- A row for a key that a comparison takes. -/
def rowOffer {ρ : Type} (cell : String → Cell) (content : ρ → Content ν τ) (key : Json ν)
    (row : Option ρ) : Option (Offer ν τ) := do
  let id ← (d.param key).join
  let row ← row
  return ⟨cell id, content row, []⟩

def columnOffer (cell : String → Cell) (model : String) (body : Option (Json ν)) :
    Option (Offer ν τ) := do
  let id ← (d.param (.str model)).join
  let value ← body.bind d.jsonbOf
  return ⟨cell id, .column value, [.policy id]⟩

/-- What an item would write. -/
def Item.offer : Item ν → Option (Offer ν τ)
  | .prediction key body => do
      let rec ← body
      let pid ← item rec "prediction_id"
      rowOffer d .prediction .prediction pid (predictionRow d key rec)
  | .label body => do
      let rec ← body
      let id ← (item rec "prediction_id").bind d.text
      let label ← (item rec "label").bind d.jsonbOf
      let submittedAt ← (d.dt (get rec "ts")).join
      return ⟨.label id, .label ⟨label, submittedAt⟩, [.prediction id]⟩
  | .capture key body => do
      let rec ← body
      let pid ← item rec "prediction_id"
      rowOffer d .capture .capture pid (captureRow d key rec)
  | .policy key body => do
      let doc ← body
      let model ← policyModel key doc
      let id ← (d.param model).join
      let document ← d.jsonbOf doc
      let updatedAt ← (d.dt (get doc "updated_at")).join
      let updatedBy ← d.text ((item doc "updated_by").getD (.str "operator"))
      return ⟨.policy id, .policy document updatedAt updatedBy, []⟩
  | .pending key body => columnOffer d .pending (modelFromKey key pendingPrefix) body
  | .status key body => columnOffer d .status (modelFromKey key statusPrefix) body
  | .suggestion body => do
      let rec ← body
      let sid ← item rec "id"
      rowOffer d .suggestion .suggestion sid (suggestionRow d rec)
  | .job rec => do
      let (jobId, row) ← jobSplit d rec
      let id ← d.text jobId
      return ⟨.job id, .job row, []⟩

end

end MlopsLite.Scripts.Backfill
