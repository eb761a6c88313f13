import MlopsLite.PlatformLib.Jobs.Rows

/-!
# Jobs — kinds and their records

`KINDS`, the checks of `JobManager.submit` and the records it and its
workers write (`hostagent/jobs.py`).
-/

namespace MlopsLite.HostAgent.Jobs

open PlatformLib.Jobs (Value Record)

inductive Kind
  | finetune
  | hpo
  | batch
  | shadow
  deriving DecidableEq, Repr

/-- `_Kind`; what only the legacy view reads is left out. -/
structure KindSpec where
  name : String
  idKey : String
  gpu : Bool
  required : List String
  modalitySet : Option (List String)
  modalityDefault : String
  idField : Option String
  extra : List String

def trainableModalities : List String := ["llm", "vision", "embeddings", "asr"]

def cpuTrainableModalities : List String := ["tabular"]

def finetuneModalities : List String := trainableModalities ++ cpuTrainableModalities

def batchModalities : List String :=
  ["llm", "text-generation", "vision", "image-classification", "tabular"]

/-- `KINDS`. -/
def Kind.spec : Kind → KindSpec
  | .finetune =>
      { name := "finetune", idKey := "run_id", gpu := true
        required := ["dataset_name", "dataset_version", "output_name"]
        modalitySet := some finetuneModalities, modalityDefault := "llm", idField := none
        extra := ["mlflow_run_id", "model", "metrics", "params", "error"] }
  | .hpo =>
      { name := "hpo", idKey := "study_id", gpu := true
        required := ["dataset_name", "dataset_version", "output_name"]
        modalitySet := some trainableModalities, modalityDefault := "llm", idField := none
        extra := ["summary", "best", "error"] }
  | .batch =>
      { name := "batch", idKey := "batch_id", gpu := false
        required := ["dataset_name", "dataset_version", "model"]
        modalitySet := some batchModalities, modalityDefault := "llm", idField := none
        extra := ["result", "error"] }
  | .shadow =>
      { name := "shadow", idKey := "shadow_id", gpu := true
        required := ["name", "challenger", "champion_version", "modality", "shadow_id"]
        modalitySet := none, modalityDefault := "", idField := some "shadow_id"
        extra := ["result", "error"] }

def gpuBatchModalities : List String := ["llm", "vision", "asr"]

/-- `_GPU_BATCH_ALIAS`. -/
def gpuBatchAlias (modality : String) : String :=
  if modality = "text-generation" then "llm"
  else if modality = "image-classification" then "vision"
  else modality

/-- `_is_gpu_batch`. -/
def isGpuBatch : Value → Bool
  | .str modality => gpuBatchAlias modality ∈ gpuBatchModalities
  | _ => false

/-- `_needs_gpu`. -/
def needsGpu (spec : KindSpec) : Value → Bool
  | .str modality => spec.gpu && !decide (modality ∈ cpuTrainableModalities)
  | _ => spec.gpu

/-! ## Checks -/

/-- A request turned down before anything is taken; `raised` is a modality
that is not a string. -/
inductive BadRequest
  | missingField (f : String)
  | unknownModality (modality : String) (expected : List String)
  | raised
  deriving DecidableEq

/-- `request.get(f)` is truthy. -/
def given (request : Record) (f : String) : Bool := (request.get? f).any Json.truthy

/-- The checks of `submit`: the request with its modality, and the modality. -/
def validate (spec : KindSpec) (request : Record) : Except BadRequest (Record × Value) :=
  match spec.required.find? fun f => !given request f with
  | some f => .error (.missingField f)
  | none =>
      match spec.modalitySet with
      | none => .ok (request, (request.get? "modality").getD .null)
      | some expected =>
          match Json.orElse (request.get? "modality") (.str spec.modalityDefault) with
          | .str m =>
              if m.toLower ∈ expected then
                .ok (request.insert "modality" (.str m.toLower), .str m.toLower)
              else .error (.unknownModality m.toLower expected)
          | _ => .error .raised

/-- `request[spec.id_field]`, or an id of its own. -/
def jobIdOf (spec : KindSpec) (request : Record) (fresh : String) : Value :=
  match spec.idField with
  | some f => (request.get? f).getD .null
  | none => .str fresh

/-! ## Records -/

/-- `record.setdefault(field, None)`. -/
def setDefault (r : Record) (field : String) : Record :=
  if (r.get? field).isSome then r else r.insert field .null

/-- The record `submit` journals. -/
def queuedRecord (spec : KindSpec) (jobId modality : Value) (request : Record) (now : ℚ) :
    Record :=
  spec.extra.foldl setDefault
    (((((((Dict.empty.insert "job_id" jobId).insert "kind" (.str spec.name)).insert
      "state" (.str "queued")).insert "modality" modality).insert
      "request" (.obj request.items)).insert "submitted_at" (.num now)).insert spec.idKey jobId)

/-- What a runner returns. -/
inductive Finished
  | finetuned (mlflowRunId model metrics params : Value)
  | scored (result : Value)
  | studied (summary best : Value)
  | failed (error : Value)

def Finished.status : Finished → String
  | .finetuned .. | .studied .. => "completed"
  | .scored _ => "succeeded"
  | .failed _ => "failed"

def Finished.result : Finished → Option Value
  | .scored result => some result
  | _ => none

/-- The update without its status and its result. -/
def Finished.fields : Finished → Record
  | .finetuned mlflowRunId model metrics params =>
      (((Dict.empty.insert "mlflow_run_id" mlflowRunId).insert "model" model).insert
        "metrics" metrics).insert "params" params
  | .scored _ => .empty
  | .studied summary best => (Dict.empty.insert "summary" summary).insert "best" best
  | .failed error => Dict.empty.insert "error" error

end MlopsLite.HostAgent.Jobs
