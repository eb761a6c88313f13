import MlopsLite.HostAgent.Routes.Agent

/-!
# Routes — submitting a job

`JobManager.submit` (`hostagent/jobs.py`) on a kind and a request of any JSON
value, where it raises included. The checks come in the source's order: the
kind, the required fields, the modality, the key, the slot, the GPU, the
journal.
-/

namespace MlopsLite.HostAgent.Routes

open Conversions (Value Fault Fields)
open Jobs (Kind KindSpec)

/-- The route of a kind. -/
def route : Kind → String
  | .finetune => "train"
  | .hpo => "study"
  | .batch => "batch"
  | .shadow => "shadow-replay"

def kinds : List Kind := [.finetune, .hpo, .batch, .shadow]

/-- `ROUTE_TO_KIND`. -/
def routeToKind (segment : List Char) : Option Kind :=
  kinds.find? fun k => (route k).toList = segment

/-- `KINDS.get(kind)` of a value with a hash. -/
def kindOf : Value → Option Kind
  | .str s => kinds.find? fun k => k.spec.name = s
  | _ => none

/-- `request.get(f)` is truthy. -/
def given (request : Fields) (f : String) : Bool := (request.get f).any Json.truthy

/-- The first required field that is missing. -/
def missing (spec : KindSpec) (request : Fields) : Option String :=
  spec.required.find? fun f => !given request f

inductive Modality
  | taken (v : Value)
  | unknown (m : String)

/-- The modality of a request: only a text has `lower`. -/
def modalityOf (spec : KindSpec) (request : Fields) : Except Exc Modality :=
  match spec.modalitySet with
  | none => .ok (.taken (request.read "modality"))
  | some expected =>
    match Json.orElse (request.get "modality") (.str spec.modalityDefault) with
    | .str m =>
      .ok (if m.toLower ∈ expected then .taken (.str m.toLower) else .unknown m.toLower)
    | _ => .error (.fault .attribute)

/-- `_needs_gpu`. -/
def needsGpu (spec : KindSpec) : Value → Bool
  | .str m => spec.gpu && !decide (m ∈ Jobs.cpuTrainableModalities)
  | _ => spec.gpu

abbrev Submitted := Except Exc (ℕ × Members)

def refused (status : ℕ) (text : String) : Submitted := .ok (status, [("error", .str text)])

/-- `request[spec.id_field]`, or an id of its own. -/
def jobIdOf (spec : KindSpec) (request : Fields) (fresh : String) : Value :=
  match spec.idField with
  | some f => request.read f
  | none => .str fresh

/-- The record is journaled, in columns that take texts, and the worker started. -/
def launch (jobs : JobManager) (k : Kind) (request : Fields) (modality : Value) : Submitted :=
  let jobId := jobIdOf k.spec request jobs.fresh
  if Conversions.isText jobId && Conversions.isText modality && jobs.writes then
    .ok (202, [(k.spec.idKey, jobId), ("status", .str "queued")] ++
      if k = .hpo then
        [("note", .str ("HPO trials run sequentially on the one GPU; " ++
          "wall-clock ~= n_trials x per-train-time"))]
      else [])
  else .error .store

/-- The job that a request's key is answered with. -/
def duplicate (jobs : JobManager) : Value → Option (String × Value)
  | .null => none
  | key => jobs.existing key

/-- From the key on. -/
def enter (env : Env) (jobs : JobManager) (k : Kind) (request : Fields) (modality : Value) :
    Submitted :=
  let key := request.read "idempotency_key"
  if Conversions.hashable key then
    match duplicate jobs key with
    | some (id, state) =>
      .ok (200, [(k.spec.idKey, .str id), ("status", state), ("idempotent", .bool true)])
    | none =>
      match jobs.active with
      | some id => refused 409 ("agent busy with job " ++ id)
      | none =>
        if needsGpu k.spec modality then
          match jobs.acquired with
          | .granted => launch jobs k request modality
          | .held holder kind =>
            .ok (409,
              [("error", .str (env.told (.held holder kind))), ("holder", holder), ("kind", kind)])
          | .vramExceeded => refused 507 (env.told .vramExceeded)
        else launch jobs k request modality
  else .error (.fault .type)

/-- A request of a known kind. -/
def submitKind (env : Env) (jobs : JobManager) (k : Kind) (request : Fields) : Submitted :=
  match missing k.spec request with
  | some f => refused 400 ("missing field: " ++ f)
  | none =>
    match modalityOf k.spec request with
    | .error e => .error e
    | .ok (.unknown m) =>
      refused 400 ("unknown modality " ++ env.shown (.str m) ++ " (expected " ++
        "|".intercalate (k.spec.modalitySet.getD []) ++ ")")
    | .ok (.taken modality) => enter env jobs k request modality

/-- `JobManager.submit`. -/
def submit (env : Env) (jobs : JobManager) (kind : Value) (request : Fields) : Submitted :=
  if Conversions.hashable kind then
    match kindOf kind with
    | none => refused 400 ("unknown job kind " ++ env.shown kind)
    | some k => submitKind env jobs k request
  else .error (.fault .type)

/-- `except StoreError`. -/
def submitted (env : Env) : Submitted → Except Exc Answer
  | .ok (status, payload) => .ok (answer status (.obj payload))
  | .error .store => .ok (complaint 502 (env.told .store))
  | .error e => .error e

/-! ## What submit takes -/

/-- The request's fields are of their types: a text as modality, a key with a hash,
and texts where the client gives the id. -/
def Typed (k : Kind) (request : Fields) : Prop :=
  (∀ m, request.get "modality" = some m → m.truthy = true → Conversions.isText m = true) ∧
    Conversions.hashable (request.read "idempotency_key") = true ∧
    ∀ f, k.spec.idField = some f → ∀ v, request.get f = some v → v.truthy = true →
      Conversions.isText v = true

/-- A request that is turned away before the type of its id or modality matters. -/
def TurnedAway (jobs : JobManager) (k : Kind) (request : Fields) (modality : Value) : Prop :=
  duplicate jobs (request.read "idempotency_key") = none ∧
    (jobs.active.isSome = true ∨
      needsGpu k.spec modality = true ∧ ∃ holder kind, jobs.acquired = .held holder kind)

end MlopsLite.HostAgent.Routes
