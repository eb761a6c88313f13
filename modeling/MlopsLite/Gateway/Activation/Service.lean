import MlopsLite.Gateway.Activation.Store
import MlopsLite.Lib.Runs

/-!
# Activation — the service

`ActivationService` of `gateway/app/activation.py`. A pass (`run`) reads its
operation and takes it through the states as far as the answers allow; the
run lock makes passes exclude each other, so one control point is enough. A
step of a pass is one statement of the database, one write of the pointer or
one call of the agent. The pass may end before any of them, when the process
dies or a statement raises; `completed` counts the passes that return.
-/

namespace MlopsLite.Gateway

/-- `reload_res`, as the agent answers `/control/reload`. -/
structure ReloadResult where
  status : Option String
  unresolvable : Bool
  reason : Option String
  error : Option String
  deriving DecidableEq

/-- `resident_identity()`. -/
structure Identity where
  servingModel : Option String
  servingVersion : Option String
  deriving DecidableEq

/-- `str(x)` of a string or `None`. -/
def pyStr (s : Option String) : String := s.getD "None"

/-- `s or default`. -/
def orElse (s : Option String) (default : String) : String :=
  match s with
  | none | some "" => default
  | some text => text

/-- The reload statuses that mean the target was loaded. -/
def ReloadResult.loaded (r : ReloadResult) : Bool :=
  r.status ∈ [some "loaded", some "reloaded", some "swapped", some "noop"]

/-- The agent's health names the target. -/
def Activation.resident (op : Activation) (i : Identity) : Bool :=
  i.servingModel = some op.targetModel && pyStr i.servingVersion = op.targetVersion

/-- The `if` of `run` that comes next. -/
inductive Stage
  | committing
  | reloading
  | rollingBack
  | over
  deriving DecidableEq, Repr

/-- Control points of a pass. `cas` is about to make a transition from a
state; its stage, like that of `rollBack`, is where the pass goes on. -/
inductive RunPc
  | idle
  | read (id : OperationId)
  | commitPointer (id : OperationId) (op : Activation)
  | cas (id : OperationId) (expect : ActivationState) (t : Transition) (stage : Stage)
  | reload (id : OperationId) (op : Activation)
  | identify (id : OperationId) (op : Activation)
  | rollBack (id : OperationId) (op : Activation) (stage : Stage)
  | reread (id : OperationId) (stage : Stage)
  | returned (id : OperationId)
  deriving DecidableEq

/-- What a step leaves open. `wrote` answers a pointer write: the class of the
exception, if it raised one, and whether the row was written. -/
inductive Choice
  | submit (id : OperationId) (n : NewActivation)
  | run (id : OperationId)
  | go
  | wrote (now : Epoch) (raised : Option String) (took : Bool)
  | reloaded (r : ReloadResult)
  | health (i : Identity)
  | ends
  deriving DecidableEq

structure Service where
  stores : Stores
  pc : RunPc
  completed : OperationId → ℕ

namespace Service

def init : Service := ⟨Stores.init, .idle, fun _ => 0⟩

/-! ## Transitions -/

def pointerFailed (cls : String) : Transition :=
  ⟨.prepared, some "pointer_write_failed", some s!"pointer write failed ({cls}) — see gateway logs",
    true⟩

def verifyPending (i : Identity) : Transition :=
  ⟨.reloading, some "verify_pending",
    some s!"agent reports {pyStr i.servingModel}@{pyStr i.servingVersion}, not the target yet", true⟩

def unresolvable (r : ReloadResult) : Transition :=
  ⟨.rollingBack, some "unresolvable", some (orElse r.reason ""), false⟩

def rollbackFailed (cls : String) : Transition :=
  ⟨.degraded, some "pointer_error",
    some s!"rollback pointer write failed ({cls}) — see gateway logs", false⟩

/-- A step forward. -/
def forward (state : ActivationState) : Transition := ⟨state, none, none, false⟩

/-- `_maybe_degrade`. -/
def maybeDegrade (maxAttempts : ℕ) (op : Activation) (code reason : String)
    (stay : Option ActivationState) : Transition :=
  if op.attempts + 1 ≥ maxAttempts then
    ⟨.degraded, some code,
      some (clip 400 s!"{reason} (after {op.attempts + 1} attempts)"), true⟩
  else ⟨stay.getD op.state, some code, some (clip 400 reason), true⟩

/-- What `_reload_and_verify` makes of an answer that is not a load. -/
def reloadRefused (maxAttempts : ℕ) (op : Activation) (r : ReloadResult) : Transition :=
  if r.status = some "verify_failed" then
    maybeDegrade maxAttempts op "verify_failed" (orElse r.error "target verification failed") none
  else if r.unresolvable then unresolvable r
  else
    maybeDegrade maxAttempts op
      (if r.status = some "unreachable" then "unreachable" else "deferred") (orElse r.reason "")
      (some .reloading)

/-! ## Control -/

/-- The rest of `run`, from a stage. -/
def dispatch (id : OperationId) (op : Activation) : Stage → RunPc
  | .committing =>
      if op.state = .committing then .cas id .committing (forward .reloading) .reloading
      else if op.state = .reloading then .reload id op
      else if op.state = .rollingBack then .rollBack id op .over
      else .returned id
  | .reloading =>
      if op.state = .reloading then .reload id op
      else if op.state = .rollingBack then .rollBack id op .over
      else .returned id
  | .rollingBack => if op.state = .rollingBack then .rollBack id op .over else .returned id
  | .over => .returned id

/-- `run` has read its operation. -/
def begin (id : OperationId) (op : Activation) : RunPc :=
  if op.state = .prepared then .commitPointer id op else dispatch id op .committing

/-- A compare-and-set has answered; `_reload_and_verify` rolls back itself
what it has moved to `rolling_back`. -/
def answered (id : OperationId) (stage : Stage) : Option Activation → RunPc
  | none => .reread id stage
  | some op =>
      if stage = .rollingBack ∧ op.state = .rollingBack then .rollBack id op .rollingBack
      else dispatch id op stage

/-- `set_serving_llm`. -/
def setServingLlm (x : Stores) (model actor : String) (now : Epoch) : Stores :=
  { x with pointer := some ⟨model, now, actor⟩ }

/-- `restore_serving_llm` of the snapshot `_roll_back` makes of `previous_model`. -/
def restoreServingLlm (x : Stores) (previous : Option String) (now : Epoch) : Stores :=
  match previous with
  | none | some "" => { x with pointer := none }
  | some model => { x with pointer := some ⟨model, now, "operator"⟩ }

/-- A write that raised may have taken or not. -/
def written (x y : Stores) (raised : Option String) (took : Bool) : Stores :=
  if raised.isNone || took then y else x

/-- `create_activation`; a conflict leaves the table as it is. -/
def insertNew (x : Stores) (id : OperationId) (n : NewActivation) : Stores :=
  match x.create id n with
  | .ok y => y.1
  | .error _ => x

/-- `submit`: the operation in flight under the key, or a new one. -/
def submit (x : Stores) (id : OperationId) (n : NewActivation) : Stores :=
  match x.findByKey n.idempotencyKey with
  | some (_, op) => if op.state.nonterminal then x else insertNew x id n
  | none => insertNew x id n

def next (maxAttempts : ℕ) (s : Service) (c : Choice) : Option Service :=
  let x := s.stores
  match s.pc, c with
  | _, .submit id n => some { s with stores := submit x id n }
  | .idle, .run id => some { s with pc := .read id }
  | .read id, .go =>
      match x.operations.get? id with
      | none => some { s with pc := .idle }
      | some op => some { s with pc := begin id op }
  | .commitPointer id op, .wrote now raised took =>
      let y := written x (setServingLlm x op.targetModel op.actor now) raised took
      some { s with
        stores := y
        pc := match raised with
          | some cls => .cas id .prepared (pointerFailed cls) .committing
          | none => .cas id .prepared (forward .committing) .committing }
  | .cas id e t stage, .go =>
      let r := x.cas id e t
      some { s with stores := r.1, pc := answered id stage r.2 }
  | .reload id op, .reloaded r =>
      if r.loaded then some { s with pc := .identify id op }
      else some { s with pc := .cas id .reloading (reloadRefused maxAttempts op r) .rollingBack }
  | .identify id op, .health i =>
      let t := if op.resident i then forward .active else verifyPending i
      some { s with pc := .cas id .reloading t .rollingBack }
  | .rollBack id op stage, .wrote now raised took =>
      let y := written x (restoreServingLlm x op.previousModel now) raised took
      some { s with
        stores := y
        pc := match raised with
          | some cls => .cas id .rollingBack (rollbackFailed cls) stage
          | none => .cas id .rollingBack (forward .rolledBack) stage }
  | .reread id stage, .go =>
      match x.operations.get? id with
      | none => some { s with pc := .idle }
      | some op => some { s with pc := dispatch id op stage }
  | .returned id, .go =>
      some { s with
        pc := .idle, completed := Function.update s.completed id (s.completed id + 1) }
  | .idle, .ends => none
  | _, .ends => some { s with pc := .idle }
  | _, _ => none

end Service

end MlopsLite.Gateway
