import MlopsLite.Lib.CodeLog
import MlopsLite.Lib.Dict

/-!
# Reload — the swap and the reload as programs

`preempt_for`, `reload_serving_llm` and `reload_serving_llm_op`
(`hostagent/swap.py`) over what they ask of the admission, the engines, the
adapter and the table of operations. All but the table answer anything: other
requests, loads and jobs run between any two calls.
-/

namespace MlopsLite.HostAgent.Reload

abbrev EngineId := String

abbrev OperationId := String

/-- The tenant of the slot, and whether it is a job. -/
structure Holder where
  tenant : EngineId
  job : Bool
  deriving DecidableEq

/-- `bound_identity()`: a model and its version in the registry. -/
structure Identity where
  modelName : String
  version : Option String
  deriving DecidableEq

inductive UnloadStatus
  | unloaded
  | idle
  | busy
  deriving DecidableEq

def UnloadStatus.done : UnloadStatus → Bool
  | .unloaded | .idle => true
  | .busy => false

inductive Status
  | loaded
  | swapped
  | noop
  | reloaded
  | verifyFailed
  deriving DecidableEq

/-- The answer to a reload. -/
structure Result where
  status : Status
  evicted : Option EngineId
  loadMs : ℚ
  identity : Identity
  replayed : Bool
  deriving DecidableEq

/-- What is raised: the kinds of `PreemptRefused`, a `SwapError`, any other
exception. -/
inductive Err
  | refused
  | unresolvable
  | targetMismatch
  | swapError
  | failed
  deriving DecidableEq

/-- A `PreemptRefused`. -/
def Err.refuses : Err → Bool
  | .refused | .unresolvable | .targetMismatch => true
  | .swapError | .failed => false

/-! ## Calls -/

/-- The model and the version that an operation names. -/
structure Want where
  modelName : Option String
  version : Option String
  deriving DecidableEq

/-- `β`: an adapter's binding. -/
inductive Op (β : Type)
  | registered (e : EngineId)
  | snapshotBinding
  | rebind
  | available (e : EngineId)
  | holder
  | ensureLoaded (e : EngineId)
  | unload (e : EngineId)
  | boundIdentity
  | loadedIdentity
  | batchActive
  | restoreBinding (b : β)
  | beginSwap (e : EngineId)
  | endSwap (e : EngineId)
  | retargetSwap (old new : EngineId)
  | enabled (e : EngineId)
  | wedged (e : EngineId)
  /-- the first section of an operation, under the table's lock -/
  | claim (operation : OperationId) (want : Want)
  | store (operation : OperationId) (result : Result)

/-- What the table says of an operation. -/
inductive Claimed
  | mismatch
  | stored (r : Result)
  | go
  deriving DecidableEq

/-- `none`, and `false` for a rebind or a reservation: it raises. -/
@[reducible] def Reply (β : Type) : Op β → Type
  | .registered _ | .enabled _ | .wedged _ => Bool
  | .rebind | .beginSwap _ => Bool
  | .snapshotBinding => β
  | .available _ => Option Bool
  | .holder => Option Holder
  | .ensureLoaded _ => Option ℚ
  | .unload _ => Option UnloadStatus
  | .boundIdentity => Identity
  | .loadedIdentity => Option Identity
  | .batchActive => Option Bool
  | .restoreBinding _ | .endSwap _ | .retargetSwap .. | .store .. => Unit
  | .claim .. => Claimed

variable {β : Type}

abbrev Prog (β α : Type) := Code (Op β) (Reply β) Err α

def ask (o : Op β) : Prog β (Reply β o) := Code.op o

/-- An answer, or an exception. -/
def orFailed {α : Type} : Option α → Prog β α
  | some a => pure a
  | none => .raise .failed

def refuseUnless (ok : Bool) : Prog β Unit := if ok then pure () else .raise .refused

def ensureLoaded (e : EngineId) : Prog β ℚ := ask (.ensureLoaded e) >>= orFailed

def unload (e : EngineId) : Prog β UnloadStatus := ask (.unload e) >>= orFailed

def available (e : EngineId) : Prog β Bool := ask (.available e) >>= orFailed

/-- `batch_active_fn()`, where one is given. -/
def batchActive (given : Bool) : Prog β Bool :=
  if given then ask .batchActive >>= orFailed else pure false

/-! ## The swap -/

structure Swapped where
  evicted : Option EngineId
  loadMs : ℚ

/-- The target is loaded in the freed slot, or the evicted engine again. -/
def loadFreed (target h : EngineId) : Prog β Swapped := do
  match ← (ensureLoaded target).result with
  | .ok ms => return ⟨some h, ms⟩
  | .error e =>
      ask (.retargetSwap target h)
      let _ ← (ensureLoaded h).result
      ask (.endSwap h)
      .raise e

def evict (target h : EngineId) : Prog β Swapped := do
  let status ← unload h
  if status.done then loadFreed target h else .raise .swapError

/-- Another engine has the slot. -/
def swapHeld (given : Bool) (target : EngineId) (h : Holder) : Prog β Swapped := do
  refuseUnless !h.job
  refuseUnless !(← batchActive given)
  refuseUnless (← ask (.registered h.tenant))
  refuseUnless (← ask (.enabled target))
  refuseUnless !(← ask (.wedged target))
  refuseUnless (← available target)
  evict target h.tenant

def loadOnly (target : EngineId) : Prog β Swapped := do return ⟨none, ← ensureLoaded target⟩

/-- A swap, the slot being reserved. -/
def swapReserved (given : Bool) (target : EngineId) : Prog β Swapped := do
  match ← ask .holder with
  | none => loadOnly target
  | some h => if h.tenant = target then loadOnly target else swapHeld given target h

/-- `preempt_for`. -/
def preemptFor (given : Bool) (target : EngineId) : Prog β Swapped := do
  refuseUnless (← ask (.registered target))
  refuseUnless (← ask (.beginSwap target))
  let out ← (swapReserved given target).result
  ask (.endSwap target)
  match out with
  | .ok swapped => return swapped
  | .error e => .raise e

/-! ## The reload -/

/-- The child of the served model is stopped and started with the new binding,
or with the prior one. -/
def forceReload (prior : β) : Prog β Result := do
  let status ← unload "llm"
  if status.done then
    match ← (ensureLoaded "llm").result with
    | .ok ms => return ⟨.reloaded, none, ms, ← ask .boundIdentity, false⟩
    | .error e =>
        ask (.restoreBinding prior)
        let _ ← (ensureLoaded "llm").result
        .raise e
  else .raise .swapError

/-- Another engine has the slot. -/
def reloadBySwap (given preempt : Bool) (h : Holder) : Prog β Result := do
  refuseUnless !h.job
  refuseUnless preempt
  let swapped ← preemptFor given "llm"
  return ⟨.swapped, swapped.evicted, swapped.loadMs, ← ask .boundIdentity, false⟩

def reloadNoop : Prog β Result := do return ⟨.noop, none, 0, ← ask .boundIdentity, false⟩

/-- Another model than the bound one is resident. -/
def reloadOther (given preempt : Bool) (prior : β) (h : Holder) : Prog β Result := do
  refuseUnless !h.job
  refuseUnless !(← batchActive given)
  refuseUnless preempt
  forceReload prior

/-- The served model has the slot. -/
def reloadHeld (given preempt : Bool) (prior : β) (h : Holder) : Prog β Result := do
  let loaded ← ask .loadedIdentity
  let bound ← ask .boundIdentity
  if loaded = some bound then reloadNoop else reloadOther given preempt prior h

def reloadFree : Prog β Result := do
  let ms ← ensureLoaded "llm"
  return ⟨.loaded, none, ms, ← ask .boundIdentity, false⟩

/-- `reload_serving_llm`. -/
def reloadServingLlm (given preempt : Bool) : Prog β Result := do
  refuseUnless (← ask (.registered "llm"))
  let prior ← ask .snapshotBinding
  if !(← ask .rebind) then .raise .failed
  else if !(← available "llm") then .raise .unresolvable
  else
    match ← ask .holder with
    | none => reloadFree
    | some h =>
        if h.tenant = "llm" then reloadHeld given preempt prior h
        else reloadBySwap given preempt h

/-! ## Operations -/

/-- `target` of a request, its version as a text. -/
structure Target where
  modelName : Option String
  version : Option String
  deriving DecidableEq

/-- An empty name names nothing. -/
def wantOf (target : Option Target) : Want where
  modelName := (target.bind Target.modelName).filter (· ≠ "")
  version := target.bind Target.version

/-- The identity a result reports. -/
def Result.got (r : Result) : Want := ⟨some r.identity.modelName, r.identity.version⟩

/-- A request to reload. -/
structure Request where
  operation : Option OperationId
  target : Option Target
  preempt : Bool
  deriving DecidableEq

/-- The operation of a request; an empty one is none. -/
def Request.key (q : Request) : Option OperationId := q.operation.filter (· ≠ "")

def Request.want (q : Request) : Want := wantOf q.target

/-- A result that names another model than was wanted is not a success. -/
def verified (want : Want) (r : Result) : Bool := want.modelName = none || r.got = want

/-- `reload_serving_llm_op`. -/
def reloadServingLlmOp (given : Bool) (q : Request) : Prog β Result :=
  match q.key with
  | none => reloadServingLlm given q.preempt
  | some operation => do
      match ← ask (.claim operation q.want) with
      | .mismatch => .raise .targetMismatch
      | .stored r => return { r with replayed := true }
      | .go =>
          let r ← reloadServingLlm given q.preempt
          if verified q.want r then
            ask (.store operation r)
            return r
          else return { r with status := .verifyFailed }

end MlopsLite.HostAgent.Reload
