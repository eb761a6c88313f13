import MlopsLite.Lib.Dict

/-!
# Coordinator — state

The GPU coordinator's data (`hostagent/coordinator.py`) and its tunables
(`hostagent/gpuconfig.py`). Sizes are byte counts in exact arithmetic. A
Python object that is mutated through a reference is given an identity
here: a resident entry its `eid`, a claim and a waiter the key of its
table, a child its `ref`. The wall clock, the condition variable and the
admission log decide nothing and are left out.
-/

namespace MlopsLite.HostAgent

abbrev ModelKey := String
abbrev JobId := String
/-- One id per operation (`op-{uuid4}`). -/
abbrev OpId := Nat
abbrev EntryId := Nat
abbrev ClaimId := Nat
abbrev WaiterId := Nat
abbrev Bytes := ℚ≥0

/-! ## Tunables -/

structure CoordinatorConfig where
  safetyReserveBytes : ℚ
  safetyHeadroomBytes : ℚ
  maxAdmissionAttempts : Nat
  configuredBudgetBytes : Option ℚ

/-- `min(configured_budget, device_total - safety_reserve)`, never negative. -/
def CoordinatorConfig.usableCapacity (cfg : CoordinatorConfig) (deviceTotal : ℚ) : Bytes :=
  let fromDevice := deviceTotal - cfg.safetyReserveBytes
  match cfg.configuredBudgetBytes with
  | some budget => (min fromDevice budget).toNNRat
  | none => fromDevice.toNNRat

/-- What the coordinator is constructed over: its tunables and a device
whose total does not change. -/
structure Gpu where
  config : CoordinatorConfig
  totalBytes : ℚ

/-- A device of `total` bytes, all of them usable. -/
def Gpu.ofTotal (total : ℚ) : Gpu where
  config :=
    { safetyReserveBytes := 0, safetyHeadroomBytes := 0, maxAdmissionAttempts := 4,
      configuredBudgetBytes := none }
  totalBytes := total

def Gpu.usableCapacity (gpu : Gpu) : Bytes := gpu.config.usableCapacity gpu.totalBytes

/-! ## Outcomes -/

inductive RefuseCode
  | gpuBusy
  | modelTooLarge
  | loadFailed
  deriving DecidableEq, Repr

/-- Why admission was refused: one constructor for each `Refuse(...)` of the
source, in place of its message. -/
inductive Refusal
  | exclusiveJob
  | deadlineExceeded
  | attemptsExhausted
  | needsTooMuch
  | noEvictableCapacity
  | waiterDeadline
  | reservationLost
  | jobClaimedGpu
  | loadRolledBack
  | measuredTooLarge
  | contentionDuringLoad
  | failedToLoad
  deriving DecidableEq, Repr

def Refusal.code : Refusal → RefuseCode
  | .needsTooMuch | .measuredTooLarge => .modelTooLarge
  | .failedToLoad => .loadFailed
  | _ => .gpuBusy

inductive Outcome
  | share (c : ClaimId)
  | grant (c : ClaimId)
  | refuse (r : Refusal)
  deriving DecidableEq, Repr

/-- What a load owner hands its joiners: its outcome, or `RETRY`. -/
inductive Disposition
  | outcome (o : Outcome)
  | retry
  deriving DecidableEq, Repr

/-- What the load owner itself returns for a disposition. -/
def Disposition.toOutcome : Disposition → Outcome
  | .outcome o => o
  | .retry => .refuse .loadRolledBack

/-! ## The resident set -/

inductive ResidentState
  | loading
  | resident
  | draining
  | evicting
  | rollingBack
  deriving DecidableEq, Repr

/-- `TRANSIENT`: an owning operation is mid-way through. -/
def ResidentState.transient : ResidentState → Bool
  | .draining | .evicting | .rollingBack => true
  | _ => false

/-- A loaded child; `pid = none` is a DEFERRED one (the caller spawns it). -/
structure Child where
  ref : Nat
  pid : Option Nat
  deriving DecidableEq, Repr

structure ResidentModel where
  eid : EntryId
  state : ResidentState
  vramAccountedBytes : Bytes
  activeRequests : Nat
  recencySeq : Nat
  child : Option Child
  materialized : Bool

/-- `ResidentModel(model_key, LOADING, seq=...)`. -/
def ResidentModel.loading (eid : EntryId) (seq : Nat) : ResidentModel :=
  { eid, state := .loading, vramAccountedBytes := 0, activeRequests := 0, recencySeq := seq,
    child := none, materialized := true }

structure Reservation where
  modelKey : ModelKey
  estBytes : Bytes
  generation : Nat
  materialized : Bool
  waiters : List WaiterId

structure Waiter where
  opId : OpId
  disposition : Option Disposition
  deriving DecidableEq, Repr

structure Claim where
  modelKey : ModelKey
  opId : OpId
  released : Bool
  /-- The entry the claim was minted on. The source keeps the model key
  only, and releases through it. -/
  entry : EntryId
  deriving DecidableEq, Repr

structure ExclusiveJob where
  jobId : JobId
  /-- The `admit_job` call that took the GPU. -/
  op : OpId
  deriving DecidableEq, Repr

/-! ## The coordinator -/

structure Coordinator where
  residents : Dict ModelKey ResidentModel
  reservations : Dict OpId Reservation
  exclusiveJob : Option ExclusiveJob
  jobBarrier : Bool
  generation : ModelKey → Nat
  loadGate : Bool
  claimIds : ModelKey → Finset ClaimId
  recencySeq : Nat
  liveWaiters : Dict OpId WaiterId
  pendingDisposal : Dict OpId (List WaiterId)
  evictIntent : Dict OpId (List ModelKey)
  claims : Dict ClaimId Claim
  waiters : Dict WaiterId Waiter
  nextEntry : EntryId
  nextClaim : ClaimId
  nextWaiter : WaiterId
  nextChild : Nat

/-- A coordinator as constructed: nothing resident, nothing reserved. -/
def Coordinator.init : Coordinator where
  residents := .empty
  reservations := .empty
  exclusiveJob := none
  jobBarrier := false
  generation _ := 0
  loadGate := true
  claimIds _ := ∅
  recencySeq := 1
  liveWaiters := .empty
  pendingDisposal := .empty
  evictIntent := .empty
  claims := .empty
  waiters := .empty
  nextEntry := 0
  nextClaim := 1
  nextWaiter := 0
  nextChild := 0

namespace Coordinator

/-! ## Derived quantities -/

/-- Invariant 1's left side: every resident's accounted bytes plus EVERY
reservation. -/
def accounted (co : Coordinator) : Bytes :=
  co.residents.total (fun _ r => r.vramAccountedBytes) +
    co.reservations.total (fun _ r => r.estBytes)

/-- Invariant 2's deduction: bytes committed to, not yet in live-free. -/
def unmaterialized (co : Coordinator) : Bytes :=
  co.reservations.total (fun _ r => if r.materialized then 0 else r.estBytes) +
    co.residents.total (fun _ r => if r.materialized then 0 else r.vramAccountedBytes)

/-- A removal's `residents.pop` and `_bump_generation`, which every remover
does in one section. -/
def dropEntry (co : Coordinator) (m : ModelKey) : Coordinator :=
  { co with
    residents := co.residents.erase m
    generation := Function.update co.generation m (co.generation m + 1) }

/-- The FIRST reservation for a model, in recording order. -/
def reservationFor (co : Coordinator) (m : ModelKey) : Option OpId :=
  (co.reservations.items.find? fun kv => kv.2.modelKey = m).map Prod.fst

/-- The exclusive phase: a job owns the GPU or is on its way to. -/
def barred (co : Coordinator) : Bool := co.jobBarrier || co.exclusiveJob.isSome

/-- Write one entry's state. -/
def setState (co : Coordinator) (m : ModelKey) (st : ResidentState) : Coordinator :=
  { co with residents := co.residents.modify m fun r => { r with state := st } }

def touch (co : Coordinator) (m : ModelKey) : Coordinator :=
  { co with
    residents := co.residents.modify m fun r => { r with recencySeq := co.recencySeq }
    recencySeq := co.recencySeq + 1 }

/-! ## Claims -/

/-- Mint a claim and increment, in the section that observed `resident`. -/
def grantClaim (co : Coordinator) (m : ModelKey) (op : OpId) : Coordinator :=
  let entry := ((co.residents.get? m).map ResidentModel.eid).getD 0
  let co₁ := { co with
    residents := co.residents.modify m fun r => { r with activeRequests := r.activeRequests + 1 } }
  { co₁.touch m with
    claims := co.claims.insert co.nextClaim
      { modelKey := m, opId := op, released := false, entry }
    claimIds := Function.update co.claimIds m (insert co.nextClaim (co.claimIds m))
    nextClaim := co.nextClaim + 1 }

/-- `Claim.release`: idempotent, and through the model key. -/
def releaseClaim (co : Coordinator) (c : ClaimId) : Coordinator :=
  match co.claims.get? c with
  | none => co
  | some claim =>
      if claim.released then co
      else
        let m := claim.modelKey
        let co₁ := { co with
          residents := co.residents.modify m fun r =>
            { r with activeRequests := r.activeRequests - 1 } }
        -- `_touch` is under the `entry is not None` guard
        let co₂ := if (co.residents.get? m).isSome then co₁.touch m else co₁
        { co₂ with
          claims := co.claims.modify c fun x => { x with released := true }
          claimIds := Function.update co.claimIds m ((co.claimIds m).erase c) }

/-! ## Waiters -/

/-- Assign a disposition to a waiter that has none. -/
def assign (ws : Dict WaiterId Waiter) (d : Disposition) (w : WaiterId) : Dict WaiterId Waiter :=
  ws.modify w fun x => if x.disposition.isNone then { x with disposition := some d } else x

/-- Hand every joiner the load owner's disposition (`_dispose`). -/
def dispose (co : Coordinator) (ws : List WaiterId) (d : Disposition) (owner : OpId) :
    Coordinator :=
  { co with
    waiters := ws.foldl (fun acc w => assign acc d w) co.waiters
    liveWaiters := ws.foldl (fun live w => match co.waiters.get? w with
      | some x => live.erase x.opId
      | none => live) co.liveWaiters
    pendingDisposal := co.pendingDisposal.erase owner }

/-- A retryable refusal sends the waiter back to stage 1. -/
def waiterOutcome : Disposition → Disposition
  | .outcome (.refuse r) => if r.code = .gpuBusy then .retry else .outcome (.refuse r)
  | d => d

/-! ## Victim selection -/

/-- Idle first, then least recently used. -/
def victimOrder (a b : ModelKey × ResidentModel) : Bool :=
  if (0 < a.2.activeRequests) = (0 < b.2.activeRequests)
  then a.2.recencySeq ≤ b.2.recencySeq
  else a.2.activeRequests = 0

/-- Only materialized entries in state `resident` are eligible. -/
def eligible (co : Coordinator) (m : ModelKey) : List (ModelKey × ResidentModel) :=
  (co.residents.items.filter fun kv =>
    kv.1 ≠ m ∧ kv.2.state = .resident ∧ kv.2.materialized).insertionSort
      fun a b => victimOrder a b = true

/-- Whether `est` fits both bounds once `freed` bytes are given back. -/
def fitsAfter (gpu : Gpu) (co : Coordinator) (free : ℚ) (est freed : Bytes) : Bool :=
  (co.accounted : ℚ) - freed + est ≤ gpu.usableCapacity ∧
    (est : ℚ) ≤ (free + freed) - co.unmaterialized - gpu.config.safetyHeadroomBytes

/-- The victim loop: take entries in order until both bounds hold. -/
def takeVictims (gpu : Gpu) (co : Coordinator) (free : ℚ) (est : Bytes) :
    List (ModelKey × ResidentModel) → List ModelKey → Bytes → List ModelKey
  | [], _, _ => []
  | (k, v) :: rest, chosen, freed =>
      let freed' := freed + v.vramAccountedBytes
      if fitsAfter gpu co free est freed' then chosen ++ [k]
      else takeVictims gpu co free est rest (chosen ++ [k]) freed'

def selectVictims (gpu : Gpu) (co : Coordinator) (m : ModelKey) (free : ℚ) (est : Bytes) :
    List ModelKey :=
  takeVictims gpu co free est (co.eligible m) [] 0

/-- `victim.state = DRAINING` for each chosen victim. -/
def markVictims (co : Coordinator) (vs : List ModelKey) : Coordinator :=
  { co with residents := co.residents.map fun k r =>
      if k ∈ vs then { r with state := .draining } else r }

end Coordinator

end MlopsLite.HostAgent
