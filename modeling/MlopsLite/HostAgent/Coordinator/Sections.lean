import MlopsLite.HostAgent.Coordinator.State

/-!
# Coordinator — lock sections

One function for each critical section of `hostagent/coordinator.py`, as
the section computes on the state under the lock. What a section leaves to
the outside (NVML readings, the clock) is an argument. A removal's
`residents.pop` and generation bump are `dropEntry`, the pop being silent
when nothing is there.
-/

namespace MlopsLite.HostAgent

namespace Coordinator

/-! ## Stage 1 -/

/-- What stage 1 decides for the caller. -/
inductive Plan
  | done (o : Outcome)
  | awaitLoad (w : WaiterId)
  | awaitTransient
  | load (e : EntryId)
  | evictThenRetry (victims : List ModelKey)
  | assertionError
  deriving DecidableEq, Repr

/-- Record the reservation and the `loading` entry. -/
def reserve (co : Coordinator) (m : ModelKey) (est : Bytes) (op : OpId) : Coordinator :=
  { co with
    reservations := co.reservations.insert op
      { modelKey := m, estBytes := est, generation := co.generation m, materialized := false,
        waiters := [] }
    residents := co.residents.insert m (.loading co.nextEntry co.recencySeq)
    recencySeq := co.recencySeq + 1
    nextEntry := co.nextEntry + 1 }

/-- Join the load in flight: a new waiter at the end of its registry. -/
def join (co : Coordinator) (owner op : OpId) : Coordinator :=
  { co with
    reservations := co.reservations.modify owner fun r =>
      { r with waiters := r.waiters ++ [co.nextWaiter] }
    waiters := co.waiters.insert co.nextWaiter { opId := op, disposition := none }
    liveWaiters := co.liveWaiters.insert op co.nextWaiter
    nextWaiter := co.nextWaiter + 1 }

/-- Mark the victims and record the operation's eviction intent. -/
def evictVictims (co : Coordinator) (op : OpId) (vs : List ModelKey) : Coordinator :=
  { co.markVictims vs with evictIntent := co.evictIntent.insert op vs }

def fitsBudget (gpu : Gpu) (co : Coordinator) (est : Bytes) : Bool :=
  co.accounted + est ≤ gpu.usableCapacity

def fitsLive (gpu : Gpu) (co : Coordinator) (free : ℚ) (est : Bytes) : Bool :=
  (est : ℚ) ≤ free - co.unmaterialized - gpu.config.safetyHeadroomBytes

/-- `_stage1`. `free` and `free'` are its two NVML readings, the second
taken by the victim selection. -/
def stage1 (gpu : Gpu) (co : Coordinator) (m : ModelKey) (est : Bytes) (op : OpId)
    (free free' : ℚ) : Plan × Coordinator :=
  if co.barred then (.done (.refuse .exclusiveJob), co)
  else match co.residents.get? m with
    | some entry =>
        match entry.state with
        | .resident => (.done (.share co.nextClaim), co.grantClaim m op)
        | .loading =>
            match co.reservationFor m with
            | some owner => (.awaitLoad co.nextWaiter, co.join owner op)
            | none => (.awaitTransient, co)
        | _ => (.awaitTransient, co)
    | none =>
        if co.fitsBudget gpu est && co.fitsLive gpu free est then
          if (co.evictIntent.get? op).isSome then (.assertionError, co)
          else (.load co.nextEntry, co.reserve m est op)
        else
          match co.selectVictims gpu m free' est with
          | [] =>
              if (gpu.usableCapacity : ℚ) - gpu.config.safetyHeadroomBytes < est
              then (.done (.refuse .needsTooMuch), co)
              else (.done (.refuse .noEvictableCapacity), co)
          | victims => (.evictThenRetry victims, co.evictVictims op victims)

/-! ## Stage 2 -/

/-- A waiter's deadline passed with nothing assigned: deregister, so the
commit cannot count it. -/
def deregister (co : Coordinator) (op : OpId) (w : WaiterId) : Coordinator :=
  { co with
    reservations := co.reservations.map fun _ r => { r with waiters := r.waiters.erase w }
    waiters := co.waiters.modify w fun x =>
      { x with disposition := some (.outcome (.refuse .waiterDeadline)) }
    liveWaiters := co.liveWaiters.erase op }

/-- The lock section of `_await_load`: take the disposition, or deregister
and refuse. -/
def awaitLoad (co : Coordinator) (op : OpId) (w : WaiterId) : Disposition × Coordinator :=
  match (co.waiters.get? w).bind Waiter.disposition with
  | none => (.outcome (.refuse .waiterDeadline), co.deregister op w)
  | some d => (waiterOutcome d, { co with liveWaiters := co.liveWaiters.erase op })

/-! ## Stage 3 -/

/-- Write the measured size over the reservation; a deferred child leaves
its estimate standing. -/
def reconcile (co : Coordinator) (op : OpId) (child : Child) (realBytes : Bytes) : Coordinator :=
  if child.pid.isSome then
    { co with reservations := co.reservations.modify op fun r =>
        { r with estBytes := realBytes, materialized := true } }
  else co

inductive CommitPlan
  | committed (c : ClaimId) (ws : List WaiterId)
  | rollback (gen : Nat) (ws : List WaiterId) (d : Disposition)
  | keyError
  deriving DecidableEq, Repr

/-- A claim for one joiner, assigned in the section that mints it. -/
def grantWaiter (m : ModelKey) (co : Coordinator) (w : WaiterId) : Coordinator :=
  match co.waiters.get? w with
  | some x =>
      { co.grantClaim m x.opId with
        waiters := co.waiters.modify w fun x =>
          { x with disposition := some (.outcome (.share co.nextClaim)) } }
  | none => co

/-- Over capacity with this load's measured size and everyone ELSE's bytes. -/
def drift (gpu : Gpu) (co : Coordinator) (m : ModelKey) (op : OpId) (realBytes : Bytes) : Bool :=
  gpu.usableCapacity <
    (co.residents.total fun k x => if k = m then 0 else x.vramAccountedBytes) + realBytes +
      co.reservations.total fun o r => if o = op then 0 else r.estBytes

def stale (co : Coordinator) (m : ModelKey) (r : Reservation) : Bool :=
  co.generation m ≠ r.generation

/-- What a rolled-back load hands its joiners. -/
def rollbackDisposition (gpu : Gpu) (co : Coordinator) (m : ModelKey) (r : Reservation)
    (realBytes : Bytes) : Disposition :=
  if co.barred then .outcome (.refuse .jobClaimedGpu)
  else if co.stale m r then .retry
  else if (gpu.usableCapacity : ℚ) - gpu.config.safetyHeadroomBytes < realBytes
  then .outcome (.refuse .measuredTooLarge)
  else .outcome (.refuse .contentionDuringLoad)

/-- Drop the own reservation and take custody of its joiners. -/
def takeCustody (co : Coordinator) (op : OpId) (ws : List WaiterId) : Coordinator :=
  { co with
    reservations := co.reservations.erase op
    pendingDisposal := co.pendingDisposal.insert op ws }

/-- The entry as a commit writes it. -/
def settle (co : Coordinator) (m : ModelKey) (child : Child) (realBytes : Bytes) : Coordinator :=
  { co with residents := co.residents.modify m fun x =>
      { x with state := .resident, vramAccountedBytes := realBytes, child := some child,
               materialized := child.pid.isSome } }

/-- `loading` to `resident`, with a claim for the loader and for every joiner
in the same section. -/
def commitLoad (co : Coordinator) (m : ModelKey) (op : OpId) (child : Child) (realBytes : Bytes)
    (ws : List WaiterId) : Coordinator :=
  let settled := (co.settle m child realBytes).touch m
  let granted := ws.foldl (grantWaiter m) (settled.grantClaim m op)
  { granted with reservations := granted.reservations.erase op }

/-- The commit section of `_stage3`. -/
def commit (gpu : Gpu) (co : Coordinator) (m : ModelKey) (op : OpId) (child : Child)
    (realBytes : Bytes) : CommitPlan × Coordinator :=
  match co.reservations.get? op with
  | none => (.rollback (co.generation m) [] (.outcome (.refuse .reservationLost)), co)
  | some r =>
      if co.barred || co.stale m r || co.drift gpu m op realBytes then
        (.rollback r.generation r.waiters (co.rollbackDisposition gpu m r realBytes),
          -- `rolling_back` records INTENT only
          (co.setState m .rollingBack).takeCustody op r.waiters)
      else match co.residents.get? m with
        | none => (.keyError, co)
        | some _ =>
            (.committed co.nextClaim r.waiters, co.commitLoad m op child realBytes r.waiters)

/-- The section of `_load_failed`: drop the own reservation, take custody of
its joiners, and remove the `loading` entry while the generation says it is
still ours. -/
def loadFailed (co : Coordinator) (m : ModelKey) (op : OpId) : List WaiterId × Coordinator :=
  let ws := ((co.reservations.get? op).map Reservation.waiters).getD []
  let dropped := co.takeCustody op ws
  match co.residents.get? m, co.reservations.get? op with
  | some _, some r =>
      if co.generation m = r.generation then (ws, dropped.dropEntry m) else (ws, dropped)
  | _, _ => (ws, dropped)

/-! ## Eviction -/

/-- First section of `evict`: `false` when the model is already gone. -/
def evictEnter (co : Coordinator) (m : ModelKey) : Bool × Coordinator :=
  match co.residents.get? m with
  | none => (false, co)
  | some entry => (true, if entry.state = .resident then co.setState m .draining else co)

inductive DrainPlan
  | gone
  | drained (e : EntryId) (gen : Nat) (child : Option Child)
  | failed
  | wait
  deriving DecidableEq, Repr

/-- One pass of `evict`'s drain loop. The generation it returns is what the
coordinator reads at this moment; the source keeps no token here. -/
def evictDrain (co : Coordinator) (m : ModelKey) (timedOut : Bool) : DrainPlan × Coordinator :=
  match co.residents.get? m with
  | none => (.gone, co)
  | some entry =>
      if entry.activeRequests = 0 then
        (.drained entry.eid (co.generation m) entry.child, co.setState m .evicting)
      else if timedOut then
        -- under a barrier the entry stays `draining`: it is the job's now
        (.failed, if co.barred then co else co.setState m .resident)
      else (.wait, co)

def forget (co : Coordinator) (m : ModelKey) : Coordinator :=
  if (co.residents.get? m).isSome then co.dropEntry m else co

/-! ## Exclusive jobs -/

/-- Close the door and mark EVERY resident, not only the idle ones. -/
def raiseBarrier (co : Coordinator) : Coordinator :=
  { co with
    jobBarrier := true
    residents := co.residents.map fun _ r =>
      if r.state = .resident then { r with state := .draining } else r }

/-- Leave the serving set as it was found. -/
def dropBarrier (co : Coordinator) : Coordinator :=
  { co with
    jobBarrier := false
    residents := co.residents.map fun _ r =>
      if r.state = .draining then { r with state := .resident } else r }

def takeGpu (co : Coordinator) (job : JobId) (op : OpId) : Coordinator :=
  { co with exclusiveJob := some { jobId := job, op }, jobBarrier := false }

/-- First section of `admit_job`. -/
def jobEnter (co : Coordinator) : Bool × Coordinator :=
  if co.barred then (false, co) else (true, co.raiseBarrier)

def pending (co : Coordinator) : List ModelKey :=
  (co.residents.items.filter fun kv =>
    kv.2.state = .draining ∨ kv.2.state = .resident).map Prod.fst

def inFlight (co : Coordinator) : List ModelKey :=
  (co.residents.items.filter fun kv =>
    kv.2.state = .evicting ∨ kv.2.state = .rollingBack ∨ kv.2.state = .loading).map Prod.fst

/-- Last section of `admit_job`. -/
def jobClose (co : Coordinator) (job : JobId) (op : OpId) (drained : Bool) : Bool × Coordinator :=
  if !drained || !co.residents.isEmpty || !co.reservations.isEmpty then (false, co.dropBarrier)
  else (true, co.takeGpu job op)

/-- `end_job`; without an id it ends whichever job owns the GPU. -/
def endJob (co : Coordinator) (job : Option JobId) : Coordinator :=
  if job = none ∨ co.exclusiveJob.map ExclusiveJob.jobId = job
  then { co with exclusiveJob := none } else co

end Coordinator

end MlopsLite.HostAgent
