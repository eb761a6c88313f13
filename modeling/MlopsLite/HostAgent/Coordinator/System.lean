import MlopsLite.HostAgent.Coordinator.Sections
import MlopsLite.Lib.Interleaving

/-!
# Coordinator — operations

Every method of `hostagent/coordinator.py` as a sequence of atomic lock
sections: a control point (`Pc`) is where an operation stands between two
of them, with its locals. One thread runs one operation. An unload outside
the lock is a step of its own (`rollback`, `failedUnload`, `evicting`), as
is taking the load gate.

An `EntryId` and a generation in a control point name the entry the
operation drained or created and the token it saw then. `evict` itself
keeps no token, and a load keeps its own in the reservation.
-/

namespace MlopsLite.HostAgent

open Coordinator

/-! ## Control points -/

inductive Call
  | admitServing (m : ModelKey) (est : Bytes)
  | evict (m : ModelKey)
  | forget (m : ModelKey)
  | release (c : ClaimId)
  | admitJob (j : JobId)
  | endJob (j : Option JobId)

/-- What a section leaves open: the call to make, the clock against the
deadline, the NVML readings, how a load ends. -/
inductive Choice
  | start (call : Call)
  | go
  | expired
  | freeBytes (free free' : ℚ)
  | loadRaised
  | loadReturned (pid : Option Nat) (reading : Option Bytes)

/-- Who called `evict`, and what it does next. -/
inductive Caller
  | direct
  | victims (m : ModelKey) (est : Bytes) (n : Nat) (rest : List ModelKey)
  | drain (j : JobId) (rest : List ModelKey)
  deriving DecidableEq

inductive Pc
  | idle
  | attempt (m : ModelKey) (est : Bytes) (n : Nat)
  | awaitLoad (m : ModelKey) (est : Bytes) (n : Nat) (w : WaiterId)
  | awaitTransient (m : ModelKey) (est : Bytes) (n : Nat)
  | clearIntent (m : ModelKey) (est : Bytes) (n : Nat)
  | gate (m : ModelKey) (est : Bytes) (e : EntryId)
  | load (m : ModelKey) (est : Bytes) (e : EntryId)
  | reconcile (m : ModelKey) (e : EntryId) (child : Child) (realBytes : Bytes)
  | commit (m : ModelKey) (e : EntryId) (child : Child) (realBytes : Bytes)
  | rollback (m : ModelKey) (e : EntryId) (gen : Nat) (child : Child) (ws : List WaiterId)
      (d : Disposition)
  | rolledBack (m : ModelKey) (e : EntryId) (gen : Nat) (ws : List WaiterId) (d : Disposition)
  | loadFailed (m : ModelKey) (e : EntryId) (child : Option Child)
  | failedUnload (m : ModelKey) (e : EntryId) (child : Child) (ws : List WaiterId)
  | dispose (ws : List WaiterId) (d : Disposition) (holdsGate : Bool)
  | evict (m : ModelKey) (k : Caller)
  | draining (m : ModelKey) (k : Caller)
  | evicting (m : ModelKey) (e : EntryId) (gen : Nat) (child : Option Child) (k : Caller)
  | evicted (m : ModelKey) (e : EntryId) (gen : Nat) (k : Caller)
  | jobDrain (j : JobId)
  | jobClose (j : JobId) (drained : Bool)
  | served (o : Outcome)
  | finished (ok : Bool)
  | raised
  deriving DecidableEq

/-- Where an operation stands once its `evict` has returned. -/
def Caller.resume : Caller → Bool → Pc
  | .direct, ok => .finished ok
  | .victims m est n [], _ => .clearIntent m est n
  | .victims m est n (v :: rest), _ => .evict v (.victims m est n rest)
  | .drain j [], _ => .jobDrain j
  | .drain j (v :: rest), _ => .evict v (.drain j rest)

/-- Where `admit_serving` goes on a plan of stage 1. -/
def Coordinator.Plan.resume (m : ModelKey) (est : Bytes) (n : Nat) : Plan → Pc
  | .done o => .served o
  | .awaitLoad w => .awaitLoad m est n w
  | .awaitTransient => .awaitTransient m est n
  | .load e => .gate m est e
  | .evictThenRetry victims => Caller.resume (.victims m est n victims) true
  | .assertionError => .raised

def Coordinator.CommitPlan.resume (m : ModelKey) (e : EntryId) (child : Child) : CommitPlan → Pc
  | .committed c ws => .dispose ws (.outcome (.grant c)) false
  | .rollback gen ws d => .rollback m e gen child ws d
  | .keyError => .raised

/-- A failed load unloads a partial child before it fails its joiners. -/
def Pc.afterFailure (m : ModelKey) (e : EntryId) (ws : List WaiterId) : Option Child → Pc
  | some child => .failedUnload m e child ws
  | none => .dispose ws (.outcome (.refuse .failedToLoad)) true

def Coordinator.DrainPlan.resume (m : ModelKey) (k : Caller) : DrainPlan → Pc
  | .gone => k.resume true
  | .drained e gen child => .evicting m e gen child k
  | .failed => k.resume false
  | .wait => .draining m k

namespace Coordinator

/-! ## Atomic steps -/

/-- The first section of a call, or all of it where it has only one. -/
def enter (co : Coordinator) : Call → Coordinator × Pc
  | .admitServing m est => (co, .attempt m est 1)
  | .evict m => (co, .evict m .direct)
  | .forget m => (co.forget m, .finished (co.residents.get? m).isSome)
  | .release c => (co.releaseClaim c, .finished true)
  | .admitJob j => (co.jobEnter.2, if co.jobEnter.1 then .jobDrain j else .finished false)
  | .endJob j => (co.endJob j, .finished true)

/-- `lifecycle.load` and the per-PID reading, outside the lock and with the
gate held. -/
def loadChild (co : Coordinator) (m : ModelKey) (est : Bytes) (e : EntryId) :
    Choice → Option (Coordinator × Pc)
  | .loadRaised => some (co, .loadFailed m e none)
  | .loadReturned pid reading =>
      let child : Child := { ref := co.nextChild, pid }
      let co' := { co with nextChild := co.nextChild + 1 }
      match pid, reading with
      | none, _ => some (co', .reconcile m e child est)
      | some _, some realBytes => some (co', .reconcile m e child realBytes)
      | some _, none => some (co', .loadFailed m e (some child))
  | _ => none

/-- One pass of `_drain_serving_set`. -/
def drainServingSet (co : Coordinator) (j : JobId) (timedOut : Bool) : Pc :=
  if co.pending.isEmpty && co.inFlight.isEmpty then .jobClose j true
  else if timedOut then .jobClose j false
  else Caller.resume (.drain j co.pending) true

def expires : Choice → Option Bool
  | .go => some false
  | .expired => some true
  | _ => none

/-- Operation `op` runs its next atomic section. -/
def advance (gpu : Gpu) : Interleaving.Program OpId Coordinator Pc Choice :=
  fun op choice co pc =>
    match pc, choice with
    | .idle, .start call => some (co.enter call)
    | .attempt m est n, choice =>
        if gpu.config.maxAdmissionAttempts < n
        then some (co, .served (.refuse .attemptsExhausted))
        else match choice with
          | .expired => some (co, .served (.refuse .deadlineExceeded))
          | .freeBytes free free' =>
              let r := co.stage1 gpu m est op free free'
              some (r.2, r.1.resume m est n)
          | _ => none
    | .awaitLoad m est n w, .go =>
        let r := co.awaitLoad op w
        some (r.2, match r.1 with
          | .outcome o => .served o
          | .retry => .attempt m est (n + 1))
    | .awaitTransient m est n, choice =>
        (expires choice).map fun timedOut =>
          if !timedOut && ((co.residents.get? m).any fun x => x.state.transient)
          then (co, .awaitTransient m est n)
          else (co, .attempt m est (n + 1))
    | .clearIntent m est n, .go =>
        some ({ co with evictIntent := co.evictIntent.erase op }, .attempt m est (n + 1))
    | .gate m est e, .go =>
        if co.loadGate then some ({ co with loadGate := false }, .load m est e) else none
    | .load m est e, choice => co.loadChild m est e choice
    | .reconcile m e child realBytes, .go =>
        some ({ co.reconcile op child realBytes with loadGate := true },
          .commit m e child realBytes)
    | .commit m e child realBytes, .go =>
        let r := co.commit gpu m op child realBytes
        some (r.2, r.1.resume m e child)
    | .rollback m e gen _ ws d, .go => some (co, .rolledBack m e gen ws d)
    | .rolledBack m _ _ ws d, .go => some (co.dropEntry m, .dispose ws d false)
    | .loadFailed m e child, .go =>
        let r := co.loadFailed m op
        some (r.2, Pc.afterFailure m e r.1 child)
    | .failedUnload _ _ _ ws, .go =>
        some (co, .dispose ws (.outcome (.refuse .failedToLoad)) true)
    | .dispose ws d holdsGate, .go =>
        let co' := co.dispose ws d op
        some (if holdsGate then { co' with loadGate := true } else co', .served d.toOutcome)
    | .evict m k, .go =>
        let r := co.evictEnter m
        some (r.2, if r.1 then .draining m k else k.resume true)
    | .draining m k, choice =>
        (expires choice).map fun timedOut =>
          let r := co.evictDrain m timedOut
          (r.2, r.1.resume m k)
    | .evicting m e gen _ k, .go => some (co, .evicted m e gen k)
    | .evicted m _ _ k, .go => some (co.dropEntry m, k.resume true)
    | .jobDrain j, choice =>
        (expires choice).map fun timedOut => (co, co.drainServingSet j timedOut)
    | .jobClose j drained, .go =>
        let r := co.jobClose j op drained
        some (r.2, .finished r.1)
    | _, _ => none

/-! ## The system -/

abbrev Sys := Interleaving.State OpId Coordinator Pc

abbrev Act := OpId × Choice

/-- No operation has begun. -/
def Sys.init : Sys := ⟨Coordinator.init, fun _ => .idle⟩

abbrev next (gpu : Gpu) : Sys → Act → Option Sys := Interleaving.next (advance gpu)

/-- Every state of every interleaving. -/
abbrev Reachable (gpu : Gpu) : Sys → Prop := Runs.Reachable (next gpu) Runs.anyStep Sys.init

end Coordinator

end MlopsLite.HostAgent
