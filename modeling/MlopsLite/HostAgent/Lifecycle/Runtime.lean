import MlopsLite.HostAgent.Coordinator.State
import MlopsLite.Lib.Interleaving

/-!
# Engine runtimes — operations

`EngineRuntime` (`hostagent/lifecycle.py`) over any admission, with the
transactional swap (`hostagent/swap.py`) and the lock a request holds
(`hostagent/main.py`). A control point is where a thread stands between two
accesses to what threads share: a runtime's lock, `_loading`, `child` or
`wedged_reason`, the processes, the admission. Every runtime here is a GPU
engine's.

A call that has not returned is kept as a caller (`UnloadCaller`, …), which
says where its thread goes on with the result.
-/

namespace MlopsLite.HostAgent

namespace Lifecycle

abbrev EngineId := ModelKey
abbrev ThreadId := Nat
abbrev ChildRef := Nat

/-! ## Shared state -/

/-- `EngineRuntime`, with its re-entrant lock as owner and depth. -/
structure Runtime where
  owner : Option ThreadId
  depth : Nat
  loading : Bool
  child : Option ChildRef
  wedged : Bool

/-- A runtime as constructed. -/
def Runtime.cold : Runtime :=
  { owner := none, depth := 0, loading := false, child := none, wedged := false }

/-- A process an adapter spawned, with the memory it has on the device. -/
structure Process where
  engine : EngineId
  alive : Bool
  used : Bytes

structure Host where
  runtimes : EngineId → Runtime
  processes : Dict ChildRef Process
  nextChild : ChildRef

def Host.init : Host := ⟨fun _ => .cold, .empty, 0⟩

structure Shared (σ : Type) where
  host : Host
  admission : σ

namespace Host

def setRuntime (x : Host) (e : EngineId) (f : Runtime → Runtime) : Host :=
  { x with runtimes := Function.update x.runtimes e (f (x.runtimes e)) }

/-- `child.poll() is None`. -/
def running (x : Host) (c : ChildRef) : Bool := (x.processes.get? c).any Process.alive

/-- The lock is free for `t`: nobody holds it, or `t` itself does. -/
def lockable (x : Host) (e : EngineId) (t : ThreadId) : Bool :=
  (x.runtimes e).owner = none || (x.runtimes e).owner = some t

def acquireLock (x : Host) (e : EngineId) (t : ThreadId) : Host :=
  x.setRuntime e fun r => { r with owner := some t, depth := r.depth + 1 }

def releaseLock (x : Host) (e : EngineId) : Host :=
  x.setRuntime e fun r =>
    { r with owner := if r.depth ≤ 1 then none else r.owner, depth := r.depth - 1 }

def setLoading (x : Host) (e : EngineId) (b : Bool) : Host :=
  x.setRuntime e fun r => { r with loading := b }

def setChild (x : Host) (e : EngineId) (c : Option ChildRef) : Host :=
  x.setRuntime e fun r => { r with child := c }

def setWedged (x : Host) (e : EngineId) (b : Bool) : Host :=
  x.setRuntime e fun r => { r with wedged := b }

/-- `adapter.spawn()`: a new process, which has allocated nothing yet. -/
def spawn (x : Host) (e : EngineId) : Host :=
  { x with
    processes := x.processes.insert x.nextChild { engine := e, alive := true, used := 0 }
    nextChild := x.nextChild + 1 }

def exits (x : Host) (c : ChildRef) : Host :=
  { x with processes := x.processes.modify c fun p => { p with alive := false } }

def grows (x : Host) (c : ChildRef) (used : Bytes) : Host :=
  { x with processes := x.processes.modify c fun p => { p with used } }

end Host

/-- What a call returned: `busy` is `unload`'s status of that name. -/
inductive Ret
  | ok
  | busy
  | raised
  deriving DecidableEq, Repr

/-! ## The admission -/

/-- Who asks for the GPU: an engine (`kind="serving"`) or a job. -/
inductive Tenant
  | engine (e : EngineId)
  | job (j : JobId)
  deriving DecidableEq, Repr

/-- What a step inside `acquire` or `set_child` leads to; `unload` calls back
into a runtime. -/
inductive Admit (α : Type)
  | goto (k : α)
  | unload (e : EngineId) (k : α)
  | ret (r : Ret)

/-- What a step inside `release` leads to. -/
inductive Drop (ρ : Type)
  | goto (k : ρ)
  | done

/-- The surface the runtimes use: `acquire` and `set_child` with their
control points `α`, `release` with its `ρ`, and the swap reservation. -/
structure AdmissionSurface (σ α ρ χ : Type) where
  acquire : Tenant → α
  setChild : EngineId → ChildRef → α
  acquireStep : ThreadId → χ → Host → σ → α → Option (σ × Admit α)
  release : Tenant → ρ
  releaseStep : ThreadId → χ → Host → σ → ρ → Option (σ × Drop ρ)
  beginSwap : EngineId → σ → Option σ
  endSwap : EngineId → σ → σ
  retargetSwap : EngineId → EngineId → σ → σ
  holder : σ → Option Tenant

/-! ## Control points -/

/-- `_resident()` reads `self.child` twice: once against `None`, once to poll it. -/
inductive Probe
  | child
  | poll
  deriving DecidableEq

inductive Probed
  | more
  | resident
  | absent
  | attributeError

def Host.probe (x : Host) (e : EngineId) : Probe → Probed
  | .child => match (x.runtimes e).child with
    | none => .absent
    | some _ => .more
  | .poll => match (x.runtimes e).child with
    | none => .attributeError
    | some c => if x.running c then .resident else .absent

inductive PreemptAt
  | beginSwap
  | holder
  | probe (h : EngineId)
  | retarget (h : EngineId)
  | endRollback (h : EngineId)
  | rolledBack
  | endSwap (r : Ret)
  deriving DecidableEq

inductive LoadAt
  | flag
  | lock
  | enter
  | resident (p : Probe)
  | ready
  | available
  | reap (p : Probe)
  | reaped
  | spawn
  | assign (c : ChildRef)
  | setChild
  | waiting
  | unlock (r : Ret)
  | unflag (r : Ret)
  deriving DecidableEq

inductive UnloadAt
  | lock
  | flag
  | unlock (r : Ret)
  deriving DecidableEq

inductive TeardownAt
  | resident (p : Probe)
  | child
  | wait (c : ChildRef)
  | wedge
  | clear
  | unwedge
  deriving DecidableEq

inductive IdleAt
  | lock
  | child
  | dead (p : Probe)
  | resident (p : Probe)
  | expired
  | unlock
  deriving DecidableEq

inductive RequestAt
  | lock (preempt : Bool)
  | forward
  | unlock
  deriving DecidableEq

inductive PreemptCaller
  | direct
  | request
  deriving DecidableEq

/-- `rollback target c`: reloads the engine that `preempt_for(target)` evicted. -/
inductive LoadCaller
  | direct
  | request
  | preempt (evicted : Option EngineId) (c : PreemptCaller)
  | rollback (target : EngineId) (c : PreemptCaller)
  deriving DecidableEq

inductive AcquireCaller
  | load (e : EngineId) (c : LoadCaller)
  | setChild (e : EngineId) (c : LoadCaller)
  | job
  deriving DecidableEq

/-- `reap` and `cleanup` are the two unloads inside `ensure_loaded`, of its
own engine; `admission` is one the admission asked for. -/
inductive UnloadCaller (α : Type)
  | direct
  | reap (c : LoadCaller)
  | cleanup (c : LoadCaller)
  | admission (k : α) (c : AcquireCaller)
  | preempt (target : EngineId) (c : PreemptCaller)
  | idleReap
  deriving DecidableEq

/-- `unload false`: the hard cut, which runs without the runtime lock. -/
inductive TeardownCaller (α : Type)
  | unload (drained : Bool) (c : UnloadCaller α)
  | idleReap
  deriving DecidableEq

inductive ReleaseCaller (α : Type)
  | teardown (e : EngineId) (c : TeardownCaller α)
  | job
  deriving DecidableEq

inductive Pc (α ρ : Type)
  | idle
  | request (e : EngineId) (k : RequestAt)
  | preempt (target : EngineId) (k : PreemptAt) (c : PreemptCaller)
  | load (e : EngineId) (k : LoadAt) (c : LoadCaller)
  | acquire (k : α) (c : AcquireCaller)
  | unload (e : EngineId) (k : UnloadAt) (c : UnloadCaller α)
  | teardown (e : EngineId) (k : TeardownAt) (c : TeardownCaller α)
  | release (k : ρ) (c : ReleaseCaller α)
  | idleReap (e : EngineId) (k : IdleAt)
  deriving DecidableEq

section Resume

variable {α ρ : Type}

/-! ## Returning to a caller -/

/-- Back in `_forward_under_lease`. -/
def requestResume (e : EngineId) : Ret → Pc α ρ
  | .ok => .request e .forward
  | _ => .request e .unlock

def PreemptCaller.resume (target : EngineId) (r : Ret) : PreemptCaller → Pc α ρ
  | .direct => .idle
  | .request => requestResume target r

def LoadCaller.resume (e : EngineId) (r : Ret) : LoadCaller → Pc α ρ
  | .direct => .idle
  | .request => requestResume e r
  | .preempt evicted c => match r, evicted with
    | .ok, _ => .preempt e (.endSwap .ok) c
    | _, none => .preempt e (.endSwap .raised) c
    | _, some h => .preempt e (.retarget h) c
  -- a rollback that fails is swallowed
  | .rollback target c => .preempt target (.endRollback e) c

def AcquireCaller.resume (r : Ret) : AcquireCaller → Pc α ρ
  | .load e c => match r with
    | .ok => .load e .spawn c
    | _ => .load e (.unlock .raised) c
  | .setChild e c => match r with
    | .ok => .load e .waiting c
    | _ => .unload e .lock (.cleanup c)
  | .job => .idle

def UnloadCaller.resume (e : EngineId) (r : Ret) : UnloadCaller α → Pc α ρ
  | .direct => .idle
  | .reap c => match r with
    | .raised => .load e (.unlock .raised) c
    | _ => .load e .reaped c
  | .cleanup c => .load e (.unlock .raised) c
  -- the coordinator discards the answer and swallows what is raised
  | .admission k c => .acquire k c
  | .preempt target c => match r with
    | .ok => .load target .flag (.preempt (some e) c)
    | _ => .preempt target (.endSwap .raised) c
  | .idleReap => .idleReap e .unlock

def TeardownCaller.resume (e : EngineId) (r : Ret) : TeardownCaller α → Pc α ρ
  | .unload true c => .unload e (.unlock r) c
  | .unload false c => c.resume e r
  | .idleReap => .idleReap e .unlock

def ReleaseCaller.resume : ReleaseCaller α → Pc α ρ
  | .teardown e c => c.resume e .ok
  | .job => .idle

end Resume

/-! ## Steps -/

inductive Call
  | load (e : EngineId)
  | unload (e : EngineId)
  | idleReap (e : EngineId)
  | request (e : EngineId) (preempt : Bool)
  | preempt (target : EngineId)
  | acquireJob (j : JobId)
  | releaseJob (j : JobId)
  deriving DecidableEq

/-- What a step leaves open. `fails` is what an adapter or a clock answers
against the call (disabled, unavailable, `spawn` raised, not ready in time,
not idle long enough); `exits` and `grows` are moves of a process. -/
inductive Choice (χ : Type)
  | call (c : Call)
  | go
  | ready
  | fails
  | admission (c : χ)
  | exits (c : ChildRef)
  | grows (c : ChildRef) (used : Bytes)

variable {σ α ρ χ : Type}

def Call.enter (adm : AdmissionSurface σ α ρ χ) : Call → Pc α ρ
  | .load e => .load e .flag .direct
  | .unload e => .unload e .lock .direct
  | .idleReap e => .idleReap e .lock
  | .request e p => .request e (.lock p)
  | .preempt target => .preempt target .beginSwap .direct
  | .acquireJob j => .acquire (adm.acquire (.job j)) .job
  | .releaseJob j => .release (adm.release (.job j)) .job

/-- `ensure_loaded` and `_spawn_and_wait`. -/
def loadStep (adm : AdmissionSurface σ α ρ χ) (t : ThreadId) (x : Host) (e : EngineId)
    (c : LoadCaller) : LoadAt → Choice χ → Option (Host × Pc α ρ)
  | .flag, .go => some (x.setLoading e true, .load e .lock c)
  | .lock, .go => if x.lockable e t then some (x.acquireLock e t, .load e .enter c) else none
  | .enter, .fails => some (x, .load e (.unlock .raised) c)
  | .enter, .go =>
      some (x, .load e (if (x.runtimes e).wedged then .unlock .raised else .resident .child) c)
  | .resident p, .go => some (x, .load e (match x.probe e p with
      | .more => .resident .poll
      | .resident => .ready
      | .absent => .available
      | .attributeError => .unlock .raised) c)
  | .ready, .ready => some (x, .load e (.unlock .ok) c)
  | .ready, .fails => some (x, .load e .available c)
  | .available, .fails => some (x, .load e (.unlock .raised) c)
  | .available, .go => some (x, .load e (.reap .child) c)
  | .reap p, .go => some (x, match x.probe e p with
      | .more => .load e (.reap .poll) c
      | .resident => .unload e .lock (.reap c)
      | .absent => .acquire (adm.acquire (.engine e)) (.load e c)
      | .attributeError => .load e (.unlock .raised) c)
  | .reaped, .go => some (x, if (x.runtimes e).wedged then .load e (.unlock .raised) c
      else .acquire (adm.acquire (.engine e)) (.load e c))
  | .spawn, .fails => some (x, .unload e .lock (.cleanup c))
  | .spawn, .go => some (x.spawn e, .load e (.assign x.nextChild) c)
  | .assign child, .go => some (x.setChild e (some child), .load e .setChild c)
  | .setChild, .go => some (x, match (x.runtimes e).child with
      | some child => .acquire (adm.setChild e child) (.setChild e c)
      | none => .unload e .lock (.cleanup c))
  | .waiting, .ready => some (x, .load e (.unlock .ok) c)
  | .waiting, .fails => some (x, .unload e .lock (.cleanup c))
  | .waiting, .go => some (x, if ((x.runtimes e).child).any x.running then .load e .waiting c
      else .unload e .lock (.cleanup c))
  | .unlock r, .go => some (x.releaseLock e, .load e (.unflag r) c)
  | .unflag r, .go => some (x.setLoading e false, c.resume e r)
  | _, _ => none

/-- `unload`: the lock, or `_loading` once the wait for it is over. -/
def unloadStep (t : ThreadId) (x : Host) (e : EngineId) (c : UnloadCaller α) :
    UnloadAt → Choice χ → Option (Host × Pc α ρ)
  | .lock, .go =>
      if x.lockable e t
      then some (x.acquireLock e t, .teardown e (.resident .child) (.unload true c))
      else some (x, .unload e .flag c)
  | .flag, .go => some (x, if (x.runtimes e).loading then c.resume e .busy
      else .teardown e (.resident .child) (.unload false c))
  | .unlock r, .go => some (x.releaseLock e, c.resume e r)
  | _, _ => none

/-- `_teardown`. -/
def teardownStep (adm : AdmissionSurface σ α ρ χ) (x : Host) (e : EngineId)
    (c : TeardownCaller α) : TeardownAt → Choice χ → Option (Host × Pc α ρ)
  | .resident p, .go => some (x, match x.probe e p with
      | .more => .teardown e (.resident .poll) c
      | .resident => .teardown e .child c
      | .absent => .teardown e .clear c
      | .attributeError => c.resume e .raised)
  | .child, .go => some (x, match (x.runtimes e).child with
      | some child => .teardown e (.wait child) c
      | none => c.resume e .raised)
  | .wait child, .go => some (x, .teardown e (if x.running child then .wedge else .clear) c)
  | .wedge, .go => some (x.setWedged e true, c.resume e .busy)
  | .clear, .go => some (x.setChild e none, .teardown e .unwedge c)
  | .unwedge, .go =>
      some (x.setWedged e false, .release (adm.release (.engine e)) (.teardown e c))
  | _, _ => none

/-- `idle_reap`. -/
def idleStep (t : ThreadId) (x : Host) (e : EngineId) : IdleAt → Choice χ → Option (Host × Pc α ρ)
  | .lock, .go => if x.lockable e t then some (x.acquireLock e t, .idleReap e .child) else none
  | .child, .go => some (x, .idleReap e (match (x.runtimes e).child with
      | some _ => .dead .child
      | none => .resident .child))
  | .dead p, .go => some (x, match x.probe e p with
      | .more => .idleReap e (.dead .poll)
      | .resident => .idleReap e (.resident .child)
      | .absent => .teardown e (.resident .child) .idleReap
      | .attributeError => .idleReap e .unlock)
  | .resident p, .go => some (x, .idleReap e (match x.probe e p with
      | .more => .resident .poll
      | .resident => .expired
      | .absent | .attributeError => .unlock))
  | .expired, .go => some (x, .unload e .lock .idleReap)
  | .expired, .fails => some (x, .idleReap e .unlock)
  | .unlock, .go => some (x.releaseLock e, .idle)
  | _, _ => none

/-- `_forward_under_lease`: the runtime lock is held across the forward. -/
def requestStep (t : ThreadId) (x : Host) (e : EngineId) :
    RequestAt → Choice χ → Option (Host × Pc α ρ)
  | .lock preempt, .go =>
      if x.lockable e t then some (x.acquireLock e t,
        if preempt then .preempt e .beginSwap .request else .load e .flag .request)
      else none
  | .forward, .go => some (x, .request e .unlock)
  | .unlock, .go => some (x.releaseLock e, .idle)
  | _, _ => none

/-- `preempt_for`. -/
def preemptStep (adm : AdmissionSurface σ α ρ χ) (x : Shared σ) (target : EngineId)
    (c : PreemptCaller) : PreemptAt → Choice χ → Option (Shared σ × Pc α ρ)
  | .beginSwap, .go => some (match adm.beginSwap target x.admission with
      | some a => ({ x with admission := a }, .preempt target .holder c)
      | none => (x, c.resume target .raised))
  | .holder, .go => some (x, match adm.holder x.admission with
      | none => .load target .flag (.preempt none c)
      | some (.job _) => .preempt target (.endSwap .raised) c
      | some (.engine h) =>
          if h = target then .load target .flag (.preempt none c)
          else .preempt target (.probe h) c)
  | .probe _, .fails => some (x, .preempt target (.endSwap .raised) c)
  | .probe h, .go => some (x, if (x.host.runtimes target).wedged
      then .preempt target (.endSwap .raised) c else .unload h .lock (.preempt target c))
  | .retarget h, .go =>
      some ({ x with admission := adm.retargetSwap target h x.admission },
        .load h .flag (.rollback target c))
  | .endRollback h, .go =>
      some ({ x with admission := adm.endSwap h x.admission }, .preempt target .rolledBack c)
  -- the outer `finally`, after a rollback
  | .rolledBack, .go =>
      some ({ x with admission := adm.endSwap target x.admission }, c.resume target .raised)
  | .endSwap r, .go =>
      some ({ x with admission := adm.endSwap target x.admission }, c.resume target r)
  | _, _ => none

def onHost (x : Shared σ) : Option (Host × Pc α ρ) → Option (Shared σ × Pc α ρ) :=
  Option.map fun r => ({ x with host := r.1 }, r.2)

/-- A thread runs to its next access. A process may exit or grow at any
time; it grows to `final` of its engine at most. -/
def advance (adm : AdmissionSurface σ α ρ χ) (final : EngineId → Bytes) :
    Interleaving.Program ThreadId (Shared σ) (Pc α ρ) (Choice χ) :=
  fun t choice x pc =>
    match choice with
    | .exits c => some ({ x with host := x.host.exits c }, pc)
    | .grows c used =>
        if (x.host.processes.get? c).any fun p => p.used ≤ used ∧ used ≤ final p.engine
        then some ({ x with host := x.host.grows c used }, pc) else none
    | choice =>
        match pc with
        | .idle => match choice with
          | .call call => some (x, call.enter adm)
          | _ => none
        | .request e k => onHost x (requestStep t x.host e k choice)
        | .preempt target k c => preemptStep adm x target c k choice
        | .load e k c => onHost x (loadStep adm t x.host e c k choice)
        | .unload e k c => onHost x (unloadStep t x.host e c k choice)
        | .teardown e k c => onHost x (teardownStep adm x.host e c k choice)
        | .idleReap e k => onHost x (idleStep t x.host e k choice)
        | .acquire k c => match choice with
          | .admission ch => (adm.acquireStep t ch x.host x.admission k).map fun r =>
              ({ x with admission := r.1 }, match r.2 with
                | .goto k' => .acquire k' c
                | .unload e k' => .unload e .lock (.admission k' c)
                | .ret r => c.resume r)
          | _ => none
        | .release k c => match choice with
          | .admission ch => (adm.releaseStep t ch x.host x.admission k).map fun r =>
              ({ x with admission := r.1 }, match r.2 with
                | .goto k' => .release k' c
                | .done => c.resume)
          | _ => none

end Lifecycle

end MlopsLite.HostAgent
