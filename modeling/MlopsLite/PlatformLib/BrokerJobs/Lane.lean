import MlopsLite.Lib.Interleaving
import MlopsLite.Lib.Ranked
import MlopsLite.Lib.Versions
import MlopsLite.PlatformLib.Metering.Store

/-!
# Broker jobs — the lane

The jobs lane (`platformlib/storeimpl/brokerjobs.py`) and the owner override
over it (`job_override` of `hostagent/gpuroutes.py`) as concurrent calls on
the table `broker_jobs` of `003_broker.sql`, under READ COMMITTED. A step is
one statement, one row of an UPDATE of several rows, or a commit. Such an
UPDATE fixes its rows when it begins and comes to them one by one: it waits
for a row that is locked and judges it again as it then stands. Every row it
writes passes the CHECK and the two partial unique indexes (`put`).
-/

namespace MlopsLite.PlatformLib

abbrev JobId := String

/-! ## The table -/

inductive JobState
  | queued
  | running
  | succeeded
  | failed
  | cancelled
  | interrupted
  deriving DecidableEq, Repr

/-- `TERMINAL`. -/
def JobState.terminal : JobState → Bool
  | .succeeded | .failed | .cancelled | .interrupted => true
  | .queued | .running => false

inductive JobKind
  | batch
  | finetune
  | hpo
  deriving DecidableEq, Repr

/-- A row of `broker_jobs`, under its `id`. -/
structure BrokerJob where
  tenantId : TenantId
  kind : JobKind
  spec : String
  sandbox : String
  state : JobState
  queuePos : Option ℤ
  artifactRef : Option String
  modelVersion : Option String
  gpuSeconds : Option ℚ
  startedAt : Option Time
  deriving DecidableEq

/-- What a job is submitted with. -/
structure NewJob where
  id : JobId
  tenantId : TenantId
  kind : JobKind
  spec : String
  sandbox : String
  deriving DecidableEq

/-- What a finished job leaves. -/
structure Usage where
  gpuSeconds : Option ℚ
  artifactRef : Option String
  modelVersion : Option String
  deriving DecidableEq

/-- The table, and who holds the advisory lock `_LANE_LOCK_KEY`. -/
structure Lane where
  rows : Versions.Table JobId CallId BrokerJob
  advisory : Option CallId

/-- The temporary offset of the two-pass renumbering. -/
def shiftOffset : ℤ := 1000000

def BrokerJob.isQueued (j : BrokerJob) : Bool := j.state = .queued

def BrokerJob.isRunning (j : BrokerJob) : Bool := j.state = .running

/-- The key of the index `broker_jobs_queue_order`. -/
def BrokerJob.at (p : ℤ) (j : BrokerJob) : Bool := j.state = .queued ∧ j.queuePos = some p

namespace Lane

def init : Lane := ⟨.empty, none⟩

/-- The lane position of a row, as a call reads it. -/
def posOf (read : JobId → Option BrokerJob) (id : JobId) : Option ℤ :=
  (read id).bind fun j => if j.state = .queued then j.queuePos else none

/-- `list_queued_broker_jobs`, by id. -/
def listQueued (x : Lane) (t : CallId) : List JobId :=
  Ranked.rankedBy x.rows.keys (posOf (Versions.view x.rows t))

/-- The lane as committed. -/
def order (x : Lane) : List JobId :=
  Ranked.rankedBy x.rows.keys (posOf (Versions.committed x.rows))

/-- The ids of the rows a statement of `t` selects. -/
def select (x : Lane) (t : CallId) (p : BrokerJob → Bool) : List JobId :=
  x.rows.keys.filter fun id => (Versions.view x.rows t id).any p

/-- `coalesce(max(queue_pos), 0) + 1` over the queued rows. -/
def nextPos (x : Lane) (t : CallId) : ℤ :=
  (x.rows.keys.filterMap (posOf (Versions.view x.rows t))).foldl max 0 + 1

/-- How a row is written: not yet, against a constraint, or done. -/
inductive Put
  | waits
  | violates
  | done (x : Lane)

/-- Write a row, past the CHECK `broker_jobs_queue_pos_when_queued` and the
indexes `broker_jobs_queue_order` and `broker_jobs_one_running`. -/
def put (x : Lane) (t : CallId) (id : JobId) (j : BrokerJob) : Put :=
  if j.isQueued ≠ j.queuePos.isSome then .violates
  else
    let key : BrokerJob → Bool := fun k =>
      (j.isQueued && j.queuePos.any fun p => k.at p) || (j.isRunning && k.isRunning)
    if Versions.waits x.rows t id key then .waits
    else if Versions.taken x.rows t id key then .violates
    else .done { x with rows := Versions.write x.rows t id j }

/-- `UPDATE … WHERE id = … AND guard`: nothing to do, or a row to wait for, or
to write. -/
def update (x : Lane) (t : CallId) (id : JobId) (guard : BrokerJob → Bool)
    (f : BrokerJob → BrokerJob) : Put :=
  match Versions.view x.rows t id with
  | none => .done x
  | some j =>
      if guard j then
        if Versions.free x.rows t id then x.put t id (f j) else .waits
      else .done x

/-- Write one of the rows an UPDATE has fixed, if the guard still holds of it. -/
def rewrite (x : Lane) (t : CallId) (id : JobId) (guard : BrokerJob → Bool)
    (f : BrokerJob → BrokerJob) : Put :=
  if Versions.free x.rows t id then x.update t id guard f else .waits

def commit (x : Lane) (t : CallId) : Lane :=
  { rows := Versions.commit x.rows t
    advisory := if x.advisory = some t then none else x.advisory }

def rollback (x : Lane) (t : CallId) : Lane :=
  { rows := Versions.rollback x.rows t
    advisory := if x.advisory = some t then none else x.advisory }

end Lane

/-! ## Calls -/

inductive LaneCall
  | enqueue (j : NewJob)
  | start (id : JobId)
  | finish (id : JobId) (state : JobState) (usage : Usage)
  | cancel (id : JobId)
  | reorder (id : JobId) (position : ℤ)
  | pin (id : JobId)
  | recover
  | override (id : JobId) (action : String) (position : Option ℤ)
  deriving DecidableEq

/-- What a step leaves open: the call, the clock of the database, the order in
which an UPDATE comes to its rows, a failure of the statement or of its
connection. -/
inductive LaneChoice
  | call (c : LaneCall)
  | go
  | now (at' : Time)
  | scan (ids : List JobId)
  | fails

/-- What a call raises: `StoreError`, `ValueError` of `queued.remove`, an error
of the database. -/
inductive LaneError
  | store
  | value
  | database
  deriving DecidableEq, Repr

/-- Who called: another part of the agent, or the override route. -/
inductive Caller
  | store
  | route
  deriving DecidableEq, Repr

/-- `queued.remove`, and `queued.insert` at the 1-based position, clamped. -/
def moveTo (id : JobId) (position : ℤ) (queued : List JobId) : List JobId :=
  let rest := queued.erase id
  let index := max 0 (min (rest.length : ℤ) (position - 1))
  rest.insertIdx index.toNat id

/-- A renumbering: of the list a reorder has read, to move `id`; or of the lane
as ranked, `id` cancelled. -/
inductive Mover
  | reorder (id : JobId) (position : ℤ) (queued : List JobId)
  | compact (id : JobId) (ranked : List JobId)
  deriving DecidableEq

/-- The jobs in the order they are to have. -/
def Mover.target : Mover → List JobId
  | .reorder id position queued => moveTo id position queued
  | .compact _ ranked => ranked

/-- Their temporary positions. -/
def Mover.place (m : Mover) (id : JobId) : ℤ := m.target.idxOf id + 1 + shiftOffset

inductive LanePc
  | idle
  | enqueueLock (j : NewJob)
  | enqueueMax (j : NewJob)
  | enqueueInsert (j : NewJob) (pos : ℤ)
  | enqueueCommit (j : NewJob)
  | start (id : JobId)
  | finish (id : JobId) (state : JobState) (usage : Usage)
  | overrideRead (id : JobId) (action : String) (position : Option ℤ)
  | overrideLength (id : JobId) (action : String)
  | cancelRead (via : Caller) (id : JobId)
  | cancelUpdate (via : Caller) (id : JobId)
  | compact (via : Caller) (id : JobId)
  | reorderRead (via : Caller) (id : JobId) (position : ℤ)
  | reorderList (via : Caller) (id : JobId) (position : ℤ)
  | placing (via : Caller) (m : Mover) (todo : List JobId)
  | shift (via : Caller) (m : Mover)
  | lowering (via : Caller) (m : Mover) (todo : List JobId)
  | commit (via : Caller) (m : Mover)
  | recoverSelect
  | recoverUpdate (interrupted : List (JobId × Option Time))
  | recovering (interrupted : List (JobId × Option Time)) (todo : List JobId)
  | recoverCommit (interrupted : List (JobId × Option Time))
  | returned
  | recovered (interrupted : List (JobId × Option Time))
  | answered (status : ℕ)
  | raised (e : LaneError)
  deriving DecidableEq

/-- The call has not begun, or it has ended. -/
def LanePc.over : LanePc → Bool
  | .idle | .returned | .recovered _ | .answered _ | .raised _ => true
  | _ => false

/-- A call that returns, to its caller. -/
def Caller.returns : Caller → LanePc
  | .store => .returned
  | .route => .answered 200

/-- A call that raises; the route answers 409 to a `StoreError`. -/
def Caller.raises : Caller → LaneError → LanePc
  | .route, .store => .answered 409
  | _, e => .raised e

namespace Lane

/-! ## Steps -/

def enter : LaneCall → LanePc
  | .enqueue j => .enqueueLock j
  | .start id => .start id
  | .finish id state usage => if state.terminal then .finish id state usage else .raised .store
  | .cancel id => .cancelRead .store id
  | .reorder id position => .reorderRead .store id position
  | .pin id => .reorderRead .store id 1
  | .recover => .recoverSelect
  | .override id action position => .overrideRead id action position

/-- Go on when the row is written; a violated constraint ends the call. -/
def Put.thenAt (p : Put) (x : Lane) (t : CallId) (pc : LanePc) : Option (Lane × LanePc) :=
  match p with
  | .waits => none
  | .violates => some (x.rollback t, .raised .database)
  | .done y => some (y, pc)

/-- The same for a statement that is a transaction of its own. -/
def Put.thenCommit (p : Put) (x : Lane) (t : CallId) (pc : LanePc) : Option (Lane × LanePc) :=
  match p with
  | .waits => none
  | .violates => some (x.rollback t, .raised .database)
  | .done y => some (y.commit t, pc)

def newRow (j : NewJob) (pos : ℤ) : BrokerJob :=
  { tenantId := j.tenantId, kind := j.kind, spec := j.spec, sandbox := j.sandbox, state := .queued,
    queuePos := some pos, artifactRef := none, modelVersion := none, gpuSeconds := none,
    startedAt := none }

/-- `INSERT`, past the primary key. -/
def enqueueInsert (x : Lane) (t : CallId) (j : NewJob) (pos : ℤ) : Put :=
  if Versions.free x.rows t j.id then
    match Versions.view x.rows t j.id with
    | some _ => .violates
    | none => x.put t j.id (newRow j pos)
  else .waits

def started (at' : Time) (j : BrokerJob) : BrokerJob :=
  { j with state := .running, queuePos := none, startedAt := some at' }

def finished (state : JobState) (u : Usage) (j : BrokerJob) : BrokerJob :=
  { j with
    state := state
    queuePos := none
    gpuSeconds := u.gpuSeconds <|> j.gpuSeconds
    artifactRef := u.artifactRef <|> j.artifactRef
    modelVersion := u.modelVersion <|> j.modelVersion }

/-- To `cancelled` or `interrupted`, off the lane. -/
def ended (state : JobState) (j : BrokerJob) : BrokerJob :=
  { j with state := state, queuePos := none }

/-- `UPDATE … SET queue_pos = NULL, state = 'running' … AND state = 'queued'`;
no row is an error. -/
def startJob (x : Lane) (t : CallId) (id : JobId) (at' : Time) : Option (Lane × LanePc) :=
  if (Versions.view x.rows t id).any BrokerJob.isQueued then
    (x.update t id BrokerJob.isQueued (started at')).thenCommit x t .returned
  else some (x, .raised .store)

/-- The checks of `job_override`, and the store operation it goes on to. -/
def overrideRead (x : Lane) (t : CallId) (id : JobId) (action : String) (position : Option ℤ) :
    LanePc :=
  match Versions.view x.rows t id with
  | none => .answered 404
  | some j =>
      if j.state = .running then .answered 409
      else if action = "pin" then .reorderRead .route id 1
      else if action = "reorder" then
        .reorderRead .route id (match position with | none | some 0 => 1 | some p => p)
      else if action = "cancel" then .cancelRead .route id
      else if action = "pause" ∨ action = "resume" then .overrideLength id action
      else .answered 400

def cancelRead (x : Lane) (t : CallId) (via : Caller) (id : JobId) : LanePc :=
  match Versions.view x.rows t id with
  | none => via.raises .store
  | some j => if j.state.terminal then via.returns else .cancelUpdate via id

def reorderRead (x : Lane) (t : CallId) (via : Caller) (id : JobId) (position : ℤ) : LanePc :=
  match Versions.view x.rows t id with
  | none => via.raises .store
  | some j => if j.state = .queued then .reorderList via id position else via.raises .store

/-- `queued.remove` raises when the job is not in the list. -/
def reorderList (x : Lane) (t : CallId) (via : Caller) (id : JobId) (position : ℤ) : LanePc :=
  let m := Mover.reorder id position (x.listQueued t)
  if id ∈ x.listQueued t then .placing via m m.target else via.raises .value

/-- `queue_pos = …` for one job of the list. -/
def place (x : Lane) (t : CallId) (m : Mover) (id : JobId) : Put :=
  x.rewrite t id (fun _ => true) fun j => { j with queuePos := some (m.place id) }

/-- `queue_pos = queue_pos - 1000000` for one queued row. -/
def lower (x : Lane) (t : CallId) (id : JobId) : Put :=
  x.rewrite t id BrokerJob.isQueued fun j =>
    { j with queuePos := j.queuePos.map fun p => p - shiftOffset }

/-- The next row of the first pass, or its end. -/
def placeNext (x : Lane) (t : CallId) (via : Caller) (m : Mover) :
    List JobId → Option (Lane × LanePc)
  | [] => some (x, .shift via m)
  | id :: todo => (x.place t m id).thenAt x t (.placing via m todo)

/-- The next row of the second pass, or its end. -/
def lowerNext (x : Lane) (t : CallId) (via : Caller) (m : Mover) :
    List JobId → Option (Lane × LanePc)
  | [] => some (x, .commit via m)
  | id :: todo => (x.lower t id).thenAt x t (.lowering via m todo)

/-- The next running row that recovery resolves, or the end of its UPDATE. -/
def interruptNext (x : Lane) (t : CallId) (interrupted : List (JobId × Option Time)) :
    List JobId → Option (Lane × LanePc)
  | [] => some (x, .recoverCommit interrupted)
  | id :: todo =>
      (x.rewrite t id BrokerJob.isRunning (ended .interrupted)).thenAt x t
        (.recovering interrupted todo)

/-- Call `t` takes its next step. -/
def advance : Interleaving.Program CallId Lane LanePc LaneChoice :=
  fun t choice x pc =>
    match pc, choice with
    | .idle, .call c => some (x, enter c)
    | .enqueueLock j, .go =>
        if x.advisory = none then some ({ x with advisory := some t }, .enqueueMax j) else none
    | .enqueueMax j, .go => some (x, .enqueueInsert j (x.nextPos t))
    | .enqueueInsert j pos, .go => (x.enqueueInsert t j pos).thenAt x t (.enqueueCommit j)
    | .enqueueCommit _, .go => some (x.commit t, .returned)
    | .start id, .now at' => x.startJob t id at'
    | .finish id state usage, .go =>
        (x.update t id (fun j => !j.state.terminal) (finished state usage)).thenCommit x t .returned
    | .overrideRead id action position, .go => some (x, x.overrideRead t id action position)
    | .overrideLength id action, .go =>
        some (x, .reorderRead .route id
          (if action = "pause" then ((x.listQueued t).length : ℤ) else 1))
    | .cancelRead via id, .go => some (x, x.cancelRead t via id)
    | .cancelUpdate via id, .go =>
        (x.update t id (fun _ => true) (ended .cancelled)).thenAt x t (.compact via id)
    | .compact via id, .scan ids =>
        let m := Mover.compact id (x.listQueued t)
        if ids.Perm m.target then some (x, .placing via m ids) else none
    | .reorderRead via id position, .go => some (x, x.reorderRead t via id position)
    | .reorderList via id position, .go => some (x, x.reorderList t via id position)
    | .placing via m todo, .go => x.placeNext t via m todo
    | .shift via m, .scan ids =>
        if ids.Perm (x.select t BrokerJob.isQueued) then some (x, .lowering via m ids) else none
    | .lowering via m todo, .go => x.lowerNext t via m todo
    | .commit via _, .go => some (x.commit t, via.returns)
    | .recoverSelect, .go =>
        some (x, .recoverUpdate ((x.select t BrokerJob.isRunning).map fun id =>
          (id, (Versions.view x.rows t id).bind BrokerJob.startedAt)))
    | .recoverUpdate interrupted, .scan ids =>
        if ids.Perm (x.select t BrokerJob.isRunning) then some (x, .recovering interrupted ids)
        else none
    | .recovering interrupted todo, .go => x.interruptNext t interrupted todo
    | .recoverCommit interrupted, .go => some (x.commit t, .recovered interrupted)
    | pc, .fails => if pc.over then none else some (x.rollback t, .raised .database)
    | _, _ => none

abbrev Sys := Interleaving.State CallId Lane LanePc

abbrev Act := CallId × LaneChoice

abbrev next : Sys → Act → Option Sys := Interleaving.next advance

/-- An empty lane, and no call has begun. -/
def Sys.init : Sys := ⟨Lane.init, fun _ => .idle⟩

end Lane

end MlopsLite.PlatformLib
