import MlopsLite.HostAgent.Admission.Slot
import MlopsLite.HostAgent.Jobs.Journal
import MlopsLite.Lib.Interleaving

/-!
# Jobs — the manager

`JobManager.submit`, `_worker` and `_release` (`hostagent/jobs.py`) over the
single-slot `Admission` and the journal. A call goes on as its worker once
the thread has been started. The engines' calls on the admission come at any
time, in any order.
-/

namespace MlopsLite.HostAgent.Jobs

open Lifecycle (Tenant ThreadId EngineId ChildRef Ret)
open PlatformLib.Jobs

/-- The manager's tenant. -/
def training : Tenant := .job "training"

structure JobConfig where
  slot : SlotConfig
  windowS : ℚ

/-- An idempotency key as a dict compares it: `True` is `1`. -/
inductive Key
  | str (s : String)
  | num (n : ℚ)
  deriving DecidableEq

/-- `request.get("idempotency_key")`: `none` is not given; a list or a dict
has no hash, and raises. -/
def keyOf (request : Record) : Option (Option Key) :=
  match (request.get? "idempotency_key").getD .null with
  | .null => some none
  | .bool b => some (some (.num (if b then 1 else 0)))
  | .num n => some (some (.num n))
  | .str s => some (some (.str s))
  | .arr _ | .obj _ => none

/-- A submission that passed the checks; `fresh` is the id it would be given. -/
structure Submission where
  kind : Kind
  request : Record
  modality : Value
  fresh : String

/-- A job that was launched, as history has it: `ended` is what its runner
returned, success or not, and when. -/
structure Launch where
  key : Option Key
  id : String
  submittedAt : ℚ
  ended : Option (Bool × ℚ)

/-- A launch that is still going: `took` is whether it acquired the lease,
`nth` its place in the history. -/
structure Run where
  id : String
  took : Bool
  nth : ℕ
  deriving DecidableEq

structure Manager where
  locked : Bool
  active : Option String
  gpuBatchActive : Bool
  leaseHeld : Bool
  runKeys : Dict Key String

/-- `launched` is history, which nothing reads. -/
structure Shared where
  manager : Manager
  admission : Admission
  journal : Journal
  now : ℚ
  launched : List Launch

/-- Where a submission was refused: `busy` is by the job slot, `held` by the
admission. -/
inductive Refusal
  | badRequest
  | busy
  | held
  | raised
  deriving DecidableEq

inductive Pc
  | idle
  | waiting (sub : Submission)
  | check (sub : Submission)
  | slot (sub : Submission) (key : Option Key)
  | journal (sub : Submission) (key : Option Key) (took : Bool)
  | unwind (took : Bool)
  | start (run : Run)
  | abandon (run : Run)
  | began (run : Run)
  | working (run : Run)
  | ending (run : Run) (update : Finished)
  | free (run : Run)
  | existing (id : String)
  | refused (why : Refusal)

/-- A call of an engine's runtime, or of a swap, on the admission. -/
inductive EngineCall
  | acquire (e : EngineId) (free : Option ℚ)
  | release (e : EngineId)
  | setChild (e : EngineId) (c : ChildRef)
  | beginSwap (target : EngineId)
  | endSwap (target : EngineId)
  | retargetSwap (old new : EngineId)

def EngineCall.apply (cfg : SlotConfig) (a : Admission) : EngineCall → Admission
  | .acquire e free => (a.acquire cfg (.engine e) free).1
  | .release e => a.release (.engine e)
  | .setChild e c => a.setChild e c
  | .beginSwap target => (a.beginSwap target).getD a
  | .endSwap target => a.endSwap target
  | .retargetSwap old new => a.retargetSwap old new

/-- What a section leaves open. `fails`: the write, or the thread's start,
raises; `free` is what the GPU reads. -/
inductive Choice
  | submit (kind : Kind) (request : Record) (fresh : String)
  | engine (call : EngineCall)
  | tick (d : ℚ)
  | go
  | fails
  | free (reading : Option ℚ)
  | finished (update : Finished)

/-- `rec.get("state") in ("queued", "running")`. -/
def unfinished (r : Record) : Bool :=
  match r.get? "state" with
  | some (.str state) => state = "queued" || state = "running"
  | _ => false

/-- `_within_idempotency_window`. -/
def withinWindow (rec : Option Record) (now windowS : ℚ) : Bool :=
  match rec with
  | none => false
  | some r =>
      unfinished r ||
        match r.get? "submitted_at" with
        | some (.num t) => now - t ≤ windowS
        | _ => now ≤ windowS

namespace Shared

variable (cfg : JobConfig) (x : Shared)

def lock : Shared := { x with manager := { x.manager with locked := true } }

def unlock : Shared := { x with manager := { x.manager with locked := false } }

/-- The job a resubmission under `key` is answered with; no id is empty. -/
def existing (key : Key) : Option String :=
  (x.manager.runKeys.get? key).filter fun id =>
    withinWindow (x.journal.jobs.get? id) x.now cfg.windowS

/-- `if self._lease_held: self.admission.release(self.tenant)`. -/
def giveBack : Shared :=
  if x.manager.leaseHeld then
    { x with
      admission := x.admission.release training
      manager := { x.manager with leaseHeld := false } }
  else x

/-- `_release`. -/
def release : Shared :=
  { x.giveBack with
    manager := { x.giveBack.manager with active := none, gpuBatchActive := false } }

/-- `_run_keys` without the keys that are out of the window. -/
def prunedKeys : Dict Key String :=
  x.manager.runKeys.filter fun _ id => withinWindow (x.journal.jobs.get? id) x.now cfg.windowS

/-- The queued record is in `journal`: the key is kept and the slot taken. -/
def launch (sub : Submission) (key : Option Key) (id : String) (journal : Journal) : Shared :=
  let x := { x with journal }
  { x with
    manager :=
      { x.manager with
        locked := false
        active := some id
        gpuBatchActive := x.manager.gpuBatchActive ||
          (sub.kind = .batch && isGpuBatch sub.modality)
        runKeys :=
          match key with
          | some k => (x.prunedKeys cfg).insert k id
          | none => x.manager.runKeys }
    launched := x.launched ++ [⟨key, id, x.now, none⟩] }

/-- `journal.transition`: `none` where it raises. -/
def transition (id : String) (c : Change) : Option Shared :=
  (x.journal.transition id c).map fun journal => { x with journal }

/-- History: the runner of a job has returned. -/
def noteEnd (run : Run) (update : Finished) : Shared :=
  { x with
    launched := x.launched.modify run.nth fun l =>
      { l with ended := some (update.status ≠ "failed", x.now) } }

end Shared

/-- A store write; `none` where it raises. -/
def written {α : Type} (c : Choice) (write : Option α) : Option α :=
  match c with
  | .fails => none
  | _ => write

def advance (cfg : JobConfig) : Interleaving.Program ThreadId Shared Pc Choice := fun _ c x k =>
  match k with
  | .idle =>
      match c with
      | .submit kind request fresh =>
          match validate kind.spec request with
          | .error _ => some (x, .refused .badRequest)
          | .ok (request, modality) => some (x, .waiting ⟨kind, request, modality, fresh⟩)
      | .engine call => some ({ x with admission := call.apply cfg.slot x.admission }, .idle)
      | .tick d => if 0 ≤ d then some ({ x with now := x.now + d }, .idle) else none
      | _ => none
  | .waiting sub => if x.manager.locked then none else some (x.lock, .check sub)
  | .check sub =>
      match keyOf sub.request with
      | none => some (x.unlock, .refused .raised)
      | some none => some (x, .slot sub none)
      | some (some key) =>
          match x.existing cfg key with
          | some id => some (x.unlock, .existing id)
          | none => some (x, .slot sub (some key))
  | .slot sub key =>
      if x.manager.active.isSome then some (x.unlock, .refused .busy)
      else if needsGpu sub.kind.spec sub.modality then
        match c with
        | .free reading =>
            match x.admission.acquire cfg.slot training reading with
            | (a, .ok) =>
                some ({ x with admission := a, manager := { x.manager with leaseHeld := true } },
                  .journal sub key true)
            | (a, _) => some ({ x with admission := a }.unlock, .refused .held)
        | _ => none
      else some (x, .journal sub key false)
  | .journal sub key took =>
      let jobId := jobIdOf sub.kind.spec sub.request sub.fresh
      let record := queuedRecord sub.kind.spec jobId sub.modality sub.request x.now
      match text jobId, written c (x.journal.submit record) with
      | some id, some journal =>
          some (x.launch cfg sub key id journal, .start ⟨id, took, x.launched.length⟩)
      | _, _ => some (x, .unwind took)
  | .unwind _ => some (x.giveBack.unlock, .refused .raised)
  | .start run =>
      match c with
      | .fails => some (x, .abandon run)
      | _ => some (x, .began run)
  | .abandon _ => if x.manager.locked then none else some (x.release, .refused .raised)
  | .began run =>
      match written c (x.transition run.id (.running x.now)) with
      | some x' => some (x', .working run)
      | none => some (x, .free run)
  | .working run =>
      match c with
      | .finished update => some (x, .ending run update)
      | _ => none
  | .ending run update =>
      match written c (x.transition run.id (.ended update x.now)) with
      | some x' => some (x'.noteEnd run update, .free run)
      | none => some (x.noteEnd run update, .free run)
  | .free _ => if x.manager.locked then none else some (x.release, .idle)
  | .existing _ => some (x, .idle)
  | .refused _ => some (x, .idle)

abbrev Sys := Interleaving.State ThreadId Shared Pc

abbrev Act := ThreadId × Choice

abbrev next (cfg : JobConfig) : Sys → Act → Option Sys := Interleaving.next (advance cfg)

/-- A new agent, with what the journal had. -/
def Sys.init (journal : Journal) (now : ℚ) : Sys :=
  ⟨⟨⟨false, none, false, false, .empty⟩, .init, journal, now, []⟩, fun _ => .idle⟩

/-- A card of 8 GB, jobs of 4 GB, and a window of a quarter of an hour. -/
def quarterHour : JobConfig := ⟨Admission.eightGb, 900⟩

/-- A finetune request, with its key. -/
def keyedFinetune : Record :=
  (((Dict.empty.insert "dataset_name" (.str "d")).insert "dataset_version" (.str "1")).insert
    "output_name" (.str "m")).insert "idempotency_key" (.str "k")

/-- A submission of the keyed request up to its launch. -/
def launched (t : ThreadId) (fresh : String) : List Act :=
  [(t, .submit .finetune keyedFinetune fresh), (t, .go), (t, .go), (t, .free (some 8)), (t, .go)]

namespace Pc

/-- Inside `with self.lock` of `submit`. -/
def inside : Pc → Bool
  | .check _ | .slot .. | .journal .. | .unwind _ => true
  | _ => false

/-- The launch that a thread answers for: it must end in `_release`. -/
def owned? : Pc → Option Run
  | .start run | .abandon run | .began run | .working run | .ending run _ | .free run => some run
  | _ => none

/-- The job of a worker. -/
def worker? : Pc → Option Run
  | .began run | .working run | .ending run _ | .free run => some run
  | _ => none

/-- The lease was acquired here, and has not been given back. -/
def leased : Pc → Bool
  | .journal _ _ took | .unwind took => took
  | .start run | .abandon run | .began run | .working run | .ending run _ | .free run => run.took
  | _ => false

theorem owned_of_worker {k : Pc} {run : Run} (h : k.worker? = some run) : k.owned? = some run := by
  cases k <;> first | exact h | cases h

end Pc

end MlopsLite.HostAgent.Jobs
