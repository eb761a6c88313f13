import MlopsLite.Gateway.Policy.World
import MlopsLite.Lib.Backoff

/-!
# Policy — the scheduler and the routes

`PolicyScheduler` (`gateway/app/scheduler.py`), `registry.promote`,
`create_suggestion` (`gateway/app/policies.py`) and the routes that accept or
dismiss a suggestion or trigger a retrain, as programs over the calls of
`World`. One scheduler thread ticks; any number of requests run beside it;
a restart ends them all and empties the gateway's memory.
-/

namespace MlopsLite.Gateway.Policy

/-- What is raised: `Busy`, a `PolicyStoreError`, any other exception. -/
inductive Err
  | busy
  | store
  | other
  deriving DecidableEq

abbrev Prog (α : Type) := Code Op Reply Err α

/-- What a tick reports. -/
inductive Action
  | storeError
  | policyError (m : ModelName)
  | retryParked (m : ModelName) (attempts : ℕ)
  | retryDeferredStoreError (m : ModelName)
  | retryFailed (m : ModelName)
  | retrainLaunched (m : ModelName) (run : Option RunId) (watchPersisted retried : Bool)
  | checked (m : ModelName) (breached : Bool)
  | breachDeferredWatch (m : ModelName)
  | breachSupersededPending (m : ModelName)
  | breachInCooldown (m : ModelName)
  | retrainParkFailed (m : ModelName)
  | retrainParked (m : ModelName)
  | retrainFailed (m : ModelName)
  | watchUnpollable (m : ModelName) (run : RunId)
  | watchExpiredUnknown (m : ModelName) (run : RunId)
  | watchedRunFailed (m : ModelName)
  | watchedRunNoVersion (m : ModelName)
  | runSucceededManual (m : ModelName) (v : Version)
  | candidateNotGreen (m : ModelName) (v : Version)
  | autoPromoted (m : ModelName) (v : Version)
  | autoPromoteRefused (m : ModelName) (v : Version)
  | suggested (m : ModelName) (v : Version)
  deriving DecidableEq

/-! ## The seams -/

def ask (o : Op) : Prog (Reply o) := Code.op o

def wall : Prog ℚ := ask .clock

def checkFn (m : ModelName) (kind : MonitorKind) : Prog (Option (Bool × Option ℚ)) :=
  ask (.check m kind)

def launchFn (trigger : Option Trigger) (m : ModelName) (dataset version : String) :
    Prog LaunchAnswer := ask (.launch trigger m dataset version)

def watchFn (run : RunId) : Prog RunStatus := ask (.pollRun run)

/-- A failed listing of the shadow windows raises. -/
def shadowFn (m : ModelName) (v : Version) : Prog (Option Winner) :=
  ask (.shadow m v) >>= fun r => match r with
    | some winner => pure winner
    | none => .raise .other

def reserveFn (trigger : Trigger) : Prog (Option ℚ) := ask (.reserve trigger)

def releaseFn (trigger : Trigger) (token : Option ℚ) : Prog Unit := ask (.release trigger token)

def noteFn (m : ModelName) : Prog Unit := ask (.note m)

def servingVersion (reader : Reader) (m : ModelName) : Prog (Option Version) :=
  ask (.servingVersion reader m)

def readEval (reader : Reader) (m : ModelName) (v : Version) : Prog (Option Eval) :=
  ask (.readEval reader m v)

def setAlias (mover : Mover) (m : ModelName) (v : Version) (verdict : Verdict) : Prog Bool :=
  ask (.setAlias mover m v verdict)

/-! ## Store functions -/

/-- A read, or `PolicyStoreError`. -/
def orStore {α : Type} : Option α → Prog α
  | some a => pure a
  | none => .raise .store

/-- A write, or `PolicyStoreError`. -/
def okStore (ok : Bool) : Prog Unit := if ok then pure () else .raise .store

def listPolicies : Prog (List ModelPolicy) := ask .listPolicies >>= orStore

def getPending (m : ModelName) : Prog (Option Pending) := ask (.getPending m) >>= orStore

def savePending (p : Pending) : Prog Unit := ask (.setPending p.modelName p) >>= okStore

def clearPending (m : ModelName) : Prog Unit := ask (.clearPending m) >>= okStore

def getStatus (m : ModelName) : Prog (Option Status) := ask (.getStatus m) >>= orStore

def saveStatus (m : ModelName) (st : Status) : Prog Unit := ask (.setStatus m st) >>= okStore

def findSuggestion (m : ModelName) (v : Version) (state : SuggestionState) :
    Prog (Option Suggestion) := ask (.findSuggestion m v state) >>= orStore

def insertSuggestion (m : ModelName) (v : Version) (gate : Verdict) (shadow : Option Winner)
    (state : SuggestionState) (byPolicy : Bool) : Prog Unit :=
  ask (.insertSuggestion m v gate shadow state byPolicy) >>= okStore

def getSuggestion (id : SuggestionId) : Prog (Option Suggestion) :=
  ask (.getSuggestion id) >>= orStore

def resolveSuggestion (id : SuggestionId) (state : SuggestionState) : Prog (Option Suggestion) :=
  ask (.resolveSuggestion id state) >>= orStore

/-- `create_suggestion`. -/
def createSuggestion (m : ModelName) (v : Version) (gate : Verdict) (shadow : Option Winner)
    (state : SuggestionState) (byPolicy : Bool) : Prog Unit := do
  match ← findSuggestion m v state with
  | some _ => pure ()
  | none => insertSuggestion m v gate shadow state byPolicy

def resolveLatest (name : String) : Prog Resolved := ask (.resolveLatest name)

/-- `resolve_dataset_version`. -/
def resolveDatasetVersion (name version : String) : Prog String :=
  if version ≠ "latest" then pure version
  else do
    match ← resolveLatest name with
    | .version v => pure v
    | .missing => .raise .other
    | .outage => .raise .store

/-! ## The gate -/

/-- The version a candidate is compared with: the serving one, if it is another. -/
def incumbentOf (serving : Option Version) (v : Version) : Option Version :=
  if serving = some v then none else serving

def gateVerdict (cfg : Settings) (serving : Option Version) (v : Version)
    (candidate incumbent : Option Eval) (overriding : Bool) : Verdict :=
  { computeVerdict cfg.gate candidate incumbent overriding (incumbentOf serving v).isSome with
    candidateVersion := some v }

/-- `evaluation.gate`. -/
def gate (cfg : Settings) (reader : Reader) (m : ModelName) (v : Version) (overriding : Bool) :
    Prog Verdict := do
  let serving ← servingVersion reader m
  let candidate ← readEval reader m v
  match incumbentOf serving v with
  | some i =>
      let incumbent ← readEval reader m i
      return gateVerdict cfg serving v candidate incumbent overriding
  | none => return gateVerdict cfg serving v candidate none overriding

/-- What `registry.promote` returns. -/
structure Promoted where
  promoted : Bool
  verdict : Verdict

/-- `registry.promote`. -/
def promote (cfg : Settings) (mover : Mover) (m : ModelName) (v : Version) (overriding : Bool) :
    Prog Promoted := do
  let verdict ← gate cfg (.promotion mover) m v overriding
  if verdict.verdict = .blocked then return ⟨false, verdict⟩
  else
    let moved ← setAlias mover m v verdict
    if moved then return ⟨true, verdict⟩ else .raise .other

/-! ## 1. Parked retrains -/

/-- `_launch`: the run, and whether its watch was saved. -/
def launch (trigger : Option Trigger) (p : ModelPolicy) : Prog (Option RunId × Bool) := do
  let version ← resolveDatasetVersion p.onBreach.datasetName p.onBreach.dataset
  match ← launchFn trigger p.modelName p.onBreach.datasetName version with
  | .busy => .raise .busy
  | .failed => .raise .other
  | .accepted none => return (none, true)
  | .accepted (some run) =>
      let watched : Prog Unit := do
        let status ← getStatus p.modelName
        let launchedAt ← wall
        saveStatus p.modelName { status.getD .empty with watch := some ⟨run, launchedAt, none⟩ }
      match ← watched.result with
      | .ok _ => return (some run, true)
      | .error _ => return (some run, false)

/-- The delay after so many attempts. -/
def retryDelay (cfg : Settings) (attempts : ℕ) : Option ℚ :=
  Backoff.delay cfg.backoffBaseS cfg.backoffMaxS attempts

/-- The park after another attempt, unless its delay raises. -/
def backedOff (cfg : Settings) (pending : Pending) (now : ℚ) : Prog Pending :=
  match retryDelay cfg (pending.attempts + 1) with
  | none => .raise .other
  | some delay =>
      return { pending with attempts := pending.attempts + 1, nextAttemptAt := now + delay }

def landedPark (pending : Pending) : Pending :=
  { pending with landed := true, nextAttemptAt := 10 ^ 12 }

/-- A launch of a parked retrain, and what follows from its answer. -/
def retry (cfg : Settings) (policy : ModelPolicy) (pending : Pending) (now : ℚ) :
    Prog (List Action) := do
  let m := policy.modelName
  match ← (launch none policy).result with
  | .error .busy =>
      let park ← backedOff cfg pending now
      savePending park
      noteFn m
      return [.retryParked m (pending.attempts + 1)]
  | .error .store =>
      let park ← backedOff cfg pending now
      let _ ← (savePending park).result
      noteFn m
      return [.retryDeferredStoreError m]
  | .error .other =>
      clearPending m
      releaseFn (.policy m) none
      return [.retryFailed m]
  | .ok (run, persisted) =>
      match ← (clearPending m).result with
      | .ok _ => pure ()
      | .error _ =>
          let _ ← (savePending (landedPark pending)).result
          pure ()
      noteFn m
      return [.retrainLaunched m run persisted true]

/-- `_retry_pending`. -/
def retryPending (cfg : Settings) (policy : ModelPolicy) (now : ℚ) : Prog (List Action) := do
  match ← getPending policy.modelName with
  | none => return []
  | some pending =>
      if pending.landed then
        let _ ← (clearPending policy.modelName).result
        return []
      else if now < pending.nextAttemptAt then return []
      else retry cfg policy pending now

/-! ## 2. Due checks -/

/-- The monitors in turn: their results, and the first breach. -/
def runMonitors (m : ModelName) (now : ℚ) :
    List MonitorKind → Prog (List CheckResult × Option Breach)
  | [] => return ([], none)
  | kind :: kinds => do
      let answer ← checkFn m kind
      let (results, later) ← runMonitors m now kinds
      let result : CheckResult := ⟨kind, answer.map Prod.fst, answer.bind Prod.snd⟩
      let breach := if result.breached = some true then some ⟨kind, result.score, now⟩ else later
      return (result :: results, breach)

/-- A breach with no park of its own: reserve, launch, or park. -/
def launchBreach (cfg : Settings) (policy : ModelPolicy) (breach : Breach) (now : ℚ) :
    Prog (List Action) := do
  let m := policy.modelName
  match ← reserveFn (.policy m) with
  | none => return [.breachInCooldown m]
  | some token =>
      match ← (launch (some (.policy m)) policy).result with
      | .error .busy =>
          match ← (savePending ⟨m, breach, 1, now + cfg.backoffBaseS, false⟩).result with
          | .ok _ => return [.retrainParked m]
          | .error _ =>
              releaseFn (.policy m) (some token)
              return [.retrainParkFailed m]
      | .error _ =>
          releaseFn (.policy m) (some token)
          return [.retrainFailed m]
      | .ok (run, persisted) => return [.retrainLaunched m run persisted false]

/-- `_handle_breach`. -/
def handleBreach (cfg : Settings) (policy : ModelPolicy) (breach : Breach) (now : ℚ) :
    Prog (List Action) := do
  let m := policy.modelName
  let status ← getStatus m
  if (status.getD .empty).watch.isSome then return [.breachDeferredWatch m]
  else
    match ← getPending m with
    | some pending =>
        if pending.landed then launchBreach cfg policy breach now
        else
          savePending { pending with breach }
          return [.breachSupersededPending m]
    | none => launchBreach cfg policy breach now

/-- `_run_due_checks`. -/
def runDueChecks (cfg : Settings) (policy : ModelPolicy) (now : ℚ) : Prog (List Action) := do
  let m := policy.modelName
  let status := (← getStatus m).getD .empty
  if now - status.lastCheckAt < policy.checkIntervalS then return []
  else
    let (results, breach) ← runMonitors m now policy.monitors
    saveStatus m { status with
      lastCheckAt := now, results, nextDueAt := some (now + policy.checkIntervalS) }
    match breach with
    | none => return [.checked m false]
    | some breach => return .checked m true :: (← handleBreach cfg policy breach now)

/-! ## 3. Watches -/

/-- `_clear_watch`. -/
def clearWatch (m : ModelName) (status : Status) : Prog Unit :=
  saveStatus m { status with watch := none }

/-- `_record_not_green`. -/
def recordNotGreen (m : ModelName) (status : Status) (v : Version) (verdict : Verdict)
    (shadow : Option Winner) (now : ℚ) : Prog Unit :=
  clearWatch m { status with lastCandidate := some ⟨v, verdict, shadow, now⟩ }

def green (gate : Verdict) (shadow : Option Winner) : Bool :=
  gate.verdict = .pass && (shadow = none || shadow = some .challenger || shadow = some .tie)

/-- The candidate of a run that succeeded. -/
def judgeCandidate (cfg : Settings) (policy : ModelPolicy) (status : Status) (v : Version)
    (now : ℚ) : Prog (List Action) := do
  let m := policy.modelName
  let gateVerdict ← gate cfg .judge m v false
  let shadow ← shadowFn m v
  if !green gateVerdict shadow then
    recordNotGreen m status v gateVerdict shadow now
    return [.candidateNotGreen m v]
  else if policy.promotionMode = .autoOnGreen then
    let promoted ← promote cfg .policy m v false
    if promoted.promoted then
      createSuggestion m v gateVerdict shadow .autoPromoted true
      clearWatch m status
      return [.autoPromoted m v]
    else
      recordNotGreen m status v promoted.verdict shadow now
      return [.autoPromoteRefused m v]
  else
    createSuggestion m v gateVerdict shadow .open false
    clearWatch m status
    return [.suggested m v]

/-- `_poll_watch`. -/
def pollWatch (cfg : Settings) (policy : ModelPolicy) (now : ℚ) : Prog (List Action) := do
  let m := policy.modelName
  let status := (← getStatus m).getD .empty
  match status.watch with
  | none => return []
  | some watch =>
      match ← watchFn watch.runId with
      | .unknown =>
          match watch.unknownSince with
          | none =>
              saveStatus m { status with watch := some { watch with unknownSince := some now } }
              return [.watchUnpollable m watch.runId]
          | some first =>
              if cfg.watchUnknownTimeoutS < now - first then
                saveStatus m { status with watch := none }
                return [.watchExpiredUnknown m watch.runId]
              else return []
      | .going =>
          match watch.unknownSince with
          | some _ =>
              saveStatus m { status with watch := some { watch with unknownSince := none } }
              return []
          | none => return []
      | .failed =>
          clearWatch m status
          return [.watchedRunFailed m]
      | .completed none =>
          clearWatch m status
          return [.watchedRunNoVersion m]
      | .completed (some v) =>
          if policy.promotionMode = .manual then
            clearWatch m status
            return [.runSucceededManual m v]
          else judgeCandidate cfg policy status v now

/-! ## The tick -/

/-- One policy's stages; the first that raises ends them. -/
def stages (m : ModelName) (actions : List Action) : List (Prog (List Action)) → Prog (List Action)
  | [] => return actions
  | stage :: rest => do
      match ← stage.result with
      | .ok more => stages m (actions ++ more) rest
      | .error _ => return actions ++ [.policyError m]

def tickPolicy (cfg : Settings) (policy : ModelPolicy) (now : ℚ) : Prog (List Action) :=
  stages policy.modelName []
    [retryPending cfg policy now, runDueChecks cfg policy now, pollWatch cfg policy now]

def tickAll (cfg : Settings) (now : ℚ) : List ModelPolicy → Prog (List Action)
  | [] => return []
  | policy :: rest => do
      let actions ← if policy.enabled then tickPolicy cfg policy now else pure []
      return actions ++ (← tickAll cfg now rest)

/-- `PolicyScheduler.tick`. -/
def tick (cfg : Settings) : Prog (List Action) := do
  let now ← wall
  match ← listPolicies.result with
  | .error _ => return [.storeError]
  | .ok policies => tickAll cfg now policies

/-! ## The routes -/

/-- A trigger of `/monitor/check` or `/monitor/quality/check` on a breach. -/
def monitorCheck (t : ThreadId) (spec : RetrainSpec) : Prog (List Action) := do
  match ← reserveFn (.request t) with
  | none => return []
  | some token =>
      let launched : Prog Unit := do
        let version ← resolveDatasetVersion spec.datasetName spec.datasetVersion
        match ← launchFn (some (.request t)) spec.modelName spec.datasetName version with
        | .accepted _ => pure ()
        | _ => .raise .other
      match ← launched.result with
      | .ok _ => return []
      | .error _ =>
          releaseFn (.request t) (some token)
          return []

/-- `accept_suggestion`. -/
def acceptSuggestion (cfg : Settings) (id : SuggestionId) : Prog (List Action) := do
  match ← getSuggestion id with
  | none => return []
  | some rec =>
      if rec.state ≠ .open then return []
      else
        let serving ← servingVersion .route rec.modelName
        if serving = some rec.candidateVersion then
          let _ ← resolveSuggestion id .accepted
          return []
        else
          let promoted ← promote cfg .operator rec.modelName rec.candidateVersion false
          if promoted.promoted then
            let _ ← resolveSuggestion id .accepted
            return []
          else return []

/-- `dismiss_suggestion`. -/
def dismissSuggestion (id : SuggestionId) : Prog (List Action) := do
  let _ ← resolveSuggestion id .dismissed
  return []

/-- An operator's promotion. -/
def promoteRoute (cfg : Settings) (m : ModelName) (v : Version) (overriding : Bool) :
    Prog (List Action) := do
  let _ ← promote cfg .operator m v overriding
  return []

/-! ## The machine -/

/-- The thread that ticks. -/
def scheduler : ThreadId := 0

def spawn (cfg : Settings) (t : ThreadId) (c : Choice) (_ : World) : Option (Prog (List Action)) :=
  match c with
  | .tick => if t = scheduler then some (tick cfg) else none
  | .monitorCheck spec => if t = scheduler then none else some (monitorCheck t spec)
  | .accept id => if t = scheduler then none else some (acceptSuggestion cfg id)
  | .dismiss id => if t = scheduler then none else some (dismissSuggestion id)
  | .promote m v overriding => if t = scheduler then none else some (promoteRoute cfg m v overriding)
  | _ => none

/-- A declaration keeps the park and the status of the policy it replaces. -/
def World.putPolicy (x : World) (p : ModelPolicy) : World :=
  let row := (x.rows.get? p.modelName).elim ⟨p, none, none⟩ fun row => { row with policy := p }
  { x with rows := x.rows.insert p.modelName row }

theorem World.pending_putPolicy (x : World) (p : ModelPolicy) (m : ModelName) :
    (x.putPolicy p).pending m = x.pending m := by
  simp only [pending, putPolicy, Dict.get?_insert]
  split
  · rename_i h
    subst h
    cases x.rows.get? p.modelName <;> rfl
  · rfl

theorem World.status_putPolicy (x : World) (p : ModelPolicy) (m : ModelName) :
    (x.putPolicy p).status m = x.status m := by
  simp only [status, putPolicy, Dict.get?_insert]
  split
  · rename_i h
    subst h
    cases x.rows.get? p.modelName <;> rfl
  · rfl

/-- A declaration, an evaluation or an edit of tags, time, and a restart. -/
def env (_ : ThreadId) (c : Choice) (x : World) : Option World :=
  match c with
  | .putPolicy p =>
      some (x.putPolicy p)
  | .evaluate m v e =>
      some { x with
        evals :=
          match e with
          | some e => x.evals.insert (m, v) e
          | none => x.evals.erase (m, v) }
  | .passes d => if 0 ≤ d then some (x.passes d) else none
  | .restart => some x.restart
  | _ => none

/-- What a tick dropped and does not report. -/
def finish (t : ThreadId) (x : World) (r : Except Err (List Action)) : World :=
  let reported (m : ModelName) :=
    match r with
    | .ok actions => .retryFailed m ∈ actions
    | .error _ => false
  { x with history := { x.history with
    dropped := if t = scheduler then [] else x.history.dropped
    unreported :=
      if t = scheduler then
        x.history.unreported ++ x.history.dropped.filter fun m => !reported m
      else x.history.unreported } }

def machine (cfg : Settings) : Code.Machine ThreadId World Choice Op Reply Err (List Action) where
  exec := exec cfg
  spawn := spawn cfg
  env := env
  finish := finish
  epoch := World.epoch

abbrev Sys := Interleaving.State ThreadId World (Code.Pc Op Reply Err (List Action))

abbrev Act := ThreadId × Choice

abbrev next (cfg : Settings) : Sys → Act → Option Sys := (machine cfg).next

/-- A new installation. -/
def World.init (now : ℚ) : World :=
  { rows := .empty, suggestions := [], nextId := 0, serving := .empty, evals := .empty,
    stamp := none, now, epoch := 0, history := .empty }

def Sys.init (now : ℚ) : Sys := ⟨.init now, fun _ => none⟩

theorem eq_tick_of_spawn {cfg : Settings} {c : Choice} (x : World) {code : Prog (List Action)}
    (h : spawn cfg scheduler c x = some code) : code = tick cfg := by
  cases c <;> simp only [spawn, if_true, reduceCtorEq, Option.some.injEq] at h
  exact h.symm

/-- The environment touches no suggestion, park or status; but for a restart
it only lets time pass. -/
theorem of_env (t : ThreadId) {c : Choice} {x x' : World} (h : env t c x = some x') :
    x'.suggestions = x.suggestions ∧ (∀ m, x'.pending m = x.pending m) ∧
      (∀ m, x'.status m = x.status m) ∧
      ((x'.epoch = x.epoch ∧ x'.history = x.history ∧ x'.stamp = x.stamp ∧ x.now ≤ x'.now) ∨
        c = .restart ∧ x' = x.restart) := by
  cases c <;> simp only [env, reduceCtorEq] at h
  case putPolicy p =>
    cases h
    exact ⟨rfl, x.pending_putPolicy p, x.status_putPolicy p, .inl ⟨rfl, rfl, rfl, le_rfl⟩⟩
  case evaluate m v e =>
    cases h
    exact ⟨rfl, fun _ => rfl, fun _ => rfl, .inl ⟨rfl, rfl, rfl, le_rfl⟩⟩
  case passes d =>
    split at h <;> cases h
    rename_i hd
    exact ⟨rfl, fun _ => rfl, fun _ => rfl, .inl ⟨rfl, rfl, rfl, le_add_of_nonneg_right hd⟩⟩
  case restart =>
    cases h
    exact ⟨rfl, fun _ => rfl, fun _ => rfl, .inr ⟨rfl, rfl⟩⟩

/-! ## A retrain and its candidate -/

/-- The configuration where the environment sets nothing. -/
def Settings.defaults : Settings := ⟨⟨"block", .fin (1 / 100), "warn"⟩, 3600, 60, 1800, 3600⟩

/-- A policy that watches the quality of `m`. -/
def watchful (m : ModelName) (mode : PromotionMode) : ModelPolicy :=
  ⟨m, "tabular", [.quality], 900, ⟨"rows", "1"⟩, mode, true⟩

/-- The scheduler's next call on a store succeeds, or has no choice. -/
def done : Act := (scheduler, .fate .done)

/-- The scheduler's next call sets a stamp, a second later. -/
def stamped : Act := (scheduler, .passes 1)

/-- A policy is declared, and a tick finds a breach and reserves. -/
def breached (m : ModelName) (mode : PromotionMode) : List Act :=
  [(scheduler, .putPolicy (watchful m mode)), (scheduler, .tick)] ++ List.replicate 4 done ++
    [(scheduler, .checked (some (true, none))), done, done, done, stamped]

/-- It launches run `r`, and saves its watch. -/
def launched (m : ModelName) (mode : PromotionMode) : List Act :=
  breached m mode ++ [(scheduler, .launched (.accepted (some "r"))), done, done, done]

/-- The watched run has registered `v`, which is green: no version serves. -/
def foundGreen (v : Version) : List Act :=
  [done, (scheduler, .polled (.completed (some v))), done, done, (scheduler, .shadowed (some none))]

/-- The next tick, on a policy with nothing parked and no check due. -/
def nextTick : List Act := (scheduler, .tick) :: List.replicate 4 done

/-! ## Which stage calls what -/

/-- A call of `judgeCandidate`, or of a route, on what is promoted. -/
def Op.promotes : Op → Bool
  | .findSuggestion .. | .insertSuggestion .. | .resolveSuggestion .. | .servingVersion ..
  | .readEval .. | .setAlias .. => true
  | _ => false

/-- A call on the parks, the reservation or the trainer. -/
def Op.retrains : Op → Bool
  | .setPending .. | .clearPending _ | .launch .. | .reserve _ | .release .. | .note _ => true
  | _ => false

section Calls

variable {P : Op → Prop}

theorem calls_ask {o : Op} (h : P o) : (ask o).Calls P := Code.calls_op h

theorem calls_orStore {α : Type} (a : Option α) : (orStore a).Calls P := by
  cases a <;> trivial

theorem calls_okStore (ok : Bool) : (okStore ok).Calls P := by
  cases ok <;> trivial

theorem calls_read {α : Type} {t : Prog (Option α)} (h : t.Calls P) : (t >>= orStore).Calls P :=
  Code.calls_bind h calls_orStore

theorem calls_write {t : Prog Bool} (h : t.Calls P) : (t >>= okStore).Calls P :=
  Code.calls_bind h calls_okStore

theorem calls_resolveDatasetVersion (h : ∀ name, P (.resolveLatest name)) (name v : String) :
    (resolveDatasetVersion name v).Calls P := by
  unfold resolveDatasetVersion
  split
  · trivial
  · refine Code.calls_bind (calls_ask (h name)) fun r => ?_
    split <;> trivial

theorem calls_launch {trigger : Option Trigger} (hres : ∀ name, P (.resolveLatest name))
    (hlaunch : ∀ m d v, P (.launch trigger m d v)) (hget : ∀ m, P (.getStatus m))
    (hset : ∀ m st, P (.setStatus m st)) (hclock : P .clock) (p : ModelPolicy) :
    (launch trigger p).Calls P := by
  refine Code.calls_bind (calls_resolveDatasetVersion hres _ _) fun v => ?_
  refine Code.calls_bind (calls_ask (hlaunch _ _ _)) fun answer => ?_
  split
  · trivial
  · trivial
  · trivial
  · refine Code.calls_bind (Code.calls_result ?_) fun r => ?_
    · refine Code.calls_bind (calls_read (calls_ask (hget _))) fun st => ?_
      exact Code.calls_bind (calls_ask hclock) fun _ => calls_write (calls_ask (hset _ _))
    · split <;> trivial

theorem calls_backedOff (cfg : Settings) (pending : Pending) (now : ℚ) :
    (backedOff cfg pending now).Calls P := by
  unfold backedOff
  split <;> trivial

theorem calls_retryPending (h : ∀ o, o.promotes = false → P o) (cfg : Settings) (p : ModelPolicy)
    (now : ℚ) : (retryPending cfg p now).Calls P := by
  have hlaunch : ∀ trigger, (launch trigger p).Calls P := fun _ =>
    calls_launch (fun _ => h _ rfl) (fun _ _ _ => h _ rfl) (fun _ => h _ rfl)
      (fun _ _ => h _ rfl) (h _ rfl) p
  have hsave : ∀ pending, (savePending pending).Calls P := fun _ => calls_write (calls_ask (h _ rfl))
  have hclear : (clearPending p.modelName).Calls P := calls_write (calls_ask (h _ rfl))
  refine Code.calls_bind (calls_read (calls_ask (h _ rfl))) fun pending => ?_
  split
  · trivial
  · split
    · exact Code.calls_bind (Code.calls_result hclear) fun _ => trivial
    · split
      · trivial
      · refine Code.calls_bind (Code.calls_result (hlaunch _)) fun r => ?_
        split
        · refine Code.calls_bind (calls_backedOff _ _ _) fun _ => ?_
          refine Code.calls_bind (hsave _) fun _ => ?_
          exact Code.calls_bind (calls_ask (h _ rfl)) fun _ => trivial
        · refine Code.calls_bind (calls_backedOff _ _ _) fun _ => ?_
          refine Code.calls_bind (Code.calls_result (hsave _)) fun _ => ?_
          exact Code.calls_bind (calls_ask (h _ rfl)) fun _ => trivial
        · refine Code.calls_bind hclear fun _ => ?_
          exact Code.calls_bind (calls_ask (h _ rfl)) fun _ => trivial
        · refine Code.calls_bind (Code.calls_result hclear) fun r => ?_
          split
          · exact Code.calls_bind (calls_ask (h _ rfl)) fun _ => trivial
          · refine Code.calls_bind (Code.calls_result (hsave _)) fun _ => ?_
            exact Code.calls_bind (calls_ask (h _ rfl)) fun _ => trivial

theorem calls_runMonitors (h : ∀ m kind, P (.check m kind)) (m : ModelName) (now : ℚ)
    (kinds : List MonitorKind) : (runMonitors m now kinds).Calls P := by
  induction kinds with
  | nil => trivial
  | cons kind kinds ih =>
    refine Code.calls_bind (calls_ask (h m kind)) fun answer => ?_
    exact Code.calls_bind ih fun _ => trivial

theorem calls_handleBreach (h : ∀ o, o.promotes = false → P o) (cfg : Settings) (p : ModelPolicy)
    (breach : Breach) (now : ℚ) : (handleBreach cfg p breach now).Calls P := by
  have hlaunch : ∀ trigger, (launch trigger p).Calls P := fun _ =>
    calls_launch (fun _ => h _ rfl) (fun _ _ _ => h _ rfl) (fun _ => h _ rfl)
      (fun _ _ => h _ rfl) (h _ rfl) p
  have hsave : ∀ pending, (savePending pending).Calls P := fun _ => calls_write (calls_ask (h _ rfl))
  have hrelease : ∀ token, (releaseFn (.policy p.modelName) token).Calls P := fun _ =>
    calls_ask (h _ rfl)
  have hbreach : (launchBreach cfg p breach now).Calls P := by
    refine Code.calls_bind (calls_ask (h _ rfl)) fun token => ?_
    split
    · trivial
    · refine Code.calls_bind (Code.calls_result (hlaunch _)) fun r => ?_
      split
      · refine Code.calls_bind (Code.calls_result (hsave _)) fun r => ?_
        split
        · trivial
        · exact Code.calls_bind (hrelease _) fun _ => trivial
      · exact Code.calls_bind (hrelease _) fun _ => trivial
      · trivial
  refine Code.calls_bind (calls_read (calls_ask (h _ rfl))) fun status => ?_
  split
  · trivial
  · refine Code.calls_bind (calls_read (calls_ask (h _ rfl))) fun pending => ?_
    split
    · split
      · exact hbreach
      · exact Code.calls_bind (hsave _) fun _ => trivial
    · exact hbreach

theorem calls_runDueChecks (h : ∀ o, o.promotes = false → P o) (cfg : Settings) (p : ModelPolicy)
    (now : ℚ) : (runDueChecks cfg p now).Calls P := by
  refine Code.calls_bind (calls_read (calls_ask (h _ rfl))) fun status => ?_
  dsimp only
  split
  · trivial
  · refine Code.calls_bind (calls_runMonitors (fun _ _ => h _ rfl) _ _ _) fun found => ?_
    refine Code.calls_bind (calls_write (calls_ask (h _ rfl))) fun _ => ?_
    split
    · trivial
    · exact Code.calls_bind (calls_handleBreach h cfg p _ now) fun _ => trivial

theorem calls_gate {reader : Reader} (hserving : ∀ m, P (.servingVersion reader m))
    (heval : ∀ m v, P (.readEval reader m v)) (cfg : Settings) (m : ModelName) (v : Version)
    (overriding : Bool) : (gate cfg reader m v overriding).Calls P := by
  refine Code.calls_bind (calls_ask (hserving m)) fun serving => ?_
  refine Code.calls_bind (calls_ask (heval m v)) fun candidate => ?_
  split
  · exact Code.calls_bind (calls_ask (heval m _)) fun _ => trivial
  · trivial

theorem calls_shadowFn {m : ModelName} {v : Version} (h : P (.shadow m v)) :
    (shadowFn m v).Calls P := by
  refine Code.calls_bind (calls_ask h) fun r => ?_
  split <;> trivial

theorem calls_promote (mover : Mover) (hserving : ∀ m, P (.servingVersion (.promotion mover) m))
    (heval : ∀ m v, P (.readEval (.promotion mover) m v))
    (halias : ∀ m v verdict, P (.setAlias mover m v verdict)) (cfg : Settings) (m : ModelName)
    (v : Version) (overriding : Bool) : (promote cfg mover m v overriding).Calls P := by
  refine Code.calls_bind (calls_gate hserving heval cfg m v overriding) fun verdict => ?_
  split
  · trivial
  · refine Code.calls_bind (calls_ask (halias m v verdict)) fun moved => ?_
    split <;> trivial

end Calls

/-- A call of a request. -/
def Op.ofRoute (t : ThreadId) : Op → Bool
  | .getSuggestion _ | .resolveSuggestion _ .accepted | .resolveSuggestion _ .dismissed
  | .resolveLatest _ | .servingVersion .route _ | .servingVersion (.promotion .operator) _
  | .readEval (.promotion .operator) .. | .setAlias .operator .. => true
  | .reserve trigger | .launch (some trigger) .. | .release trigger (some _) =>
      trigger = .request t
  | _ => false

/-- A request calls nothing else. -/
theorem calls_of_route {cfg : Settings} {t : ThreadId} {c : Choice} (x : World)
    {code : Prog (List Action)} (ht : t ≠ scheduler) (h : spawn cfg t c x = some code) :
    code.Calls fun o => o.ofRoute t = true := by
  have hpromote : ∀ m v overriding,
      (promote cfg .operator m v overriding).Calls fun o => o.ofRoute t = true :=
    calls_promote .operator (fun _ => rfl) (fun _ _ => rfl) (fun _ _ _ => rfl) cfg
  cases c <;> simp only [spawn, ht, if_false, reduceCtorEq, Option.some.injEq] at h
  case monitorCheck spec =>
    subst h
    refine Code.calls_bind (calls_ask (by simp [Op.ofRoute])) fun token => ?_
    split
    · trivial
    · refine Code.calls_bind (Code.calls_result ?_) fun r => ?_
      · refine Code.calls_bind (calls_resolveDatasetVersion (fun _ => rfl) _ _) fun v => ?_
        refine Code.calls_bind (calls_ask (by simp [Op.ofRoute])) fun answer => ?_
        split <;> trivial
      · split
        · trivial
        · exact Code.calls_bind (calls_ask (by simp [Op.ofRoute])) fun _ => trivial
  case accept id =>
    subst h
    refine Code.calls_bind (calls_read (calls_ask rfl)) fun found => ?_
    split
    · trivial
    · split
      · trivial
      · refine Code.calls_bind (calls_ask rfl) fun serving => ?_
        split
        · exact Code.calls_bind (calls_read (calls_ask rfl)) fun _ => trivial
        · refine Code.calls_bind (hpromote _ _ _) fun promoted => ?_
          split
          · exact Code.calls_bind (calls_read (calls_ask rfl)) fun _ => trivial
          · trivial
  case dismiss id =>
    subst h
    exact Code.calls_bind (calls_read (calls_ask rfl)) fun _ => trivial
  case promote m v overriding =>
    subst h
    exact Code.calls_bind (hpromote _ _ _) fun _ => trivial

/-! ## The parts of a tick -/

section Keeps

variable {S : Code.Spec World Choice Op Reply} {J : World → Prop}

theorem keeps_orStore {α : Type} (a : Option α) : (orStore a).Keeps S J := by
  cases a <;> exact fun _ hJ => hJ

theorem keeps_okStore (ok : Bool) : (okStore ok).Keeps S J := by
  cases ok <;> exact fun _ hJ => hJ

theorem keeps_read {α : Type} {t : Prog (Option α)} (h : t.Keeps S J) : (t >>= orStore).Keeps S J :=
  Code.keeps_bind h keeps_orStore

theorem keeps_write {t : Prog Bool} (h : t.Keeps S J) : (t >>= okStore).Keeps S J :=
  Code.keeps_bind h keeps_okStore

theorem keeps_pollWatch {cfg : Settings} {p : ModelPolicy} {now : ℚ}
    (hget : ∀ m, (ask (.getStatus m)).Keeps S J) (hset : ∀ m st, (ask (.setStatus m st)).Keeps S J)
    (hpoll : ∀ run, (watchFn run).Keeps S J)
    (hjudge : ∀ status v, (judgeCandidate cfg p status v now).Keeps S J) :
    (pollWatch cfg p now).Keeps S J := by
  have hsave : ∀ st (actions : List Action),
      (saveStatus p.modelName st >>= fun _ => (pure actions : Prog (List Action))).Keeps S J :=
    fun st _ => Code.keeps_bind (keeps_write (hset _ st)) fun _ => Code.keeps_ret _
  refine Code.keeps_bind (keeps_read (hget _)) fun status => ?_
  dsimp only
  split
  · exact Code.keeps_ret _
  · refine Code.keeps_bind (hpoll _) fun answer => ?_
    split
    · split
      · exact hsave _ _
      · split
        · exact hsave _ _
        · exact Code.keeps_ret _
    · split
      · exact hsave _ _
      · exact Code.keeps_ret _
    · exact hsave _ _
    · exact hsave _ _
    · split
      · exact hsave _ _
      · exact hjudge _ _

theorem keeps_stages (m : ModelName) {l : List (Prog (List Action))}
    (h : ∀ stage ∈ l, stage.Keeps S J) : ∀ actions, (stages m actions l).Keeps S J := by
  induction l with
  | nil => exact fun _ => Code.keeps_ret _
  | cons stage rest ih =>
    intro actions
    refine Code.keeps_bind (Code.keeps_result (h stage List.mem_cons_self)) fun r => ?_
    split
    · exact ih (fun s hs => h s (List.mem_cons_of_mem _ hs)) _
    · exact Code.keeps_ret _

theorem keeps_tickAll {cfg : Settings} {now : ℚ}
    (h : ∀ p, (tickPolicy cfg p now).Keeps S J) : ∀ l, (tickAll cfg now l).Keeps S J := by
  intro policies
  induction policies with
  | nil => exact Code.keeps_ret _
  | cons p rest ih =>
    have hrest : ∀ actions, (tickAll cfg now rest >>= fun more =>
        (pure (actions ++ more) : Prog (List Action))).Keeps S J := fun _ =>
      Code.keeps_bind ih fun _ => Code.keeps_ret _
    unfold tickAll
    dsimp only
    split
    · exact Code.keeps_bind (h p) hrest
    · exact hrest []

/-- A tick keeps to what its three stages keep to. -/
theorem keeps_tick {cfg : Settings} (hclock : (ask .clock).Keeps S J)
    (hlist : (ask .listPolicies).Keeps S J)
    (hretry : ∀ p now, (retryPending cfg p now).Keeps S J)
    (hchecks : ∀ p now, (runDueChecks cfg p now).Keeps S J)
    (hwatch : ∀ p now, (pollWatch cfg p now).Keeps S J) : (tick cfg).Keeps S J := by
  have hpolicy : ∀ p now, (tickPolicy cfg p now).Keeps S J := fun p now =>
    keeps_stages _ (by simp [hretry, hchecks, hwatch]) _
  refine Code.keeps_bind hclock fun now => ?_
  refine Code.keeps_bind (Code.keeps_result (keeps_read hlist)) fun r => ?_
  split
  · exact Code.keeps_ret _
  · exact keeps_tickAll (fun p => hpolicy p now) _

end Keeps

end MlopsLite.Gateway.Policy
