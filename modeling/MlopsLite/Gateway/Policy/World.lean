import MlopsLite.Lib.Code
import MlopsLite.Lib.Dict
import MlopsLite.Gateway.Policy.Evaluation

/-!
# Policy — the stores, and what is asked of them

The rows of `policies` and `suggestions` (`platformlib/storeimpl`), the
retrain cooldown (`gateway/app/quality.py`), the registry's alias and
evaluation tags, and the calls the scheduler and the routes make on them.
The monitors, the trainer and the shadow windows answer anything at any
time. One clock serves for the wall and the monotonic time.
-/

namespace MlopsLite.Gateway.Policy

abbrev ModelName := String

abbrev RunId := String

abbrev SuggestionId := ℕ

/-! ## Records -/

inductive MonitorKind
  | inputDrift
  | quality
  deriving DecidableEq, Repr

inductive PromotionMode
  | manual
  | suggest
  | autoOnGreen
  deriving DecidableEq, Repr

/-- `on_breach`: the dataset to train on, at a pinned version or `latest`. -/
structure OnBreach where
  datasetName : String
  dataset : String
  deriving DecidableEq, Repr

structure ModelPolicy where
  modelName : ModelName
  modality : String
  monitors : List MonitorKind
  checkIntervalS : ℕ
  onBreach : OnBreach
  promotionMode : PromotionMode
  enabled : Bool
  deriving DecidableEq, Repr

structure Breach where
  signal : MonitorKind
  score : Option ℚ
  seenAt : ℚ
  deriving DecidableEq, Repr

/-- A parked retrain; `landed`: its launch was accepted. -/
structure Pending where
  modelName : ModelName
  breach : Breach
  attempts : ℕ
  nextAttemptAt : ℚ
  landed : Bool
  deriving DecidableEq, Repr

structure Watch where
  runId : RunId
  launchedAt : ℚ
  unknownSince : Option ℚ
  deriving DecidableEq, Repr

/-- One monitor's answer; `breached` is absent where the check raised. -/
structure CheckResult where
  kind : MonitorKind
  breached : Option Bool
  score : Option ℚ
  deriving DecidableEq, Repr

inductive Winner
  | challenger
  | champion
  | tie
  deriving DecidableEq, Repr

structure LastCandidate where
  version : Version
  gateVerdict : Verdict
  shadowVerdict : Option Winner
  seenAt : ℚ
  deriving DecidableEq, Repr

structure Status where
  lastCheckAt : ℚ
  results : List CheckResult
  nextDueAt : Option ℚ
  watch : Option Watch
  lastCandidate : Option LastCandidate
  deriving DecidableEq, Repr

/-- `{}`. -/
def Status.empty : Status := ⟨0, [], none, none, none⟩

structure PolicyRow where
  policy : ModelPolicy
  pending : Option Pending
  status : Option Status
  deriving DecidableEq, Repr

inductive SuggestionState
  | «open»
  | accepted
  | dismissed
  | autoPromoted
  deriving DecidableEq, Repr

structure Suggestion where
  id : SuggestionId
  modelName : ModelName
  candidateVersion : Version
  gateVerdict : Verdict
  shadowVerdict : Option Winner
  state : SuggestionState
  byPolicy : Bool
  deriving DecidableEq, Repr

/-! ## History -/

abbrev ThreadId := ℕ

/-- Who asks for a promotion. -/
inductive Mover
  | policy
  | operator
  deriving DecidableEq, Repr

/-- Who reads the registry: the scheduler's gate, `promote`'s, or a route. -/
inductive Reader
  | judge
  | promotion (mover : Mover)
  | route
  deriving DecidableEq, Repr

/-- What a gate has read. -/
inductive Seen
  | serving (v : Option Version)
  | eval (v : Version) (e : Option Eval)
  deriving DecidableEq, Repr

/-- A move of an alias by the scheduler: the verdict it was made under, and
the version that served when that was computed. -/
structure Move where
  modelName : ModelName
  version : Version
  verdict : Verdict
  against : Option Version
  deriving DecidableEq, Repr

/-- Who triggers a retrain: a policy's breach, or a request. -/
inductive Trigger
  | policy (m : ModelName)
  | request (t : ThreadId)
  deriving DecidableEq, Repr

/-- The trainer's answer on a run. -/
inductive RunStatus
  | unknown
  | going
  | failed
  | completed (version : Option Version)
  deriving DecidableEq, Repr

/-- History, which no call reads.

`reads` is what a reader's last gate has read, and `against` what served
then. `holds` is when a trigger in flight, or a policy's park, last set the
cooldown's stamp. `polled` is the last answer on a run. `landing` has the
live parks whose launch was accepted, `dropped` those this tick removed
though it was not, and `unreported` those a tick removed without saying so. -/
structure History where
  reads : Reader → List Seen
  against : Reader → Option Version
  moves : List Move
  holds : Dict Trigger ℚ
  polled : Option (RunId × RunStatus)
  landing : List ModelName
  dropped : List ModelName
  unreported : List ModelName

def History.empty : History := 
  ⟨fun _ => [], fun _ => none, [], .empty, none, [], [], []⟩

/-- What is in the stores, the registry and the gateway's memory. -/
structure World where
  rows : Dict ModelName PolicyRow
  suggestions : List Suggestion
  nextId : SuggestionId
  serving : Dict ModelName Version
  evals : Dict (ModelName × Version) Eval
  /-- `_last_retrain_monotonic`, where it is not 0. -/
  stamp : Option ℚ
  now : ℚ
  epoch : ℕ
  history : History

structure Settings where
  gate : GateConfig
  cooldownSec : ℚ
  backoffBaseS : ℚ
  backoffMaxS : ℚ
  watchUnknownTimeoutS : ℚ

/-! ## Calls -/

inductive Op
  | listPolicies
  | getPending (m : ModelName)
  | setPending (m : ModelName) (p : Pending)
  | clearPending (m : ModelName)
  | getStatus (m : ModelName)
  | setStatus (m : ModelName) (st : Status)
  | findSuggestion (m : ModelName) (v : Version) (state : SuggestionState)
  | insertSuggestion (m : ModelName) (v : Version) (gate : Verdict) (shadow : Option Winner)
      (state : SuggestionState) (byPolicy : Bool)
  | getSuggestion (id : SuggestionId)
  | resolveSuggestion (id : SuggestionId) (state : SuggestionState)
  | resolveLatest (dataset : String)
  | check (m : ModelName) (kind : MonitorKind)
  /-- `trigger` is absent for a parked retrain. -/
  | launch (trigger : Option Trigger) (m : ModelName) (dataset version : String)
  | pollRun (run : RunId)
  | shadow (m : ModelName) (v : Version)
  | servingVersion (reader : Reader) (m : ModelName)
  | readEval (reader : Reader) (m : ModelName) (v : Version)
  | setAlias (mover : Mover) (m : ModelName) (v : Version) (verdict : Verdict)
  | reserve (trigger : Trigger)
  | release (trigger : Trigger) (token : Option ℚ)
  | note (m : ModelName)
  | clock
  deriving DecidableEq

/-- The newest version of a dataset, that it has none, or an outage. -/
inductive Resolved
  | version (v : String)
  | missing
  | outage
  deriving DecidableEq

/-- The trainer's answer to a launch; `failed` is an error, or no answer. -/
inductive LaunchAnswer
  | accepted (run : Option RunId)
  | busy
  | failed
  deriving DecidableEq

/-- The reply of each call; `none`, `false`: it raises. A read of the registry
that raises is taken for nothing found. -/
@[reducible] def Reply : Op → Type
  | .listPolicies => Option (List ModelPolicy)
  | .getPending _ => Option (Option Pending)
  | .setPending .. | .clearPending _ | .setStatus .. => Bool
  | .getStatus _ => Option (Option Status)
  | .findSuggestion .. => Option (Option Suggestion)
  | .insertSuggestion .. => Bool
  | .getSuggestion _ => Option (Option Suggestion)
  | .resolveSuggestion .. => Option (Option Suggestion)
  | .resolveLatest _ => Resolved
  | .check .. => Option (Bool × Option ℚ)
  | .launch .. => LaunchAnswer
  | .pollRun _ => RunStatus
  | .shadow .. => Option (Option Winner)
  | .servingVersion .. => Option Version
  | .readEval .. => Option Eval
  | .setAlias .. => Bool
  | .reserve _ => Option ℚ
  | .release .. | .note _ => Unit
  | .clock => ℚ

/-- How a call on a store goes: `lost` is applied, and raises. -/
inductive Fate
  | done
  | fails
  | lost
  deriving DecidableEq

/-- A trigger's request to retrain a model. -/
structure RetrainSpec where
  modelName : ModelName
  datasetName : String
  datasetVersion : String
  deriving DecidableEq

/-- What a step leaves open: how a call goes, or what comes in. -/
inductive Choice
  | fate (f : Fate)
  | resolved (r : Resolved)
  | checked (r : Option (Bool × Option ℚ))
  | launched (a : LaunchAnswer)
  | polled (r : RunStatus)
  | shadowed (r : Option (Option Winner))
  | tick
  | monitorCheck (spec : RetrainSpec)
  | accept (id : SuggestionId)
  | dismiss (id : SuggestionId)
  | promote (m : ModelName) (v : Version) (overriding : Bool)
  | putPolicy (p : ModelPolicy)
  | evaluate (m : ModelName) (v : Version) (e : Option Eval)
  | passes (d : ℚ)
  | restart
  deriving DecidableEq

namespace World

def pending (x : World) (m : ModelName) : Option Pending := (x.rows.get? m).bind PolicyRow.pending

def status (x : World) (m : ModelName) : Option Status := (x.rows.get? m).bind PolicyRow.status

/-- A park is not landed. -/
def live (x : World) (m : ModelName) : Bool := (x.pending m).any fun p => !p.landed

/-- A write to a row that is there. -/
def updateRow (x : World) (m : ModelName) (f : PolicyRow → PolicyRow) : World :=
  { x with rows := x.rows.modify m f }

def setPending (x : World) (m : ModelName) (p : Option Pending) : World :=
  let y := x.updateRow m fun row => { row with pending := p }
  let ended := x.live m && !y.live m
  { y with history := { x.history with
    landing := if ended then x.history.landing.filter (· ≠ m) else x.history.landing
    dropped :=
      if ended ∧ m ∉ x.history.landing then x.history.dropped ++ [m] else x.history.dropped } }

theorem pending_setPending (x : World) (m m' : ModelName) (p : Option Pending) :
    (x.setPending m p).pending m' =
      if m' = m then (x.rows.get? m).bind fun _ => p else x.pending m' := by
  simp only [pending, setPending, updateRow, Dict.get?_modify]
  split
  · rename_i h
    subst h
    cases x.rows.get? m' <;> rfl
  · rfl

theorem status_setPending (x : World) (m m' : ModelName) (p : Option Pending) :
    (x.setPending m p).status m' = x.status m' := by
  simp only [status, setPending, updateRow, Dict.get?_modify]
  split
  · rename_i h
    subst h
    cases x.rows.get? m' <;> rfl
  · rfl

def setStatus (x : World) (m : ModelName) (st : Status) : World :=
  x.updateRow m fun row => { row with status := some st }

theorem pending_setStatus (x : World) (m m' : ModelName) (st : Status) :
    (x.setStatus m st).pending m' = x.pending m' := by
  simp only [pending, setStatus, updateRow, Dict.get?_modify]
  split
  · rename_i h
    subst h
    cases x.rows.get? m' <;> rfl
  · rfl

theorem status_setStatus (x : World) (m m' : ModelName) (st : Status) :
    (x.setStatus m st).status m' =
      if m' = m then (x.rows.get? m).map fun _ => st else x.status m' := by
  simp only [status, setStatus, updateRow, Dict.get?_modify]
  split
  · rename_i h
    subst h
    cases x.rows.get? m' <;> rfl
  · rfl

def insertSuggestion (x : World) (m : ModelName) (v : Version) (gate : Verdict)
    (shadow : Option Winner) (state : SuggestionState) (byPolicy : Bool) : World :=
  { x with
    suggestions := x.suggestions ++ [⟨x.nextId, m, v, gate, shadow, state, byPolicy⟩]
    nextId := x.nextId + 1 }

/-- `UPDATE ... WHERE id = %s AND state = 'open'`. -/
def resolveSuggestion (x : World) (id : SuggestionId) (state : SuggestionState) : World :=
  { x with
    suggestions := x.suggestions.map fun r =>
      if r.id = id ∧ r.state = .open then { r with state } else r }

/-- The trainer has accepted a launch. -/
def accept (x : World) (m : ModelName) (trigger : Option Trigger) : World :=
  { x with history := { x.history with
    holds := trigger.elim x.history.holds x.history.holds.erase
    landing := if trigger = none then x.history.landing ++ [m] else x.history.landing } }

def seesServing (x : World) (m : ModelName) (v : Option Version) (reader : Reader) : World :=
  { x with history := { x.history with
    reads := Function.update x.history.reads reader [.serving v]
    against := Function.update x.history.against reader (x.serving.get? m) } }

def seesEval (x : World) (v : Version) (e : Option Eval) (reader : Reader) : World :=
  { x with history := { x.history with
    reads := Function.update x.history.reads reader (x.history.reads reader ++ [.eval v e]) } }

@[simp] theorem seesServing_reads (x : World) (m : ModelName) (v : Option Version)
    (reader : Reader) : (x.seesServing m v reader).history.reads reader = [.serving v] :=
  Function.update_self ..

@[simp] theorem seesServing_against (x : World) (m : ModelName) (v : Option Version)
    (reader : Reader) : (x.seesServing m v reader).history.against reader = x.serving.get? m :=
  Function.update_self ..

@[simp] theorem seesEval_reads (x : World) (v : Version) (e : Option Eval) (reader : Reader) :
    (x.seesEval v e reader).history.reads reader = x.history.reads reader ++ [.eval v e] :=
  Function.update_self ..

/-- To point the alias where it points moves nothing. -/
def setAlias (x : World) (mover : Mover) (m : ModelName) (v : Version) (verdict : Verdict) :
    World :=
  { x with
    serving := x.serving.insert m v
    history := { x.history with
      moves :=
        if mover = .policy ∧ x.serving.get? m ≠ some v then
          x.history.moves ++ [⟨m, v, verdict, x.history.against (.promotion .policy)⟩]
        else x.history.moves } }

/-- `try_reserve_retrain` would refuse. -/
def inCooldown (cfg : Settings) (x : World) : Bool :=
  x.stamp.any fun t => x.now - t < cfg.cooldownSec

def passes (x : World) (d : ℚ) : World := { x with now := x.now + d }

/-- The stamp is set to the time, by a trigger or by a park. -/
def hold (x : World) (trigger : Trigger) : World :=
  { x with
    stamp := some x.now
    history := { x.history with holds := x.history.holds.insert trigger x.now } }

/-- `note_retrain`, after a retry of the policy's park. -/
def note (x : World) (m : ModelName) : World :=
  { x with
    stamp := some x.now
    history := { x.history with
      holds :=
        if x.live m then x.history.holds.insert (.policy m) x.now
        else x.history.holds.erase (.policy m) } }

/-- The gateway's memory is lost: no trigger and no tick is under way. -/
def restart (x : World) : World :=
  { x with
    stamp := none
    epoch := x.epoch + 1
    history := { x.history with
      holds := .empty
      dropped := []
      unreported := x.history.unreported ++ x.history.dropped } }

/-- `release_retrain`. -/
def release (x : World) (trigger : Trigger) (token : Option ℚ) : World :=
  { x with
    stamp := if token = none ∨ x.stamp = token then none else x.stamp
    history := { x.history with holds := x.history.holds.erase trigger } }

end World

/-- A read of a store. -/
def readAs {α : Type} (x : World) (a : α) : Fate → World × Option α
  | .done => (x, some a)
  | _ => (x, none)

/-- A write to a store. -/
def writeAs (x x' : World) : Fate → World × Bool
  | .done => (x', true)
  | .fails => (x, false)
  | .lost => (x', false)

theorem of_writeAs {x x' x₁ : World} {f : Fate} {ok : Bool}
    (h : some (writeAs x x₁ f) = some (x', ok)) :
    (f = .fails ∧ x' = x ∧ ok = false) ∨ (f = .done ∧ x' = x₁ ∧ ok = true) ∨
      (f = .lost ∧ x' = x₁ ∧ ok = false) := by
  cases f <;> cases h
  · exact .inr (.inl ⟨rfl, rfl, rfl⟩)
  · exact .inl ⟨rfl, rfl, rfl⟩
  · exact .inr (.inr ⟨rfl, rfl, rfl⟩)

/-- A call. -/
def exec (cfg : Settings) (c : Choice) (x : World) : (o : Op) → Option (World × Reply o)
  | .listPolicies =>
      match c with
      | .fate f => some (readAs x (x.rows.values.map PolicyRow.policy) f)
      | _ => none
  | .getPending m =>
      match c with
      | .fate f => some (readAs x (x.pending m) f)
      | _ => none
  | .setPending m p =>
      match c with
      | .fate f => some (writeAs x (x.setPending m (some p)) f)
      | _ => none
  | .clearPending m =>
      match c with
      | .fate f => some (writeAs x (x.setPending m none) f)
      | _ => none
  | .getStatus m =>
      match c with
      | .fate f => some (readAs x (x.status m) f)
      | _ => none
  | .setStatus m st =>
      match c with
      | .fate f => some (writeAs x (x.setStatus m st) f)
      | _ => none
  | .findSuggestion m v state =>
      match c with
      | .fate f => some (readAs x (x.suggestions.find? fun r =>
          r.modelName = m ∧ r.candidateVersion = v ∧ r.state = state) f)
      | _ => none
  | .insertSuggestion m v gate shadow state byPolicy =>
      match c with
      | .fate f => some (writeAs x (x.insertSuggestion m v gate shadow state byPolicy) f)
      | _ => none
  | .getSuggestion id =>
      match c with
      | .fate f => some (readAs x (x.suggestions.find? fun r => r.id = id) f)
      | _ => none
  | .resolveSuggestion id state =>
      let x' := x.resolveSuggestion id state
      let found := if x.suggestions.any fun r => r.id = id ∧ r.state = .open then
          x'.suggestions.find? fun r => r.id = id
        else none
      match c with
      | .fate .done => some (x', some found)
      | .fate .fails => some (x, none)
      | .fate .lost => some (x', none)
      | _ => none
  | .resolveLatest _ =>
      match c with
      | .resolved r => some (x, r)
      | _ => none
  | .check _ _ =>
      match c with
      | .checked r => some (x, r)
      | _ => none
  | .launch trigger m _ _ =>
      match c with
      | .launched (.accepted run) => some (x.accept m trigger, .accepted run)
      | .launched a => some (x, a)
      | _ => none
  | .pollRun run =>
      match c with
      | .polled r => some ({ x with history := { x.history with polled := some (run, r) } }, r)
      | _ => none
  | .shadow _ _ =>
      match c with
      | .shadowed r => some (x, r)
      | _ => none
  | .servingVersion reader m =>
      match c with
      | .fate f =>
          let v := if f = .done then x.serving.get? m else none
          some (x.seesServing m v reader, v)
      | _ => none
  | .readEval reader m v =>
      match c with
      | .fate f =>
          let e := if f = .done then x.evals.get? (m, v) else none
          some (x.seesEval v e reader, e)
      | _ => none
  | .setAlias mover m v verdict =>
      match c with
      | .fate f => some (writeAs x (x.setAlias mover m v verdict) f)
      | _ => none
  | .reserve trigger =>
      -- no two stamps read the same time
      match c with
      | .passes d =>
          if d ≤ 0 then none
          else
            let y := x.passes d
            if y.inCooldown cfg then some (y, none) else some (y.hold trigger, some y.now)
      | _ => none
  | .release trigger token => some (x.release trigger token, ())
  | .note m =>
      match c with
      | .passes d => if d ≤ 0 then none else some ((x.passes d).note m, ())
      | _ => none
  | .clock => some (x, x.now)

/-! ## What a call does -/

/-- All that a call can do to the world. -/
inductive Did (cfg : Settings) (x : World) : Op → World → Prop
  | nothing (o : Op) : Did cfg x o x
  | parked (m : ModelName) (p : Pending) : Did cfg x (.setPending m p) (x.setPending m (some p))
  | unparked (m : ModelName) : Did cfg x (.clearPending m) (x.setPending m none)
  | status (m : ModelName) (st : Status) : Did cfg x (.setStatus m st) (x.setStatus m st)
  | inserted (m : ModelName) (v : Version) (gate : Verdict) (shadow : Option Winner)
      (state : SuggestionState) (byPolicy : Bool) :
      Did cfg x (.insertSuggestion m v gate shadow state byPolicy)
        (x.insertSuggestion m v gate shadow state byPolicy)
  | resolved (id : SuggestionId) (state : SuggestionState) :
      Did cfg x (.resolveSuggestion id state) (x.resolveSuggestion id state)
  | accepted (trigger : Option Trigger) (m : ModelName) (dataset version : String) :
      Did cfg x (.launch trigger m dataset version) (x.accept m trigger)
  | polled (run : RunId) (r : RunStatus) :
      Did cfg x (.pollRun run) { x with history := { x.history with polled := some (run, r) } }
  | seenServing (reader : Reader) (m : ModelName) (v : Option Version) :
      Did cfg x (.servingVersion reader m) (x.seesServing m v reader)
  | seenEval (reader : Reader) (m : ModelName) (v : Version) (e : Option Eval) :
      Did cfg x (.readEval reader m v) (x.seesEval v e reader)
  | moved (mover : Mover) (m : ModelName) (v : Version) (verdict : Verdict) :
      Did cfg x (.setAlias mover m v verdict) (x.setAlias mover m v verdict)
  | refused (trigger : Trigger) (d : ℚ) (hd : 0 < d) : Did cfg x (.reserve trigger) (x.passes d)
  | reserved (trigger : Trigger) (d : ℚ) (hd : 0 < d) (h : (x.passes d).inCooldown cfg = false) :
      Did cfg x (.reserve trigger) ((x.passes d).hold trigger)
  | released (trigger : Trigger) (token : Option ℚ) :
      Did cfg x (.release trigger token) (x.release trigger token)
  | noted (m : ModelName) (d : ℚ) (hd : 0 < d) : Did cfg x (.note m) ((x.passes d).note m)

theorem epoch_of_did {cfg : Settings} {x x' : World} {o : Op} (h : Did cfg x o x') :
    x'.epoch = x.epoch := by
  cases h <;> rfl

theorem did_of_read {cfg : Settings} {α : Type} {x : World} {o : Op} {f : Fate}
    {a : α} {r : World × Option α} (h : some (readAs x a f) = some r) : Did cfg x o r.1 := by
  cases f <;> cases h <;> exact .nothing o

theorem did_of_write {cfg : Settings} {x x₁ : World} {o : Op} {f : Fate} {r : World × Bool}
    (hdid : Did cfg x o x₁) (h : some (writeAs x x₁ f) = some r) : Did cfg x o r.1 := by
  cases f <;> cases h
  · exact hdid
  · exact .nothing o
  · exact hdid

theorem did_of_exec {cfg : Settings} {c : Choice} {x x' : World} {o : Op} {r : Reply o}
    (h : exec cfg c x o = some (x', r)) : Did cfg x o x' := by
  cases o
  case reserve trigger =>
    simp only [exec] at h
    split at h
    · split at h
      · cases h
      · rename_i d hd
        have hd : 0 < d := not_le.mp hd
        split at h
        · cases h
          exact .refused trigger d hd
        · rename_i hfree
          cases h
          exact .reserved trigger d hd (by simpa using hfree)
    · cases h
  case release trigger token =>
    cases h
    exact .released trigger token
  case note m =>
    simp only [exec] at h
    split at h
    · split at h
      · cases h
      · rename_i d hd
        cases h
        exact .noted m d (not_le.mp hd)
    · cases h
  case clock =>
    cases h
    exact .nothing _
  case launch trigger m dataset version =>
    simp only [exec] at h
    split at h <;> cases h
    · exact .accepted trigger m dataset version
    · exact .nothing _
  case pollRun run =>
    simp only [exec] at h
    split at h <;> cases h
    exact .polled run _
  case servingVersion reader m =>
    simp only [exec] at h
    split at h <;> cases h
    exact .seenServing reader m _
  case readEval reader m v =>
    simp only [exec] at h
    split at h <;> cases h
    exact .seenEval reader m v _
  case resolveSuggestion id state =>
    simp only [exec] at h
    split at h <;> cases h
    · exact .resolved id state
    · exact .nothing _
    · exact .resolved id state
  case listPolicies =>
    cases c <;> simp only [exec, reduceCtorEq] at h
    exact did_of_read h
  case getPending m =>
    cases c <;> simp only [exec, reduceCtorEq] at h
    exact did_of_read h
  case getStatus m =>
    cases c <;> simp only [exec, reduceCtorEq] at h
    exact did_of_read h
  case findSuggestion m v state =>
    cases c <;> simp only [exec, reduceCtorEq] at h
    exact did_of_read h
  case getSuggestion id =>
    cases c <;> simp only [exec, reduceCtorEq] at h
    exact did_of_read h
  case setPending m p =>
    cases c <;> simp only [exec, reduceCtorEq] at h
    exact did_of_write (.parked m p) h
  case clearPending m =>
    cases c <;> simp only [exec, reduceCtorEq] at h
    exact did_of_write (.unparked m) h
  case setStatus m st =>
    cases c <;> simp only [exec, reduceCtorEq] at h
    exact did_of_write (.status m st) h
  case insertSuggestion m v gate shadow state byPolicy =>
    cases c <;> simp only [exec, reduceCtorEq] at h
    exact did_of_write (.inserted m v gate shadow state byPolicy) h
  case setAlias mover m v verdict =>
    cases c <;> simp only [exec, reduceCtorEq] at h
    exact did_of_write (.moved mover m v verdict) h
  case resolveLatest dataset =>
    cases c <;> cases h
    exact .nothing _
  case check m kind =>
    cases c <;> cases h
    exact .nothing _
  case shadow m v =>
    cases c <;> cases h
    exact .nothing _

end MlopsLite.Gateway.Policy
