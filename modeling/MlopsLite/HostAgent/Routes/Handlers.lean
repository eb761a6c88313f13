import MlopsLite.HostAgent.Routes.Submit

/-!
# Routes — the handlers

`handle_get` and `handle_post` (`hostagent/main.py`): the two route tables in
their order, and each handler as the source has it, with what it raises.
-/

namespace MlopsLite.HostAgent.Routes

open Conversions (Value Fault Fields)
open Jobs (Kind)

abbrev Handled := Except Exc Answer

/-! ## GET -/

inductive GetRoute
  | healthz
  | gpuQueue
  | runtimeDevices
  | runtimeAdmission
  | journal
  | readyz
  | health
  | metrics
  | engines
  | engineHealth (eid : String)
  | jobs (id : Option String)
  | legacy (kind : Kind) (segment id : String)
  | unknown

/-- `path.endswith(s)` for one of the health suffixes, and what is in front of it. -/
def engineHealthId (path : List Char) : Option String :=
  if starts "/engines/" path then
    (["/health", "/readyz", "/healthz"].find? fun s => ends s path).map fun s =>
      between "/engines/" s path
  else none

/-- `_legacy_job_get`'s path. -/
def legacyRoute (path : List Char) : GetRoute :=
  match segments path with
  | [segment, id] =>
    match routeToKind segment with
    | some k => .legacy k (String.ofList segment) (String.ofList id)
    | none => .unknown
  | _ => .unknown

/-- `_GET_ROUTES`, and what is below them. -/
def getRoute (path : List Char) : GetRoute :=
  if path = "/healthz".toList then .healthz
  else if path = "/gpu/queue".toList then .gpuQueue
  else if path = "/runtime/devices".toList then .runtimeDevices
  else if path = "/runtime/admission".toList then .runtimeAdmission
  else if path = "/journal".toList then .journal
  else if path = "/readyz".toList then .readyz
  else if path = "/health".toList then .health
  else if path = "/metrics".toList then .metrics
  else if path = "/engines".toList then .engines
  else
    match engineHealthId path with
    | some eid => .engineHealth eid
    | none =>
      if path = "/jobs".toList then .jobs none
      else if starts "/jobs/" path then
        .jobs (if path = "/jobs/".toList then none else some (between "/jobs/" "" path))
      else legacyRoute path

def getHealthz : Answer := answer 200 (.obj [("ok", .bool true), ("service", .str "hostagent")])

/-- `reason` where there is one. -/
def withReason : Option String → Members
  | none | some "" => []
  | some reason => [("reason", .str reason)]

def getReadyz (agent : Agent) : Answer :=
  answer (if agent.ready.1 then 200 else 503)
    (.obj (("ready", .bool agent.ready.1) :: withReason agent.ready.2))

def getHealth (agent : Agent) : Answer :=
  answer 200 (.obj ([
    ("ok", .bool true),
    ("engines", .obj (agent.states.map fun e => (e.1, .str e.2))),
    ("gpu_free_gb", agent.freeGb),
    ("holder", (agent.holder.map Prod.fst).getD .null),
    ("holder_kind", (agent.holder.map Prod.snd).getD .null),
    ("wedged", .bool (agent.states.any fun e => e.2 = "wedged")),
    ("jobs_active", .num (.fin agent.jobsActive)),
    ("interrupted_since_start", agent.interruptedAtStart),
    ("started_at", agent.startedAt)] ++
    (agent.securityMode.map fun mode => ("security_mode", mode)).toList ++ agent.manager.health))

def getMetrics (agent : Agent) : Answer :=
  .response 200 (.text agent.metrics) "text/plain; version=0.0.4"

def getEngines (agent : Agent) : Answer := answer 200 (.obj [("engines", agent.engineRows)])

/-- `unknown engine {eid!r}`. -/
def unknownEngine (env : Env) (eid : Value) : Answer :=
  complaint 404 ("unknown engine " ++ env.shown eid)

/-- The adapter's health with the runtime's state over it. -/
def Engine.healthOf (e : Engine) (health : Bool → Dict String Value) : Dict String Value :=
  let payload := health e.resident
  if e.state = "wedged" ∨ e.state = "disabled" then
    (payload.insert "ok" (.bool false)).insert e.state (e.reason.getD (.bool true))
  else payload

def getEngineHealth (env : Env) (agent : Agent) (eid : String) : Answer :=
  match (agent.engines eid).bind fun e => e.health.map e.healthOf with
  | none => unknownEngine env (.str eid)
  | some payload =>
    answer (if ((payload.get? "ok").getD (.bool true)).truthy then 200 else 503) (ofDict payload)

def getJobs (env : Env) (agent : Agent) (query : List Char) : Option String → Answer
  | some id =>
    match agent.job id with
    | some rec => answer 200 (ofDict rec)
    | none => complaint 404 "unknown job"
  | none =>
    answer 200 (.obj [("jobs", agent.listing ((first env query "kind").map String.ofList))])

def getGpuQueue (agent : Agent) : Answer :=
  match agent.queue with
  | none => complaint 503 "the broker coordinator is not enabled on this agent"
  | some payload => answer 200 payload

def getRuntimeDevices (agent : Agent) : Answer := answer 200 agent.devices

/-- `int(limit) if limit and limit.isdigit() else None`. -/
def admissionLimit (env : Env) : Option (List Char) → Except Exc (Option ℤ)
  | none => .ok none
  | some limit =>
    if limit ≠ [] ∧ limit.all env.numerals.digit = true then
      match env.numerals.int limit with
      | some n => .ok (some n)
      | none => .error (.fault .value)
    else .ok none

def getRuntimeAdmission (env : Env) (agent : Agent) (query : List Char) : Handled :=
  match agent.admission with
  | none => .ok (complaint 503 "the broker coordinator is not enabled on this agent")
  | some snapshot => do
    let limit ← admissionLimit env (first env query "limit")
    return answer 200 (snapshot limit)

/-- `float(text)`, which is evaluated for each of the entries. -/
def bound (env : Env) (text : Option (List Char)) (entries : List JournalRead.Entry) :
    Except Exc (Option Number) :=
  match text, entries with
  | none, _ | _, [] => .ok none
  | some text, _ =>
    match env.numerals.float text with
    | some x => .ok (some x)
    | none => .error (.fault .value)

/-- What a query asks of the journal, with its bounds as numbers. -/
def asked (env : Env) (query : List Char) (since till : Option Number) : JournalRead.Query where
  limit := first env query "limit"
  jobId := (first env query "job_id").map String.ofList
  engineId := (first env query "engine_id").map String.ofList
  eventType := (first env query "event_type").map String.ofList
  since := since
  till := till

/-- `journalread.read`: a bound is a number where an entry gets to it. -/
def readJournal (env : Env) (records : List JournalRead.JobRecord) (query : List Char) :
    Except Exc JournalRead.Page := do
  let since ← bound env (first env query "since")
    (JournalRead.matching records (asked env query none none))
  let till ← bound env (first env query "until")
    (JournalRead.matching records (asked env query since none))
  return JournalRead.read records (asked env query since till) (first env query "cursor")

def getJournal (env : Env) (agent : Agent) (query : List Char) : Handled := do
  let page ← readJournal env agent.records query
  return .response 200 (.page page) "application/json"

/-- `legacy_view`, of a record of the kind. -/
def legacyView (k : Kind) (rec : Dict String Value) : Dict String Value :=
  let read := fun field => (rec.get? field).getD .null
  let status := match read "state" with
    | .str "interrupted" => .str "failed"
    | state => state
  let view := ((Dict.empty.insert k.spec.idKey (read "job_id")).insert "status" status).insert
    "request" (read "request")
  let view := k.spec.extra.foldl (fun view field =>
    match rec.get? field with
    | some v => view.insert field v
    | none => view) view
  match read "error" with
  | .null => view
  | error => view.insert "error" error

def isKind (k : Kind) (rec : Dict String Value) : Bool :=
  (rec.get? "kind").any (Conversions.isKey k.spec.name)

/-- `_legacy_job_get`. -/
def getLegacy (agent : Agent) (k : Kind) (segment id : String) : Answer :=
  match (agent.job id).filter (isKind k) with
  | none => complaint 404 ("no " ++ segment ++ " " ++ id)
  | some rec => answer 200 (ofDict (legacyView k rec))

/-- `handle_get`. -/
def handleGet (env : Env) (agent : Agent) (path query : List Char) : Handled :=
  match getRoute path with
  | .healthz => .ok getHealthz
  | .gpuQueue => .ok (getGpuQueue agent)
  | .runtimeDevices => .ok (getRuntimeDevices agent)
  | .runtimeAdmission => getRuntimeAdmission env agent query
  | .journal => getJournal env agent query
  | .readyz => .ok (getReadyz agent)
  | .health => .ok (getHealth agent)
  | .metrics => .ok (getMetrics agent)
  | .engines => .ok (getEngines agent)
  | .engineHealth eid => .ok (getEngineHealth env agent eid)
  | .jobs id => .ok (getJobs env agent query id)
  | .legacy k segment id => .ok (getLegacy agent k segment id)
  | .unknown => .ok (complaint 404 "unknown path")

/-! ## POST -/

structure PostRequest where
  path : List Char
  query : List Char
  contentType : List Char
  controlHeader : String
  raw : List UInt8

inductive PostRoute
  | override (id : String)
  | unload
  | reload
  | jobs
  | cancel (id : String)
  | legacy (kind : Kind)
  | verb (eid verb : String) (rest : List (List Char))
  | unknown

/-- `_POST_ROUTES`. -/
def postRoute (path : List Char) : PostRoute :=
  if starts "/gpu/jobs/" path && ends "/override" path then
    .override (between "/gpu/jobs/" "/override" path)
  else if path = "/control/unload".toList then .unload
  else if path = "/control/reload".toList then .reload
  else if path = "/jobs".toList then .jobs
  else if starts "/jobs/" path && ends "/cancel" path then
    .cancel (between "/jobs/" "/cancel" path)
  else
    match routeToKind (Texts.strip isSlash path) with
    | some k => .legacy k
    | none =>
      match segments path with
      | engines :: eid :: verb :: rest =>
        if engines = "engines".toList then .verb (String.ofList eid) (String.ofList verb) rest
        else .unknown
      | _ => .unknown

/-- `_parse_json`: what is no JSON is `None`, as `null` is. -/
def parseJson (env : Env) (raw : List UInt8) : Except Exc Value :=
  match env.loads (if raw.isEmpty then [123, 125] else raw) with
  | .value v => .ok v
  | .invalid => .ok .null
  | .tooDeep => .error .recursion

/-- `body.get(...)`: the members of a body that is a dict. -/
def members : Value → Except Exc Fields
  | .obj ms => .ok (Conversions.ofMembers ms)
  | _ => .error (.fault .attribute)

def lifted {α : Type} : Except Fault α → Except Exc α
  | .ok a => .ok a
  | .error f => .error (.fault f)

/-- `CONTROL_SECRET and ctx.control_header != CONTROL_SECRET`. -/
def locked (agent : Agent) (req : PostRequest) : Bool :=
  agent.secret ≠ "" && req.controlHeader ≠ agent.secret

def forbidden : Answer := complaint 403 "bad or missing X-Agent-Control"

def invalidJson : Answer := complaint 400 "invalid JSON"

/-- `body.get("drain_timeout_s", 10)`. -/
def drainTimeout (body : Fields) : Value := (body.get "drain_timeout_s").getD (.num (.fin 10))

/-- The status of a runtime's report says that it is not loaded. -/
def isUnloaded (result : Dict String Value) : Bool :=
  match result.get? "status" with
  | some (.str s) => s = "unloaded" || s = "idle"
  | _ => false

/-- `manager.runtimes.get(engine)`, of a value with a hash. -/
def engineOf (agent : Agent) : Value → Option Engine
  | .str s => agent.engines s
  | _ => none

/-- What a handler makes of the body: `null` is refused. -/
def withBody (env : Env) (req : PostRequest) (handle : Value → Handled) : Handled := do
  match ← parseJson env req.raw with
  | .null => return invalidJson
  | body => handle body

/-- A handler that goes by the names of its body: only a dict has them. -/
def withMembers (env : Env) (req : PostRequest) (handle : Fields → Handled) : Handled :=
  withBody env req fun body => members body >>= handle

/-- `_post_control_unload`, of a body. -/
def unloadBody (env : Env) (agent : Agent) (body : Fields) : Handled :=
  let engine := body.read "engine"
  if Conversions.hashable engine then
    match engineOf agent engine with
    | none => .ok (unknownEngine env engine)
    | some e => do
      let t ← lifted (Conversions.float env.numerals (drainTimeout body))
      let result ← e.unload env t
      return answer (if isUnloaded result then 200 else 409) (ofDict result)
  else .error (.fault .type)

def postControlUnload (env : Env) (agent : Agent) (req : PostRequest) : Handled :=
  if locked agent req then .ok forbidden else withMembers env req (unloadBody env agent)

/-- `reload_serving_llm_op`: without an id the plain reload, else the id is a key
and the target a dict. -/
def reloadOp (agent : Agent) (operationId target : Value) (preempt : Bool) (t : Number) :
    Except Exc (Dict String Value) :=
  if operationId.truthy then do
    let target := if target.truthy then target else .obj []
    let _ ← members target
    if Conversions.hashable operationId then agent.reload (some (operationId, target)) preempt t
    else .error (.fault .type)
  else agent.reload none preempt t

/-- The `try` of `_post_control_reload`, of a body with its names. -/
def reloadFrom (env : Env) (agent : Agent) (body : Fields) : Except Exc (Dict String Value) := do
  let t ← lifted (Conversions.float env.numerals (drainTimeout body))
  reloadOp agent (body.read "operation_id") (body.read "target") (body.read "preempt").truthy t

/-- Its two `except`s. -/
def reloaded (env : Env) : Except Exc (Dict String Value) → Answer
  | .ok result => answer 200 (ofDict result)
  | .error .targetUnresolvable =>
    answer 409 (.obj
      [("error", .str (env.told .targetUnresolvable)), ("unresolvable", .bool true)])
  | .error e => errorResponse env e

def postControlReload (env : Env) (agent : Agent) (req : PostRequest) : Handled :=
  if locked agent req then .ok forbidden
  else withBody env req fun body => .ok (reloaded env (members body >>= reloadFrom env agent))

/-- The request in a body: its `request`, or the body without the outer names. -/
def innerRequest (body : Fields) : Except Exc Fields :=
  if (body.read "request").truthy then lifted (Conversions.dict (body.read "request"))
  else .ok (body.filter fun p =>
    ["kind", "modality", "request"].all fun name => !Conversions.isKey name p.1)

/-- `request.setdefault("modality", body["modality"])`, where there is one. -/
def foldModality (body request : Fields) : Fields :=
  match body.read "modality" with
  | .null => request
  | m => if (request.get "modality").isSome then request else request ++ [(.str "modality", m)]

def jobsBody (env : Env) (agent : Agent) (body : Fields) : Handled := do
  let request ← innerRequest body
  submitted env (submit env agent.manager (body.read "kind") (foldModality body request))

def postJobs (env : Env) (agent : Agent) (req : PostRequest) : Handled :=
  withMembers env req (jobsBody env agent)

def postJobCancel (agent : Agent) (req : PostRequest) (id : String) : Answer :=
  if locked agent req then forbidden
  else
    let result := agent.manager.cancel id
    answer (if (result.get? "status").any (Conversions.isKey "unknown") then 404 else 200)
      (ofDict result)

/-- `_post_legacy_alias`: the body itself is the request. -/
def postLegacyAlias (env : Env) (agent : Agent) (req : PostRequest) (k : Kind) : Handled :=
  withMembers env req fun request =>
    submitted env (submit env agent.manager (.str k.spec.name) request)

/-- `_forward_under_lease`, of an engine that is there. -/
def forwardUnderLease (env : Env) (e : Engine) (eid verb kind : String) (preempt : Bool)
    (method : Option (Number → Except Exc Value)) : Answer :=
  if verb ∈ e.verbs then
    match method with
    | none =>
      complaint 415 ("engine " ++ env.shown (.str eid) ++ " does not accept " ++ kind ++
        " for verb " ++ env.shown (.str verb))
    | some doForward =>
      match e.admitted preempt >>= doForward with
      | .ok result => answer 200 result
      | .error err => errorResponse env err
  else
    complaint 404 ("engine " ++ env.shown (.str eid) ++ " has no verb " ++ env.shown (.str verb))

/-- The `preempt` of a query. -/
def preempts (env : Env) (query : List Char) : Bool :=
  decide ((String.ofList ((first env query "preempt").getD [])).toLower ∈ ["1", "true", "yes"])

def verbBody (env : Env) (e : Engine) (eid verb : String) (stream preempt : Bool) (body : Value) :
    Handled :=
  if stream then
    if verb ∈ e.streamVerbs then .ok .stream
    else .ok (complaint 404
      ("engine " ++ env.shown (.str eid) ++ " has no stream verb " ++ env.shown (.str verb)))
  else .ok (forwardUnderLease env e eid verb "JSON" preempt (e.forward.map fun f => f verb body))

/-- `_post_engine_verb`. -/
def postEngineVerb (env : Env) (agent : Agent) (req : PostRequest) (eid verb : String)
    (rest : List (List Char)) : Handled :=
  match agent.engines eid with
  | none => .ok (unknownEngine env (.str eid))
  | some e =>
    let preempt := preempts env req.query
    let stream := decide (rest = ["stream".toList])
    if rest = [] ∨ stream = true then
      if !stream && starts "multipart/" req.contentType then
        .ok (forwardUnderLease env e eid verb "multipart" preempt
          (e.forwardMultipart.map fun f => f verb req.raw req.contentType))
      else withBody env req (verbBody env e eid verb stream preempt)
    else .ok (complaint 404 "unknown path")

/-- `str(body.get("action") or "")`. -/
def actionOf (env : Env) (body : Fields) : String :=
  match body.read "action" with
  | .str s => s
  | v => if v.truthy then env.shown v else ""

/-- `int(position or 1)`. -/
def positionOf (env : Env) (body : Fields) : Except Fault ℤ :=
  if (body.read "position").truthy then Conversions.int env.numerals (body.read "position")
  else .ok 1

/-- Whether the store makes the change: `none` for an action that is none. -/
def change (env : Env) (b : Broker) (id action : String) (body : Fields) :
    Except Exc (Option Bool) :=
  if action = "pin" then .ok (some (b.pin id))
  else if action = "reorder" then do
    let position ← lifted (positionOf env body)
    return some (b.reorder id position)
  else if action = "cancel" then .ok (some (b.cancel id))
  else if action = "pause" then .ok (some (b.reorder id b.queued))
  else if action = "resume" then .ok (some (b.reorder id 1))
  else .ok none

/-- The answer to a change that was made, refused by the store, or none. -/
def overridden (env : Env) (b : Broker) (id action : String) : Option Bool → Answer
  | none => complaint 400 ("unknown override " ++ env.shown (.str action))
  | some false => complaint 409 (env.told .store)
  | some true => answer 200 (.obj [("job", b.job id), ("jobs_lane", b.lane)])

/-- `gpuroutes.job_override`. -/
def jobOverride (env : Env) (b : Broker) (id action : String) (body : Fields) : Handled :=
  match b.state id with
  | none => .ok (complaint 404 "unknown job")
  | some state =>
    if state = "running" then
      .ok (complaint 409 "a running job is never preempted, reordered, or cancelled")
    else do
      let made ← change env b id action body
      return overridden env b id action made

/-- `_post_gpu_job_override`. -/
def postGpuJobOverride (env : Env) (agent : Agent) (req : PostRequest) (id : String) : Handled := do
  let body ← parseJson env req.raw
  if agent.broker.connects then
    let body ← members body
    jobOverride env agent.broker id (actionOf env body) body
  else return complaint 503 ("broker store unreachable: " ++ env.told .store)

/-- `handle_post`. -/
def handlePost (env : Env) (agent : Agent) (req : PostRequest) : Handled :=
  match postRoute req.path with
  | .override id => postGpuJobOverride env agent req id
  | .unload => postControlUnload env agent req
  | .reload => postControlReload env agent req
  | .jobs => postJobs env agent req
  | .cancel id => .ok (postJobCancel agent req id)
  | .legacy k => postLegacyAlias env agent req k
  | .verb eid verb rest => postEngineVerb env agent req eid verb rest
  | .unknown => .ok (complaint 404 "unknown path")

/-! ## Requests -/

inductive Request
  | get (path query : List Char)
  | post (req : PostRequest)

def handle (env : Env) (agent : Agent) : Request → Handled
  | .get path query => handleGet env agent path query
  | .post req => handlePost env agent req

end MlopsLite.HostAgent.Routes
