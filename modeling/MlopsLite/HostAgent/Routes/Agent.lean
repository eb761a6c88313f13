import MlopsLite.HostAgent.JournalRead
import MlopsLite.HostAgent.Jobs.Kinds
import MlopsLite.Lib.Conversions
import MlopsLite.Lib.Dict

/-!
# Routes — the agent behind them

What the handlers of `hostagent/main.py` are given: the managers, the journal,
the coordinator and the store, each as what it returns or raises at the time of
the request. The readers of the journal and of the broker's lane raise nothing;
`connect` and the writes raise `StoreError`.
-/

namespace MlopsLite.HostAgent.Routes

open Conversions (Value Fault Numerals Fields)
open Jobs (Kind)

abbrev Members := List (String × Value)

/-- What is raised on the way to an answer. -/
inductive Exc
  | fault (f : Fault)
  | recursion
  | store
  | held (holder kind : Value)
  | vramExceeded
  | preemptRefused
  | targetUnresolvable
  | swapError
  | engineError
  | other

/-- `json.loads`: `invalid` is its `ValueError`, `tooDeep` its `RecursionError`. -/
inductive Loaded
  | value (v : Value)
  | invalid
  | tooDeep

/-- The language and its library: `unquote` decodes the `%xx` of a query, `shown`
is `repr`, `told` the text of what was raised, and `maxWait` the longest timeout
that a lock takes. -/
structure Env where
  numerals : Numerals
  loads : List UInt8 → Loaded
  unquote : List Char → List Char
  shown : Value → String
  told : Exc → String
  maxWait : ℚ

/-- A runtime and its adapter; `forward` and `forwardMultipart` are `none` where
the adapter has no such method. -/
structure Engine where
  state : String
  reason : Option Value
  health : Option (Bool → Dict String Value)
  resident : Bool
  verbs : List String
  streamVerbs : List String
  admitted : Bool → Except Exc Number
  forward : Option (String → Value → Number → Except Exc Value)
  forwardMultipart : Option (String → List UInt8 → List Char → Number → Except Exc Value)
  unloaded : Dict String Value

/-- `rt.unload(drain_timeout_s=t)`: the lock takes no timeout beyond its longest. -/
def Engine.unload (env : Env) (e : Engine) (t : Number) : Except Exc (Dict String Value) :=
  if (Number.fin env.maxWait).lt t then .error (.fault .overflow) else .ok e.unloaded

/-- What `admission.acquire` comes to. -/
inductive Acquired
  | granted
  | held (holder kind : Value)
  | vramExceeded

/-- The job manager: `existing` is the job that a key is answered with and its
state, `fresh` the id of a new one, `writes` whether the store takes a record. -/
structure JobManager where
  existing : Value → Option (String × Value)
  active : Option String
  acquired : Acquired
  fresh : String
  writes : Bool
  cancel : String → Dict String Value
  health : Members

/-- The broker's store: a job's state, the length of the lane, and whether the store
makes a change; after it, the job and the lane. -/
structure Broker where
  connects : Bool
  state : String → Option String
  queued : ℕ
  pin : String → Bool
  reorder : String → ℤ → Bool
  cancel : String → Bool
  job : String → Value
  lane : Value

structure Agent where
  secret : String
  ready : Bool × Option String
  interruptedAtStart : Value
  startedAt : Value
  securityMode : Option Value
  freeGb : Value
  holder : Option (Value × Value)
  states : List (String × String)
  jobsActive : ℕ
  engines : String → Option Engine
  engineRows : Value
  metrics : String
  devices : Value
  queue : Option Value
  admission : Option (Option ℤ → Value)
  records : List JournalRead.JobRecord
  job : String → Option (Dict String Value)
  listing : Option String → Value
  manager : JobManager
  reload : Option (Value × Value) → Bool → Number → Except Exc (Dict String Value)
  broker : Broker

/-! ## Answers -/

inductive Payload
  | json (v : Value)
  | text (s : String)
  | page (p : JournalRead.Page)

inductive Answer
  | response (status : ℕ) (payload : Payload) (contentType : String)
  | stream

/-- A status of 4xx. -/
def Answer.refuses : Answer → Bool
  | .response status .. => decide (400 ≤ status ∧ status < 500)
  | .stream => false

def answer (status : ℕ) (payload : Value) : Answer :=
  .response status (.json payload) "application/json"

/-- `{"error": text}`. -/
def complaint (status : ℕ) (text : String) : Answer := answer status (.obj [("error", .str text)])

def ofDict (d : Dict String Value) : Value := .obj d.items

/-- `_engine_error_status`. -/
def engineErrorStatus : Exc → ℕ
  | .held .. | .preemptRefused | .targetUnresolvable | .swapError => 409
  | .vramExceeded => 507
  | .engineError => 503
  | .fault .value => 400
  | .fault _ | .recursion | .store | .other => 502

/-- `error_response`. -/
def errorResponse (env : Env) : Exc → Answer
  | .held holder kind =>
    answer 409
      (.obj [("error", .str (env.told (.held holder kind))), ("holder", holder), ("kind", kind)])
  | e => complaint (engineErrorStatus e) (env.told e)

/-! ## Paths and queries -/

def isSlash (c : Char) : Bool := c = '/'

/-- `path.strip("/").split("/")`. -/
def segments (path : List Char) : List (List Char) := (Texts.strip isSlash path).splitOn '/'

def starts (head : String) (path : List Char) : Bool := head.toList.isPrefixOf path

def ends (tail : String) (path : List Char) : Bool := tail.toList.isSuffixOf path

/-- `path[len(head):-len(tail)]`. -/
def between (head tail : String) (path : List Char) : String :=
  String.ofList ((path.take (path.length - tail.toList.length)).drop head.toList.length)

def plus (c : Char) : Char := if c = '+' then ' ' else c

/-- `parse_qs(query)`, its fields one by one: those without a value are left out. -/
def parseQs (env : Env) (query : List Char) : List (List Char × List Char) :=
  (query.splitOn '&').filterMap fun field =>
    match (field.dropWhile (· ≠ '=')).tail with
    | [] => none
    | value =>
      some (env.unquote ((field.takeWhile (· ≠ '=')).map plus), env.unquote (value.map plus))

/-- `(parse_qs(query).get(name) or [None])[0]`. -/
def first (env : Env) (query : List Char) (name : String) : Option (List Char) :=
  ((parseQs env query).find? fun field => field.1 = name.toList).map Prod.snd

end MlopsLite.HostAgent.Routes
