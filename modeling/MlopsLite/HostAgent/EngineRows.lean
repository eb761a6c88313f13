import MlopsLite.Lib.Dict
import MlopsLite.Lib.Json

/-!
# Engine rows — the body of `GET /engines`

`EngineRuntime.state` and `EngineManager.engine_rows`
(`hostagent/lifecycle.py`), on what they read of a runtime. A row names its
engine, the state and the reason for it; what the child has loaded is no part
of it.
-/

namespace MlopsLite.HostAgent.EngineRows

/-- A child process, and the version of the model it has loaded. -/
structure Child where
  exited : Bool
  registryVersion : Option String

/-- What `state` reads of a runtime; `available` and `ready` are the adapter's
answers. -/
structure Runtime where
  enabled : Bool
  wedgedReason : Option String
  available : Bool × Option String
  child : Option Child
  ready : Bool
  gpu : Bool
  optional : Bool

inductive State
  | disabled
  | wedged
  | unavailable
  | ready
  | loading
  | cold
  deriving DecidableEq, Repr

def State.text : State → String
  | .disabled => "disabled"
  | .wedged => "wedged"
  | .unavailable => "unavailable"
  | .ready => "ready"
  | .loading => "loading"
  | .cold => "cold"

namespace Runtime

/-- `_resident`: the child has not exited. -/
def resident (rt : Runtime) : Bool := rt.child.any fun c => !c.exited

/-- `EngineRuntime.state`; an empty reason does not count as wedged. -/
def state (rt : Runtime) : State × Option String :=
  if !rt.enabled then (.disabled, none)
  else if rt.wedgedReason.getD "" ≠ "" then (.wedged, rt.wedgedReason)
  else if !rt.available.1 then (.unavailable, rt.available.2)
  else if rt.resident then (if rt.ready then .ready else .loading, none)
  else (.cold, none)

/-- A live child that answers ready. -/
def serving (rt : Runtime) : Bool := rt.resident && rt.ready

/-- The version a serving child has loaded. -/
def servedVersion (rt : Runtime) : Option String :=
  if rt.serving then rt.child.bind Child.registryVersion else none

end Runtime

abbrev Table := Dict String Runtime

def textOrNull : Option String → Json ℚ
  | some s => .str s
  | none => .null

/-- One row. -/
def row (id : String) (rt : Runtime) : Json ℚ :=
  .obj [("engine_id", .str id), ("state", .str rt.state.1.text), ("gpu", .bool rt.gpu),
    ("optional", .bool rt.optional), ("reason", textOrNull rt.state.2)]

/-- `EngineManager.engine_rows`: the rows under their engines' ids. -/
def engineRows (table : Table) : Json ℚ :=
  .obj (table.items.map fun kv => (kv.1, row kv.1 kv.2))

/-- The body of `GET /engines`. -/
def body (table : Table) : Json ℚ := .obj [("engines", engineRows table)]

end MlopsLite.HostAgent.EngineRows
