import MlopsLite.Lib.Conversions
import MlopsLite.Lib.Dict

/-!
# Policy — declarations

`ModelPolicy.validate` (`platformlib/contracts.py`), `put_policy`
(`gateway/app/policies.py`) and what the scheduler converts of a stored policy
(`_default_check` and the due time of `_run_due_checks`,
`gateway/app/scheduler.py`). A document is a decoded body; its numbers are
integers of any size and floats.
-/

namespace MlopsLite.Gateway.Policy.Declarations

open Conversions (Numerals Fault)

/-- A decoded number: an `int` or a `float`. -/
inductive Numeral
  | int (n : ℤ)
  | float (x : Number)
  deriving DecidableEq

def Numeral.value : Numeral → Number
  | .int n => .fin n
  | .float x => x

abbrev Doc := Json Numeral

abbrev Members := List (String × Doc)

def truthy : Doc → Bool
  | .null => false
  | .bool b => b
  | .num n => n.value ≠ .fin 0
  | .str s => s ≠ ""
  | .arr items => !items.isEmpty
  | .obj members => !members.isEmpty

/-- `value == s`. -/
def isText (s : String) : Doc → Bool
  | .str t => t = s
  | _ => false

/-- `members.get(key)`. -/
def get (members : Members) (key : String) : Doc := (members.lookup key).getD .null

/-- `value or default`. -/
def orElse (value default : Doc) : Doc := if truthy value then value else default

/-- What `for x in value` runs through. -/
def iter : Doc → Except Fault (List Doc)
  | .arr items => .ok items
  | .obj members => .ok (members.map fun m => .str m.1)
  | .str s => .ok (s.toList.map fun c => .str c.toString)
  | .null | .bool _ | .num _ => .error .type

/-! ### `dict` -/

/-- What has a hash can be a key; only a text can be a field's name. -/
def keyOf : Doc → Except Fault (Option String)
  | .str s => .ok (some s)
  | .null | .bool _ | .num _ => .ok none
  | .arr _ | .obj _ => .error .type

/-- An element of what `dict` is given. -/
def pair : Doc → Except Fault (Option String × Doc)
  | .arr [key, value] => (keyOf key).map fun k => (k, value)
  | .obj [(a, _), (b, _)] => .ok (some a, .str b)
  | .str s =>
    match s.toList with
    | [a, b] => .ok (some a.toString, .str b.toString)
    | _ => .error .value
  | .arr _ | .obj _ => .error .value
  | .null | .bool _ | .num _ => .error .type

/-- `dict(doc or {})`; the last pair of a key counts. -/
def dictOf (doc : Doc) : Except Fault (List (Option String × Doc)) :=
  match orElse doc (.obj []) with
  | .obj members => .ok (members.map fun m => (some m.1, m.2))
  | .arr items => items.mapM pair
  | .str _ => .error .value
  | .null | .bool _ | .num _ => .error .type

/-! ### Conversions -/

/-- What `int` and `float` see of a value. -/
def scalar : Doc → Conversions.Value
  | .null => .null
  | .bool b => .bool b
  | .num n => .num n.value
  | .str s => .str s
  | .arr _ => .arr []
  | .obj _ => .obj []

/-- The builtins that read texts as numbers and write them. -/
structure Builtins where
  numerals : Numerals
  repr : String → String

def Builtins.int (b : Builtins) (v : Doc) : Except Fault ℤ := Conversions.int b.numerals (scalar v)

def Builtins.float (b : Builtins) (v : Doc) : Except Fault Number :=
  Conversions.float b.numerals (scalar v)

/-! ## The policy -/

/-- `MONITOR_KINDS`. -/
inductive Kind
  | inputDrift
  | quality
  deriving DecidableEq

/-- `FINETUNE_MODALITIES`. -/
def finetuneModalities : List String := ["llm", "vision", "embeddings", "asr", "tabular"]

/-- `PROMOTION_MODES`. -/
def promotionModes : List String := ["manual", "suggest", "auto-on-green"]

structure ModelPolicy where
  modelName : String
  modality : Doc
  monitors : Doc
  checkIntervalS : Doc
  onBreach : Doc
  promotionMode : Doc
  enabled : Doc
  updatedAt : ℚ
  updatedBy : String

/-- `ModelPolicy(**known)`: the named fields, the others at their defaults. -/
def ModelPolicy.ofFields (modelName : String) (updatedAt : ℚ) (updatedBy : String)
    (fields : List (Option String × Doc)) : ModelPolicy :=
  let field (name : String) (default : Doc) : Doc :=
    (fields.reverse.lookup (some name)).getD default
  { modelName, updatedAt, updatedBy
    modality := field "modality" (.str "")
    monitors := field "monitors" (.arr [])
    checkIntervalS := field "check_interval_s" (.num (.int 900))
    onBreach := field "on_breach" (.obj [("action", .str "retrain"), ("dataset", .str "latest"),
      ("params", .obj [])])
    promotionMode := field "promotion_mode" (.str "manual")
    enabled := field "enabled" (.bool true) }

structure FieldError where
  field : String
  reason : String
  deriving DecidableEq

/-- The error, unless the check holds. -/
def require (ok : Bool) (e : FieldError) : List FieldError := if ok then [] else [e]

/-! ### Monitors -/

def kindOf (mon : Members) : Option Kind :=
  match mon.lookup "kind" with
  | some (.str "input_drift") => some .inputDrift
  | some (.str "quality") => some .quality
  | _ => none

inductive Cast
  | int
  | float

def Cast.run (b : Builtins) : Cast → Doc → Except Fault Number
  | .int, v => (b.int v).map fun n : ℤ => .fin n
  | .float, v => b.float v

/-- A row of the table of numeric knobs. -/
structure Knob where
  key : String
  cast : Cast
  ok : Number → Bool
  want : String

def windowN : Knob := ⟨"window_n", .int, fun v => (Number.fin 0).lt v, "a positive integer"⟩

def dropPct : Knob := ⟨"drop_pct", .float, fun v => (Number.fin 0).le v, "a number >= 0"⟩

def threshold : Knob := ⟨"threshold", .float, fun v => (Number.fin 0).lt v, "a number > 0"⟩

def baseline : Knob := ⟨"baseline", .float, fun _ => true, "a number"⟩

def knobs : List Knob := [windowN, dropPct, threshold, baseline]

/-- The knob's value, if it is there and not `null`. -/
def Knob.given (k : Knob) (mon : Members) : Option Doc :=
  match mon.lookup k.key with
  | none | some .null => none
  | some v => some v

def Knob.wrong (k : Knob) (i : ℕ) : FieldError := ⟨s!"monitors[{i}].{k.key}", s!"must be {k.want}"⟩

/-- One turn of the loop over the knobs; `TypeError` and `ValueError` are caught. -/
def Knob.errors (b : Builtins) (k : Knob) (i : ℕ) (mon : Members) :
    Except Fault (List FieldError) :=
  match k.given mon with
  | none => .ok []
  | some v =>
    match k.cast.run b v with
    | .ok x => .ok (require (k.ok x) (k.wrong i))
    | .error .type | .error .value => .ok [k.wrong i]
    | .error fault => .error fault

/-- A dataset's name and version are both there. -/
def isReference : Doc → Bool
  | .obj ref => truthy (get ref "name") && truthy (get ref "version")
  | _ => false

def referenceErrors (i : ℕ) (mon : Members) : List FieldError :=
  require (kindOf mon ≠ some .inputDrift ∨ isReference (get mon "reference") = true)
    ⟨s!"monitors[{i}].reference",
      "input_drift needs a reference dataset object with both 'name' and 'version'"⟩

def unknownKind (i : ℕ) : FieldError :=
  ⟨s!"monitors[{i}].kind", "must be one of ('input_drift', 'quality')"⟩

/-- One turn of the loop over the monitors. -/
def monitorErrors (b : Builtins) (i : ℕ) : Doc → Except Fault (List FieldError)
  | .obj mon =>
    if kindOf mon = none then .ok [unknownKind i]
    else (knobs.mapM fun k => Knob.errors b k i mon).map fun found =>
      referenceErrors i mon ++ found.flatten
  | _ => .ok [unknownKind i]

/-! ### The other fields -/

def nameErrors (p : ModelPolicy) : List FieldError :=
  require (p.modelName ≠ "") ⟨"model_name", "required"⟩

def modalityErrors (p : ModelPolicy) : List FieldError :=
  require (finetuneModalities.any fun m => isText m p.modality)
    ⟨"modality", "must be one of ('llm', 'vision', 'embeddings', 'asr', 'tabular') " ++
      "(a modality with a fine-tune flow)"⟩

/-- An `int` of 60 or more; `True` is an `int` and is 1. -/
def isInterval : Doc → Bool
  | .num (.int n) => 60 ≤ n
  | _ => false

def intervalErrors (p : ModelPolicy) : List FieldError :=
  require (isInterval p.checkIntervalS) ⟨"check_interval_s", "must be an integer >= 60"⟩

def isBool : Doc → Bool
  | .bool _ => true
  | _ => false

def enabledErrors (p : ModelPolicy) : List FieldError :=
  require (isBool p.enabled) ⟨"enabled", "must be a boolean (true/false)"⟩

def noMonitors (p : ModelPolicy) : List FieldError :=
  require (truthy p.monitors) ⟨"monitors", "at least one monitor is required"⟩

def paramsErrors (b : Builtins) (p : ModelPolicy) : Doc → List FieldError
  | .obj params =>
    if truthy (get params "dataset_name") = false then
      [⟨"on_breach.params.dataset_name", "required"⟩]
    else if isText p.modelName (orElse (get params "output_name") (.str p.modelName)) then []
    else [⟨"on_breach.params.output_name", s!"must equal the policy model ({b.repr p.modelName}) " ++
      "— the loop gates/promotes that model by returned version"⟩]
  | _ => [⟨"on_breach.params", "must be an object of retrain parameters"⟩]

def breachErrors (b : Builtins) (p : ModelPolicy) : List FieldError :=
  match p.onBreach with
  | .obj breach =>
    if isText "retrain" (get breach "action") = false then
      [⟨"on_breach.action", "must be 'retrain'"⟩]
    else if truthy (get breach "dataset") = false then
      [⟨"on_breach.dataset", "required — 'latest' or a pinned dataset version; the dataset name " ++
        "comes from on_breach.params.dataset_name"⟩]
    else paramsErrors b p (orElse (get breach "params") (.obj []))
  | _ => [⟨"on_breach.action", "must be 'retrain'"⟩]

def modeErrors (p : ModelPolicy) : List FieldError :=
  require (promotionModes.any fun m => isText m p.promotionMode)
    ⟨"promotion_mode", "must be one of ('manual', 'suggest', 'auto-on-green')"⟩

/-- `ModelPolicy.validate`: the errors it would raise, or what else stops it. -/
def ModelPolicy.validate (b : Builtins) (p : ModelPolicy) : Except Fault (List FieldError) := do
  let monitors ← iter p.monitors
  let found ← monitors.zipIdx.mapM fun m => monitorErrors b m.2 m.1
  return nameErrors p ++ modalityErrors p ++ intervalErrors p ++ enabledErrors p ++ noMonitors p ++
    found.flatten ++ breachErrors b p ++ modeErrors p

/-! ### Putting -/

/-- No number in the value is infinite or `nan`. -/
def isFinite : Doc → Bool :=
  Json.all fun n => match n.value with
    | .fin _ => true
    | _ => false

/-- What is stored as the document. -/
def ModelPolicy.values (p : ModelPolicy) : List Doc :=
  [p.modality, p.monitors, p.checkIntervalS, p.onBreach, p.promotionMode, p.enabled]

/-- Which policies are copied and written; `jsonb` has no infinities and no `nan`. -/
structure Store where
  takes : ModelPolicy → Bool
  finite : ∀ p, takes p = true → ∀ v ∈ p.values, isFinite v = true

/-- `PolicyError`, the stored policy, `PolicyStoreError`, or another exception. -/
inductive Outcome
  | refused (errors : List FieldError)
  | stored (p : ModelPolicy)
  | unstored
  | raised (fault : Fault)

abbrev Rows := Dict String ModelPolicy

/-- `put_policy`. -/
def putPolicy (b : Builtins) (store : Store) (rows : Rows) (modelName : String) (doc : Doc)
    (now : ℚ) (updatedBy : String) : Outcome × Rows :=
  match dictOf doc with
  | .error fault => (.raised fault, rows)
  | .ok fields =>
    let p := ModelPolicy.ofFields modelName now updatedBy fields
    match p.validate b with
    | .error fault => (.raised fault, rows)
    | .ok (e :: errors) => (.refused (e :: errors), rows)
    | .ok [] => if store.takes p then (.stored p, rows.insert modelName p) else (.unstored, rows)

/-! ## The scheduler -/

/-- What stops a check: a key that is not there, or a conversion. -/
inductive Stop
  | key
  | fault (f : Fault)

/-- `value[key]`. -/
def index (value : Doc) (key : String) : Except Stop Doc :=
  match value with
  | .obj members =>
    match members.lookup key with
    | some v => .ok v
    | none => .error .key
  | _ => .error (.fault .type)

/-- `MODALITY_TASK[modality]`. -/
def modalityTask : Doc → Except Stop String
  | .str "llm" => .ok "text-generation"
  | .str "vision" => .ok "image-classification"
  | .str "embeddings" => .ok "embedding"
  | .str "asr" => .ok "asr"
  | .str "tabular" => .ok "tabular"
  | .arr _ | .obj _ => .error (.fault .type)
  | _ => .error .key

/-- The thresholds of the environment, and what the registry and the dataset store answer. -/
structure Surroundings where
  windowN : ℤ
  dropPct : Number
  threshold : Number
  servingVersion : Option String
  latest : Doc → String

/-- What a check computes, and from what. -/
inductive Check
  | unserved
  | quality (modelName version task : String) (windowN : ℤ) (dropPct : Number)
      (baseline : Option Number)
  | drift (referenceName referenceVersion currentName : Doc) (currentVersion : String)
      (threshold : Number)

/-- `cast(monitor.get(key, default))`. -/
def castGet {α : Type} (cast : Doc → Except Fault α) (mon : Members) (key : String) (default : α) :
    Except Stop α :=
  match mon.lookup key with
  | none => .ok default
  | some v => (cast v).mapError .fault

/-- `float(baseline) if baseline is not None else None`. -/
def castBaseline (b : Builtins) (mon : Members) : Except Stop (Option Number) :=
  match baseline.given mon with
  | none => .ok none
  | some v => ((b.float v).map some).mapError .fault

def checkQuality (b : Builtins) (s : Surroundings) (p : ModelPolicy) (mon : Members) :
    Except Stop Check :=
  match s.servingVersion with
  | none => .ok .unserved
  | some version => do
    let task ← modalityTask p.modality
    let n ← castGet b.int mon "window_n" s.windowN
    let drop ← castGet b.float mon "drop_pct" s.dropPct
    let base ← castBaseline b mon
    return .quality p.modelName version task n drop base

/-- The dataset that is compared, which `on_breach` names where the monitor does not. -/
def currentName (p : ModelPolicy) (mon : Members) : Except Stop Doc :=
  if truthy (get mon "current_name") then .ok (get mon "current_name")
  else do
    let params ← index p.onBreach "params"
    index params "dataset_name"

def checkDrift (b : Builtins) (s : Surroundings) (p : ModelPolicy) (mon : Members) :
    Except Stop Check := do
  let ref ← index (.obj mon) "reference"
  let current ← currentName p mon
  let name ← index ref "name"
  let version ← index ref "version"
  let t ← castGet b.float mon "threshold" s.threshold
  return .drift name version current (s.latest current) t

/-- `_default_check`. -/
def check (b : Builtins) (s : Surroundings) (p : ModelPolicy) (monitor : Doc) :
    Except Stop Check := do
  let kind ← index monitor "kind"
  match monitor with
  | .obj mon => if isText "quality" kind then checkQuality b s p mon else checkDrift b s p mon
  | _ => .error (.fault .type)

/-- `now + policy["check_interval_s"]`. -/
def nextDue (b : Builtins) (now : ℚ) (p : ModelPolicy) : Except Stop Number :=
  ((b.float p.checkIntervalS).map fun x => .fin now + x).mapError .fault

end MlopsLite.Gateway.Policy.Declarations
