import MlopsLite.Lib.Fallible
import MlopsLite.Lib.Json
import MlopsLite.Gateway.Quality.Windows

/-!
# Predictions — records, captures and the review queue

`gateway/app/console/predictions.py`, the reads of the tables it is given
(`prediction_rows`, `capture_rows_for` and `unlabeled_count` in `sources.py`) and
the three routes over them (`gateway/app/routers/console.py`). All reads succeed.
A column that a read does not select is `none` in its row. A table is in any
order, which decides between rows of one time.
-/

namespace MlopsLite.Gateway.Console

open Quality (Time PredictionRow Row)

/-- A decoded label. -/
abbrev Label := Json ℚ

/-- A time in a row: a `timestamptz` is read as a datetime. -/
inductive Stamp
  | datetime (t : Time)
  | seconds (s : ℚ)
  deriving DecidableEq

inductive TypeError
  | badOperand
  deriving DecidableEq

/-- `-stamp`. -/
def Stamp.neg : Stamp → Except TypeError ℚ
  | .datetime _ => .error .badOperand
  | .seconds s => .ok (-s)

/-! ## Prediction records -/

/-- `CAPTURE_STATES`. -/
inductive CaptureState
  | notCaptured
  | captured
  | expired
  | sampledOut
  deriving DecidableEq

/-- `LABEL_STATES`. -/
inductive LabelState
  | unlabeled
  | pendingReview
  | labeled
  | disputed
  | excluded
  deriving DecidableEq

inductive RequestStatus
  | ok
  | error
  deriving DecidableEq

/-- A row as `prediction_record` reads it. -/
structure ServedRow where
  predictionId : String
  servedAt : Time
  modelName : String
  version : String
  modality : String
  payloadRef : Option String
  label : Option Label
  endpointId : Option String := none
  latencyMs : Option ℚ := none
  traceId : Option String := none
  policyResult : Option String := none
  error : Option String := none

structure PredictionRecord where
  id : String
  timestamp : Time
  endpointId : Option String
  modelName : String
  registryVersion : String
  modality : String
  status : RequestStatus
  latencyMs : Option ℚ
  captureState : CaptureState
  labelState : LabelState
  traceId : Option String
  policyResult : Option String
  error : Option String

/-- `bool(text)`. -/
def truthyText (text : Option String) : Bool := text.any (· ≠ "")

/-- `"labeled" if row.get("label") else "unlabeled"`. -/
def labelStateOf (label : Option Label) : LabelState :=
  if label.any Json.truthy then .labeled else .unlabeled

def captureStateOf (payloadRef : Option String) : CaptureState :=
  if truthyText payloadRef then .captured else .notCaptured

/-- `prediction_record`. -/
def predictionRecord (row : ServedRow) (captureState : Option CaptureState)
    (labelState : Option LabelState) : PredictionRecord where
  id := row.predictionId
  timestamp := row.servedAt
  endpointId := row.endpointId
  modelName := row.modelName
  registryVersion := row.version
  modality := row.modality
  status := if truthyText row.error then .error else .ok
  latencyMs := row.latencyMs
  captureState := captureState.getD (captureStateOf row.payloadRef)
  labelState := labelState.getD .unlabeled
  traceId := row.traceId
  policyResult := row.policyResult
  error := row.error

/-! ## The review queue -/

/-- `PRIORITY_SIGNALS`, in their order. -/
inductive Signal
  | policyFlagged
  | lowConfidence
  | driftContributor
  | sampled
  | missingLabel
  | manuallyFlagged
  | suggested
  deriving DecidableEq

def prioritySignals : List Signal :=
  [.policyFlagged, .lowConfidence, .driftContributor, .sampled, .missingLabel, .manuallyFlagged,
    .suggested]

/-- `_SIGNAL_WEIGHT`. -/
def Signal.weight (s : Signal) : ℕ := prioritySignals.idxOf s

/-- A row as `review_queue` reads it. -/
structure QueueRow where
  predictionId : String
  modality : String
  modelName : Option String
  label : Option Label
  capturedAt : Option Stamp
  servedAt : Option Stamp := none
  labelState : Option LabelState := none
  policyResult : Option String := none
  confidence : Option ℚ := none
  driftContributor : Bool := false
  sampled : Bool := false
  flagged : Bool := false
  suggested : Bool := false

structure ReviewItem where
  predictionId : String
  modality : String
  modelName : Option String
  labelState : LabelState
  signals : List Signal
  reason : Signal
  capturedAt : Option Stamp

def QueueRow.raised (row : QueueRow) : List Signal :=
  (if row.policyResult.all (· ∈ ["ok", "pass"]) then [] else [Signal.policyFlagged]) ++
  (if row.confidence.any (· < 3 / 5) then [Signal.lowConfidence] else []) ++
  (if row.driftContributor then [Signal.driftContributor] else []) ++
  (if row.sampled then [Signal.sampled] else []) ++
  (if row.label.any Json.truthy then [] else [Signal.missingLabel]) ++
  (if row.flagged then [Signal.manuallyFlagged] else []) ++
  (if row.suggested then [Signal.suggested] else [])

/-- `_signals_for`. -/
def QueueRow.signals (row : QueueRow) : List Signal :=
  row.raised.insertionSort fun a b => a.weight ≤ b.weight

/-- One turn of the loop of `review_queue`: `none` for a row that is passed over. -/
def QueueRow.item (row : QueueRow) : Option ReviewItem :=
  row.signals.head?.map fun reason =>
    { predictionId := row.predictionId
      modality := row.modality
      modelName := row.modelName
      labelState := row.labelState.getD .unlabeled
      signals := row.signals
      reason := reason
      capturedAt := row.capturedAt.or row.servedAt }

/-- The sort key of `review_queue`, with its item. -/
def ReviewItem.keyed (item : ReviewItem) : Except TypeError ((ℕ ×ₗ ℚ) × ReviewItem) :=
  ((item.capturedAt.getD (.seconds 0)).neg).map fun t => (toLex (item.reason.weight, t), item)

/-- `review_queue`. -/
def reviewQueue (rows : List QueueRow) (limit : ℕ) : Except TypeError (List ReviewItem) := do
  let keyed ← (rows.filterMap QueueRow.item).mapM ReviewItem.keyed
  return ((keyed.insertionSort fun a b => a.1 ≤ b.1).map Prod.snd).take limit

/-! ## The reads -/

/-- The tables. A label is one that `attach_label` stored, and not JSON null. -/
structure Tables where
  predictions : Dict String PredictionRow
  labels : Dict String Label
  captures : Dict String Row
  labels_of : ∀ id label, labels.get? id = some label → (predictions.get? id).isSome = true
  labels_ne_null : ∀ id, labels.get? id ≠ some .null

/-- A row of `capture_rows_for`. -/
structure CaptureRow where
  predictionId : String
  inputRef : String
  capturedAt : Time
  modality : String
  modelName : Option String
  label : Option Label

/-- The same row, as the queue reads it. -/
def CaptureRow.queueRow (row : CaptureRow) : QueueRow where
  predictionId := row.predictionId
  modality := row.modality
  modelName := row.modelName
  label := row.label
  capturedAt := some (.datetime row.capturedAt)

/-- `if value: WHERE column = value`. -/
def asks (wanted : Option String) (value : String) : Bool :=
  wanted.all fun w => w = "" ∨ value = w

namespace Tables

variable (x : Tables)

/-- `prediction_rows`, before its order and its limit. -/
def servedRows (modality modelName : Option String) : List ServedRow :=
  (x.predictions.items.filter fun (_, p) =>
    asks modality p.modality && asks modelName p.modelName).map fun (id, p) =>
      { predictionId := id
        servedAt := p.servedAt
        modelName := p.modelName
        version := p.version
        modality := p.modality
        payloadRef := p.payloadRef
        label := x.labels.get? id }

/-- `prediction_rows`. -/
def predictionRows (limit : ℕ) (modality modelName : Option String) : List ServedRow :=
  (Newest.sorted ServedRow.servedAt (x.servedRows modality modelName)).take limit

/-- A capture with its prediction and its label, each where there is one. -/
def captureRow (c : String × Row) : CaptureRow where
  predictionId := c.1
  inputRef := c.2.inputRef
  capturedAt := c.2.capturedAt
  modality := c.2.modality
  modelName := (x.predictions.get? c.1).map PredictionRow.modelName
  label := x.labels.get? c.1

/-- `capture_rows_for`, before its order and its limit. -/
def capturedRows (modality : Option String) : List CaptureRow :=
  (x.captures.items.filter fun (_, c) => asks modality c.modality).map x.captureRow

/-- `capture_rows_for`. -/
def captureRowsFor (modality : Option String) (limit : ℕ) : List CaptureRow :=
  (Newest.sorted CaptureRow.capturedAt (x.capturedRows modality)).take limit

/-- The captures without a label row. -/
def unlabeled : List (String × Row) :=
  x.captures.items.filter fun c => (x.labels.get? c.1).isNone

/-- `unlabeled_count`. -/
def unlabeledCount : ℕ := x.unlabeled.length

end Tables

/-! ## The routes -/

/-- `console_predictions`. -/
def consolePredictions (x : Tables) (limit : ℕ) (modality model : Option String) :
    List PredictionRecord :=
  (x.predictionRows limit modality model).map fun row =>
    predictionRecord row (some (captureStateOf row.payloadRef)) (some (labelStateOf row.label))

/-- An element of the answer of `console_captures`. -/
structure CaptureView where
  predictionId : String
  modality : String
  modelName : Option String
  capturedAt : Time
  labelState : LabelState
  hasPayload : Bool

/-- `console_captures`. -/
def consoleCaptures (x : Tables) (modality : Option String) (limit : ℕ) : List CaptureView :=
  (x.captureRowsFor modality limit).map fun row =>
    { predictionId := row.predictionId
      modality := row.modality
      modelName := row.modelName
      capturedAt := row.capturedAt
      labelState := labelStateOf row.label
      hasPayload := truthyText (some row.inputRef) }

/-- `console_review_queue`: its items. -/
def consoleReviewQueue (x : Tables) (limit : ℕ) : Except TypeError (List ReviewItem) :=
  reviewQueue ((x.captureRowsFor none limit).map CaptureRow.queueRow) limit

end MlopsLite.Gateway.Console
