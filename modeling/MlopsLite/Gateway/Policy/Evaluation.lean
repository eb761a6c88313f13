import MlopsLite.Lib.Dict
import MlopsLite.Lib.Floats

/-!
# Policy — the promotion gate

`read_eval` and `compute_verdict` (`gateway/app/evaluation.py`): a candidate's
logged metric against the incumbent's. Finite metric values are exact.
-/

namespace MlopsLite.Gateway.Policy

abbrev Version := String

/-- What `read_eval` makes of a version's tags. -/
structure Eval where
  version : Version
  metric : String
  value : Number
  direction : String
  modality : Option String
  deriving DecidableEq, Repr

inductive VerdictKind
  | pass
  | warn
  | blocked
  deriving DecidableEq, Repr

/-- Why: one constructor for each of the source's texts. -/
inductive VerdictReason
  | firstPromotion
  | candidateNoMetric
  | candidateNoMetricPolicy
  | incumbentNoMetric
  | incumbentNoMetricPolicy
  | mismatchOverride
  | mismatch
  | withinTolerance
  | overridden
  | regressionWarn
  | regression
  deriving DecidableEq, Repr

/-- `GATE_MODE`, `GATE_TOLERANCE` and `GATE_MISSING_METRIC`. -/
structure GateConfig where
  mode : String
  tolerance : Number
  missingPolicy : String

/-- A GateVerdict; the configuration it repeats is left out. -/
structure Verdict where
  verdict : VerdictKind
  reason : VerdictReason
  flagged : Bool
  overridden : Bool
  candidateVersion : Option Version
  candidate : Option Eval
  incumbent : Option Eval
  delta : Option Number
  deriving DecidableEq, Repr

/-- `HIGHER`. -/
def higher : String := "higher"

/-- `LOWER`. -/
def lower : String := "lower"

/-- `direction_for`: the metrics of `METRICS`, and the perplexity. -/
def directionFor (metric : String) : Option String :=
  if metric = "perplexity" then some lower
  else
    [("task_accuracy", higher), ("accuracy", higher), ("wer", lower), ("recall_at_k", higher),
      ("auc", higher)].lookup metric

/-- `direction or direction_for(metric) or HIGHER`; an empty text counts as none. -/
def directionOr (direction : Option String) (metric : String) : String :=
  match direction with
  | some d => if d = "" then (directionFor metric).getD higher else d
  | none => (directionFor metric).getD higher

/-- A version's tags. -/
abbrev Tags := Dict String String

/-- `read_eval` on a version's tags; `float` is what the interpreter makes of a text. -/
def Eval.read (float : String → Option Number) (v : Version) (tags : Tags) : Option Eval := do
  let metric ← tags.get? "eval_metric"
  let text ← tags.get? "eval_value"
  let value ← float text
  return {
    version := v
    metric
    value
    direction := directionOr (tags.get? "eval_direction") metric
    modality := tags.get? "eval_modality" }

/-- The candidate is worse by more than the margin. -/
def regressed (cfg : GateConfig) (cand inc : Eval) : Bool :=
  let margin := cfg.tolerance * inc.value.abs
  if directionOr (some cand.direction) cand.metric = higher then
    cand.value.lt (inc.value - margin)
  else (inc.value + margin).lt cand.value

/-- `compute_verdict`, with `incumbent_present` as `gate` passes it. -/
def computeVerdict (cfg : GateConfig) (candidate incumbent : Option Eval)
    (overriding present : Bool) : Verdict :=
  let verdict (kind : VerdictKind) (reason : VerdictReason) (flagged : Bool) (delta : Option Number) :=
    Verdict.mk kind reason flagged overriding (candidate.map Eval.version) candidate incumbent delta
  let blocks := cfg.missingPolicy = "block" && !overriding
  if !present then verdict .pass .firstPromotion false none
  else
    match candidate, incumbent with
    | none, _ =>
        if blocks then verdict .blocked .candidateNoMetric true none
        else verdict .warn .candidateNoMetricPolicy true none
    | some _, none =>
        if blocks then verdict .blocked .incumbentNoMetric true none
        else verdict .warn .incumbentNoMetricPolicy true none
    | some cand, some inc =>
        if cand.metric ≠ inc.metric ∨ cand.modality ≠ inc.modality then
          if overriding then verdict .warn .mismatchOverride true none
          else verdict .blocked .mismatch true none
        else
          let delta := some ((cand.value - inc.value).round 6)
          if !regressed cfg cand inc then verdict .pass .withinTolerance false delta
          else if overriding then verdict .warn .overridden true delta
          else if cfg.mode = "warn" then verdict .warn .regressionWarn true delta
          else verdict .blocked .regression true delta

end MlopsLite.Gateway.Policy
