import MlopsLite.Gateway.Policy.Evaluation

/-!
# Evaluations — the evidence of a gate verdict

`gate_view` and `_threshold` (`gateway/app/console/evaluations.py`) of what
`compute_verdict` (`gateway/app/evaluation.py`) answers. A record may lack any of
its values. The view works the failed rule out again from the verdict: the gate has
refused for six reasons, and three of them are not a regression; and it reads a
direction that is missing or unknown the other way.
-/

namespace MlopsLite.Gateway.Console.GateEvidence

open Policy (Version VerdictKind VerdictReason GateConfig higher lower directionFor)

/-! ## The gate -/

/-- An EvalResult, or its `_brief`. -/
structure Record where
  version : Option Version
  metric : Option String
  value : Option Number
  direction : Option String
  modality : Option String
  deriving DecidableEq

/-- `direction or direction_for(metric) or HIGHER`. -/
def Record.resolved (r : Record) : String :=
  match r.direction.filter (· ≠ "") with
  | some d => d
  | none => (r.metric.bind directionFor).getD higher

/-- The answer of `compute_verdict`. -/
structure Verdict where
  verdict : VerdictKind
  reason : VerdictReason
  flagged : Bool
  mode : String
  tolerance : Number
  overridden : Bool
  candidate : Option Record
  incumbent : Option Record
  delta : Option Number
  deriving DecidableEq

def margin (tolerance inc : Number) : Number := tolerance * inc.abs

/-- `regressed`, of two values in a direction. -/
def worse (tolerance : Number) (direction : String) (cand inc : Number) : Bool :=
  if direction = higher then cand.lt (inc - margin tolerance inc)
  else (inc + margin tolerance inc).lt cand

/-- `compute_verdict`; `present` is its `incumbent_present`. -/
def computeVerdict (cfg : GateConfig) (candidate incumbent : Option Record) (overriding : Bool)
    (present : Option Bool) : Verdict :=
  let verdict (kind : VerdictKind) (reason : VerdictReason) (flagged : Bool) (delta : Option Number) :=
    Verdict.mk kind reason flagged cfg.mode cfg.tolerance overriding candidate incumbent delta
  let blocks := cfg.missingPolicy = "block" && !overriding
  if !present.getD incumbent.isSome then verdict .pass .firstPromotion false none
  else
    match candidate.bind Record.value, incumbent.bind Record.value with
    | none, _ =>
        if blocks then verdict .blocked .candidateNoMetric true none
        else verdict .warn .candidateNoMetricPolicy true none
    | some _, none =>
        if blocks then verdict .blocked .incumbentNoMetric true none
        else verdict .warn .incumbentNoMetricPolicy true none
    | some cand, some inc =>
        if candidate.bind Record.metric ≠ incumbent.bind Record.metric ∨
            candidate.bind Record.modality ≠ incumbent.bind Record.modality then
          if overriding then verdict .warn .mismatchOverride true none
          else verdict .blocked .mismatch true none
        else
          let delta := some ((cand - inc).round 6)
          let direction := (candidate.map Record.resolved).getD higher
          if !worse cfg.tolerance direction cand inc then verdict .pass .withinTolerance false delta
          else if overriding then verdict .warn .overridden true delta
          else if cfg.mode = "warn" then verdict .warn .regressionWarn true delta
          else verdict .blocked .regression true delta

/-! ### The gate of two evaluations -/

/-- What `read_eval` answers, as a record. -/
def Record.of (e : Policy.Eval) : Record :=
  { version := some e.version
    metric := some e.metric
    value := some e.value
    direction := some e.direction
    modality := e.modality }

theorem Record.resolved_of (e : Policy.Eval) :
    (Record.of e).resolved = Policy.directionOr (some e.direction) e.metric := by
  rw [Record.resolved, Policy.directionOr]
  by_cases h : e.direction = ""
  · have hfilter : (Record.of e).direction.filter (· ≠ "") = none := by
      simp [Record.of, h]
    rw [hfilter, if_pos h]
    rfl
  · have hfilter : (Record.of e).direction.filter (· ≠ "") = some e.direction := by
      simp [Record.of, h]
    rw [hfilter, if_neg h]

/-- On what `read_eval` answers the verdict is the one of the promotion gate. -/
theorem computeVerdict_map_of (cfg : GateConfig) (candidate incumbent : Option Policy.Eval)
    (overriding present : Bool) :
    let v := computeVerdict cfg (candidate.map .of) (incumbent.map .of) overriding (some present)
    let w := Policy.computeVerdict cfg candidate incumbent overriding present
    v.verdict = w.verdict ∧ v.reason = w.reason ∧ v.flagged = w.flagged ∧ v.delta = w.delta := by
  intro v w
  cases present with
  | false => exact ⟨rfl, rfl, rfl, rfl⟩
  | true =>
    cases candidate with
    | none =>
      simp only [v, w, computeVerdict, Policy.computeVerdict, Option.map_none, Option.bind_none,
        Option.getD_some, Bool.not_true, Bool.false_eq_true, if_false]
      split_ifs <;> simp
    | some c =>
      cases incumbent with
      | none =>
        simp only [v, w, computeVerdict, Policy.computeVerdict, Option.map_some, Option.map_none,
          Option.bind_some, Option.bind_none, Option.getD_some, Bool.not_true, Bool.false_eq_true,
          if_false, Record.of]
        split_ifs <;> simp
      | some i =>
        have hworse : worse cfg.tolerance (Record.of c).resolved c.value i.value =
            Policy.regressed cfg c i := by
          rw [Record.resolved_of]
          rfl
        have hdiffer : ((Record.of c).metric ≠ (Record.of i).metric ∨
            (Record.of c).modality ≠ (Record.of i).modality) ↔
              c.metric ≠ i.metric ∨ c.modality ≠ i.modality := by
          simp [Record.of]
        have hvalue : ∀ e : Policy.Eval, (Record.of e).value = some e.value := fun _ => rfl
        simp only [v, w, computeVerdict, Policy.computeVerdict, Option.map_some, Option.bind_some,
          Option.getD_some, Bool.not_true, Bool.false_eq_true, if_false, hvalue, hworse, hdiffer]
        split_ifs <;> simp

/-! ## The view -/

/-- `GATE_OUTCOMES`. -/
inductive Outcome
  | passed
  | failed
  | warning
  | notEvaluated
  | incomplete
  deriving DecidableEq

/-- `_VERDICT_TO_OUTCOME`. -/
def Outcome.of : VerdictKind → Outcome
  | .pass => .passed
  | .blocked => .failed
  | .warn => .warning

inductive Operator
  | gte
  | lte
  deriving DecidableEq

/-- What an operator asks of an observed value. -/
def Operator.holds : Operator → Number → Number → Bool
  | .gte, threshold, observed => threshold.le observed
  | .lte, threshold, observed => observed.le threshold

structure FailedRule where
  metric : String
  operator : Operator
  threshold : Option Number
  scope : Option String
  deriving DecidableEq

structure GateView where
  outcome : Outcome
  reason : Option VerdictReason
  mode : Option String
  tolerance : Option Number
  failedRule : Option FailedRule
  observedValue : Option Number
  comparedAgainst : Option (Option Version × Number)
  delta : Option Number
  overrideApplied : Bool
  overrideReason : Option String
  deriving DecidableEq

/-- `_threshold`, with the rounding of what it shows. -/
def thresholdBy (round : Number → Number) (incumbentValue tolerance : Option Number)
    (higherBetter : Bool) : Option Number := do
  let inc ← incumbentValue
  let tolerance ← tolerance
  return round (if higherBetter then inc - margin tolerance inc else inc + margin tolerance inc)

/-- The failed rule of a verdict. -/
def failedRuleBy (round : Number → Number) (v : Verdict) : Option FailedRule :=
  if Outcome.of v.verdict = .failed ∨ Outcome.of v.verdict = .warning then
    ((v.candidate.bind Record.metric).filter (· ≠ "")).map fun metric =>
      let higherBetter := v.candidate.bind Record.direction ≠ some lower
      { metric
        operator := if higherBetter then .gte else .lte
        threshold := thresholdBy round (v.incumbent.bind Record.value) (some v.tolerance) higherBetter
        scope := v.candidate.bind Record.modality }
  else none

/-- `gate_view` with a verdict, or with none and an evaluation that there is or is not;
a verdict of `compute_verdict` has no reason of an override. -/
def gateViewBy (round : Number → Number) (evaluated : Bool) : Option Verdict → GateView
  | none =>
      { outcome := if evaluated then .incomplete else .notEvaluated
        reason := none
        mode := none
        tolerance := none
        failedRule := none
        observedValue := none
        comparedAgainst := none
        delta := none
        overrideApplied := false
        overrideReason := none }
  | some v =>
      { outcome := .of v.verdict
        reason := some v.reason
        mode := some v.mode
        tolerance := some v.tolerance
        failedRule := failedRuleBy round v
        observedValue := v.candidate.bind Record.value
        comparedAgainst := (v.incumbent.bind Record.value).map fun value =>
          (v.incumbent.bind Record.version, value)
        delta := v.delta
        overrideApplied := v.overridden
        overrideReason := none }

/-- `gate_view`. -/
def gateView : Bool → Option Verdict → GateView := gateViewBy (Number.round 6)

/-! ## What the view owes the gate -/

/-- A failed rule with a threshold is shown. -/
def GateView.Shown (view : GateView) : Prop :=
  ∃ rule ∈ view.failedRule, rule.threshold.isSome = true

/-- The verdict came from a regression. -/
def FromRegression (v : Verdict) : Prop :=
  v.reason ∈ [VerdictReason.overridden, .regressionWarn, .regression]

/-- The observed value violates a shown rule. -/
def GateView.Violated (view : GateView) : Prop :=
  ∀ rule ∈ view.failedRule, ∀ threshold ∈ rule.threshold,
    ∃ observed ∈ view.observedValue, rule.operator.holds threshold observed = false

/-- The view shows the rule that was applied; the threshold it is judged by is not
rounded. -/
structure Faithful (v : Verdict) : Prop where
  shown : (gateView true (some v)).Shown ↔ FromRegression v
  violated : (gateViewBy id true (some v)).Violated

/-! ## When it does -/

namespace Record

variable (c i : Record)

/-- It names a metric. -/
def Named : Prop := (c.metric.filter (· ≠ "")).isSome = true

/-- Metric and modality are the same. -/
def Alike : Prop := c.metric = i.metric ∧ c.modality = i.modality

instance : Decidable (Alike c i) := inferInstanceAs (Decidable (_ ∧ _))

/-- The direction is read in one way by the gate and by the view. -/
def PlainDirection : Prop := c.resolved = higher ↔ c.direction ≠ some lower

end Record

/-- A candidate without a value names no metric; nor does one of another metric or
modality; and one that is worse names one, and has a direction that is read in one way or
a value beyond both bounds. -/
def Evident (tolerance : Number) (c i : Record) (inc : Number) : Prop :=
  match c.value with
  | none => ¬ c.Named
  | some cand =>
      if c.Alike i then
        worse tolerance c.resolved cand inc = true →
          c.Named ∧ (c.PlainDirection ∨ (inc - margin tolerance inc).le cand = false)
      else ¬ c.Named

section

variable {v : Verdict}

theorem shown_iff {c i : Record} {inc : Number} (hc : v.candidate = some c)
    (hi : v.incumbent = some i) (hinc : i.value = some inc) (round : Number → Number) :
    (gateViewBy round true (some v)).Shown ↔ v.verdict ≠ .pass ∧ c.Named := by
  have hrule : (gateViewBy round true (some v)).failedRule = failedRuleBy round v := rfl
  simp only [GateView.Shown, hrule, failedRuleBy, hc, hi, Option.bind_some, hinc, Record.Named]
  generalize c.metric.filter (· ≠ "") = metric
  cases v.verdict <;> cases metric <;> simp [Outcome.of, thresholdBy]

/-- Without a value of the incumbent there is no threshold. -/
theorem not_shown (h : v.candidate = none ∨ v.incumbent.bind Record.value = none)
    (round : Number → Number) : ¬ (gateViewBy round true (some v)).Shown := by
  rintro ⟨rule, hrule, hthreshold⟩
  have hrule : failedRuleBy round v = some rule := hrule
  rw [failedRuleBy] at hrule
  split_ifs at hrule
  obtain ⟨metric, hmetric, rfl⟩ := Option.map_eq_some_iff.mp hrule
  rcases h with h | h
  · simp [h] at hmetric
  · simp [h, thresholdBy] at hthreshold

/-- A rule that is not shown is not violated by anything. -/
theorem violated_of_not_shown {view : GateView} (h : ¬ view.Shown) : view.Violated := by
  intro rule hrule threshold hthreshold
  exact absurd ⟨rule, hrule, Option.isSome_iff_exists.mpr ⟨threshold, hthreshold⟩⟩ h

/-- What is shown for no regression is wrong. -/
theorem faithful_iff_of_not_regression (h : ¬ FromRegression v) :
    Faithful v ↔ ¬ (gateView true (some v)).Shown := by
  have hshown : (gateViewBy id true (some v)).Shown ↔ (gateView true (some v)).Shown := by
    cases hc : v.candidate with
    | none => exact iff_of_false (not_shown (.inl hc) _) (not_shown (.inl hc) _)
    | some c =>
      cases hi : v.incumbent.bind Record.value with
      | none => exact iff_of_false (not_shown (.inr hi) _) (not_shown (.inr hi) _)
      | some inc =>
        obtain ⟨i, hi, hinc⟩ := Option.bind_eq_some_iff.mp hi
        rw [gateView, shown_iff hc hi hinc, shown_iff hc hi hinc]
  constructor
  · intro hf hview
    exact h (hf.shown.mp hview)
  · intro hview
    exact ⟨iff_of_false hview h, violated_of_not_shown (mt hshown.mp hview)⟩

/-- The rule of a regression is violated exactly if the view takes the gate's bound, or
the candidate is beyond both. -/
theorem violated_iff {c i : Record} {cand inc : Number} (hc : v.candidate = some c)
    (hi : v.incumbent = some i) (hinc : i.value = some inc) (hcand : c.value = some cand)
    (hfailed : v.verdict ≠ .pass) (hnamed : c.Named)
    (hworse : worse v.tolerance c.resolved cand inc = true) :
    (gateViewBy id true (some v)).Violated ↔
      c.PlainDirection ∨ (inc - margin v.tolerance inc).le cand = false := by
  obtain ⟨metric, hmetric⟩ := Option.isSome_iff_exists.mp hnamed
  have hrule : (gateViewBy id true (some v)).failedRule = some
      { metric
        operator := if c.direction ≠ some lower then .gte else .lte
        threshold := some (if c.direction ≠ some lower then inc - margin v.tolerance inc
          else inc + margin v.tolerance inc)
        scope := c.modality } := by
    show failedRuleBy id v = _
    have hout : Outcome.of v.verdict = .failed ∨ Outcome.of v.verdict = .warning := by
      cases hv : v.verdict with
      | pass => exact absurd hv hfailed
      | warn => exact .inr rfl
      | blocked => exact .inl rfl
    simp only [failedRuleBy, if_pos hout, hc, hi, Option.bind_some, hmetric, hinc, Option.map_some]
    by_cases hd : c.direction = some lower <;> simp [thresholdBy, hd]
  have hobserved : (gateViewBy id true (some v)).observedValue = some cand := by
    show v.candidate.bind Record.value = _
    rw [hc]
    exact hcand
  have hview : (gateViewBy id true (some v)).Violated ↔
      if c.direction ≠ some lower then (inc - margin v.tolerance inc).le cand = false
      else cand.le (inc + margin v.tolerance inc) = false := by
    simp only [GateView.Violated, hrule, hobserved, Option.mem_def, Option.some.injEq,
      forall_eq', exists_eq_left']
    by_cases hd : c.direction = some lower <;> simp [hd, Operator.holds]
  rw [hview, Record.PlainDirection]
  have hle : ∀ {x y : Number}, x.lt y = true → y.le x = false := by
    intro x y hlt
    cases x <;> cases y <;> simp_all [Number.lt, Number.le]
  rw [worse] at hworse
  by_cases hd : c.direction = some lower
  · -- the view takes the upper bound, and so did the gate
    have hresolved : c.resolved ≠ higher := by
      have hfilter : c.direction.filter (· ≠ "") = some lower := by
        rw [hd]
        rfl
      rw [Record.resolved, hfilter]
      show lower ≠ higher
      decide
    rw [if_neg hresolved] at hworse
    simp [hd, hresolved, hle hworse]
  · by_cases hresolved : c.resolved = higher
    · rw [if_pos hresolved] at hworse
      simp [hd, hresolved, hle hworse]
    · simp [hd, hresolved]

end

/-! ### What the gate answers -/

section

variable {cfg : GateConfig} {candidate incumbent : Option Record} {overriding : Bool}
  {present : Option Bool}

theorem record_computeVerdict (cfg : GateConfig) (candidate incumbent : Option Record)
    (overriding : Bool) (present : Option Bool) :
    (computeVerdict cfg candidate incumbent overriding present).candidate = candidate ∧
      (computeVerdict cfg candidate incumbent overriding present).incumbent = incumbent ∧
      (computeVerdict cfg candidate incumbent overriding present).tolerance = cfg.tolerance := by
  simp only [computeVerdict]
  repeat' split
  all_goals exact ⟨rfl, rfl, rfl⟩

/-- Nothing to compare with. -/
theorem computeVerdict_of_absent (cfg : GateConfig) (candidate : Option Record) (overriding : Bool)
    (h : ¬ present.getD incumbent.isSome = true) :
    (computeVerdict cfg candidate incumbent overriding present).verdict = .pass ∧
      ¬ FromRegression (computeVerdict cfg candidate incumbent overriding present) := by
  rw [Bool.not_eq_true] at h
  simp [computeVerdict, h, FromRegression]

/-- A value is missing. -/
theorem computeVerdict_of_missing (cfg : GateConfig) (overriding : Bool)
    (hp : present.getD incumbent.isSome = true) (h : candidate.bind Record.value = none ∨ incumbent.bind Record.value = none) :
    (computeVerdict cfg candidate incumbent overriding present).verdict ≠ .pass ∧
      ¬ FromRegression (computeVerdict cfg candidate incumbent overriding present) := by
  simp only [computeVerdict, hp, Bool.not_true, Bool.false_eq_true, if_false]
  cases hc : candidate.bind Record.value with
  | none => split_ifs <;> simp [FromRegression]
  | some cand =>
    have hi := h.resolve_left (hc ▸ Option.some_ne_none cand)
    simp only [hi]
    split_ifs <;> simp [FromRegression]

variable {c i : Record} {cand inc : Number}

/-- The two are of different kinds. -/
theorem computeVerdict_of_not_alike (cfg : GateConfig) (overriding : Bool)
    (hp : present.getD (some i).isSome = true) (hc : c.value = some cand)
    (hi : i.value = some inc) (h : ¬ c.Alike i) :
    (computeVerdict cfg (some c) (some i) overriding present).verdict ≠ .pass ∧
      ¬ FromRegression (computeVerdict cfg (some c) (some i) overriding present) := by
  have hdiffer : c.metric ≠ i.metric ∨ c.modality ≠ i.modality := not_and_or.mp h
  simp only [computeVerdict, hp, Bool.not_true, Bool.false_eq_true, if_false, Option.bind_some, hc,
    hi, if_pos hdiffer]
  split_ifs <;> simp [FromRegression]

/-- A like pair is passed, or is a regression. -/
theorem computeVerdict_of_alike (cfg : GateConfig) (overriding : Bool)
    (hp : present.getD (some i).isSome = true) (hc : c.value = some cand)
    (hi : i.value = some inc) (h : c.Alike i) :
    ((computeVerdict cfg (some c) (some i) overriding present).verdict ≠ .pass ↔
        worse cfg.tolerance c.resolved cand inc = true) ∧
      (FromRegression (computeVerdict cfg (some c) (some i) overriding present) ↔
        worse cfg.tolerance c.resolved cand inc = true) := by
  have hsame : ¬ (c.metric ≠ i.metric ∨ c.modality ≠ i.modality) := by
    rw [not_or, not_not, not_not]
    exact h
  simp only [computeVerdict, hp, Bool.not_true, Bool.false_eq_true, if_false, Option.bind_some, hc,
    hi, if_neg hsame, Option.map_some, Option.getD_some]
  cases worse cfg.tolerance c.resolved cand inc
  · simp [FromRegression]
  · simp only [Bool.not_true, Bool.false_eq_true, if_false]
    split_ifs <;> simp [FromRegression]

end

/-- The view is faithful exactly if nothing is compared, or the evidence is plain. -/
theorem faithful_iff (cfg : GateConfig) (candidate incumbent : Option Record) (overriding : Bool)
    (present : Option Bool) :
    Faithful (computeVerdict cfg candidate incumbent overriding present) ↔
      (present.getD incumbent.isSome = true → ∀ c ∈ candidate, ∀ i ∈ incumbent, ∀ inc ∈ i.value,
        Evident cfg.tolerance c i inc) := by
  obtain ⟨hcandidate, hincumbent, htolerance⟩ := record_computeVerdict cfg
    candidate incumbent overriding present
  by_cases hp : present.getD incumbent.isSome = true
  · have hnone : candidate = none ∨ incumbent.bind Record.value = none →
        Faithful (computeVerdict cfg candidate incumbent overriding present) := by
      intro h
      have hmissing : candidate.bind Record.value = none ∨ incumbent.bind Record.value = none :=
        h.imp_left fun h => by rw [h]; rfl
      refine (faithful_iff_of_not_regression (computeVerdict_of_missing cfg overriding hp hmissing).2).mpr
        (not_shown ?_ _)
      rwa [hcandidate, hincumbent]
    rw [imp_iff_right hp]
    cases candidate with
    | none => simp [hnone (.inl rfl)]
    | some c =>
      cases incumbent with
      | none => simp [hnone (.inr rfl)]
      | some i =>
        cases hinc : i.value with
        | none => simp [hnone (.inr hinc), hinc]
        | some inc =>
          have hshown := shown_iff hcandidate hincumbent hinc (Number.round 6)
          simp only [Option.mem_def, Option.some.injEq, forall_eq', hinc, Evident]
          cases hcand : c.value with
          | none =>
            obtain ⟨hfailed, hreason⟩ := computeVerdict_of_missing cfg overriding hp
              (.inl hcand : (some c).bind Record.value = none ∨ _)
            rw [faithful_iff_of_not_regression hreason, gateView, hshown]
            simp [hfailed]
          | some cand =>
            dsimp only
            split_ifs with halike
            · obtain ⟨hfailed, hreason⟩ := computeVerdict_of_alike cfg overriding hp hcand hinc halike
              by_cases hworse : worse cfg.tolerance c.resolved cand inc = true
              · rw [imp_iff_right hworse]
                have hview : (gateView true
                    (some (computeVerdict cfg (some c) (some i) overriding present))).Shown ↔
                    c.Named := by
                  rw [gateView, hshown, and_iff_right (hfailed.mpr hworse)]
                have hviolated := fun hnamed => violated_iff hcandidate hincumbent hinc hcand
                  (hfailed.mpr hworse) hnamed (by rwa [htolerance])
                rw [htolerance] at hviolated
                constructor
                · intro h
                  have hnamed := hview.mp (h.shown.mpr (hreason.mpr hworse))
                  exact ⟨hnamed, (hviolated hnamed).mp h.violated⟩
                · rintro ⟨hnamed, hbound⟩
                  exact ⟨iff_of_true (hview.mpr hnamed) (hreason.mpr hworse),
                    (hviolated hnamed).mpr hbound⟩
              · refine iff_of_true ?_ fun h => absurd h hworse
                rw [faithful_iff_of_not_regression (mt hreason.mp hworse), gateView, hshown]
                exact fun h => hworse (hfailed.mp h.1)
            · obtain ⟨hfailed, hreason⟩ := computeVerdict_of_not_alike cfg overriding hp hcand hinc halike
              rw [faithful_iff_of_not_regression hreason, gateView, hshown]
              simp [hfailed]
  · obtain ⟨hpass, hreason⟩ := computeVerdict_of_absent cfg candidate overriding hp
    refine iff_of_true ?_ fun h => absurd h hp
    refine (faithful_iff_of_not_regression hreason).mpr ?_
    rintro ⟨rule, hrule, -⟩
    have hrule : failedRuleBy (Number.round 6)
      (computeVerdict cfg candidate incumbent overriding present) = some rule := hrule
    rw [failedRuleBy, hpass] at hrule
    cases hrule

/-- Two metrics that are not the same: the gate has refused to judge, and the view shows a
threshold. -/
theorem mismatch_unfaithful :
    ¬ Faithful (computeVerdict ⟨"hard", .fin (1 / 50), "block"⟩
      (some ⟨some "2", some "wer", some (.fin (1 / 2)), some "lower", some "stt"⟩)
      (some ⟨some "1", some "accuracy", some (.fin (9 / 10)), some "higher", some "stt"⟩)
      false none) := by
  intro h
  have hreason := h.shown.mp ⟨⟨"wer", .lte, _, some "stt"⟩, rfl, rfl⟩
  exact (computeVerdict_of_not_alike _ _ rfl rfl rfl (by decide)).2 hreason

end MlopsLite.Gateway.Console.GateEvidence
