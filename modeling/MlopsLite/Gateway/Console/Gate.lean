import MlopsLite.Gateway.Policy.Scheduler

/-!
# Gate — the console's gate verdict and the promotion gate's

`gate_verdict` (`gateway/app/console/sources.py`) beside `gate`
(`gateway/app/evaluation.py`), which `registry.promote` asks. Both read the
serving alias and the tags of two versions and hand them to `compute_verdict`.
The gate takes an incumbent that is the candidate itself out of the comparison;
the console compares the candidate with it.
-/

namespace MlopsLite.Gateway.Console.Gate

open Policy (Version Eval Tags GateConfig computeVerdict incumbentOf regressed)

/-- What the model registry holds, as far as the two verdicts read it. -/
structure Registry where
  versions : Dict (String × Version) Tags
  serving : Dict String Version

namespace Registry

variable (float : String → Option Number) (r : Registry)

/-- `_serving_version`. -/
def servingVersion (m : String) : Option Version := r.serving.get? m

/-- `read_eval` of a version; a version that does not exist has none. -/
def readEval (m : String) (v : Version) : Option Eval :=
  (r.versions.get? (m, v)).bind (Eval.read float v)

end Registry

variable (cfg : Policy.Settings) (float : String → Option Number) (r : Registry)

/-- `sources.gate_verdict`. -/
def gateVerdict (m : String) (v : Version) : Policy.Verdict :=
  let champion := r.servingVersion m
  computeVerdict cfg.gate (r.readEval float m v) (champion.bind (r.readEval float m)) false
    champion.isSome

/-- `evaluation.gate`. -/
def gate (m : String) (v : Version) (overriding : Bool) : Policy.Verdict :=
  let serving := r.servingVersion m
  Policy.gateVerdict cfg serving v (r.readEval float m v)
    ((incumbentOf serving v).bind (r.readEval float m)) overriding

/-! ## Where the two agree -/

variable {cfg float r} {m : String} {v : Version}

/-- With another incumbent, or none, the gate only adds the candidate's version. -/
theorem gate_eq_of_other (h : r.servingVersion m ≠ some v) :
    gate cfg float r m v false =
      { gateVerdict cfg float r m v with candidateVersion := some v } := by
  have hi : incumbentOf (r.servingVersion m) v = r.servingVersion m := if_neg h
  rw [gate, Policy.gateVerdict, gateVerdict, hi]

/-- The gate passes the serving version itself. -/
theorem gate_of_serving (h : r.servingVersion m = some v) :
    (gate cfg float r m v false).verdict = .pass := by
  have hi : incumbentOf (r.servingVersion m) v = none := if_pos h
  rw [gate, Policy.gateVerdict, hi]
  rfl

/-- The console holds the serving version against its own metric. -/
theorem gateVerdict_of_serving (h : r.servingVersion m = some v) :
    gateVerdict cfg float r m v =
      computeVerdict cfg.gate (r.readEval float m v) (r.readEval float m v) false true := by
  rw [gateVerdict, h]
  rfl

/-- A metric passes against itself unless it regresses from itself. -/
theorem computeVerdict_self (gate : GateConfig) (e : Option Eval) :
    (computeVerdict gate e e false true).verdict = .pass ↔
      ∃ x, e = some x ∧ regressed gate x x = false := by
  cases e with
  | none =>
    simp only [computeVerdict]
    split_ifs <;> simp_all
  | some x =>
    simp only [computeVerdict]
    by_cases hr : regressed gate x x = true
    · by_cases hw : gate.mode = "warn" <;> simp [hr, hw]
    · simp [hr]

/-- With a tolerance that is not negative no metric regresses from itself. -/
theorem not_regressed_self {gate : GateConfig} (h : gate.tolerance.lt (.fin 0) = false)
    (e : Eval) : regressed gate e e = false := by
  have hm := Number.margin_nonneg e.value h
  rw [regressed]
  split_ifs
  · exact Number.not_lt_sub e.value hm
  · exact Number.not_add_lt e.value hm

variable (cfg float r) in
/-- The console's word is the gate's exactly when the version is not the
serving one, or is and has a readable metric that does not regress from itself. -/
theorem gateVerdict_agrees (m : String) (v : Version) :
    (gateVerdict cfg float r m v).verdict = (gate cfg float r m v false).verdict ↔
      r.servingVersion m ≠ some v ∨
        ∃ e, r.readEval float m v = some e ∧ regressed cfg.gate e e = false := by
  by_cases h : r.servingVersion m = some v
  · rw [gate_of_serving h, gateVerdict_of_serving h, computeVerdict_self]
    simp [h]
  · rw [gate_eq_of_other h]
    simp [h]

/-! ## Where they differ -/

/-- One version, serving, never evaluated. -/
def unevaluated : Registry where
  versions := Dict.empty.insert ("wide", "1") .empty
  serving := Dict.empty.insert "wide" "1"

/-- The gate passes the serving version of `unevaluated`; the console warns of it. -/
theorem console_warns_where_gate_passes :
    (gateVerdict Policy.Settings.defaults (fun _ => none) unevaluated "wide" "1").verdict = .warn ∧
      (gate Policy.Settings.defaults (fun _ => none) unevaluated "wide" "1" false).verdict =
        .pass := by
  decide +kernel

end MlopsLite.Gateway.Console.Gate
