import MlopsLite.Lib.Conversions
import MlopsLite.Lib.Dict

/-!
# Drift — the report and its two readers

`compute_drift` (`gateway/app/monitoring.py`) stores a report as JSON;
`drift_reports` (`gateway/app/console/sources.py`) lists what is stored, and
`drift_report` (`gateway/app/console/evaluations.py`) makes the console's view of
one report.
-/

namespace MlopsLite.Gateway.Console.Drift

open Conversions (Value Fault)

/-! ## The report -/

structure Report where
  reference : String
  current : String
  threshold : Number
  features : List (String × Number)
  driftedColumns : List String
  maxPsi : Number
  datasetDrift : Bool
  createdAt : Number
  deriving DecidableEq

/-- What is stored: the body of the object. -/
def Report.json (r : Report) : Value :=
  .obj [("reference", .str r.reference), ("current", .str r.current),
    ("threshold", .num r.threshold), ("features", .obj (r.features.map fun f => (f.1, .num f.2))),
    ("drifted_columns", .arr (r.driftedColumns.map .str)), ("max_psi", .num r.maxPsi),
    ("dataset_drift", .bool r.datasetDrift), ("created_at", .num r.createdAt)]

/-- The numeric columns of a dataset, as `_load_numeric` returns them. -/
abbrev Columns := Dict String (List Number)

/-- `max(values)`, the first of the greatest. -/
def maxOf : List Number → Option Number
  | [] => none
  | x :: rest => some (rest.foldl (fun found y => if found.lt y then y else found) x)

/-- A dataset and its version. -/
structure Version where
  name : String
  version : String

def Version.text (v : Version) : String := v.name ++ "@" ++ v.version

/-- `sorted(set(ref) & set(cur))`. -/
def shared (ref cur : Columns) : List String :=
  (ref.keys.filter (· ∈ cur.keys)).insertionSort (· ≤ ·)

/-- `compute_drift`: what it stores, `none` where it raises before that. -/
def computeDrift (psi : List Number → List Number → Number) (refVersion curVersion : Version)
    (ref cur : Columns) (threshold now : Number) : Option Report :=
  let shared := shared ref cur
  if shared = [] then none
  else
    let features := shared.map fun c =>
      (c, (psi ((ref.get? c).getD []) ((cur.get? c).getD [])).round 4)
    let drifted := (features.filter fun f => threshold.le f.2).map Prod.fst
    let maxPsi := (maxOf (features.map Prod.snd)).getD 0
    some
      { reference := refVersion.text
        current := curVersion.text
        threshold := threshold
        features := features
        driftedColumns := drifted.insertionSort (· ≤ ·)
        maxPsi := maxPsi.round 4
        datasetDrift := !drifted.isEmpty
        createdAt := now }

/-! ## Reading a decoded report -/

/-- `value.get(key, default)`. -/
def dictGet (value : Value) (key : String) (default : Value) : Except Fault Value :=
  match value with
  | .obj members => .ok ((members.lookup key).getD default)
  | _ => .error .attribute

/-- `for item in value or []`. -/
def items (value : Value) : Except Fault (List Value) :=
  match (Json.orElse (some value) (.arr [])).iter with
  | .ok items => .ok items
  | .error _ => .error .type

/-- What a value is when it is compared with a number. -/
def numberOf : Value → Except Fault Number
  | .num x => .ok x
  | .bool b => .ok (.fin (if b then 1 else 0))
  | _ => .error .type

inductive DriftState
  | significant
  | warning
  | stable
  deriving DecidableEq

structure Feature where
  name : Value
  statistic : Option Number
  state : Option DriftState

structure DriftView where
  modelName : Value
  endpointId : Value
  referenceWindow : Value × Value
  currentWindow : Value × Value
  featureCount : ℕ
  maxStatistic : Option Number
  features : List Feature
  warning : Number
  significant : Number
  calculatedAt : Value

section

variable (warning significant : Number)

/-- `_drift_state`. -/
def driftState (statistic : Number) : DriftState :=
  if significant.le statistic then .significant
  else if warning.le statistic then .warning
  else .stable

/-- One turn of the loop over the features. -/
def featureOf (feature : Value) : Except Fault Feature := do
  let fallback ← dictGet feature "statistic" .null
  let statistic ← dictGet feature "psi" fallback
  let name ← dictGet feature "name" .null
  match statistic with
  | .null => return ⟨name, none, none⟩
  | statistic =>
    let x ← numberOf statistic
    return ⟨name, some x, some (driftState warning significant x)⟩

/-- `drift_report`. -/
def driftReport (report : Value) : Except Fault DriftView := do
  let stored ← dictGet report "features" .null
  let stored ← items stored
  let features ← stored.mapM (featureOf warning significant)
  let modelName ← dictGet report "model_name" .null
  let curName ← dictGet report "cur_name" .null
  let endpointId ← dictGet report "endpoint_id" .null
  let refFrom ← dictGet report "ref_from" .null
  let refTo ← dictGet report "ref_to" .null
  let curFrom ← dictGet report "cur_from" .null
  let curTo ← dictGet report "cur_to" .null
  let calculatedAt ← dictGet report "created_at" .null
  return {
    modelName := Json.orElse (some modelName) curName
    endpointId := endpointId
    referenceWindow := (refFrom, refTo)
    currentWindow := (curFrom, curTo)
    featureCount := features.length
    maxStatistic := maxOf (features.filterMap Feature.statistic)
    features := features
    warning := warning
    significant := significant
    calculatedAt := calculatedAt }

end

/-! ## The list of the reports -/

/-- `r.get("created_at", 0)`, a number in every report that is stored. -/
def createdAt (report : Value) : Number :=
  match dictGet report "created_at" (.num 0) with
  | .ok (.num x) => x
  | _ => 0

/-- `latest_reports` of what is stored: the newest first. -/
def latestReports (stored : List Value) (limit : ℕ) : List Value :=
  (stored.insertionSort fun a b => (createdAt b).le (createdAt a)).take limit

/-- `{**report, key: value}`. -/
def withMember (key : String) (value : Value) : Value → Value
  | .obj members =>
    if members.any (fun m => m.1 = key) then
      .obj (members.map fun m => if m.1 = key then (m.1, value) else m)
    else .obj (members ++ [(key, value)])
  | other => other

/-- One turn of the loop of `drift_reports`; `max` is the builtin over decoded values. -/
def normalized (max : List Value → Except Fault Value) (report : Value) : Except Fault Value := do
  let score ← dictGet report "max_psi" .null
  match score with
  | .null =>
    let features ← dictGet report "features" .null
    let features ← items features
    let scores ← features.mapM fun f => dictGet f "psi" .null
    let present := scores.filter fun
      | .null => false
      | _ => true
    let score ← if present.isEmpty then pure .null else max present
    return withMember "max_psi" score report
  | score => return withMember "max_psi" score report

/-- `sources.drift_reports`. -/
def driftReports (max : List Value → Except Fault Value) (stored : List Value) (limit : ℕ) :
    Except Fault (List Value) :=
  (latestReports stored limit).mapM (normalized max)

/-! ## What the readers make of a report -/

/-- The console shows what was computed. -/
def Shown (warning significant : Number) (r : Report) : Prop :=
  ∃ view, driftReport warning significant r.json = .ok view ∧
    view.features = (r.features.map fun f =>
      ⟨.str f.1, some f.2, some (driftState warning significant f.2)⟩) ∧
    view.featureCount = r.features.length ∧ view.maxStatistic = some r.maxPsi

/-- The list has every stored report among the newest as it is, with its score. -/
def Listed (max : List Value → Except Fault Value) (rs : List Report) (limit : ℕ) : Prop :=
  driftReports max (rs.map Report.json) limit = .ok (latestReports (rs.map Report.json) limit) ∧
    ∀ v ∈ latestReports (rs.map Report.json) limit, ∃ r ∈ rs,
      v = r.json ∧ dictGet v "max_psi" .null = .ok (.num r.maxPsi)

theorem computeDrift_features {psi : List Number → List Number → Number}
    {refVersion curVersion : Version} {ref cur : Columns} {threshold now : Number} {r : Report}
    (h : computeDrift psi refVersion curVersion ref cur threshold now = some r) :
    r.features ≠ [] := by
  rw [computeDrift] at h
  split_ifs at h with hshared
  cases h
  simpa using hshared

theorem dictGet_features (r : Report) :
    dictGet r.json "features" .null = .ok (.obj (r.features.map fun f => (f.1, .num f.2))) := rfl

/-- Going through an object gives its names, which have no `get`. -/
theorem items_features {features : List (String × Number)} (h : features ≠ []) :
    items (.obj (features.map fun f => (f.1, .num f.2))) =
      .ok (features.map fun f => .str f.1) := by
  cases features with
  | nil => exact absurd rfl h
  | cons f rest =>
    simp [items, Json.orElse, Json.truthy, Json.iter, Function.comp_def]

theorem featureOf_str (warning significant : Number) (name : String) :
    featureOf warning significant (.str name) = .error .attribute := rfl

theorem mapM_featureOf (warning significant : Number) {features : List (String × Number)}
    (h : features ≠ []) :
    (features.map fun f => (.str f.1 : Value)).mapM (featureOf warning significant) =
      .error .attribute := by
  cases features with
  | nil => exact absurd rfl h
  | cons f rest =>
    rw [List.map_cons, List.mapM_cons, featureOf_str]
    rfl

/-- The view of a report with a feature raises. -/
theorem driftReport_raises (warning significant : Number) {r : Report} (h : r.features ≠ []) :
    driftReport warning significant r.json = .error .attribute := by
  simp only [driftReport, dictGet_features, items_features h, mapM_featureOf warning significant h,
    bind, Except.bind]

theorem normalized_json (max : List Value → Except Fault Value) (r : Report) :
    normalized max r.json = .ok r.json := rfl

theorem mapM_normalized (max : List Value → Except Fault Value) {stored : List Value}
    (h : ∀ v ∈ stored, normalized max v = .ok v) : stored.mapM (normalized max) = .ok stored := by
  induction stored with
  | nil => rfl
  | cons v rest ih =>
    rw [List.mapM_cons, h v List.mem_cons_self, ih fun w hw => h w (List.mem_cons_of_mem _ hw)]
    rfl

theorem listed (max : List Value → Except Fault Value) (rs : List Report) (limit : ℕ) :
    Listed max rs limit := by
  have hjson : ∀ v ∈ latestReports (rs.map Report.json) limit, ∃ r ∈ rs, v = r.json := by
    intro v hv
    have hmem := (List.perm_insertionSort _ _).mem_iff.mp (List.mem_of_mem_take hv)
    obtain ⟨r, hr, rfl⟩ := List.mem_map.mp hmem
    exact ⟨r, hr, rfl⟩
  constructor
  · apply mapM_normalized
    intro v hv
    obtain ⟨r, -, rfl⟩ := hjson v hv
    exact normalized_json max r
  · intro v hv
    obtain ⟨r, hr, rfl⟩ := hjson v hv
    exact ⟨r, hr, rfl, rfl⟩

/-- No computed report is shown, while the list gives every one as it is. -/
theorem computed_not_shown (psi : List Number → List Number → Number)
    (refVersion curVersion : Version) (ref cur : Columns) (threshold now : Number) (r : Report)
    (h : computeDrift psi refVersion curVersion ref cur threshold now = some r)
    (warning significant : Number) (max : List Value → Except Fault Value) :
    (driftReport warning significant r.json = .error .attribute ∧
      ¬ Shown warning significant r) ∧
      ∀ rs limit, Listed max rs limit := by
  have hraises := driftReport_raises warning significant (computeDrift_features h)
  refine ⟨⟨hraises, ?_⟩, listed max⟩
  rintro ⟨view, hview, -⟩
  rw [hraises] at hview
  cases hview

/-- Two datasets with the one column `x`. -/
def oneColumn (x : ℚ) : Columns := Dict.empty.insert "x" [.fin x]

/-- The report of them, with the index 0. -/
def oneFeature : Report :=
  ⟨"a@1", "b@2", .fin (1 / 4), [("x", .fin 0)], [], .fin 0, false, .fin 0⟩

theorem computeDrift_oneFeature :
    computeDrift (fun _ _ => .fin 0) ⟨"a", "1"⟩ ⟨"b", "2"⟩ (oneColumn 1) (oneColumn 2)
      (.fin (1 / 4)) (.fin 0) = some oneFeature := by decide +kernel

theorem oneFeature_not_shown :
    (driftReport (.fin (1 / 10)) (.fin (1 / 4)) oneFeature.json = .error .attribute ∧
      ¬ Shown (.fin (1 / 10)) (.fin (1 / 4)) oneFeature) ∧
      ∀ rs limit, Listed (fun _ => .error .type) rs limit :=
  computed_not_shown _ _ _ _ _ _ _ _ computeDrift_oneFeature _ _ _

/-- It is computed, and its view raises. -/
theorem oneFeature_raises :
    computeDrift (fun _ _ => .fin 0) ⟨"a", "1"⟩ ⟨"b", "2"⟩ (oneColumn 1) (oneColumn 2)
        (.fin (1 / 4)) (.fin 0) = some oneFeature ∧
      ¬ Shown (.fin (1 / 10)) (.fin (1 / 4)) oneFeature := by
  refine ⟨computeDrift_oneFeature, ?_⟩
  rintro ⟨view, hview, -⟩
  cases hview

end MlopsLite.Gateway.Console.Drift
