import MlopsLite.Gateway.Quality.Captures
import MlopsLite.Lib.Floats

/-!
# Quality — the windows

The live window (`_load_pairs` and `score_window` in `gateway/app/quality.py`) and
the replay window (`resolve_window`, `join_window` and `prepare` in
`gateway/app/shadow.py`) over the joins in `platformlib/storeimpl`. A table is in
any order, which decides between rows of one time. All reads succeed; a body may
be missing.
-/

namespace MlopsLite.Gateway.Quality

variable {V : Type}

/-! ## The stores -/

/-- A row of `predictions`, under its `prediction_id`. -/
structure PredictionRow where
  modelName : String
  version : String
  modality : String
  servedAt : Time
  payloadRef : Option String

/-- The record `log_prediction` writes. -/
structure Output (V : Type) where
  modelName : String
  modelVersion : String
  modality : String
  prediction : Option V

/-- The record `capture_input` writes. -/
structure Input (V : Type) where
  predictionId : String
  input : V
  options : Option V
  ts : Time

/-- The tables and the bodies. A body is written with its row, from one request. -/
structure Logged (V : Type) where
  predictions : Dict String PredictionRow
  labels : Dict String V
  captures : Dict String Row
  outputs : Dict String (Output V)
  inputs : Dict String (Input V)
  output_of : ∀ id row ref body, predictions.get? id = some row → row.payloadRef = some ref →
    outputs.get? ref = some body →
    body.modelName = row.modelName ∧ body.modelVersion = row.version ∧
      body.modality = row.modality
  input_of : ∀ id row body, captures.get? id = some row → inputs.get? row.inputRef = some body →
    body.predictionId = id ∧ body.ts = row.capturedAt
  captured_of : ∀ id row served, captures.get? id = some row →
    predictions.get? id = some served → row.modality = normalizeModality served.modality

/-- The model, its version and the modality of a window. -/
structure Query where
  modelName : String
  version : String
  modality : String

/-- `pairs[-n:]` for a positive `n`. -/
def lastOf {α : Type} (n : ℕ) (pairs : List α) : List α := pairs.drop (pairs.length - n)

/-! ## The live window -/

/-- A row of the join of predictions and labels. -/
structure Labeled (V : Type) where
  predictionId : String
  servedAt : Time
  payloadRef : Option String
  label : V

structure Pair (V : Type) where
  prediction : V
  label : V
  ts : Time

namespace Logged

variable (s : Logged V) (q : Query)

/-- The join of `store.window`, before its order and its limit. -/
def labeled : List (Labeled V) :=
  s.predictions.items.filterMap fun (id, row) =>
    if row.modality = q.modality ∧ row.modelName = q.modelName ∧ row.version = q.version then
      (s.labels.get? id).map fun label => ⟨id, row.servedAt, row.payloadRef, label⟩
    else none

/-- `ORDER BY p.served_at DESC`. -/
def served : List (Labeled V) := Newest.sorted Labeled.servedAt (s.labeled q)

/-- `store.window`. -/
def window (n : ℕ) : List (Labeled V) := (s.served q).take n

/-- The body under a reference that is set. -/
def output (ref : Option String) : Option (Output V) :=
  (ref.filter (· ≠ "")).bind s.outputs.get?

/-- One turn of the loop of `_load_pairs`: `none` for a row that is passed over. -/
def pair (r : Labeled V) : Option (Pair V) := do
  let body ← s.output r.payloadRef
  let prediction ← body.prediction
  return ⟨prediction, r.label, r.servedAt⟩

/-- `_load_pairs`. -/
def loadPairs (n : ℕ) : List (Pair V) := ((s.window q n).filterMap s.pair).reverse

end Logged

/-- The metric of a modality. -/
structure Metric (V : Type) where
  name : String
  direction : String
  score : List V → List V → Number

structure Score where
  metric : String
  value : Option Number
  direction : String
  nUsed : ℕ

/-- `score_window`; `none` where it refuses the size of the window. -/
def scoreWindow (metric : Metric V) (pairs : List (Pair V)) (windowN minPairs : ℕ) :
    Option Score :=
  if windowN = 0 then none
  else
    let window := lastOf windowN pairs
    if window.length < minPairs then some ⟨metric.name, none, metric.direction, window.length⟩
    else
      let value := metric.score (window.map Pair.prediction) (window.map Pair.label)
      some ⟨metric.name, some (value.round 6), metric.direction, window.length⟩

/-! ## The replay window -/

/-- A row of the join of captures, predictions and labels. -/
structure Replayable (V : Type) where
  predictionId : String
  inputRef : String
  payloadRef : Option String
  label : V
  capturedAt : Time

structure ReplayPair (V : Type) where
  predictionId : String
  input : V
  label : V
  championPrediction : V
  options : Option V
  ts : Time

/-- What `resolve_window` hands to the join. -/
structure Resolved (V : Type) where
  inputRecs : List (Input V)
  predictions : Dict String (Output V)
  labels : Dict String V

/-- `ttl_cutoff`. -/
def ttlCutoff (now ttl : ℚ) : Option ℚ := if 0 < ttl then some (now - ttl) else none

/-- One turn of the loop of `join_window`. -/
def joinRecord (predictions : Dict String (Output V)) (labels : Dict String V) (q : Query)
    (rec : Input V) : Option (ReplayPair V) := do
  let body ← predictions.get? rec.predictionId
  let prediction ← body.prediction
  if body.modelVersion ≠ q.version then none
  else if q.modelName ≠ "" ∧ body.modelName ≠ q.modelName then none
  else if normalizeModality body.modality ≠ normalizeModality q.modality then none
  else
    let label ← labels.get? rec.predictionId
    return ⟨rec.predictionId, rec.input, label, prediction, rec.options, rec.ts⟩

/-- `join_window`. -/
def joinWindow (r : Resolved V) (q : Query) (windowN : ℕ) : List (ReplayPair V) :=
  let pairs := (r.inputRecs.filterMap (joinRecord r.predictions r.labels q)).insertionSort
    fun a b => a.ts ≤ b.ts
  if 0 < windowN then lastOf windowN pairs else pairs

namespace Logged

variable (s : Logged V) (q : Query) (cutoff : Option ℚ)

/-- The join of `store.replay_window`, before its order and its limit. -/
def replayable : List (Replayable V) :=
  s.captures.items.filterMap fun (id, row) => do
    let served ← s.predictions.get? id
    let label ← s.labels.get? id
    if row.modality = q.modality ∧ served.modelName = q.modelName ∧ served.version = q.version ∧
        (∀ c ∈ cutoff, c ≤ row.capturedAt) then
      some ⟨id, row.inputRef, served.payloadRef, label, row.capturedAt⟩
    else none

/-- `ORDER BY c.captured_at DESC`. -/
def captured : List (Replayable V) := Newest.sorted Replayable.capturedAt (s.replayable q cutoff)

/-- `store.replay_window`. -/
def replayWindow (n : ℕ) : List (Replayable V) := (s.captured q cutoff).take n

/-- One turn of the loop of `resolve_window`. -/
def resolve (found : Resolved V) (r : Replayable V) : Resolved V :=
  match s.inputs.get? r.inputRef with
  | none => found
  | some rec =>
    let found := { found with
      inputRecs := found.inputRecs ++ [rec]
      labels := found.labels.insert r.predictionId r.label }
    match s.output r.payloadRef with
    | none => found
    | some body => { found with predictions := found.predictions.insert r.predictionId body }

/-- `resolve_window`. -/
def resolveWindow (now ttl : ℚ) (windowN : ℕ) : List (ReplayPair V) :=
  let q := { q with modality := normalizeModality q.modality }
  let rows := s.replayWindow q (ttlCutoff now ttl) windowN
  joinWindow (rows.foldl s.resolve ⟨[], .empty, .empty⟩) q windowN

end Logged

inductive Prepared (V : Type)
  | unsupported
  | noCorpus
  | inputsNotCaptured
  | insufficientData (nPairs minPairs : ℕ)
  | ready (pairs : List (ReplayPair V))

/-- `prepare`; `capturing` is `QUALITY_CAPTURE_IO`. -/
def Logged.prepare (s : Logged V) (capturing : Bool) (q : Query) (now ttl : ℚ)
    (windowN minPairs : ℕ) : Prepared V :=
  let q := { q with modality := normalizeModality q.modality }
  if q.modality ∉ shadowModalities then .unsupported
  else if capturing = false then .noCorpus
  else if s.captures.values.all (fun row => row.modality ≠ q.modality) then .inputsNotCaptured
  else
    let pairs := s.resolveWindow q now ttl windowN
    if pairs.length < minPairs then .insufficientData pairs.length minPairs
    else .ready pairs

/-! ## What a window is for -/

/-- The window is the newest `n` of the eligible pairs, oldest first; `eligible` is
newest first. -/
structure Exact {α : Type} (time : α → Time) (n : ℕ) (eligible window : List α) : Prop where
  newest : window.Perm (eligible.take n)
  oldestFirst : window.Pairwise fun a b => time a ≤ time b

/-- The first `n` are all chosen, or nothing behind them is. -/
def AllOrLast {α β : Type} (f : α → Option β) (n : ℕ) (rows : List α) : Prop :=
  (∀ r ∈ rows.take n, (f r).isSome = true) ∨ ∀ r ∈ rows.drop n, f r = none

namespace Logged

variable (s : Logged V) (q : Query)

/-- The pair of a captured row whose input is there and whose output was logged. -/
def replayPair (r : Replayable V) : Option (ReplayPair V) := do
  let rec ← s.inputs.get? r.inputRef
  let body ← s.output r.payloadRef
  let prediction ← body.prediction
  return ⟨r.predictionId, rec.input, r.label, prediction, rec.options, rec.ts⟩

/-- The pairs of all labeled rows that can be scored, newest first. -/
def scorable : List (Pair V) := (s.served q).filterMap s.pair

/-- The pairs of all captured rows that can be replayed, newest first. -/
def replayScorable (cutoff : Option ℚ) : List (ReplayPair V) :=
  (s.captured q cutoff).filterMap s.replayPair

/-- Both windows hold the newest scorable pairs, and too little data is reported only
where there is too little or the window is too small. -/
structure NewestScorable (now ttl : ℚ) (n : ℕ) : Prop where
  live : Exact Pair.ts n (s.scorable q) (lastOf n (s.loadPairs q n))
  replay : Exact ReplayPair.ts n
    (s.replayScorable { q with modality := normalizeModality q.modality } (ttlCutoff now ttl))
    (s.resolveWindow q now ttl n)
  liveEnough : ∀ metric minPairs score,
    scoreWindow metric (s.loadPairs q n) n minPairs = some score → score.value = none →
      (s.scorable q).length < minPairs ∨ n < minPairs
  replayEnough : ∀ capturing minPairs nPairs,
    s.prepare capturing q now ttl n minPairs = .insufficientData nPairs minPairs →
      (s.replayScorable { q with modality := normalizeModality q.modality }
        (ttlCutoff now ttl)).length < minPairs ∨ n < minPairs

end Logged

/-! ## A window and its limit -/

theorem lastOf_eq {α : Type} {n : ℕ} {pairs : List α} (h : pairs.length ≤ n) :
    lastOf n pairs = pairs := by
  rw [lastOf, Nat.sub_eq_zero_of_le h, List.drop_zero]

/-- What is chosen from the first `n`, in order of time, is the newest `n` exactly if the
limit cuts off nothing that could have been chosen. -/
theorem window_iff {α β : Type} {time : β → Time} {n : ℕ} {rows : List α} {f : α → Option β}
    {window : List β} (hperm : window.Perm ((rows.take n).filterMap f))
    (hsorted : window.Pairwise fun a b => time a ≤ time b) :
    Exact time n (rows.filterMap f) window ↔ AllOrLast f n rows := by
  rw [AllOrLast, ← Newest.take_filterMap_perm_iff]
  constructor
  · intro h
    exact hperm.symm.trans h.newest
  · intro h
    exact ⟨hperm.trans h, hsorted⟩

theorem Exact.length {α : Type} {time : α → Time} {n : ℕ} {eligible window : List α}
    (h : Exact time n eligible window) : window.length = min n eligible.length := by
  rw [h.newest.length_eq, List.length_take]

/-! ## The live window -/

section

variable {s : Logged V} {q : Query} {n : ℕ}

theorem length_loadPairs : (s.loadPairs q n).length ≤ n := by
  rw [Logged.loadPairs, List.length_reverse]
  exact (List.length_filterMap_le ..).trans (List.length_take_le ..)

theorem ts_pair {r : Labeled V} {p : Pair V} (h : s.pair r = some p) : p.ts = r.servedAt := by
  simp only [Logged.pair, Option.bind_eq_bind, Option.bind_eq_some_iff] at h
  obtain ⟨body, -, prediction, -, heq⟩ := h
  cases heq
  rfl

theorem sorted_loadPairs : (s.loadPairs q n).Pairwise fun a b => a.ts ≤ b.ts := by
  have hrows : (s.window q n).Pairwise fun a b => b.servedAt ≤ a.servedAt :=
    Newest.sorted_pairwise.sublist (List.take_sublist ..)
  rw [Logged.loadPairs, List.pairwise_reverse, List.pairwise_filterMap]
  refine hrows.imp ?_
  intro a b hle p hp p' hp'
  rw [ts_pair hp, ts_pair hp']
  exact hle

theorem live_iff : Exact Pair.ts n (s.scorable q) (lastOf n (s.loadPairs q n)) ↔
    AllOrLast s.pair n (s.served q) := by
  rw [lastOf_eq length_loadPairs]
  exact window_iff (List.reverse_perm _) sorted_loadPairs

theorem liveEnough (h : Exact Pair.ts n (s.scorable q) (lastOf n (s.loadPairs q n)))
    {metric : Metric V} {minPairs : ℕ} {score : Score}
    (hscore : scoreWindow metric (s.loadPairs q n) n minPairs = some score)
    (hvalue : score.value = none) : (s.scorable q).length < minPairs ∨ n < minPairs := by
  by_cases hshort : (lastOf n (s.loadPairs q n)).length < minPairs
  · rw [h.length] at hshort
    omega
  · rw [scoreWindow] at hscore
    simp only [hshort, if_false] at hscore
    split_ifs at hscore
    cases hscore
    cases hvalue

end

/-! ## The replay window -/

theorem normalizeModality_idem (modality : String) :
    normalizeModality (normalizeModality modality) = normalizeModality modality := by
  unfold normalizeModality
  split_ifs <;> simp_all

section

variable {s : Logged V} {q : Query} {cutoff : Option ℚ} {found : Resolved V}
  {rows : List (Replayable V)}

/-- A row of the join has its capture and its prediction behind it. -/
theorem mem_replayable {r : Replayable V} (h : r ∈ s.replayable q cutoff) :
    ∃ row served, s.captures.get? r.predictionId = some row ∧
      s.predictions.get? r.predictionId = some served ∧
      row.inputRef = r.inputRef ∧ served.payloadRef = r.payloadRef ∧
      row.capturedAt = r.capturedAt ∧ row.modality = q.modality ∧
      served.modelName = q.modelName ∧ served.version = q.version := by
  obtain ⟨⟨id, row⟩, hmem, hrow⟩ := List.mem_filterMap.mp h
  simp only [Option.bind_eq_bind, Option.bind_eq_some_iff] at hrow
  obtain ⟨served, hserved, label, -, hrow⟩ := hrow
  split_ifs at hrow with hall
  obtain ⟨hmodality, hname, hversion, -⟩ := hall
  cases hrow
  exact ⟨row, served, Dict.mem_items.mp hmem, hserved, rfl, rfl, rfl, hmodality, hname, hversion⟩

/-- The join leaves a prediction on one row. -/
theorem nodup_replayable : ((s.replayable q cutoff).map Replayable.predictionId).Nodup := by
  have hkeys : (s.captures.items.map Prod.fst).Nodup := s.captures.nodup
  rw [Logged.replayable, List.Nodup, List.pairwise_map, List.pairwise_filterMap]
  rw [List.Nodup, List.pairwise_map] at hkeys
  refine hkeys.imp ?_
  rintro ⟨id, row⟩ ⟨id', row'⟩ hne r hr r' hr'
  simp only [Option.bind_eq_bind, Option.bind_eq_some_iff] at hr hr'
  obtain ⟨served, -, label, -, hr⟩ := hr
  obtain ⟨served', -, label', -, hr'⟩ := hr'
  split_ifs at hr hr'
  cases hr
  cases hr'
  exact hne

theorem inputRecs_foldl : (rows.foldl s.resolve found).inputRecs =
    found.inputRecs ++ rows.filterMap fun r => s.inputs.get? r.inputRef := by
  induction rows generalizing found with
  | nil => simp
  | cons r rest ih =>
    rw [List.foldl_cons, ih, List.filterMap_cons, Logged.resolve]
    cases s.inputs.get? r.inputRef with
    | none => rfl
    | some rec => cases s.output r.payloadRef <;> simp

/-- What the loop leaves alone under an id that is not its row's. -/
theorem resolve_ne {r : Replayable V} {id : String} (h : id ≠ r.predictionId) :
    (s.resolve found r).predictions.get? id = found.predictions.get? id ∧
      (s.resolve found r).labels.get? id = found.labels.get? id := by
  rw [Logged.resolve]
  cases s.inputs.get? r.inputRef with
  | none => exact ⟨rfl, rfl⟩
  | some rec =>
    cases s.output r.payloadRef with
    | none => exact ⟨rfl, Dict.get?_insert_ne _ _ h⟩
    | some body => exact ⟨Dict.get?_insert_ne _ _ h, Dict.get?_insert_ne _ _ h⟩

theorem foldl_resolve_ne {id : String} (h : ∀ r ∈ rows, r.predictionId ≠ id) :
    (rows.foldl s.resolve found).predictions.get? id = found.predictions.get? id ∧
      (rows.foldl s.resolve found).labels.get? id = found.labels.get? id := by
  induction rows generalizing found with
  | nil => exact ⟨rfl, rfl⟩
  | cons r rest ih =>
    rw [List.foldl_cons]
    obtain ⟨hprediction, hlabel⟩ := ih fun r' hr' => h r' (List.mem_cons_of_mem _ hr')
    rw [hprediction, hlabel]
    exact resolve_ne (h r List.mem_cons_self).symm

/-- A row whose input is there leaves its output and its label under its id. -/
theorem resolve_self {r : Replayable V} {rec : Input V}
    (hinput : s.inputs.get? r.inputRef = some rec)
    (hnew : found.predictions.get? r.predictionId = none) :
    (s.resolve found r).predictions.get? r.predictionId = s.output r.payloadRef ∧
      (s.resolve found r).labels.get? r.predictionId = some r.label := by
  rw [Logged.resolve, hinput]
  cases s.output r.payloadRef with
  | none => exact ⟨hnew, Dict.get?_insert_self _ _ _⟩
  | some body => exact ⟨Dict.get?_insert_self _ _ _, Dict.get?_insert_self _ _ _⟩

theorem foldl_resolve_self (hnodup : (rows.map Replayable.predictionId).Nodup)
    (hnew : ∀ r ∈ rows, found.predictions.get? r.predictionId = none) {r : Replayable V}
    (hr : r ∈ rows) {rec : Input V} (hinput : s.inputs.get? r.inputRef = some rec) :
    (rows.foldl s.resolve found).predictions.get? r.predictionId = s.output r.payloadRef ∧
      (rows.foldl s.resolve found).labels.get? r.predictionId = some r.label := by
  induction rows generalizing found with
  | nil => cases hr
  | cons r₀ rest ih =>
    rw [List.map_cons, List.nodup_cons] at hnodup
    have hapart : ∀ r' ∈ rest, r'.predictionId ≠ r₀.predictionId := by
      intro r' hr' heq
      exact hnodup.1 (List.mem_map.mpr ⟨r', hr', heq⟩)
    rw [List.foldl_cons]
    rcases List.mem_cons.mp hr with rfl | hrest
    · rw [(foldl_resolve_ne hapart).1, (foldl_resolve_ne hapart).2]
      exact resolve_self hinput (hnew r List.mem_cons_self)
    · refine ih hnodup.2 ?_ hrest
      intro r' hr'
      rw [(resolve_ne (hapart r' hr')).1]
      exact hnew r' (List.mem_cons_of_mem _ hr')

/-- The body that a row's output is read from was written for the row's model. -/
theorem output_agrees {r : Replayable V} (hr : r ∈ s.replayable q cutoff)
    (hq : normalizeModality q.modality = q.modality) {body : Output V}
    (hbody : s.output r.payloadRef = some body) :
    body.modelVersion = q.version ∧ body.modelName = q.modelName ∧
      normalizeModality body.modality = normalizeModality q.modality := by
  obtain ⟨row, served, hrow, hserved, -, hpayload, -, hmodality, hname, hversion⟩ :=
    mem_replayable hr
  rw [Logged.output, Option.bind_eq_some_iff] at hbody
  obtain ⟨ref, href, hbody⟩ := hbody
  rw [Option.filter_eq_some_iff] at href
  obtain ⟨hname', hversion', hmodality'⟩ :=
    s.output_of _ served ref body hserved (hpayload.trans href.1) hbody
  refine ⟨hversion'.trans hversion, hname'.trans hname, ?_⟩
  rw [hmodality', ← s.captured_of _ row served hrow hserved, hmodality, hq]

/-- The join over what was resolved gives each row its own pair. -/
theorem joinRecord_eq {r : Replayable V} (hr : r ∈ s.replayable q cutoff)
    (hq : normalizeModality q.modality = q.modality) {predictions : Dict String (Output V)}
    {labels : Dict String V} {rec : Input V} (hinput : s.inputs.get? r.inputRef = some rec)
    (hprediction : predictions.get? r.predictionId = s.output r.payloadRef)
    (hlabel : labels.get? r.predictionId = some r.label) :
    joinRecord predictions labels q rec = s.replayPair r := by
  obtain ⟨row, served, hrow, -, href, -⟩ := mem_replayable hr
  have hid := (s.input_of _ row rec hrow (href ▸ hinput)).1
  rw [joinRecord, Logged.replayPair, hid, hprediction, hlabel, hinput]
  cases hbody : s.output r.payloadRef with
  | none => rfl
  | some body =>
    obtain ⟨hversion, hname, hmodality⟩ := output_agrees hr hq hbody
    cases hlogged : body.prediction with
    | none => simp [hlogged]
    | some prediction => simp [hlogged, hversion, hname, hmodality]

/-- The pairs that the join makes of the rows. -/
theorem joined_eq (hrows : ∀ r ∈ rows, r ∈ s.replayable q cutoff)
    (hnodup : (rows.map Replayable.predictionId).Nodup)
    (hq : normalizeModality q.modality = q.modality) :
    let resolved := rows.foldl s.resolve ⟨[], .empty, .empty⟩
    resolved.inputRecs.filterMap (joinRecord resolved.predictions resolved.labels q) =
      rows.filterMap s.replayPair := by
  intro resolved
  have hrecs : resolved.inputRecs = rows.filterMap fun r => s.inputs.get? r.inputRef := by
    show (rows.foldl s.resolve _).inputRecs = _
    rw [inputRecs_foldl, List.nil_append]
  rw [hrecs, List.filterMap_filterMap]
  apply List.filterMap_congr
  intro r hr
  cases hinput : s.inputs.get? r.inputRef with
  | none =>
    rw [Logged.replayPair, hinput]
    rfl
  | some rec =>
    refine joinRecord_eq (hrows r hr) hq hinput ?_ ?_
    · exact (foldl_resolve_self hnodup (fun _ _ => Dict.get?_empty _) hr hinput).1
    · exact (foldl_resolve_self hnodup (fun _ _ => Dict.get?_empty _) hr hinput).2

theorem sorted_insertion (pairs : List (ReplayPair V)) :
    (pairs.insertionSort fun a b => a.ts ≤ b.ts).Pairwise fun a b => a.ts ≤ b.ts :=
  have : IsTrans (ReplayPair V) fun a b => a.ts ≤ b.ts := ⟨fun _ _ _ hab hbc => hab.trans hbc⟩
  have : Std.Total fun a b : ReplayPair V => a.ts ≤ b.ts := ⟨fun a b => le_total a.ts b.ts⟩
  List.pairwise_insertionSort ..

/-- The replay window is what can be replayed of the newest `n` rows, in order of time. -/
theorem resolveWindow_eq (s : Logged V) (q : Query) (now ttl : ℚ) (n : ℕ) :
    s.resolveWindow q now ttl n =
      (((s.captured { q with modality := normalizeModality q.modality }
        (ttlCutoff now ttl)).take n).filterMap s.replayPair).insertionSort
          fun a b => a.ts ≤ b.ts := by
  set q' : Query := { q with modality := normalizeModality q.modality } with hq'
  set rows := (s.captured q' (ttlCutoff now ttl)).take n with hrows
  have hsub : rows.Sublist (s.captured q' (ttlCutoff now ttl)) := List.take_sublist ..
  have hperm : (s.captured q' (ttlCutoff now ttl)).Perm (s.replayable q' (ttlCutoff now ttl)) :=
    Newest.sorted_perm
  have hmem : ∀ r ∈ rows, r ∈ s.replayable q' (ttlCutoff now ttl) := fun r hr =>
    hperm.mem_iff.mp (hsub.subset hr)
  have hnodup : (rows.map Replayable.predictionId).Nodup :=
    ((hperm.map _).nodup_iff.mpr nodup_replayable).sublist (hsub.map _)
  have hjoined := joined_eq hmem hnodup (normalizeModality_idem q.modality)
  have hlength : (rows.filterMap s.replayPair).length ≤ n :=
    (List.length_filterMap_le ..).trans (List.length_take_le ..)
  show joinWindow (rows.foldl s.resolve ⟨[], .empty, .empty⟩) q' n = _
  rw [joinWindow, hjoined]
  by_cases hn : 0 < n
  · rw [if_pos hn, lastOf_eq (by rw [List.length_insertionSort]; exact hlength)]
  · rw [if_neg hn]

theorem replay_iff (s : Logged V) (q : Query) (now ttl : ℚ) (n : ℕ) :
    Exact ReplayPair.ts n
        (s.replayScorable { q with modality := normalizeModality q.modality } (ttlCutoff now ttl))
        (s.resolveWindow q now ttl n) ↔
      AllOrLast s.replayPair n
        (s.captured { q with modality := normalizeModality q.modality } (ttlCutoff now ttl)) := by
  rw [resolveWindow_eq]
  exact window_iff (List.perm_insertionSort _ _) (sorted_insertion _)

theorem resolveWindow_normalized (s : Logged V) (q : Query) (now ttl : ℚ) (n : ℕ) :
    s.resolveWindow { q with modality := normalizeModality q.modality } now ttl n =
      s.resolveWindow q now ttl n := by
  simp only [Logged.resolveWindow, normalizeModality_idem]

theorem replayEnough {now ttl : ℚ} {n : ℕ} {eligible : List (ReplayPair V)}
    (h : Exact ReplayPair.ts n eligible (s.resolveWindow q now ttl n))
    {capturing : Bool} {minPairs nPairs : ℕ}
    (hshort : s.prepare capturing q now ttl n minPairs = .insufficientData nPairs minPairs) :
    eligible.length < minPairs ∨ n < minPairs := by
  simp only [Logged.prepare, resolveWindow_normalized] at hshort
  by_cases hlength : (s.resolveWindow q now ttl n).length < minPairs
  · rw [h.length] at hlength
    omega
  · simp only [hlength, if_false] at hshort
    split_ifs at hshort

/-- The windows are exact just where each limit cuts off nothing that could have been
scored: the newest `n` rows all can, or no older one can. -/
theorem newestScorable_iff (s : Logged V) (q : Query) (now ttl : ℚ) (n : ℕ) :
    s.NewestScorable q now ttl n ↔
      AllOrLast s.pair n (s.served q) ∧
        AllOrLast s.replayPair n
          (s.captured { q with modality := normalizeModality q.modality } (ttlCutoff now ttl)) := by
  rw [← live_iff, ← replay_iff]
  constructor
  · intro h
    exact ⟨h.live, h.replay⟩
  · rintro ⟨hlive, hreplay⟩
    exact
      { live := hlive
        replay := hreplay
        liveEnough := fun _ _ _ hscore hvalue => liveEnough hlive hscore hvalue
        replayEnough := fun _ _ _ hshort => replayEnough hreplay hshort }

end

/-- Two labeled predictions; the newer one was streamed, without its output. -/
def oneStreamed : Logged String where
  predictions := (Dict.empty.insert "p1" ⟨"m", "1", "text-generation", 10, some "p1.json"⟩).insert
    "p2" ⟨"m", "1", "text-generation", 20, some "p2.json"⟩
  labels := (Dict.empty.insert "p1" "cat").insert "p2" "dog"
  captures := .empty
  outputs := (Dict.empty.insert "p1.json" ⟨"m", "1", "text-generation", some "cat"⟩).insert
    "p2.json" ⟨"m", "1", "text-generation", none⟩
  inputs := .empty
  output_of := by
    intro id row ref body hrow href hbody
    simp only [Dict.get?_insert, Dict.get?_empty] at hrow hbody
    split_ifs at hrow hbody <;> cases hrow <;> cases hbody <;> exact ⟨rfl, rfl, rfl⟩
  input_of _ _ _ hrow := by cases hrow
  captured_of _ _ _ hrow := by cases hrow

/-- A window of one holds nothing, although one pair can be scored. -/
theorem oneStreamed_cut :
    (oneStreamed.scorable ⟨"m", "1", "text-generation"⟩).length = 1 ∧
      (oneStreamed.loadPairs ⟨"m", "1", "text-generation"⟩ 1).length = 0 ∧
      ¬ oneStreamed.NewestScorable ⟨"m", "1", "text-generation"⟩ 0 0 1 := by
  have hone : (oneStreamed.scorable ⟨"m", "1", "text-generation"⟩).length = 1 := by
    decide +kernel
  have hnone : (oneStreamed.loadPairs ⟨"m", "1", "text-generation"⟩ 1).length = 0 := by
    decide +kernel
  refine ⟨hone, hnone, ?_⟩
  intro h
  have hlength := h.live.length
  rw [hone, lastOf_eq length_loadPairs, hnone] at hlength
  cases hlength

end MlopsLite.Gateway.Quality
