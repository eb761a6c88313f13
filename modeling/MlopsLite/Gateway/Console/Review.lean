import MlopsLite.Gateway.Console.Predictions

/-!
# Predictions — what is unlabeled

The queue counts a capture as unlabeled when its label is falsy, the count when
there is no label row. Nothing it lists can be ordered: the key of an item
negates the time it was captured, and that is a datetime.
-/

namespace MlopsLite.Gateway.Console

open Quality (Time PredictionRow Row)
open Fallible (Returns)

/-! ## The queue -/

theorem QueueRow.signals_perm (row : QueueRow) : row.signals.Perm row.raised :=
  List.perm_insertionSort ..

theorem QueueRow.item_eq_none_iff {row : QueueRow} : row.item = none ↔ row.raised = [] := by
  rw [QueueRow.item, Option.map_eq_none_iff, List.head?_eq_none_iff]
  constructor
  · intro h
    exact List.nil_perm.mp (h ▸ row.signals_perm)
  · intro h
    exact List.perm_nil.mp (h ▸ row.signals_perm)

/-- The queue returns exactly if none of what it lists has a datetime. -/
theorem returns_reviewQueue {rows : List QueueRow} {limit : ℕ} :
    Returns (reviewQueue rows limit) ↔
      ∀ item ∈ rows.filterMap QueueRow.item, Returns item.keyed := by
  rw [reviewQueue, Fallible.returns_bind, ← Fallible.returns_mapM]
  constructor
  · rintro ⟨keyed, h, -⟩
    exact ⟨keyed, h⟩
  · rintro ⟨keyed, h⟩
    exact ⟨keyed, h, Fallible.returns_pure⟩

/-- Times in seconds can be ordered. -/
theorem returns_reviewQueue_of_seconds {rows : List QueueRow} {limit : ℕ}
    (h : ∀ row ∈ rows, ∃ t, row.capturedAt = some (.seconds t)) :
    Returns (reviewQueue rows limit) := by
  refine returns_reviewQueue.mpr fun item hitem => ?_
  obtain ⟨row, hrow, hitem⟩ := List.mem_filterMap.mp hitem
  obtain ⟨reason, -, rfl⟩ := Option.map_eq_some_iff.mp hitem
  obtain ⟨t, ht⟩ := h row hrow
  refine Fallible.returns_map.mpr ⟨-t, ?_⟩
  simp [ht, Stamp.neg]

/-- A queue that returns has the items of its rows, as far as its limit goes. -/
theorem reviewQueue_ok {rows : List QueueRow} {limit : ℕ} {items : List ReviewItem}
    (h : reviewQueue rows limit = .ok items) :
    ∃ all : List ReviewItem, all.Perm (rows.filterMap QueueRow.item) ∧ items = all.take limit := by
  obtain ⟨keyed, hkeyed, hitems⟩ := Fallible.bind_eq_ok.mp h
  cases hitems
  refine ⟨_, ?_, rfl⟩
  have hfst : ∀ {listed : List ReviewItem} {keyed : List ((ℕ ×ₗ ℚ) × ReviewItem)},
      listed.mapM ReviewItem.keyed = .ok keyed → keyed.map Prod.snd = listed := by
    intro listed
    induction listed with
    | nil =>
      intro keyed h
      cases h
      rfl
    | cons item listed ih =>
      intro keyed h
      cases keyed with
      | nil => exact absurd h Fallible.mapM_cons_ne_nil
      | cons k keyed =>
        obtain ⟨hk, hrest⟩ := Fallible.mapM_cons_eq_ok.mp h
        obtain ⟨t, -, rfl⟩ := Fallible.map_eq_ok.mp hk
        rw [List.map_cons, ih hrest]
  have hperm := (List.perm_insertionSort (fun a b : (ℕ ×ₗ ℚ) × ReviewItem => a.1 ≤ b.1) keyed)
  rw [← hfst hkeyed]
  exact hperm.map Prod.snd

namespace CaptureRow

variable {row : CaptureRow}

/-- Of the seven signals a row of the index can raise one. -/
theorem raised_queueRow : row.queueRow.raised =
    if row.label.any Json.truthy then [] else [Signal.missingLabel] := by
  cases h : row.label.any Json.truthy <;> simp [QueueRow.raised, queueRow, h]

theorem item_queueRow_eq_none_iff :
    row.queueRow.item = none ↔ row.label.any Json.truthy = true := by
  rw [QueueRow.item_eq_none_iff, raised_queueRow]
  split_ifs with h <;> simp [h]

/-- An item of the index cannot be ordered. -/
theorem not_returns_keyed {item : ReviewItem} (h : row.queueRow.item = some item) :
    ¬ Returns item.keyed := by
  obtain ⟨reason, -, rfl⟩ := Option.map_eq_some_iff.mp h
  exact Fallible.not_returns_error

end CaptureRow

/-- The queue over rows of the index is empty, or raises. -/
theorem reviewQueue_captures {rows : List CaptureRow} {limit : ℕ} {items : List ReviewItem} :
    reviewQueue (rows.map CaptureRow.queueRow) limit = .ok items ↔
      items = [] ∧ ∀ row ∈ rows, row.label.any Json.truthy = true := by
  constructor
  · intro h
    have hall : ∀ row ∈ rows, row.queueRow.item = none := by
      intro row hrow
      by_contra hne
      obtain ⟨item, hitem⟩ := Option.ne_none_iff_exists'.mp hne
      refine CaptureRow.not_returns_keyed hitem (returns_reviewQueue.mp ⟨items, h⟩ item ?_)
      exact List.mem_filterMap.mpr ⟨_, List.mem_map_of_mem hrow, hitem⟩
    have hnil : (rows.map CaptureRow.queueRow).filterMap QueueRow.item = [] := by
      rw [List.filterMap_map, List.filterMap_eq_nil_iff]
      exact hall
    obtain ⟨all, hperm, rfl⟩ := reviewQueue_ok h
    rw [hnil, List.perm_nil] at hperm
    rw [hperm]
    exact ⟨List.take_nil, fun row hrow => CaptureRow.item_queueRow_eq_none_iff.mp (hall row hrow)⟩
  · rintro ⟨rfl, hall⟩
    have hnil : (rows.map CaptureRow.queueRow).filterMap QueueRow.item = [] := by
      rw [List.filterMap_map, List.filterMap_eq_nil_iff]
      exact fun row hrow => CaptureRow.item_queueRow_eq_none_iff.mpr (hall row hrow)
    rw [reviewQueue, hnil]
    exact congrArg Except.ok List.take_nil

/-! ## The reads -/

namespace Tables

variable {x : Tables}

theorem mem_captureRowsFor {modality : Option String} {limit : ℕ} {row : CaptureRow}
    (h : row ∈ x.captureRowsFor modality limit) : ∃ c ∈ x.captures.items, row = x.captureRow c := by
  obtain ⟨c, hc, rfl⟩ := List.mem_map.mp (Newest.sorted_perm.mem_iff.mp (List.mem_of_mem_take h))
  exact ⟨c, (List.mem_filter.mp hc).1, rfl⟩

/-- With room for all, every capture is among them. -/
theorem captureRow_mem {limit : ℕ} (hlimit : x.captures.items.length ≤ limit) {c : String × Row}
    (hc : c ∈ x.captures.items) : x.captureRow c ∈ x.captureRowsFor none limit := by
  have hall : x.capturedRows none = x.captures.items.map x.captureRow :=
    congrArg (List.map x.captureRow) (List.filter_eq_self.mpr fun _ _ => rfl)
  have hsorted : (Newest.sorted CaptureRow.capturedAt (x.capturedRows none)).Perm _ :=
    Newest.sorted_perm
  have hlength : (Newest.sorted CaptureRow.capturedAt (x.capturedRows none)).length ≤ limit := by
    rw [hsorted.length_eq, hall, List.length_map]
    exact hlimit
  rw [captureRowsFor, List.take_of_length_le hlength, hsorted.mem_iff, hall]
  exact List.mem_map_of_mem hc

theorem label_of_predictionRows {limit : ℕ} {modality model : Option String} {row : ServedRow}
    (h : row ∈ x.predictionRows limit modality model) :
    row.label = x.labels.get? row.predictionId := by
  obtain ⟨p, -, rfl⟩ := List.mem_map.mp (Newest.sorted_perm.mem_iff.mp (List.mem_of_mem_take h))
  rfl

theorem unlabeled_eq_nil_iff :
    x.unlabeled = [] ↔ ∀ c ∈ x.captures.items, (x.labels.get? c.1).isSome = true := by
  rw [unlabeled, List.filter_eq_nil_iff]
  simp [Option.isSome_iff_ne_none]

end Tables

theorem labelStateOf_eq_labeled_iff {label : Option Label} :
    labelStateOf label = .labeled ↔ label.any Json.truthy = true := by
  rw [labelStateOf]
  split_ifs with h <;> simp [h]

/-! ## The four agree -/

/-- What is asked of the routes; the queue has room for every capture. -/
structure ReviewRequest (x : Tables) where
  queueLimit : ℕ
  queueLimit_le : queueLimit ≤ 500
  fits : x.captures.items.length ≤ queueLimit
  predictionLimit : ℕ
  predictionLimit_le : predictionLimit ≤ 200
  predictionModality : Option String
  predictionModel : Option String
  captureLimit : ℕ
  captureLimit_le : captureLimit ≤ 500
  captureModality : Option String

/-- The queue is the captures without a label row, newest first. -/
def QueueExact (x : Tables) (limit : ℕ) : Prop :=
  ∃ items, consoleReviewQueue x limit = .ok items ∧ items.length = x.unlabeledCount ∧
    ∃ listed : List (String × Row), listed.Perm x.unlabeled ∧
      (listed.Pairwise fun a b => b.2.capturedAt ≤ a.2.capturedAt) ∧
      items.map ReviewItem.predictionId = listed.map Prod.fst

/-- A row is labeled exactly if it has a label row. -/
def LabeledExact (x : Tables) (rows : List (String × LabelState)) : Prop :=
  ∀ r ∈ rows, r.2 = .labeled ↔ (x.labels.get? r.1).isSome = true

structure ReviewExact (x : Tables) (q : ReviewRequest x) : Prop where
  queue : QueueExact x q.queueLimit
  predictions : LabeledExact x ((consolePredictions x q.predictionLimit q.predictionModality
    q.predictionModel).map fun r => (r.id, r.labelState))
  captures : LabeledExact x ((consoleCaptures x q.captureModality q.captureLimit).map fun r =>
    (r.predictionId, r.labelState))

/-- The prediction has no label, or one that is truthy. -/
def Tables.Plain (x : Tables) (id : String) : Prop := (x.labels.get? id).all Json.truthy = true

theorem any_iff_isSome_of_all {label : Option Label} (h : label.all Json.truthy = true) :
    label.any Json.truthy = true ↔ label.isSome = true := by
  cases label with
  | none => simp
  | some v => simpa using h

/-- The queue is exact when every capture has a label, and a truthy one. -/
theorem queueExact_iff {x : Tables} {limit : ℕ} (hfits : x.captures.items.length ≤ limit) :
    QueueExact x limit ↔ ∀ c ∈ x.captures.items, (x.labels.get? c.1).any Json.truthy = true := by
  constructor
  · rintro ⟨items, hqueue, -⟩ c hc
    exact (reviewQueue_captures.mp hqueue).2 _ (Tables.captureRow_mem hfits hc)
  · intro h
    have hnil : x.unlabeled = [] := Tables.unlabeled_eq_nil_iff.mpr fun c hc => by
      obtain ⟨v, hv, -⟩ := (Option.any_eq_true _ _).mp (h c hc)
      rw [hv]
      rfl
    refine ⟨[], reviewQueue_captures.mpr ⟨rfl, fun row hrow => ?_⟩, ?_, [], ?_, .nil, rfl⟩
    · obtain ⟨c, hc, rfl⟩ := Tables.mem_captureRowsFor hrow
      exact h c hc
    · rw [Tables.unlabeledCount, hnil]
      rfl
    · rw [hnil]

theorem labeledExact_predictions_iff {x : Tables} {limit : ℕ} {modality model : Option String} :
    LabeledExact x ((consolePredictions x limit modality model).map fun r => (r.id, r.labelState)) ↔
      ∀ row ∈ x.predictionRows limit modality model, x.Plain row.predictionId := by
  simp only [LabeledExact, consolePredictions, List.map_map, List.forall_mem_map]
  refine forall₂_congr fun row hrow => ?_
  show (labelStateOf row.label = .labeled ↔ (x.labels.get? row.predictionId).isSome = true) ↔ _
  rw [labelStateOf_eq_labeled_iff, Tables.label_of_predictionRows hrow, Tables.Plain]
  cases x.labels.get? row.predictionId with
  | none => simp
  | some v => simp

theorem labeledExact_captures {x : Tables} {modality : Option String} {limit : ℕ}
    (h : ∀ c ∈ x.captures.items, x.Plain c.1) :
    LabeledExact x ((consoleCaptures x modality limit).map fun r =>
      (r.predictionId, r.labelState)) := by
  simp only [LabeledExact, consoleCaptures, List.map_map, List.forall_mem_map]
  intro row hrow
  obtain ⟨c, hc, rfl⟩ := Tables.mem_captureRowsFor hrow
  show labelStateOf (x.labels.get? c.1) = .labeled ↔ (x.labels.get? c.1).isSome = true
  rw [labelStateOf_eq_labeled_iff]
  exact any_iff_isSome_of_all (h c hc)

/-- They agree exactly if every capture has a label that is truthy and no prediction in
the answer has one that is not. -/
theorem reviewExact_iff (x : Tables) (q : ReviewRequest x) : ReviewExact x q ↔
    (∀ c ∈ x.captures.items, (x.labels.get? c.1).any Json.truthy = true) ∧
      ∀ row ∈ x.predictionRows q.predictionLimit q.predictionModality q.predictionModel,
        x.Plain row.predictionId := by
  constructor
  · intro h
    exact ⟨(queueExact_iff q.fits).mp h.queue, labeledExact_predictions_iff.mp h.predictions⟩
  · rintro ⟨hcaptures, hpredictions⟩
    refine ⟨(queueExact_iff q.fits).mpr hcaptures, labeledExact_predictions_iff.mpr hpredictions,
      labeledExact_captures fun c hc => ?_⟩
    obtain ⟨v, hv, htruthy⟩ := (Option.any_eq_true _ _).mp (hcaptures c hc)
    rw [Tables.Plain, hv]
    exact htruthy

/-- One capture, and no label. -/
def oneCapture : Tables where
  predictions := Dict.empty.insert "p" ⟨"m", "1", "asr", 5, some "predictions/p.json"⟩
  labels := .empty
  captures := Dict.empty.insert "p" ⟨"asr", "inputs/asr/p.json", 5⟩
  labels_of _ _ h := nomatch h
  labels_ne_null _ h := nomatch h

def oneCaptureAsked : ReviewRequest oneCapture where
  queueLimit := 100
  queueLimit_le := by decide
  fits := by decide
  predictionLimit := 50
  predictionLimit_le := by decide
  predictionModality := none
  predictionModel := none
  captureLimit := 100
  captureLimit_le := by decide
  captureModality := none

/-- The queue raises. -/
theorem oneCapture_raises :
    consoleReviewQueue oneCapture oneCaptureAsked.queueLimit = .error .badOperand ∧
      ¬ ReviewExact oneCapture oneCaptureAsked := by
  have hraises : consoleReviewQueue oneCapture oneCaptureAsked.queueLimit = .error .badOperand := rfl
  refine ⟨hraises, fun h => ?_⟩
  obtain ⟨items, hitems, -⟩ := h.queue
  rw [hraises] at hitems
  cases hitems

end MlopsLite.Gateway.Console
