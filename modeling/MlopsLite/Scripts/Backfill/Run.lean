import MlopsLite.Lib.Raising
import MlopsLite.Scripts.Backfill.Guards
import MlopsLite.Scripts.Backfill.Journal

/-!
# Run — `backfill_all`

Eight functions of `scripts/backfill_store.py`, one behind the other, each with the
objects of a prefix or the records of the journal. What becomes of an item's statements is
the environment's: a statement may fail, a write may be committed and its answer lost, and
the run may be killed in front of an item. A run keeps what it wrote.
-/

namespace MlopsLite.Scripts.Backfill

variable {ν τ : Type}

/-- What the run reads: the objects in the order of their listing, a body being `none`
where it is no JSON, and the journal, if there is one. -/
structure Source (ν : Type) where
  bucket : List (String × Option (Json ν))
  journal : Option (List (Line ν))

inductive Fate
  | fine
  | refused
  | lost
  | killed
  deriving DecidableEq

inductive Stop
  | killed
  | journal

/-- `clock` counts the items. -/
structure World (ν τ : Type) where
  db : Database ν τ
  clock : ℕ

structure Counts where
  scanned : ℕ
  inserted : ℕ
  skipped : ℕ
  errors : ℕ
  deriving DecidableEq

namespace Counts

/-- `_counts`. -/
def zero : Counts := ⟨0, 0, 0, 0⟩

def scan (c : Counts) : Counts := { c with scanned := c.scanned + 1 }

def insert (c : Counts) : Counts := { c with inserted := c.inserted + 1 }

def skip (c : Counts) : Counts := { c with skipped := c.skipped + 1 }

def err (c : Counts) : Counts := { c with errors := c.errors + 1 }

end Counts

def listKeys (src : Source ν) (pre : String) : List (String × Option (Json ν)) :=
  src.bucket.filter fun o => pre.toList.isPrefixOf o.1.toList

def predictionItems (src : Source ν) : List (Item ν) :=
  (listKeys src "predictions/").map fun o => .prediction o.1 o.2

def labelItems (src : Source ν) : List (Item ν) :=
  (listKeys src "labels/").map fun o => .label o.2

def captureItems (src : Source ν) : List (Item ν) :=
  (listKeys src "inputs/").map fun o => .capture o.1 o.2

/-- The prefixes of the columns stand below the one of the policies. -/
def policyItems (src : Source ν) : List (Item ν) :=
  ((listKeys src policyPrefix).filter fun o =>
    !(pendingPrefix.toList.isPrefixOf o.1.toList || statusPrefix.toList.isPrefixOf o.1.toList)).map
      fun o => .policy o.1 o.2

def pendingItems (src : Source ν) : List (Item ν) :=
  (listKeys src pendingPrefix).map fun o => .pending o.1 o.2

def statusItems (src : Source ν) : List (Item ν) :=
  (listKeys src statusPrefix).map fun o => .status o.1 o.2

def suggestionItems (src : Source ν) : List (Item ν) :=
  (listKeys src "suggestions/").map fun o => .suggestion o.2

section

variable [Zero ν] [One ν] [DecidableEq ν] (d : Driver ν τ) (env : ℕ → Fate)

/-- `none` says that the journal cannot be folded. -/
def jobItems (src : Source ν) : Option (List (Item ν)) :=
  match src.journal with
  | none => some []
  | some lines => (foldJournal d lines).map fun jobs => jobs.values.map .job

open Raising

/-- One pass of a loop. -/
def pass (i : Item ν) (c : Counts) : Raising (World ν τ) Stop Counts := fun w =>
  match env w.clock with
  | .killed => (.error .killed, w)
  | .refused => (.ok c.scan.err, ⟨w.db, w.clock + 1⟩)
  | .lost =>
    match i.step d w.db with
    | none => (.ok c.scan.err, ⟨w.db, w.clock + 1⟩)
    | some (_, db) => (.ok c.scan.err, ⟨db, w.clock + 1⟩)
  | .fine =>
    match i.step d w.db with
    | none => (.ok c.scan.err, ⟨w.db, w.clock + 1⟩)
    | some (.inserted, db) => (.ok c.scan.insert, ⟨db, w.clock + 1⟩)
    | some (.skipped, db) => (.ok c.scan.skip, ⟨db, w.clock + 1⟩)

def scan : List (Item ν) → Counts → Raising (World ν τ) Stop Counts
  | [], c => pure c
  | i :: items, c => do
    let c ← pass d env i c
    scan items c

/-- The shape of the eight functions. -/
def backfill : Option (List (Item ν)) → Raising (World ν τ) Stop Counts
  | some items => scan d env items .zero
  | none => raise .journal

def backfillPredictions (src : Source ν) := backfill d env (some (predictionItems src))

def backfillLabels (src : Source ν) := backfill d env (some (labelItems src))

def backfillCapture (src : Source ν) := backfill d env (some (captureItems src))

def backfillPolicies (src : Source ν) := backfill d env (some (policyItems src))

/-- `_backfill_column`, of `pending`. -/
def backfillPending (src : Source ν) := backfill d env (some (pendingItems src))

/-- `_backfill_column`, of `status`. -/
def backfillStatus (src : Source ν) := backfill d env (some (statusItems src))

def backfillSuggestions (src : Source ν) := backfill d env (some (suggestionItems src))

def backfillJobs (src : Source ν) := backfill d env (jobItems d src)

abbrev Report := List (String × Counts)

/-- A dict display: its values in order. -/
def report : List (String × Raising (World ν τ) Stop Counts) → Raising (World ν τ) Stop Report
  | [] => pure []
  | (table, counts) :: rest => do
    let c ← counts
    let others ← report rest
    return (table, c) :: others

def backfillAll (src : Source ν) : Raising (World ν τ) Stop Report :=
  report [("predictions", backfillPredictions d env src), ("labels", backfillLabels d env src),
    ("capture", backfillCapture d env src), ("policies", backfillPolicies d env src),
    ("pending", backfillPending d env src), ("status", backfillStatus d env src),
    ("suggestions", backfillSuggestions d env src), ("jobs", backfillJobs d env src)]

/-- The tables in their order, and the items of each. -/
def tables (src : Source ν) : List (String × Option (List (Item ν))) :=
  [("predictions", some (predictionItems src)), ("labels", some (labelItems src)),
    ("capture", some (captureItems src)), ("policies", some (policyItems src)),
    ("pending", some (pendingItems src)), ("status", some (statusItems src)),
    ("suggestions", some (suggestionItems src)), ("jobs", jobItems d src)]

theorem backfillAll_eq (src : Source ν) :
    (backfillAll d env src : Raising (World ν τ) Stop Report) =
    report ((tables d src).map fun t => (t.1, backfill d env t.2)) := rfl

end

/-! ## The order of the tables -/

/-- The place of a cell's table. -/
def Cell.rank : Cell → ℕ
  | .prediction _ => 0
  | .label _ => 1
  | .capture _ => 2
  | .policy _ => 3
  | .pending _ => 4
  | .status _ => 5
  | .suggestion _ => 6
  | .job _ => 7

def Item.rank : Item ν → ℕ
  | .prediction _ _ => 0
  | .label _ => 1
  | .capture _ _ => 2
  | .policy _ _ => 3
  | .pending _ _ => 4
  | .status _ _ => 5
  | .suggestion _ => 6
  | .job _ => 7

section

variable {d : Driver ν τ} {o : Offer ν τ}

theorem rank_of_rowOffer {ρ : Type} {cell : String → Cell} {content : ρ → Content ν τ}
    {key : Json ν} {row : Option ρ} (h : rowOffer d cell content key row = some o) :
    ∃ id, o.cell = cell id ∧ o.needs = [] := by
  obtain ⟨id, -, h⟩ := Option.bind_eq_some_iff.mp h
  obtain ⟨row, -, h⟩ := Option.bind_eq_some_iff.mp h
  cases h
  exact ⟨id, rfl, rfl⟩

theorem rank_of_columnOffer {cell : String → Cell} {model : String} {body : Option (Json ν)}
    (h : columnOffer d cell model body = some o) :
    ∃ id, o.cell = cell id ∧ o.needs = [.policy id] := by
  obtain ⟨id, -, h⟩ := Option.bind_eq_some_iff.mp h
  obtain ⟨value, -, h⟩ := Option.bind_eq_some_iff.mp h
  cases h
  exact ⟨id, rfl, rfl⟩

/-- An item fills a cell of its own table, and needs one of a table in front of it. -/
theorem rank_of_offer [Zero ν] [DecidableEq ν] {i : Item ν} (h : i.offer d = some o) :
    o.cell.rank = i.rank ∧ ∀ n ∈ o.needs, n.rank < i.rank := by
  cases i with
  | prediction key body =>
    obtain ⟨rec, -, h⟩ := Option.bind_eq_some_iff.mp h
    obtain ⟨pid, -, h⟩ := Option.bind_eq_some_iff.mp h
    obtain ⟨id, hcell, hneeds⟩ := rank_of_rowOffer h
    exact ⟨by rw [hcell]; rfl, by simp [hneeds]⟩
  | label body =>
    obtain ⟨rec, -, h⟩ := Option.bind_eq_some_iff.mp h
    obtain ⟨id, -, h⟩ := Option.bind_eq_some_iff.mp h
    obtain ⟨label, -, h⟩ := Option.bind_eq_some_iff.mp h
    obtain ⟨submittedAt, -, h⟩ := Option.bind_eq_some_iff.mp h
    cases h
    exact ⟨rfl, by simp [Cell.rank, Item.rank]⟩
  | capture key body =>
    obtain ⟨rec, -, h⟩ := Option.bind_eq_some_iff.mp h
    obtain ⟨pid, -, h⟩ := Option.bind_eq_some_iff.mp h
    obtain ⟨id, hcell, hneeds⟩ := rank_of_rowOffer h
    exact ⟨by rw [hcell]; rfl, by simp [hneeds]⟩
  | policy key body =>
    obtain ⟨doc, -, h⟩ := Option.bind_eq_some_iff.mp h
    obtain ⟨model, -, h⟩ := Option.bind_eq_some_iff.mp h
    obtain ⟨id, -, h⟩ := Option.bind_eq_some_iff.mp h
    obtain ⟨document, -, h⟩ := Option.bind_eq_some_iff.mp h
    obtain ⟨updatedAt, -, h⟩ := Option.bind_eq_some_iff.mp h
    obtain ⟨updatedBy, -, h⟩ := Option.bind_eq_some_iff.mp h
    cases h
    exact ⟨rfl, by simp⟩
  | pending key body =>
    obtain ⟨id, hcell, hneeds⟩ := rank_of_columnOffer h
    exact ⟨by rw [hcell]; rfl, by simp [hneeds, Cell.rank, Item.rank]⟩
  | status key body =>
    obtain ⟨id, hcell, hneeds⟩ := rank_of_columnOffer h
    exact ⟨by rw [hcell]; rfl, by simp [hneeds, Cell.rank, Item.rank]⟩
  | suggestion body =>
    obtain ⟨rec, -, h⟩ := Option.bind_eq_some_iff.mp h
    obtain ⟨sid, -, h⟩ := Option.bind_eq_some_iff.mp h
    obtain ⟨id, hcell, hneeds⟩ := rank_of_rowOffer h
    exact ⟨by rw [hcell]; rfl, by simp [hneeds]⟩
  | job rec =>
    obtain ⟨split, -, h⟩ := Option.bind_eq_some_iff.mp h
    obtain ⟨id, -, h⟩ := Option.bind_eq_some_iff.mp h
    cases h
    exact ⟨rfl, by simp⟩

end

end MlopsLite.Scripts.Backfill
