import MlopsLite.Lib.Dict

/-!
# Activation — the durable operations and the pointer

The rows of `activation_operations` (`002_activation.sql`,
`platformlib/storeimpl/activations.py`) and the one row of `serving_llm`.
Every transition of an operation is a compare-and-set on its state (`cas`);
the index `one_nonterminal_activation` admits one operation that is not
terminal (`create`).
-/

namespace MlopsLite.Gateway

abbrev OperationId := String

/-- Seconds since the epoch. -/
abbrev Epoch := ℚ

inductive ActivationState
  | prepared
  | committing
  | reloading
  | rollingBack
  | active
  | rolledBack
  | degraded
  deriving DecidableEq, Repr

/-- `ACTIVATION_NONTERMINAL`. -/
def ActivationState.nonterminal : ActivationState → Bool
  | .prepared | .committing | .reloading | .rollingBack => true
  | .active | .rolledBack | .degraded => false

/-- A row of `activation_operations`, under its `operation_id`. -/
structure Activation where
  idempotencyKey : String
  state : ActivationState
  actor : String
  targetModel : String
  targetVersion : String
  previousModel : Option String
  previousVersion : Option String
  attempts : ℕ
  lastErrorCode : Option String
  lastError : Option String
  requiresPreemption : Bool
  deriving DecidableEq

/-- The row of `serving_llm`. -/
structure ServingLlm where
  modelName : String
  selectedAt : Epoch
  selectedBy : String
  deriving DecidableEq

/-- What the gateway's database holds; the newest operation is last. -/
structure Stores where
  operations : Dict OperationId Activation
  pointer : Option ServingLlm

/-- What an operation is submitted with. -/
structure NewActivation where
  idempotencyKey : String
  actor : String
  targetModel : String
  targetVersion : String
  previousModel : Option String
  previousVersion : Option String
  requiresPreemption : Bool
  deriving DecidableEq

/-- What the INSERT raises: `ActivationConflict`, or another error of the
database. -/
inductive CreateError
  | conflict
  | database
  deriving DecidableEq, Repr

def NewActivation.row (n : NewActivation) : Activation :=
  { idempotencyKey := n.idempotencyKey, state := .prepared, actor := n.actor,
    targetModel := n.targetModel, targetVersion := n.targetVersion,
    previousModel := n.previousModel, previousVersion := n.previousVersion, attempts := 0,
    lastErrorCode := none, lastError := none, requiresPreemption := n.requiresPreemption }

/-- The CHECKs of the table. -/
def NewActivation.valid (n : NewActivation) : Bool :=
  n.actor ≠ "" && n.targetModel ≠ "" && n.targetVersion ≠ "" &&
    (n.previousVersion.isNone || n.previousModel.isSome)

/-- What a compare-and-set writes beside the state. -/
structure Transition where
  state : ActivationState
  errorCode : Option String
  error : Option String
  bump : Bool
  deriving DecidableEq

/-- `text[:n]`. -/
def clip (n : ℕ) (text : String) : String := (text.take n).toString

/-- `(error or "")[:500] or None`. -/
def storedError (error : Option String) : Option String :=
  let text := clip 500 (error.getD "")
  if text = "" then none else some text

def Transition.apply (t : Transition) (op : Activation) : Activation :=
  { op with
    state := t.state
    lastErrorCode := t.errorCode
    lastError := storedError t.error
    attempts := op.attempts + if t.bump then 1 else 0 }

namespace Stores

def init : Stores := ⟨.empty, none⟩

/-- The index `one_nonterminal_activation` has its entry. -/
def occupied (x : Stores) : Bool := x.operations.values.any fun op => op.state.nonterminal

/-- `create_activation`. -/
def create (x : Stores) (id : OperationId) (n : NewActivation) :
    Except CreateError (Stores × Activation) :=
  if !n.valid then .error .database
  else if x.occupied || (x.operations.get? id).isSome then .error .conflict
  else .ok ({ x with operations := x.operations.insert id n.row }, n.row)

/-- `find_activation_by_key`: one that is not terminal first, then the newest. -/
def findByKey (x : Stores) (key : String) : Option (OperationId × Activation) :=
  let rows := x.operations.items.reverse.filter fun kv => kv.2.idempotencyKey = key
  (rows.find? fun kv => kv.2.state.nonterminal) <|> rows.head?

/-- `cas_activation`. -/
def cas (x : Stores) (id : OperationId) (expect : ActivationState) (t : Transition) :
    Stores × Option Activation :=
  match x.operations.get? id with
  | none => (x, none)
  | some op =>
      if op.state = expect then
        ({ x with operations := x.operations.insert id (t.apply op) }, some (t.apply op))
      else (x, none)

variable {x x' : Stores} {id k : OperationId} {e : ActivationState} {t : Transition}

/-- A compare-and-set moved its row, or left the table as it was. -/
theorem cas_cases (x : Stores) (id : OperationId) (e : ActivationState) (t : Transition) :
    (x.cas id e t = (x, none)) ∨
      ∃ op, x.operations.get? id = some op ∧ op.state = e ∧
        x.cas id e t =
          ({ x with operations := x.operations.insert id (t.apply op) }, some (t.apply op)) := by
  unfold cas
  cases hop : x.operations.get? id with
  | none => exact .inl rfl
  | some op =>
    by_cases he : op.state = e
    · exact .inr ⟨op, rfl, he, by simp [he]⟩
    · exact .inl (by simp [he])

theorem occupied_iff :
    x.occupied = true ↔ ∃ id op, x.operations.get? id = some op ∧ op.state.nonterminal = true := by
  simp only [occupied, List.any_eq_true, Dict.mem_values]
  constructor
  · rintro ⟨op, ⟨id, hop⟩, hlive⟩
    exact ⟨id, op, hop, hlive⟩
  · rintro ⟨id, op, hop, hlive⟩
    exact ⟨op, ⟨id, hop⟩, hlive⟩

end Stores

end MlopsLite.Gateway
