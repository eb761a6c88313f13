import MlopsLite.Lib.Dict
import MlopsLite.Lib.Interleaving
import MlopsLite.Gateway.Quality.Inputs

/-!
# Quality — capturing inputs

`capture_input` and `_prune_inputs` (`gateway/app/quality.py`) over the
repository in `platformlib/storeimpl/capture.py`. A capture is a thread of its
own: it writes a body to one store, its row to the other, and prunes its
modality. Each of these may fail, and the thread goes on as far as the code
does.
-/

namespace MlopsLite.Gateway.Quality

abbrev ThreadId := ℕ

/-- The record of a captured input, without the input and its options. -/
structure Capture where
  predictionId : String
  modality : String
  ts : Time
  deriving DecidableEq

/-- A row of `capture_index`, under its `prediction_id`. -/
structure Row where
  modality : String
  inputRef : String
  capturedAt : Time
  deriving DecidableEq

namespace Capture

def ref (c : Capture) : String := inputKey c.modality c.predictionId c.ts

def row (c : Capture) : Row := ⟨c.modality, c.ref, c.ts⟩

/-- The row with its key. -/
def entry (c : Capture) : String × Row := (c.predictionId, c.row)

theorem entry_injective : Function.Injective entry := by
  intro c d h
  obtain ⟨hid, hrow⟩ := Prod.mk.inj h
  obtain ⟨hm, -, hts⟩ := Row.mk.inj hrow
  cases c
  cases d
  cases hid
  cases hm
  cases hts
  rfl

end Capture

/-- The object store and the index. The rest is history: the captures begun,
those that got a row, and the latest time a prune has read. -/
structure Stores where
  bodies : Dict String Capture
  index : Dict String Row
  made : List Capture
  indexed : List Capture
  clock : Time

/-- What a prune has read; `clean` is history: none of its deletes has failed. -/
structure Sweep where
  rows : List (String × Row)
  now : Time
  clean : Bool

/-- Where the thread of a capture stands: before the body, before the row,
before the rows are read, before the clock is, before the row and before the
body of the next one to go. -/
inductive Pc
  | idle
  | putting (c : Capture)
  | indexing (c : Capture)
  | reading (c : Capture)
  | timing (c : Capture) (rows : List (String × Row))
  | sweeping (c : Capture) (w : Sweep) (todo : List String)
  | erasing (c : Capture) (w : Sweep) (ref : String) (rest : List String)

/-- What a step leaves open. `fails`: the call raises, done or not; `noConn`:
`_conn()` is None; `read`: the rows, in any order. -/
inductive Choice
  | call (predictionId modality : String) (ts : Time)
  | go
  | read (rows : List (String × Row))
  | look (now : Time)
  | fails (done : Bool)
  | noConn

/-! ## The stores -/

namespace Stores

variable (x : Stores)

def begin (c : Capture) : Stores := { x with made := x.made ++ [c] }

def put (c : Capture) : Stores := { x with bodies := x.bodies.insert c.ref c }

/-- `INSERT … ON CONFLICT (prediction_id) DO NOTHING`. -/
def captureInput (c : Capture) : Stores :=
  if (x.index.get? c.predictionId).isSome then x
  else { x with index := x.index.insert c.predictionId c.row, indexed := x.indexed ++ [c] }

def captureRows (modality : String) : List (String × Row) :=
  x.index.items.filter fun r => r.2.modality = modality

def look (now : Time) : Stores := { x with clock := max x.clock now }

/-- `if pid:` and the delete. -/
def deleteCapture (id : Option String) : Stores :=
  match id with
  | none => x
  | some id => if id = "" then x else { x with index := x.index.erase id }

def deleteObject (ref : String) : Stores := { x with bodies := x.bodies.erase ref }

end Stores

namespace Sweep

variable (cfg : Config) (w : Sweep)

def records : List (String × Time) := w.rows.map fun r => (r.2.inputRef, r.2.capturedAt)

/-- The keys to delete. -/
def taken : List String := inputsToPrune cfg w.records w.now

/-- `by_ref`: the last row of a reference. -/
def byRef (ref : String) : Option String :=
  (w.rows.reverse.find? fun r => r.2.inputRef = ref).map Prod.fst

def failed : Sweep := { w with clean := false }

end Sweep

/-! ## The threads -/

def advance (cfg : Config) : Interleaving.Program ThreadId Stores Pc Choice := fun _ ch x k =>
  match k, ch with
  | .idle, .call id modality ts =>
      if normalizeModality modality ∈ shadowModalities then
        let c : Capture := ⟨id, normalizeModality modality, ts⟩
        some (x.begin c, .putting c)
      else some (x, .idle)
  | .putting c, .go => some (x.put c, .indexing c)
  -- counted as dropped, and the row is written all the same
  | .putting c, .fails done => some (if done then x.put c else x, .indexing c)
  | .indexing c, .go => some (x.captureInput c, .reading c)
  | .indexing c, .noConn => some (x, .reading c)
  | .indexing c, .fails done => some (if done then x.captureInput c else x, .idle)
  | .reading c, .read rows =>
      if rows.Perm (x.captureRows c.modality) then some (x, .timing c rows) else none
  | .reading _, .noConn | .reading _, .fails _ | .timing _ _, .fails _ => some (x, .idle)
  | .timing c rows, .look now =>
      let w : Sweep := ⟨rows, now, true⟩
      some (x.look now, .sweeping c w (w.taken cfg))
  | .sweeping _ _ [], .go => some (x, .idle)
  | .sweeping c w (ref :: rest), .go => some (x.deleteCapture (w.byRef ref), .erasing c w ref rest)
  | .sweeping c w (ref :: rest), .fails done =>
      some (if done then x.deleteCapture (w.byRef ref) else x, .erasing c w.failed ref rest)
  | .erasing c w ref rest, .go => some (x.deleteObject ref, .sweeping c w rest)
  | .erasing c w ref rest, .fails done =>
      some (if done then x.deleteObject ref else x, .sweeping c w.failed rest)
  | _, _ => none

abbrev Sys := Interleaving.State ThreadId Stores Pc

abbrev Act := ThreadId × Choice

abbrev next (cfg : Config) : Sys → Act → Option Sys := Interleaving.next (advance cfg)

def Sys.init : Sys := ⟨⟨.empty, .empty, [], [], 0⟩, fun _ => .idle⟩

namespace Pc

/-- The capture of a thread that has not ended. -/
def capture? : Pc → Option Capture
  | .idle => none
  | .putting c | .indexing c | .reading c | .timing c _ | .sweeping c _ _
  | .erasing c _ _ _ => some c

/-- It has no row yet. -/
def fresh? : Pc → Option Capture
  | .putting c | .indexing c => some c
  | _ => none

/-- The rows of a prune, with its modality. -/
def rows? : Pc → Option (String × List (String × Row))
  | .timing c rows => some (c.modality, rows)
  | .sweeping c w _ | .erasing c w _ _ => some (c.modality, w.rows)
  | _ => none

/-- A prune and what it has still to take. -/
def sweep? : Pc → Option (Sweep × List String)
  | .sweeping _ w todo => some (w, todo)
  | .erasing _ w ref rest => some (w, ref :: rest)
  | _ => none

end Pc

/-! ## What is asked -/

/-- No capture had this id, and none of the modality this time. -/
def Unused (x : Stores) (c : Capture) : Prop :=
  ∀ d ∈ x.made, c.predictionId ≠ d.predictionId ∧ (c.modality = d.modality → c.ts ≠ d.ts)

instance (x : Stores) (c : Capture) : Decidable (Unused x c) :=
  inferInstanceAs (Decidable (∀ d ∈ x.made, _))

/-- A capture is new; a body that was written gets its row; and a body delete
fails only while the row is there. -/
def Keeps (s : Sys) (a : Act) : Prop :=
  match s.pc a.1, a.2 with
  | .idle, .call id modality ts => Unused s.shared ⟨id, normalizeModality modality, ts⟩
  | .indexing c, .noConn | .indexing c, .fails false => s.shared.bodies.get? c.ref = none
  | .erasing _ w ref _, .fails false =>
      (w.byRef ref).any (fun id => (s.shared.index.get? id).isSome) = true
  | _, _ => True

instance (s : Sys) (a : Act) : Decidable (Keeps s a) := by
  unfold Keeps
  exact Interleaving.pointwise (s.pc a.1) a.2 fun pc c => by split <;> infer_instance

end MlopsLite.Gateway.Quality
