import MlopsLite.Gateway.Outbox
import MlopsLite.Lib.Interleaving
import MlopsLite.PlatformLib.Metering.Writes

/-!
# Settlement — the log and the store

`settle`, `release` and `replay_outbox` (`gateway/app/metering.py`) as threads over the
settlement log and the metering store, whose calls run statement by statement. A thread may
die at any step; what the store has been asked goes on without it, or fails.
-/

namespace MlopsLite.Gateway.Settlement

open HostAgent.Frames (key)
open Outbox (FloatRepr PyFloat Record walAppend walAppendTo walEntries walCompact writeNumber)
open PlatformLib (CallId OpKey ReservationState StoreCall StoreChoice StorePc Window)
open Utf16Json (Units Doc)
open ChatStream (Loaded readNumber truthy)

/-! ## Calls -/

/-- GPU-seconds, as a float that is read back from its `repr`. -/
structure Seconds (repr : FloatRepr) where
  value : ℚ
  nonneg : 0 ≤ value
  back : readNumber (writeNumber repr (.float (.fin value))) = some (.float (.fin value))

/-- A call of `settle` or of `release`. -/
inductive Finish (repr : FloatRepr)
  | settle (op : OpKey) (actual : Seconds repr) (time : PyFloat repr)
  | release (op : OpKey) (time : PyFloat repr)

variable {repr : FloatRepr}

namespace Finish

def op : Finish repr → OpKey
  | settle op .. | release op .. => op

/-- The entry that is written. -/
def record : Finish repr → Record repr
  | settle op actual time => .settlement (key op) ⟨.fin actual.value, actual.back⟩ time
  | release op time => .release (key op) time

def storeCall : Finish repr → StoreCall
  | settle op actual _ => .settle op actual.value
  | release op _ => .release op

/-- What the operation is charged. -/
def charge : Finish repr → Option ℚ
  | settle _ actual _ => some actual.value
  | release .. => none

end Finish

/-- What `settle` returns says one of three things; `release` returns nothing. -/
inductive Result
  | settled
  | deferred
  | dropped
  | released
  deriving DecidableEq

/-- The store has answered with the reservation's state. -/
def Finish.result (state : Option ReservationState) : Finish repr → Result
  | .settle .. => if state = some .settled then .settled else .dropped
  | .release .. => .released

/-- An exception has been caught. -/
def Finish.deferred : Finish repr → Result
  | .settle .. => .deferred
  | .release .. => .released

/-- `float(e.get("gpu_seconds") or 0.0)`, of a number. -/
def secondsOf (members : List (Units × Doc Loaded)) : Option ℚ :=
  let v := ChatStream.get members "gpu_seconds"
  if truthy v then
    match Outbox.numeric v with
    | some (.fin q) => some q
    | _ => none
  else some 0

/-- The call of a replay for an entry; `none` says that it raises before there is one. -/
def request (members : List (Units × Doc Loaded)) : Option StoreCall :=
  match ChatStream.get members "op_id" with
  | .str s =>
    (Utf16Json.chars s).bind fun op =>
      if truthy (ChatStream.get members "release") then some (.release (String.ofList op))
      else (secondsOf members).map fun q => .settle (String.ofList op) q
  | _ => none

/-! ## Threads -/

/-- The log, the store with the calls it runs, and history: the calls of `settle` and
`release` there have been. -/
structure Shared (repr : FloatRepr) where
  log : List Char
  db : PlatformLib.Store.Sys
  finishes : List (Finish repr)

/-- Control points of `settle` and `release`, then of a replay; `since` is history: the calls
there had been when it read the log. -/
inductive Pc (repr : FloatRepr)
  | idle
  | begun (f : Finish repr)
  | waits (f : Finish repr) (c : CallId)
  | answered (f : Finish repr) (state : Option ReservationState)
  | returned (r : Result)
  | raised
  | replays (since : List (Finish repr)) (todo done : List (Doc Loaded)) (failed : ℕ)
  | asks (since : List (Finish repr)) (opId : Doc Loaded) (c : CallId)
      (todo done : List (Doc Loaded)) (failed : ℕ)
  | trims (since : List (Finish repr)) (done : List (Doc Loaded)) (failed : ℕ)
  | replayed (since : List (Finish repr)) (failed : ℕ)
  | broken
  | dead

/-- What a step leaves open: the call to make, an append that raises or dies with the thread
after `n` characters, the id a store call gets, a failure of the connection or of the
compaction, a step of the store. -/
inductive Choice (repr : FloatRepr)
  | finish (f : Finish repr)
  | cut (f : Finish repr) (n : ℕ) (dies : Bool)
  | replay
  | go (c : CallId)
  | fails
  | dies
  | store (c : CallId) (choice : StoreChoice)

namespace Shared

variable (x : Shared repr)

/-- A reservation is there, and neither `settle` nor `release` has been called for it. -/
def fresh (f : Finish repr) : Bool :=
  !f.op.isEmpty && (x.db.shared.reservations.get? f.op).isSome &&
    x.finishes.all fun g => g.op ≠ f.op

variable (trunc : Window → PlatformLib.Time → PlatformLib.Time)

/-- The store is called. -/
def call (c : CallId) (q : StoreCall) : Option (Shared repr) :=
  (PlatformLib.Store.next trunc x.db (c, .call q)).map fun db => { x with db := db }

/-- A step of the store that is not the begin of a settle or a release. -/
def store (c : CallId) : StoreChoice → Option (Shared repr)
  | .call (.settle ..) | .call (.release _) => none
  | choice => (PlatformLib.Store.next trunc x.db (c, choice)).map fun db => { x with db := db }

end Shared

/-- The next step of `replay_outbox` at an entry. -/
def replayEntry (trunc : Window → PlatformLib.Time → PlatformLib.Time) (x : Shared repr)
    (since : List (Finish repr)) (todo done : List (Doc Loaded)) (failed : ℕ) :
    Doc Loaded → Choice repr → Option (Shared repr × Pc repr)
  | .obj members, choice =>
    let opId := ChatStream.get members "op_id"
    if truthy opId then
      match choice, request members with
      | .go c, some q => (x.call trunc c q).map fun x => (x, .asks since opId c todo done failed)
      | .go _, none | .fails, _ => some (x, .replays since todo done (failed + 1))
      | _, _ => none
    else some (x, .replays since todo done failed)
  | _, _ => some (x, .broken)

def advance (trunc : Window → PlatformLib.Time → PlatformLib.Time) :
    Interleaving.Program ℕ (Shared repr) (Pc repr) (Choice repr) :=
  fun _ choice x pc =>
    match pc, choice with
    | _, .dies => some (x, .dead)
    | .idle, .finish f =>
        if x.fresh f then
          some ({ x with log := walAppend repr x.log f.record, finishes := x.finishes ++ [f] },
            .begun f)
        else none
    | .idle, .cut f n dies =>
        if x.fresh f then
          some ({ x with log := walAppendTo repr n x.log f.record, finishes := x.finishes ++ [f] },
            if dies then .dead else .raised)
        else none
    | .idle, .replay => some (x, .replays x.finishes (walEntries x.log) [] 0)
    | .idle, .store c choice => (x.store trunc c choice).map fun x => (x, .idle)
    | .begun f, .go c => (x.call trunc c f.storeCall).map fun x => (x, .waits f c)
    | .begun f, .fails => some (x, .returned f.deferred)
    | .waits f c, .go _ =>
        match x.db.pc c with
        | .finished state => some (x, .answered f state)
        | .raised => some (x, .returned f.deferred)
        | _ => none
    | .answered f state, .go _ =>
        match walCompact repr [.str (key f.op)] x.log with
        | some log => some ({ x with log := log }, .returned (f.result state))
        | none => some (x, .returned f.deferred)
    | .answered f _, .fails => some (x, .returned f.deferred)
    | .replays since [] done failed, .go _ =>
        some (x, if done.isEmpty then .replayed since failed else .trims since done failed)
    | .replays since (e :: todo) done failed, choice =>
        replayEntry trunc x since todo done failed e choice
    | .asks since opId c todo done failed, .go _ =>
        match x.db.pc c with
        | .finished _ => some (x, .replays since todo (opId :: done) failed)
        | .raised => some (x, .replays since todo done (failed + 1))
        | _ => none
    | .trims since done failed, .go _ =>
        match walCompact repr done x.log with
        | some log => some ({ x with log := log }, .replayed since failed)
        | none => some (x, .broken)
    | .trims .., .fails => some (x, .broken)
    | _, _ => none

abbrev Sys (repr : FloatRepr) := Interleaving.State ℕ (Shared repr) (Pc repr)

abbrev next (trunc : Window → PlatformLib.Time → PlatformLib.Time) :
    Sys repr → ℕ × Choice repr → Option (Sys repr) :=
  Interleaving.next (advance trunc)

def Sys.init (repr : FloatRepr) : Sys repr := ⟨⟨[], PlatformLib.Store.Sys.init, []⟩, fun _ => .idle⟩

/-! ## What is promised -/

/-- No call raises; the row of an operation has the seconds it was settled with; once a replay
that began behind a call of `settle` has ended without a failure, the row is there, unless
the reservation has been released. -/
structure SettledOnce (s : Sys repr) : Prop where
  returns : ∀ t, s.pc t ≠ .raised
  charged : ∀ f ∈ s.shared.finishes, ∀ l, s.shared.db.shared.ledger.get? f.op = some l →
    f.charge = some l.gpuSeconds
  settled : ∀ t since, s.pc t = .replayed since 0 → ∀ f ∈ since, ∀ q, f.charge = some q →
    (∃ l, s.shared.db.shared.ledger.get? f.op = some l ∧ l.gpuSeconds = q) ∨
      ∃ r, s.shared.db.shared.reservations.get? f.op = some r ∧ r.state = .released

def Choice.cuts : Choice repr → Bool
  | .cut .. => true
  | _ => false

/-- An append to the log returns. -/
def Appends (_ : Sys repr) (a : ℕ × Choice repr) : Prop := a.2.cuts = false

instance (s : Sys repr) (a : ℕ × Choice repr) : Decidable (Appends s a) :=
  inferInstanceAs (Decidable (_ = _))

end MlopsLite.Gateway.Settlement
