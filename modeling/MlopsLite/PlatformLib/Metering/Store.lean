import MlopsLite.Lib.Dict
import MlopsLite.Lib.RowLocks

/-!
# Metering — the store

Reserve, settle, release and the stale sweep
(`platformlib/storeimpl/metering.py`) and `set_quota`
(`platformlib/storeimpl/tenancy.py`) as concurrent calls on the tables of
`003_broker.sql`, under READ COMMITTED: a step is one statement or a commit,
it reads what is committed, and it waits for the rows it locks. What a
transaction has written and not committed stands in its control point.
GPU-seconds are exact numbers.
-/

namespace MlopsLite.PlatformLib

abbrev TenantId := String
abbrev OpKey := String
abbrev CallId := Nat
/-- A `timestamptz`. -/
abbrev Time := ℚ

/-! ## Tables -/

inductive UsageKind
  | inference
  | job
  | session
  deriving DecidableEq, Repr

inductive Window
  | daily
  | weekly
  | monthly
  deriving DecidableEq, Repr

structure Quota where
  window : Window
  budgetGpuSeconds : ℚ

inductive ReservationState
  | reserved
  | settled
  | released
  deriving DecidableEq, Repr

/-- A row of `usage_reservation`, under its `op_id`. -/
structure UsageReservation where
  tenantId : TenantId
  kind : UsageKind
  modality : String
  windowStart : Time
  estGpuSeconds : ℚ
  settledGpuSeconds : Option ℚ
  state : ReservationState
  createdAt : Time
  deriving DecidableEq

/-- A row of `usage_ledger`, under its `ref_id`. -/
structure LedgerRow where
  tenantId : TenantId
  kind : UsageKind
  modality : String
  gpuSeconds : ℚ
  windowStart : Time
  deriving DecidableEq

/-- What a transaction locks: a row, or a key of a unique index. -/
inductive Row
  | quota (tenant : TenantId)
  | reservation (op : OpKey)
  | ledger (op : OpKey)
  deriving DecidableEq

structure Store where
  quotas : Dict TenantId Quota
  reservations : Dict OpKey UsageReservation
  ledger : Dict OpKey LedgerRow
  locks : RowLocks.Table Row CallId

namespace Store

/-- The schema as migrated: no rows, no locks. -/
def init : Store := ⟨.empty, .empty, .empty, fun _ => none⟩

/-- `sum(gpu_seconds)` over a tenant's rows bearing a window. -/
def settledSeconds (x : Store) (tenant : TenantId) (windowStart : Time) : ℚ :=
  x.ledger.total fun _ r =>
    if r.tenantId = tenant ∧ r.windowStart = windowStart then r.gpuSeconds else 0

/-- `sum(est_gpu_seconds)` over the outstanding ones. -/
def outstandingSeconds (x : Store) (tenant : TenantId) (windowStart : Time) : ℚ :=
  x.reservations.total fun _ r =>
    if r.tenantId = tenant ∧ r.windowStart = windowStart ∧ r.state = .reserved
    then r.estGpuSeconds else 0

def consumed (x : Store) (tenant : TenantId) (windowStart : Time) : ℚ :=
  x.settledSeconds tenant windowStart + x.outstandingSeconds tenant windowStart

/-- `state = 'released'`, charging nothing. -/
def released (r : UsageReservation) : UsageReservation :=
  { r with state := .released, settledGpuSeconds := some 0 }

def settled (actual : ℚ) (r : UsageReservation) : UsageReservation :=
  { r with state := .settled, settledGpuSeconds := some actual }

/-- `WHERE op_id = … AND state = 'reserved'`. -/
def isReserved (x : Store) (op : OpKey) : Bool :=
  (x.reservations.get? op).any fun r => r.state = .reserved

end Store

/-! ## Calls -/

structure ReserveRequest where
  op : OpKey
  tenant : TenantId
  est : ℚ
  kind : UsageKind
  modality : String
  defaultBudget : Option ℚ
  deriving DecidableEq

inductive StoreCall
  | reserve (q : ReserveRequest)
  | settle (op : OpKey) (actual : ℚ)
  | release (op : OpKey)
  | sweep (kind : UsageKind) (olderThan : ℚ)
  | setQuota (tenant : TenantId) (window : Window) (budget : ℚ)
  deriving DecidableEq

/-- What a step leaves open: the call to make, the clock of the database, a
failure of the statement or of its connection. -/
inductive StoreChoice
  | call (c : StoreCall)
  | go
  | now (at' : Time)
  | fails

/-- What a reserve transaction has read: whether it locked a quota row, its
`now()` with the window that starts it, and the budget. -/
structure Authority where
  locked : Bool
  now : Time
  windowStart : Time
  budget : Option ℚ
  deriving DecidableEq

/-- Control points. `inserted` and `updated` say what the statements of the
transaction wrote. -/
inductive StorePc
  | idle
  | reserveLock (q : ReserveRequest)
  | reserveWindow (q : ReserveRequest) (locked : Bool) (window : Window) (budget : Option ℚ)
  | reserveCheck (q : ReserveRequest) (w : Authority)
  | reserveInsert (q : ReserveRequest) (w : Authority)
  | reserveCommit (q : ReserveRequest) (w : Authority) (inserted : Bool)
  | reserveReturn (op : OpKey) (inserted : Bool)
  | settleInsert (op : OpKey) (actual : ℚ) (r : UsageReservation)
  | settleUpdate (op : OpKey) (actual : ℚ) (r : UsageReservation) (inserted : Bool)
  | settleCommit (op : OpKey) (actual : ℚ) (r : UsageReservation) (inserted updated : Bool)
  | release (op : OpKey)
  | reread (op : OpKey)
  | sweep (kind : UsageKind) (olderThan : ℚ)
  | setQuota (tenant : TenantId) (window : Window) (budget : ℚ)
  | granted (op : OpKey)
  | refused
  | finished (state : Option ReservationState)
  | raised
  deriving DecidableEq

/-- The call has not begun, or it has ended. -/
def StorePc.over : StorePc → Bool
  | .idle | .granted _ | .refused | .finished _ | .raised => true
  | _ => false

namespace Store

/-! ## Steps -/

/-- The first statement of a call. -/
def enter (x : Store) : StoreCall → StorePc
  | .reserve q =>
      if q.est < 0 then .raised
      else match x.reservations.get? q.op with
        | some _ => .refused
        | none => .reserveLock q
  | .settle op actual =>
      if actual < 0 then .raised
      else match x.reservations.get? op with
        | none => .raised
        | some r =>
            if r.state = .reserved then .settleInsert op actual r else .finished (some r.state)
  | .release op => .release op
  | .sweep kind olderThan => .sweep kind olderThan
  | .setQuota tenant window budget =>
      if budget < 0 then .raised else .setQuota tenant window budget

/-- `SELECT … FROM quotas … FOR UPDATE`; nothing to lock without a row. -/
def reserveLock (x : Store) (t : CallId) (q : ReserveRequest) : Option (Store × StorePc) :=
  match x.quotas.get? q.tenant with
  | none => some (x, .reserveWindow q false .daily q.defaultBudget)
  | some quota =>
      if RowLocks.free x.locks (.quota q.tenant) t
      then some ({ x with locks := RowLocks.take x.locks (.quota q.tenant) t },
        .reserveWindow q true quota.window (some quota.budgetGpuSeconds))
      else none

/-- The overflow check, both sums in one statement. -/
def fitsBudget (x : Store) (q : ReserveRequest) (w : Authority) : Bool :=
  match w.budget with
  | none => true
  | some b => q.est ≤ b - x.consumed q.tenant w.windowStart

def newReservation (q : ReserveRequest) (w : Authority) : UsageReservation :=
  { tenantId := q.tenant, kind := q.kind, modality := q.modality, windowStart := w.windowStart,
    estGpuSeconds := q.est, settledGpuSeconds := none, state := .reserved, createdAt := w.now }

/-- `INSERT … ON CONFLICT (op_id) DO NOTHING`; waits for another that is
inserting the key. -/
def reserveInsert (x : Store) (t : CallId) (op : OpKey) : Option (Store × Bool) :=
  if RowLocks.free x.locks (.reservation op) t then
    match x.reservations.get? op with
    | some _ => some (x, false)
    | none => some ({ x with locks := RowLocks.take x.locks (.reservation op) t }, true)
  else none

def settleInsert (x : Store) (t : CallId) (op : OpKey) : Option (Store × Bool) :=
  if RowLocks.free x.locks (.ledger op) t then
    match x.ledger.get? op with
    | some _ => some (x, false)
    | none => some ({ x with locks := RowLocks.take x.locks (.ledger op) t }, true)
  else none

/-- `UPDATE … WHERE op_id = … AND state = 'reserved'`. -/
def settleUpdate (x : Store) (t : CallId) (op : OpKey) : Option (Store × Bool) :=
  if RowLocks.free x.locks (.reservation op) t then
    if x.isReserved op
    then some ({ x with locks := RowLocks.take x.locks (.reservation op) t }, true)
    else some (x, false)
  else none

def ledgerRow (r : UsageReservation) (actual : ℚ) : LedgerRow :=
  { tenantId := r.tenantId, kind := r.kind, modality := r.modality, gpuSeconds := actual,
    windowStart := r.windowStart }

/-- The transaction of `t` ends. -/
def unlock (x : Store) (t : CallId) : Store := { x with locks := RowLocks.drop x.locks t }

def commitReserve (x : Store) (q : ReserveRequest) (w : Authority) (inserted : Bool) : Store :=
  if inserted then { x with reservations := x.reservations.insert q.op (newReservation q w) }
  else x

def commitSettle (x : Store) (op : OpKey) (actual : ℚ) (r : UsageReservation)
    (inserted updated : Bool) : Store :=
  { x with
    ledger := if inserted then x.ledger.insert op (ledgerRow r actual) else x.ledger
    reservations :=
      if updated then x.reservations.modify op (settled actual) else x.reservations }

def release (x : Store) (op : OpKey) : Store :=
  if x.isReserved op then { x with reservations := x.reservations.modify op released } else x

/-- The rows the stale sweep releases. -/
def stale (kind : UsageKind) (olderThan now : ℚ) (r : UsageReservation) : Bool :=
  r.kind = kind ∧ r.state = .reserved ∧ r.createdAt < now - olderThan

def sweep (x : Store) (kind : UsageKind) (olderThan now : ℚ) : Store :=
  { x with
    reservations := x.reservations.map fun _ r =>
      if stale kind olderThan now r then released r else r }

/-- No row it would release is locked by another transaction. -/
def sweepable (x : Store) (t : CallId) (kind : UsageKind) (olderThan now : ℚ) : Bool :=
  x.reservations.items.all fun kv =>
    !stale kind olderThan now kv.2 || RowLocks.free x.locks (.reservation kv.1) t

/-- Call `t` runs its next statement. `trunc` is `date_trunc` by window. -/
def advance (trunc : Window → Time → Time) :
    Interleaving.Program CallId Store StorePc StoreChoice :=
  fun t choice x pc =>
    match pc, choice with
    | .idle, .call c => some (x, x.enter c)
    | .reserveLock q, .go => x.reserveLock t q
    | .reserveWindow q locked window budget, .now at' =>
        some (x, .reserveCheck q ⟨locked, at', trunc window at', budget⟩)
    | .reserveCheck q w, .go =>
        if x.fitsBudget q w then some (x, .reserveInsert q w) else some (x.unlock t, .refused)
    | .reserveInsert q w, .go =>
        (x.reserveInsert t q.op).map fun r => (r.1, .reserveCommit q w r.2)
    | .reserveCommit q w inserted, .go =>
        some ((x.commitReserve q w inserted).unlock t, .reserveReturn q.op inserted)
    | .reserveReturn op inserted, .go =>
        some (x, match x.reservations.get? op with
          | none => .raised
          | some _ => if inserted then .granted op else .refused)
    | .settleInsert op actual r, .go =>
        (x.settleInsert t op).map fun y => (y.1, .settleUpdate op actual r y.2)
    | .settleUpdate op actual r inserted, .go =>
        (x.settleUpdate t op).map fun y => (y.1, .settleCommit op actual r inserted y.2)
    | .settleCommit op actual r inserted updated, .go =>
        some ((x.commitSettle op actual r inserted updated).unlock t, .reread op)
    | .release op, .go =>
        if RowLocks.free x.locks (.reservation op) t then some (x.release op, .reread op) else none
    | .reread op, .go =>
        some (x, .finished ((x.reservations.get? op).map UsageReservation.state))
    | .sweep kind olderThan, .now at' =>
        if x.sweepable t kind olderThan at' then some (x.sweep kind olderThan at', .finished none)
        else none
    | .setQuota tenant window budget, .go =>
        if RowLocks.free x.locks (.quota tenant) t
        then some ({ x with quotas := x.quotas.insert tenant ⟨window, budget⟩ }, .finished none)
        else none
    | pc, .fails => if pc.over then none else some (x.unlock t, .raised)
    | _, _ => none

abbrev Sys := Interleaving.State CallId Store StorePc

abbrev Act := CallId × StoreChoice

abbrev next (trunc : Window → Time → Time) : Sys → Act → Option Sys :=
  Interleaving.next (advance trunc)

/-- No call has begun. -/
def Sys.init : Sys := ⟨Store.init, fun _ => .idle⟩

/-- `date_trunc('day', …)`, which the runs computed here take for every window. -/
def midnight (_ : Window) (at' : Time) : Time := (at' / 86400).floor * 86400

end Store

end MlopsLite.PlatformLib
