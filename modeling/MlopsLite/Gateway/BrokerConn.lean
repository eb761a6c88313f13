import MlopsLite.Lib.Interleaving
import MlopsLite.Lib.Savepoints

/-!
# BrokerConn — the broker's one cached connection

`conn` and `invalidate_conn` (`gateway/app/broker.py`), and the calls that go
through them: `reserve`, `settle`, `release` and the sweep as `metering.py`
issues them, `rotate_key`, `issue_key` and `set_quota` as the admin routes do.
The connection is in autocommit; `conn.transaction()` opens a block on it.
-/

namespace MlopsLite.Gateway.BrokerConn

open Savepoints (Session)

abbrev CallId := ℕ

abbrev SessionId := ℕ

abbrev TenantId := String

abbrev OpId := String

inductive Stmt
  | getTenant (tenant : TenantId)
  | getReservation (op : OpId)
  | lockQuota (tenant : TenantId)
  | windowStart
  | consumed (tenant : TenantId)
  | insertReservation (op : OpId)
  | insertLedger (op : OpId)
  | settleReservation (op : OpId)
  | releaseReservation (op : OpId)
  | sweepReservations
  | revokeKeys (tenant : TenantId)
  | insertKey (tenant : TenantId)
  | upsertQuota (tenant : TenantId)
  deriving DecidableEq

def Stmt.writes : Stmt → Bool
  | getTenant _ | getReservation _ | lockQuota _ | windowStart | consumed _ => false
  | _ => true

inductive Call
  | reserve (op : OpId) (tenant : TenantId)
  | settle (op : OpId)
  | release (op : OpId)
  | sweep
  | rotateKey (tenant : TenantId)
  | issueKey (tenant : TenantId)
  | setQuota (tenant : TenantId)
  deriving DecidableEq

/-- Before the block, in it, after it. -/
inductive Where
  | before
  | within
  | after
  deriving DecidableEq

namespace Call

/-- The statements of a call in order; an admin route looks up the tenant first. -/
def stmts : Call → Where → List Stmt
  | reserve op _, .before | settle op, .before => [.getReservation op]
  | reserve op tenant, .within =>
      [.lockQuota tenant, .windowStart, .consumed tenant, .insertReservation op]
  | settle op, .within => [.insertLedger op, .settleReservation op]
  | reserve op _, .after | settle op, .after => [.getReservation op]
  | release op, .before => [.releaseReservation op, .getReservation op]
  | sweep, .before => [.sweepReservations]
  | rotateKey tenant, .before => [.getTenant tenant]
  | rotateKey tenant, .within => [.revokeKeys tenant, .insertKey tenant]
  | issueKey tenant, .before => [.getTenant tenant, .insertKey tenant]
  | setQuota tenant, .before => [.getTenant tenant, .upsertQuota tenant]
  | _, _ => []

def hasBlock (c : Call) : Bool := !(c.stmts .within).isEmpty

end Call

/-- A call ends early: with an answer, or with an error. -/
inductive Stop
  | answered
  | raised
  deriving DecidableEq

/-- What was read may end the call: the operation is known or finished already,
unknown, the quota exhausted, the tenant unknown. -/
def Call.stops : Call → Where → Stmt → Stop → Bool
  | reserve .., .before, .getReservation _, .answered => true
  | reserve .., .within, .consumed _, .answered => true
  | reserve .., .after, .getReservation _, _ => true
  | settle _, .before, .getReservation _, _ => true
  | rotateKey _, .before, .getTenant _, .answered => true
  | issueKey _, .before, .getTenant _, .answered => true
  | setQuota _, .before, .getTenant _, .answered => true
  | _, _, _, _ => false

/-- A call of the store; `reserve_or_refuse` makes a second after an error. -/
structure Run where
  call : Call
  retry : Bool

structure Attempt where
  call : CallId
  retry : Bool
  deriving DecidableEq

abbrev Entry := Attempt × Stmt

abbrev Conn := Session Attempt Entry TenantId

inductive Pc
  | idle
  | connecting (r : Run)
  | running (r : Run) (k : SessionId) (w : Where) (todo : List Stmt)
  | entering (r : Run) (k : SessionId)
  | leaving (r : Run) (k : SessionId)
  | unwinding (r : Run) (k : SessionId) (stop : Stop)
  | raised (r : Run) (k : Option SessionId)
  | closing (r : Run) (k : SessionId)
  | finished

/-- `written` is history: the writing statements that ran. -/
structure Shared where
  conns : SessionId → Conn
  created : ℕ
  cached : Option SessionId
  written : List Entry
  committed : List Entry

inductive Choice
  | call (c : Call)
  | go
  | connects
  | runs (stop : Option Stop) (found : Bool)
  | fails
  | breaks (landed : Bool)

namespace Shared

variable (x : Shared) (k : SessionId)

def put (s : Conn) : Shared := { x with conns := Function.update x.conns k s }

def live : Bool := (x.conns k).live

/-- A statement goes through: the session is there and no statement before it
in the transaction has failed. -/
def accepts : Bool := x.live k && (x.conns k).aborted.isNone

/-- The row of a tenant's quota is locked in no other session. -/
def grants (st : Stmt) (found : Bool) : Bool :=
  match st with
  | .lockQuota tenant =>
      !found || decide (∀ j < x.created, j ≠ k → ∀ l ∈ (x.conns j).rows, l.2 ≠ tenant)
  | _ => true

/-- What a statement of `a` does: outside every block it is its own transaction. -/
def execute (a : Attempt) (st : Stmt) (found : Bool) : Shared :=
  match st with
  | .lockQuota tenant => if found then x.put k ((x.conns k).take (a, tenant)) else x
  | st =>
      if st.writes then
        let y := { x with written := x.written ++ [(a, st)] }
        if (x.conns k).blocks.isEmpty then { y with committed := x.committed ++ [(a, st)] }
        else y.put k ((x.conns k).record (a, st))
      else x

end Shared

namespace Run

variable (r : Run)

/-- Where an error without a connection, or on it, is handled. -/
def stopped (k : SessionId) : Stop → Pc
  | .answered => .finished
  | .raised => .raised r (some k)

/-- After a statement: the next, or the call's early end. -/
def onward (k : SessionId) (w : Where) (todo : List Stmt) : Option Stop → Pc
  | none => .running r k w todo
  | some stop => if w = .within then .unwinding r k stop else r.stopped k stop

/-- After the statements before, in or after the block. -/
def proceed (k : SessionId) : Where → Pc
  | .before => if r.call.hasBlock then .entering r k else .finished
  | .within => .leaving r k
  | .after => .finished

/-- What the handler of an error closes: `reserve_or_refuse` the connection it
used, once, if it is the cached one; the others whichever is cached. -/
def closes (cached k : Option SessionId) : Option SessionId :=
  match r.call with
  | .reserve .. => if r.retry = false ∧ cached = k then cached else none
  | .settle _ | .release _ | .sweep => cached
  | _ => none

/-- After the handler: `reserve_or_refuse` tries once more. -/
def handled : Pc :=
  match r.call with
  | .reserve .. => if r.retry then .finished else .connecting { r with retry := true }
  | _ => .finished

end Run

/-- After `conn` has raised. -/
def Run.unconnected (r : Run) : Pc :=
  match r.call with
  | .settle _ | .release _ | .sweep => .raised r none
  | _ => .finished

/-! ## Steps -/

/-- `conn`. -/
def connect (choice : Choice) (x : Shared) (r : Run) : Option (Shared × Pc) :=
  let fresh := x.cached.filter x.live
  match choice, fresh with
  | .go, some k => some (x, .running r k .before (r.call.stmts .before))
  | .connects, none =>
      some ({ x.put x.created Session.opened with created := x.created + 1, cached := some x.created },
        .running r x.created .before (r.call.stmts .before))
  | .fails, none => some ({ x with cached := none }, r.unconnected)
  | _, _ => none

/-- A statement of the call, outside a block or in it. -/
def run (t : CallId) (choice : Choice) (x : Shared) (r : Run) (k : SessionId) (w : Where) (st : Stmt)
    (todo : List Stmt) : Option (Shared × Pc) :=
  match choice with
  | .runs stop found =>
      if x.accepts k ∧ x.grants k st found ∧ stop.all (r.call.stops w st) then
        some (x.execute k ⟨t, r.retry⟩ st found, r.onward k w todo stop)
      else none
  | .fails =>
      some (if x.live k then x.put k ((x.conns k).spoil ⟨t, r.retry⟩) else x,
        r.onward k w todo (some .raised))
  -- a statement that is its own transaction may have landed
  | .breaks landed =>
      let y := if landed ∧ x.accepts k ∧ (x.conns k).blocks.isEmpty then
        x.execute k ⟨t, r.retry⟩ st false else x
      some (y.put k (y.conns k).lose, r.onward k w todo (some .raised))
  | _ => none

/-- `conn.transaction()` is entered. -/
def enter (t : CallId) (choice : Choice) (x : Shared) (r : Run) (k : SessionId) :
    Option (Shared × Pc) :=
  match choice with
  | .go =>
      if x.accepts k then
        some (x.put k ((x.conns k).enter ⟨t, r.retry⟩),
          .running r k .within (r.call.stmts .within))
      else none
  | .fails => if x.accepts k then none else some (x, .raised r (some k))
  | .breaks _ => some (x.put k (x.conns k).lose, .raised r (some k))
  | _ => none

/-- The block ends well. One that is not the innermost raises; when the
connection breaks, the commit may have landed. -/
def leave (t : CallId) (choice : Choice) (x : Shared) (r : Run) (k : SessionId) :
    Option (Shared × Pc) :=
  let ended := if x.live k then (x.conns k).commit ⟨t, r.retry⟩ else none
  match choice, ended with
  | .go, some (done, s) =>
      some ({ x.put k s with committed := x.committed ++ done },
        .running r k .after (r.call.stmts .after))
  | .go, none => some (x, .raised r (some k))
  | .breaks landed, some (done, _) =>
      some ({ x.put k (x.conns k).lose with
        committed := if landed then x.committed ++ done else x.committed }, .raised r (some k))
  | .breaks _, none => some (x.put k (x.conns k).lose, .raised r (some k))
  | _, _ => none

/-- The block ends with an error. On a connection that is gone the rollback is
only logged. -/
def unwind (t : CallId) (choice : Choice) (x : Shared) (r : Run) (k : SessionId) (stop : Stop) :
    Option (Shared × Pc) :=
  match choice with
  | .go =>
      if x.live k then
        match (x.conns k).rollback ⟨t, r.retry⟩ with
        | some s => some (x.put k s, r.stopped k stop)
        | none => some (x, .raised r (some k))
      else some (x, r.stopped k stop)
  | .breaks _ => some (x.put k (x.conns k).lose, r.stopped k stop)
  | _ => none

def advance : Interleaving.Program CallId Shared Pc Choice := fun t choice x pc =>
  match pc, choice with
  | .idle, .call c => some (x, .connecting ⟨c, false⟩)
  | .connecting r, choice => connect choice x r
  | .running r k w [], .go => some (x, r.proceed k w)
  | .running r k w (st :: todo), choice => run t choice x r k w st todo
  | .entering r k, choice => enter t choice x r k
  | .leaving r k, choice => leave t choice x r k
  | .unwinding r k stop, choice => unwind t choice x r k stop
  -- `invalidate_conn`
  | .raised r k, .go =>
      match r.closes x.cached k with
      | some j => some ({ x with cached := none }, .closing r j)
      | none => some (x, r.handled)
  | .closing r j, .go => some (x.put j (x.conns j).close, r.handled)
  | _, _ => none

abbrev Sys := Interleaving.State CallId Shared Pc

abbrev Act := CallId × Choice

abbrev next : Sys → Act → Option Sys := Interleaving.next advance

def Sys.init : Sys := ⟨⟨fun _ => Session.opened, 0, none, [], []⟩, fun _ => .idle⟩

/-! ## What is asked -/

/-- The attempt under way, and the connection it uses. -/
def Pc.attempt : Pc → Option Bool
  | running r .. | entering r _ | leaving r _ | unwinding r .. => some r.retry
  | _ => none

def Pc.uses : Pc → Option SessionId
  | running _ k .. | entering _ k | leaving _ k | unwinding _ k _ => some k
  | _ => none

def recordsOf (a : Attempt) (l : List Entry) : List Stmt := (l.filter fun e => e.1 = a).map Prod.snd

/-- All of its statements are committed, or none; none is left in a block. -/
structure Whole (x : Shared) (a : Attempt) : Prop where
  ended : ∀ k, ∀ b ∈ (x.conns k).blocks, ∀ e ∈ b.done, e.1 ≠ a
  committed : recordsOf a x.committed = [] ∨ recordsOf a x.committed = recordsOf a x.written

/-- One reserve has a tenant's row locked. -/
def Exclusive (x : Shared) : Prop :=
  ∀ j k, ∀ l ∈ (x.conns j).rows, ∀ l' ∈ (x.conns k).rows, l.2 = l'.2 → l.1 = l'.1

/-- What another call did in a block stays there, or is committed, unless the
connection fails. -/
def KeepsOthers (t : CallId) (x y : Shared) : Prop :=
  ∀ k, ∀ b ∈ (x.conns k).blocks, ∀ e ∈ b.done, e.1.call ≠ t →
    (∃ b' ∈ (y.conns k).blocks, e ∈ b'.done) ∨ e ∈ y.committed ∨
      ((x.conns k).failed = false ∧ (y.conns k).failed = true)

/-- What fails on a connection that is there does not fail of another call: not
in a transaction that another call has aborted, not for another's block. -/
def FailsAlone (t : CallId) (choice : Choice) (x : Shared) (pc : Pc) : Prop :=
  match pc, choice with
  | .running r k _ (_ :: _), .fails | .entering r k, .fails =>
      x.live k = true → ∀ o, (x.conns k).aborted = some o → o = ⟨t, r.retry⟩
  | .leaving r k, .go =>
      x.live k = true → (x.conns k).aborted = none ∧ ((x.conns k).commit ⟨t, r.retry⟩).isSome
  | .unwinding r k _, .go => x.live k = true → ((x.conns k).rollback ⟨t, r.retry⟩).isSome
  | _, _ => True

/-- A connection that is closed has failed, or no other call uses it. -/
def ClosesOwn (s : Sys) (t : CallId) : Prop :=
  match s.pc t with
  | .closing _ j => (s.shared.conns j).failed = true ∨ ∀ u, u ≠ t → (s.pc u).uses ≠ some j
  | _ => True

structure Isolated (ok : Sys → Act → Prop) (s : Sys) : Prop where
  whole : ∀ a : Attempt, (s.pc a.call).attempt ≠ some a.retry → Whole s.shared a
  exclusive : Exclusive s.shared
  keeps : ∀ a s', ok s a → next s a = some s' → KeepsOthers a.1 s.shared s'.shared
  alone : ∀ a s', ok s a → next s a = some s' → FailsAlone a.1 a.2 s.shared (s.pc a.1)
  closes : ∀ t, ClosesOwn s t

def CallsIsolated (ok : Sys → Act → Prop) : Prop :=
  ∀ s, Runs.Reachable next ok Sys.init s → Isolated ok s

/-- No other call has a block open on the connection. -/
def Out (t : CallId) (x : Shared) (k : SessionId) : Prop :=
  ∀ b ∈ (x.conns k).blocks, b.owner.call = t

/-- A call enters a block, writes, or has a statement fail, where no other call
has a block open; and what an invalidation takes has failed, or no other call
uses it. -/
def Apart (s : Sys) (a : Act) : Prop :=
  match s.pc a.1, a.2 with
  | .running _ k _ (st :: _), .runs _ _ => st.writes = true → Out a.1 s.shared k
  | .running _ k _ (_ :: _), .fails => s.shared.live k = true → Out a.1 s.shared k
  | .entering _ k, .go => Out a.1 s.shared k
  | .entering _ k, .fails => s.shared.live k = true → Out a.1 s.shared k
  | .raised r k, .go => ∀ j, r.closes s.shared.cached k = some j →
      (s.shared.conns j).failed = true ∨ ∀ u, u ≠ a.1 → (s.pc u).uses ≠ some j
  | _, _ => True

/-! ## The invariant -/

def owns (e : Entry) (a : Attempt) : Prop := e.1 = a

/-- On each session one block at most, and a row locked on one session only. -/
structure Sound (x : Shared) : Prop where
  conns : ∀ k, Savepoints.Single (x.conns k) owns
  fresh : ∀ k, x.created ≤ k → x.conns k = Session.opened
  cached : ∀ k, x.cached = some k → k < x.created
  rows : ∀ j k, ∀ l ∈ (x.conns j).rows, ∀ l' ∈ (x.conns k).rows, l.2 = l'.2 → j = k

/-- Nothing written yet. -/
def Blank (x : Shared) (a : Attempt) : Prop :=
  recordsOf a x.written = [] ∧ recordsOf a x.committed = []

def Settled (x : Shared) (a : Attempt) : Prop :=
  recordsOf a x.committed = [] ∨ recordsOf a x.committed = recordsOf a x.written

/-- What was written is in the block. -/
def InBlock (x : Shared) (k : SessionId) (a : Attempt) : Prop :=
  recordsOf a x.committed = [] ∧
    ∀ b ∈ (x.conns k).blocks, b.owner = a → b.done.map Prod.snd = recordsOf a x.written

namespace Pc

/-- The block a call has open, if its connection is still there. -/
def block : Pc → Option (SessionId × Bool)
  | running r k .within _ | leaving r k | unwinding r k _ => some (k, r.retry)
  | _ => none

def unwinds : Pc → Bool
  | unwinding .. => true
  | _ => false

/-- The first attempt is over. -/
def past : Pc → Bool
  | connecting r | running r .. | entering r _ | leaving r _ | unwinding r .. | raised r _
  | closing r _ => r.retry
  | finished => true
  | idle => false

end Pc

/-- How far the attempt under way is. -/
def Current (t : CallId) (x : Shared) : Pc → Prop
  | .idle => Blank x ⟨t, false⟩
  | .connecting r | .entering r _ => Blank x ⟨t, r.retry⟩
  | .running r _ .before todo => todo ⊆ r.call.stmts .before ∧
      if r.call.hasBlock then Blank x ⟨t, r.retry⟩
      else recordsOf ⟨t, r.retry⟩ x.committed = recordsOf ⟨t, r.retry⟩ x.written
  | .running r k .within todo => todo ⊆ r.call.stmts .within ∧ InBlock x k ⟨t, r.retry⟩
  | .leaving r k => InBlock x k ⟨t, r.retry⟩
  | .unwinding r _ _ => recordsOf ⟨t, r.retry⟩ x.committed = []
  | .running r _ .after todo => todo ⊆ r.call.stmts .after ∧
      recordsOf ⟨t, r.retry⟩ x.committed = recordsOf ⟨t, r.retry⟩ x.written
  | .raised r _ | .closing r _ => Settled x ⟨t, r.retry⟩
  | .finished => Settled x ⟨t, true⟩

structure Local (t : CallId) (x : Shared) (pc : Pc) : Prop where
  mine : ∀ k, ∀ b ∈ (x.conns k).blocks, b.owner.call = t → pc.block = some (k, b.owner.retry)
  block : ∀ k b, pc.block = some (k, b) → x.live k = true →
    ∃ blk ∈ (x.conns k).blocks, blk.owner = ⟨t, b⟩
  aborted : ∀ k o, (x.conns k).aborted = some o → o.call = t → pc.unwinds = true
  uses : ∀ k, pc.uses = some k → k < x.created
  current : Current t x pc
  past : pc.past = true → Settled x ⟨t, false⟩
  ahead : pc.past = false → Blank x ⟨t, true⟩

/-- What a step of `t` may do to a session: leave it, lose it, or work on it
where no other call has a block. -/
def Moves (t : CallId) (s s' : Conn) : Prop :=
  s' = s ∨ s'.live = false ∨
    s.live = true ∧ (∀ b ∈ s.blocks, b.owner.call = t) ∧ (∀ b ∈ s'.blocks, b.owner.call = t) ∧
      ∀ o, s'.aborted = some o → o.call = t

/-- Only this attempt's statements are written down. -/
def Adds (a : Attempt) (x y : Shared) : Prop :=
  ∀ a', a' ≠ a → recordsOf a' y.written = recordsOf a' x.written ∧
    recordsOf a' y.committed = recordsOf a' x.committed

structure Leaves (t : CallId) (x y : Shared) : Prop where
  moves : ∀ k, Moves t (x.conns k) (y.conns k)
  created : x.created ≤ y.created
  adds : ∀ a : Attempt, a.call ≠ t → recordsOf a y.written = recordsOf a x.written ∧
    recordsOf a y.committed = recordsOf a x.committed

structure Kept (t : CallId) (x y : Shared) (pc' : Pc) : Prop where
  sound : Sound y
  own : Local t y pc'
  others : Leaves t x y

section

variable {t u : CallId} {x y : Shared} {pc pc' : Pc} {r : Run} {k : SessionId} {a : Attempt}

theorem Adds.leaves {b : Bool} (h : Adds ⟨t, b⟩ x y) (a : Attempt) (ha : a.call ≠ t) :
    recordsOf a y.written = recordsOf a x.written ∧
      recordsOf a y.committed = recordsOf a x.committed := by
  refine h a fun heq => ?_
  rw [heq] at ha
  exact ha rfl

theorem Blank.of_eq (h : Blank x a) (hw : recordsOf a y.written = recordsOf a x.written)
    (hc : recordsOf a y.committed = recordsOf a x.committed) : Blank y a := by
  rw [Blank, hw, hc]
  exact h

theorem Settled.of_eq (h : Settled x a) (hw : recordsOf a y.written = recordsOf a x.written)
    (hc : recordsOf a y.committed = recordsOf a x.committed) : Settled y a := by
  rw [Settled, hw, hc]
  exact h

theorem Blank.settled (h : Blank x a) : Settled x a := .inl h.2

theorem Current.stable (h : Current u x pc) (hu : u ≠ t) (hs : Sound y) (hl : Leaves t x y) :
    Current u y pc := by
  have hrec : ∀ b, recordsOf ⟨u, b⟩ y.written = recordsOf ⟨u, b⟩ x.written ∧
      recordsOf ⟨u, b⟩ y.committed = recordsOf ⟨u, b⟩ x.committed := fun b => hl.adds ⟨u, b⟩ hu
  have hblank : ∀ b, Blank x ⟨u, b⟩ → Blank y ⟨u, b⟩ := fun b h => h.of_eq (hrec b).1 (hrec b).2
  have hsettled : ∀ b, Settled x ⟨u, b⟩ → Settled y ⟨u, b⟩ := fun b h =>
    h.of_eq (hrec b).1 (hrec b).2
  have hblock : ∀ k b, InBlock x k ⟨u, b⟩ → InBlock y k ⟨u, b⟩ := by
    rintro k b ⟨hnone, hdone⟩
    refine ⟨by rw [(hrec b).2]; exact hnone, fun blk hmem howner => ?_⟩
    rw [(hrec b).1]
    rcases hl.moves k with heq | hdead | ⟨-, -, hown, -⟩
    · exact hdone blk (heq ▸ hmem) howner
    · rw [((hs.conns k).dead hdead).1] at hmem
      cases hmem
    · have := hown blk hmem
      rw [howner] at this
      exact absurd this hu
  cases pc with
  | idle => exact hblank _ h
  | connecting r | entering r _ => exact hblank _ h
  | running r k w todo =>
    cases w with
    | before =>
      refine ⟨h.1, ?_⟩
      have h2 := h.2
      split at h2
      · rename_i hb
        rw [if_pos hb]
        exact hblank _ h2
      · rename_i hb
        rw [if_neg hb, (hrec _).1, (hrec _).2]
        exact h2
    | within => exact ⟨h.1, hblock _ _ h.2⟩
    | after =>
      refine ⟨h.1, ?_⟩
      rw [(hrec _).1, (hrec _).2]
      exact h.2
  | leaving r k => exact hblock _ _ h
  | unwinding r k _ =>
    show recordsOf _ _ = []
    rw [(hrec _).2]
    exact h
  | raised r _ | closing r _ => exact hsettled _ h
  | finished => exact hsettled _ h

theorem Local.stable (h : Local u x pc) (hu : u ≠ t) (hs : Sound y) (hl : Leaves t x y) :
    Local u y pc where
  mine k b hb howner := by
    rcases hl.moves k with heq | hdead | ⟨-, -, hown, -⟩
    · exact h.mine k b (heq ▸ hb) howner
    · rw [((hs.conns k).dead hdead).1] at hb
      cases hb
    · exact absurd (howner.symm.trans (hown b hb)) hu
  block k b hpc hlive := by
    rcases hl.moves k with heq | hdead | ⟨hlive', hown, -⟩
    · obtain ⟨blk, hmem, howner⟩ := h.block k b hpc (by rw [Shared.live, ← heq]; exact hlive)
      exact ⟨blk, heq ▸ hmem, howner⟩
    · rw [show y.live k = false from hdead] at hlive
      cases hlive
    · obtain ⟨blk, hmem, howner⟩ := h.block k b hpc hlive'
      have hcall := hown blk hmem
      rw [howner] at hcall
      exact absurd hcall hu
  aborted k o ho hcall := by
    rcases hl.moves k with heq | hdead | ⟨-, -, -, hab⟩
    · exact h.aborted k o (heq ▸ ho) hcall
    · rw [((hs.conns k).dead hdead).2] at ho
      cases ho
    · exact absurd (hcall.symm.trans (hab o ho)) hu
  uses k hk := lt_of_lt_of_le (h.uses k hk) hl.created
  current := h.current.stable hu hs hl
  past hp := (h.past hp).of_eq (hl.adds _ hu).1 (hl.adds _ hu).2
  ahead hp := (h.ahead hp).of_eq (hl.adds _ hu).1 (hl.adds _ hu).2

/-! ## Records -/

theorem recordsOf_append (a : Attempt) (l l' : List Entry) :
    recordsOf a (l ++ l') = recordsOf a l ++ recordsOf a l' := by
  simp [recordsOf, List.filter_append, List.map_append]

theorem recordsOf_own {l : List Entry} (h : ∀ e ∈ l, e.1 = a) : recordsOf a l = l.map Prod.snd := by
  have hall : l.filter (fun e => e.1 = a) = l := by
    rw [List.filter_eq_self]
    intro e he
    simpa using h e he
  rw [recordsOf, hall]

theorem recordsOf_others {l : List Entry} {a' : Attempt} (h : ∀ e ∈ l, e.1 = a) (ha : a' ≠ a) :
    recordsOf a' l = [] := by
  have hnone : l.filter (fun e => e.1 = a') = [] := by
    rw [List.filter_eq_nil_iff]
    intro e he
    have heq := h e he
    simp [heq, Ne.symm ha]
  rw [recordsOf, hnone]
  rfl

@[simp] theorem recordsOf_single (st : Stmt) : recordsOf a [(a, st)] = [st] := by
  simp [recordsOf]

theorem Adds.of_append {ws cs : List Entry} (hw : ∀ e ∈ ws, e.1 = a) (hc : ∀ e ∈ cs, e.1 = a)
    (hwritten : y.written = x.written ++ ws) (hcommitted : y.committed = x.committed ++ cs) :
    Adds a x y := by
  intro a' ha
  rw [hwritten, hcommitted, recordsOf_append, recordsOf_append, recordsOf_others hw ha,
    recordsOf_others hc ha]
  simp

theorem Adds.written {st : Stmt} (hwritten : y.written = x.written ++ [(a, st)])
    (hcommitted : y.committed = x.committed) : Adds a x y := by
  refine Adds.of_append (by simp) (fun e he => ?_) hwritten (hcommitted.trans (List.append_nil _).symm)
  cases he

theorem Adds.none (hwritten : y.written = x.written) (hcommitted : y.committed = x.committed) :
    Adds a x y := by
  intro a' _
  rw [hwritten, hcommitted]
  exact ⟨rfl, rfl⟩

/-! ## Where a call stands -/

theorem Sound.cases (hx : Sound x) (k : SessionId) :
    (x.conns k).blocks = [] ∧ (x.conns k).aborted = none ∨
      ∃ b, (x.conns k).blocks = [b] ∧ ∀ p, (x.conns k).aborted = some p → p = b.owner :=
  (hx.conns k).cases

/-- A call that has no block open has none on any session. -/
theorem Local.no_block (hk : Local t x pc) (hb : pc.block = none) {b} (hmem : b ∈ (x.conns k).blocks) :
    b.owner.call ≠ t := by
  intro howner
  rw [hk.mine k b hmem howner] at hb
  cases hb

/-- Nobody has a block open on a session where no other call has. -/
theorem Local.blocks_nil (hx : Sound x) (hk : Local t x pc) (hb : pc.block = none)
    (hout : Out t x k) : (x.conns k).blocks = [] ∧ (x.conns k).aborted = none := by
  rcases hx.cases k with hnil | ⟨b, hone, -⟩
  · exact hnil
  · have hmem : b ∈ (x.conns k).blocks := by simp [hone]
    exact absurd (hout b hmem) (hk.no_block hb hmem)

/-- The block of a call on a session that is there. -/
theorem Local.own_block (hx : Sound x) (hk : Local t x pc) {b : Bool}
    (hb : pc.block = some (k, b)) (hlive : x.live k = true) :
    ∃ blk, (x.conns k).blocks = [blk] ∧ blk.owner = ⟨t, b⟩ ∧
      ∀ p, (x.conns k).aborted = some p → p = ⟨t, b⟩ := by
  obtain ⟨blk, hmem, howner⟩ := hk.block k b hb hlive
  have hone := (hx.conns k).single blk hmem
  refine ⟨blk, hone, howner, fun p hp => ?_⟩
  obtain ⟨b', hmem', rfl⟩ := (hx.conns k).aborted p hp
  rw [hone] at hmem'
  rw [List.mem_singleton.mp hmem', howner]

/-- Where the control point changes and the store does not. -/
theorem Local.at_pc (hx : Sound x) (hk : Local t x pc)
    (hb : pc'.block = pc.block ∨ pc'.block = none ∧ ∀ k b, pc.block = some (k, b) → x.live k = false)
    (hu : pc.unwinds = false ∨ pc'.unwinds = true ∨ ∀ k b, pc.block = some (k, b) → x.live k = false)
    (huses : ∀ k, pc'.uses = some k → k < x.created) (hcur : Current t x pc')
    (hpast : pc'.past = true → Settled x ⟨t, false⟩) (hahead : pc'.past = false → Blank x ⟨t, true⟩) :
    Local t x pc' where
  mine k b hmem howner := by
    have hblock := hk.mine k b hmem howner
    rcases hb with heq | ⟨-, hdead⟩
    · rw [heq]
      exact hblock
    · rw [((hx.conns k).dead (hdead k _ hblock)).1] at hmem
      cases hmem
  block k b hpc hlive := by
    rcases hb with heq | ⟨hnone, -⟩
    · exact hk.block k b (heq ▸ hpc) hlive
    · rw [hnone] at hpc
      cases hpc
  aborted k o ho hcall := by
    have hunwinds := hk.aborted k o ho hcall
    rcases hu with hnot | hyes | hdead
    · rw [hnot] at hunwinds
      cases hunwinds
    · exact hyes
    · obtain ⟨b, hmem, rfl⟩ := (hx.conns k).aborted o ho
      rw [((hx.conns k).dead (hdead k _ (hk.mine k b hmem hcall))).1] at hmem
      cases hmem
  uses := huses
  current := hcur
  past := hpast
  ahead := hahead

theorem Leaves.refl : Leaves t x x :=
  ⟨fun _ => .inl rfl, le_rfl, fun _ _ => ⟨rfl, rfl⟩⟩

/-- A call is over. -/
theorem Local.over (hk : Local t x pc) {b : Bool} (hpast : pc.past = b)
    (hcur : Settled x ⟨t, b⟩) : Settled x ⟨t, true⟩ ∧ Settled x ⟨t, false⟩ := by
  cases b with
  | true => exact ⟨hcur, hk.past hpast⟩
  | false => exact ⟨(hk.ahead hpast).settled, hcur⟩

/-- The other attempt's statements are left as they are. -/
theorem Local.past_adds (hk : Local t x pc) {b : Bool} (hadds : Adds ⟨t, b⟩ x y)
    (hpast : pc.past = b) : b = true → Settled y ⟨t, false⟩ := by
  rintro rfl
  have hother := hadds ⟨t, false⟩ (by simp)
  exact (hk.past hpast).of_eq hother.1 hother.2

theorem Local.ahead_adds (hk : Local t x pc) {b : Bool} (hadds : Adds ⟨t, b⟩ x y)
    (hpast : pc.past = b) : b = false → Blank y ⟨t, true⟩ := by
  rintro rfl
  have hother := hadds ⟨t, true⟩ (by simp)
  exact (hk.ahead hpast).of_eq hother.1 hother.2

/-- A step that works on one session. -/
theorem Kept.put (hx : Sound x) (hk : Local t x pc) {s' : Conn} {b : Bool}
    (hconns : y.conns = Function.update x.conns k s') (hcreated : y.created = x.created)
    (hcached : y.cached = x.cached) (hknown : k < x.created)
    (hsingle : Savepoints.Single s' owns)
    (hrows : ∀ l ∈ s'.rows, l ∈ (x.conns k).rows ∨ ∀ j, j ≠ k → ∀ l' ∈ (x.conns j).rows, l'.2 ≠ l.2)
    (hmoves : Moves t (x.conns k) s') (hadds : Adds ⟨t, b⟩ x y)
    (honly : ∀ j c, pc.block = some (j, c) → j = k) (honly' : ∀ j c, pc'.block = some (j, c) → j = k)
    (hmine : ∀ blk ∈ s'.blocks, blk.owner.call = t → pc'.block = some (k, blk.owner.retry))
    (hblock : ∀ c, pc'.block = some (k, c) → s'.live = true → ∃ blk ∈ s'.blocks, blk.owner = ⟨t, c⟩)
    (haborted : ∀ o, s'.aborted = some o → o.call = t → pc'.unwinds = true)
    (huses : ∀ j, pc'.uses = some j → j = k) (hcur : Current t y pc')
    (hpast : pc'.past = true → Settled y ⟨t, false⟩) (hahead : pc'.past = false → Blank y ⟨t, true⟩) :
    Kept t x y pc' := by
  have hsame : ∀ j, j ≠ k → y.conns j = x.conns j := by
    intro j hj
    rw [hconns, Function.update_of_ne hj]
  have hself : y.conns k = s' := by rw [hconns, Function.update_self]
  refine ⟨⟨fun j => ?_, fun j hj => ?_, fun j hj => ?_, fun i j l hl l' hl' heq => ?_⟩,
    ⟨fun j blk hmem howner => ?_, fun j c hpc hlive => ?_, fun j o ho hcall => ?_, fun j hj => ?_,
      hcur, hpast, hahead⟩, ⟨fun j => ?_, hcreated.ge, hadds.leaves⟩⟩
  · by_cases hj : j = k
    · rw [hj, hself]
      exact hsingle
    · rw [hsame j hj]
      exact hx.conns j
  · rw [hcreated] at hj
    rw [hsame j fun heq => absurd hj (not_le.mpr (heq ▸ hknown))]
    exact hx.fresh j hj
  · rw [hcached] at hj
    rw [hcreated]
    exact hx.cached j hj
  · by_cases hi : i = k
    · by_cases hj : j = k
      · rw [hi, hj]
      · rw [hi, hself] at hl
        rw [hsame j hj] at hl'
        rcases hrows l hl with hold | hfree
        · exact hi.trans (hx.rows k j l hold l' hl' heq)
        · exact absurd heq.symm (hfree j hj l' hl')
    · rw [hsame i hi] at hl
      by_cases hj : j = k
      · rw [hj, hself] at hl'
        rcases hrows l' hl' with hold | hfree
        · exact (hx.rows i k l hl l' hold heq).trans hj.symm
        · exact absurd heq (hfree i hi l hl)
      · rw [hsame j hj] at hl'
        exact hx.rows i j l hl l' hl' heq
  · by_cases hj : j = k
    · subst hj
      exact hmine blk (hself ▸ hmem) howner
    · rw [hsame j hj] at hmem
      exact absurd (honly j _ (hk.mine j blk hmem howner)) hj
  · obtain rfl := honly' j c hpc
    rw [Shared.live, hself] at hlive
    rw [hself]
    exact hblock c hpc hlive
  · by_cases hj : j = k
    · subst hj
      exact haborted o (hself ▸ ho) hcall
    · rw [hsame j hj] at ho
      obtain ⟨blk, hmem, rfl⟩ := (hx.conns j).aborted o ho
      exact absurd (honly j _ (hk.mine j blk hmem hcall)) hj
  · rw [hcreated, huses j hj]
    exact hknown
  · by_cases hj : j = k
    · subst hj
      rw [hself]
      exact hmoves
    · exact .inl (hsame j hj)

/-- The connection breaks, or is closed. -/
theorem Kept.dies (hx : Sound x) (hk : Local t x pc) {s' : Conn} {b : Bool}
    (hconns : y.conns = Function.update x.conns k s') (hcreated : y.created = x.created)
    (hcached : y.cached = x.cached) (hknown : k < x.created)
    (hdead : s'.live = false) (hsingle : Savepoints.Single s' owns) (hadds : Adds ⟨t, b⟩ x y)
    (honly : ∀ j c, pc.block = some (j, c) → j = k) (honly' : ∀ j c, pc'.block = some (j, c) → j = k)
    (huses : ∀ j, pc'.uses = some j → j = k) (hcur : Current t y pc')
    (hpast : pc'.past = true → Settled y ⟨t, false⟩) (hahead : pc'.past = false → Blank y ⟨t, true⟩) :
    Kept t x y pc' := by
  obtain ⟨hnil, hnone⟩ := hsingle.dead hdead
  refine Kept.put hx hk hconns hcreated hcached hknown hsingle ?_ (.inr (.inl hdead)) hadds honly honly'
    ?_ ?_ ?_ huses hcur hpast hahead
  · simp [Session.rows, hnil]
  · simp [hnil]
  · intro c _ hlive
    rw [hdead] at hlive
    cases hlive
  · simp [hnone]

/-! ## Steps -/

theorem Kept.stays (hx : Sound x) (h : Local t x pc') : Kept t x x pc' := ⟨hx, h, .refl⟩

/-- The cached connection is taken out, or dropped. -/
theorem Kept.uncached (hx : Sound x) (h : Local t x pc') :
    Kept t x { x with cached := none } pc' := by
  refine ⟨⟨hx.conns, hx.fresh, fun k hk => ?_, hx.rows⟩, ?_, ?_⟩
  · cases hk
  · refine ⟨h.mine, h.block, h.aborted, h.uses, ?_, h.past, h.ahead⟩
    have hcur := h.current
    cases pc' with
    | running r k w todo => cases w <;> exact hcur
    | _ => exact hcur
  · exact ⟨fun _ => .inl rfl, le_rfl, fun _ _ => ⟨rfl, rfl⟩⟩

/-- A call without a block goes on without one. -/
theorem Local.turn (hx : Sound x) (hk : Local t x pc) (hb : pc.block = none) (hu : pc.unwinds = false)
    (hb' : pc'.block = none) (huses : ∀ k, pc'.uses = some k → k < x.created)
    (hcur : Current t x pc') (hpast : pc'.past = true → Settled x ⟨t, false⟩)
    (hahead : pc'.past = false → Blank x ⟨t, true⟩) : Local t x pc' :=
  hk.at_pc hx (.inl (hb'.trans hb.symm)) (.inl hu) huses hcur hpast hahead

/-- A call without a block is over. -/
theorem Local.finish (hx : Sound x) (hk : Local t x pc) (hb : pc.block = none)
    (hu : pc.unwinds = false) {b : Bool} (hpast : pc.past = b) (hcur : Settled x ⟨t, b⟩) :
    Local t x .finished := by
  obtain ⟨htrue, hfalse⟩ := hk.over hpast hcur
  refine hk.turn hx hb hu rfl ?_ htrue (fun _ => hfalse) ?_
  · rintro k ⟨⟩
  · rintro ⟨⟩

theorem stmts_before_of_hasBlock {c : Call} (hc : c.hasBlock = true) {st : Stmt}
    (h : st ∈ c.stmts .before) : st.writes = false := by
  cases c <;> simp_all [Call.stmts, Call.hasBlock, Stmt.writes]

theorem stmts_after {c : Call} {st : Stmt} (h : st ∈ c.stmts .after) : st.writes = false := by
  cases c <;> simp_all [Call.stmts, Stmt.writes]

theorem lock_within {c : Call} {w : Where} {tenant : TenantId}
    (h : .lockQuota tenant ∈ c.stmts w) : w = .within := by
  cases c <;> cases w <;> simp_all [Call.stmts]

theorem stops_of_writes {c : Call} {w : Where} {st : Stmt} {stop : Stop} (h : st.writes = true) :
    c.stops w st stop = false := by
  cases st <;> simp_all [Stmt.writes, Call.stops]

theorem connect_keeps {choice : Choice} (hx : Sound x) (hk : Local t x (.connecting r))
    (h : connect choice x r = some (y, pc')) : Kept t x y pc' := by
  have hblank : Blank x ⟨t, r.retry⟩ := hk.current
  have hstart : (if r.call.hasBlock then Blank x ⟨t, r.retry⟩
      else recordsOf ⟨t, r.retry⟩ x.committed = recordsOf ⟨t, r.retry⟩ x.written) := by
    split
    · exact hblank
    · rw [hblank.1, hblank.2]
  unfold connect at h
  dsimp only at h
  split at h
  · rename_i k hcached
    cases h
    obtain ⟨hcached, -⟩ := Option.filter_eq_some_iff.mp hcached
    refine ⟨hx, hk.at_pc hx (.inl rfl) (.inl rfl) ?_ ⟨List.Subset.refl _, hstart⟩ hk.past hk.ahead, .refl⟩
    rintro j ⟨⟩
    exact hx.cached k hcached
  · cases h
    have hconns : Function.update x.conns x.created Session.opened = x.conns := by
      rw [← hx.fresh x.created le_rfl, Function.update_eq_self]
    refine ⟨⟨?_, ?_, ?_, ?_⟩, ⟨?_, ?_, ?_, ?_, ⟨List.Subset.refl _, hstart⟩, hk.past, hk.ahead⟩,
      ⟨?_, Nat.le_succ _, fun _ _ => ⟨rfl, rfl⟩⟩⟩ <;> simp only [Shared.put, hconns]
    · exact hx.conns
    · exact fun j hj => hx.fresh j (by omega)
    · rintro j ⟨⟩
      exact Nat.lt_succ_self _
    · exact hx.rows
    · exact fun j b hmem howner => absurd howner (hk.no_block rfl hmem)
    · rintro j b ⟨⟩
    · intro j o ho hcall
      exact hk.aborted j o ho hcall
    · rintro j ⟨⟩
      exact Nat.lt_succ_self _
    · exact fun j => .inl rfl
  · cases h
    refine Kept.uncached hx ?_
    have hraised : Local t x (.raised r none) := by
      refine hk.turn hx rfl rfl rfl ?_ hblank.settled hk.past hk.ahead
      rintro k ⟨⟩
    have hfinished : Local t x .finished := hk.finish hx rfl rfl rfl hblank.settled
    unfold Run.unconnected
    split
    · exact hraised
    · exact hraised
    · exact hraised
    · exact hfinished
  · cases h

/-! ## Statements -/

section

variable {st : Stmt} {found : Bool}

theorem execute_reads (h : st.writes = false) (hl : ∀ tenant, st ≠ .lockQuota tenant) :
    x.execute k a st found = x := by
  cases st with
  | lockQuota tenant => exact absurd rfl (hl tenant)
  | _ => first | rfl | cases h

theorem execute_alone (h : st.writes = true) (hb : (x.conns k).blocks = []) :
    x.execute k a st found =
      { x with written := x.written ++ [(a, st)], committed := x.committed ++ [(a, st)] } := by
  cases st <;> simp_all [Shared.execute, Stmt.writes]

theorem execute_record {b} (h : st.writes = true) (hb : (x.conns k).blocks = [b]) :
    x.execute k a st found = { x with
      conns := Function.update x.conns k ((x.conns k).record (a, st))
      written := x.written ++ [(a, st)] } := by
  cases st <;> simp_all [Shared.execute, Shared.put, Stmt.writes]

end

/-- A call of which no block is open has its statements committed, or has
written nothing. -/
theorem Current.settled {w : Where} {todo : List Stmt} (h : Current t x (.running r k w todo))
    (hw : w ≠ .within) : Settled x ⟨t, r.retry⟩ := by
  cases w with
  | before =>
    have h2 := h.2
    split at h2
    · exact h2.settled
    · exact .inr h2
  | within => exact absurd rfl hw
  | after => exact .inr h.2

/-- Outside a block a call is stopped, or over. -/
theorem Local.stopped (hx : Sound x) (hk : Local t x pc) (hb : pc.block = none)
    (hu : pc.unwinds = false) (hpast : pc.past = r.retry) (hcur : Settled x ⟨t, r.retry⟩)
    (stop : Stop) : Local t x (r.stopped k stop) := by
  cases stop with
  | answered => exact hk.finish hx hb hu hpast hcur
  | raised =>
    refine hk.turn hx hb hu rfl ?_ hcur (fun h => hk.past (hpast.trans h))
      fun h => hk.ahead (hpast.trans h)
    rintro j ⟨⟩

theorem Settled.alone {st : Stmt} (h : recordsOf a x.committed = recordsOf a x.written) :
    recordsOf a (x.committed ++ [(a, st)]) = recordsOf a (x.written ++ [(a, st)]) := by
  rw [recordsOf_append, recordsOf_append, h]

/-- A writing statement that is its own transaction. -/
theorem Kept.alone {st : Stmt} {b : Bool} (hx : Sound x) (h : Local t x pc')
    (hcur : Current t { x with
      written := x.written ++ [(⟨t, b⟩, st)]
      committed := x.committed ++ [(⟨t, b⟩, st)] } pc')
    (hpast : pc'.past = b) :
    Kept t x { x with
      written := x.written ++ [(⟨t, b⟩, st)]
      committed := x.committed ++ [(⟨t, b⟩, st)] } pc' := by
  have hadds : Adds ⟨t, b⟩ x { x with
      written := x.written ++ [(⟨t, b⟩, st)]
      committed := x.committed ++ [(⟨t, b⟩, st)] } :=
    Adds.of_append (by simp) (by simp) rfl rfl
  refine ⟨{ hx with }, ⟨h.mine, h.block, h.aborted, h.uses, hcur, ?_, ?_⟩,
    ⟨fun _ => .inl rfl, le_rfl, hadds.leaves⟩⟩
  · rw [hpast]
    exact h.past_adds hadds hpast
  · rw [hpast]
    exact h.ahead_adds hadds hpast

/-- A statement outside a block. -/
theorem run_keeps_plain {choice : Choice} {w : Where} {st : Stmt} {todo : List Stmt} (hw : w ≠ .within)
    (hx : Sound x) (hk : Local t x (.running r k w (st :: todo)))
    (hwrites : ∀ stop found, choice = .runs stop found → st.writes = true → Out t x k)
    (hfails : choice = .fails → x.live k = true → Out t x k)
    (h : run t choice x r k w st todo = some (y, pc')) : Kept t x y pc' := by
  have hblock : (Pc.running r k w (st :: todo)).block = none := by cases w <;> first | rfl | exact absurd rfl hw
  have hsettled : Settled x ⟨t, r.retry⟩ := hk.current.settled hw
  have hknown : k < x.created := hk.uses k rfl
  have hmem : st ∈ r.call.stmts w := by
    cases w with
    | before => exact hk.current.1 List.mem_cons_self
    | within => exact absurd rfl hw
    | after => exact hk.current.1 List.mem_cons_self
  have hlock : ∀ tenant, st ≠ .lockQuota tenant := by
    rintro tenant rfl
    exact hw (lock_within hmem)
  have hout : ∀ stop, r.onward k w todo (some stop) = r.stopped k stop := fun _ => if_neg hw
  have hstopped : ∀ stop, Local t x (r.stopped k stop) := fun stop =>
    hk.stopped hx hblock rfl rfl hsettled stop
  -- a statement that writes is the whole of its call
  have hsolo : st.writes = true → w = .before ∧
      recordsOf ⟨t, r.retry⟩ x.committed = recordsOf ⟨t, r.retry⟩ x.written ∧
      r.call.hasBlock ≠ true := by
    intro hwr
    cases w with
    | before =>
      by_cases hb : r.call.hasBlock = true
      · rw [stmts_before_of_hasBlock hb hmem] at hwr
        cases hwr
      · have h2 := hk.current.2
        rw [if_neg hb] at h2
        exact ⟨rfl, h2, hb⟩
    | within => exact absurd rfl hw
    | after =>
      rw [stmts_after hmem] at hwr
      cases hwr
  unfold run at h
  dsimp only at h
  split at h
  · rename_i stop found
    split at h
    · rename_i hruns
      obtain ⟨-, -, hstops⟩ := hruns
      cases h
      by_cases hwr : st.writes = true
      · obtain ⟨rfl, hsame, hb⟩ := hsolo hwr
        have hnil := (hk.blocks_nil hx hblock (hwrites stop found rfl hwr)).1
        rw [execute_alone hwr hnil]
        cases stop with
        | some stop =>
          rw [show Option.all _ (some stop) = r.call.stops .before st stop from rfl,
            stops_of_writes hwr] at hstops
          cases hstops
        | none =>
          refine Kept.alone hx (hk.turn hx hblock rfl rfl ?_ ?_ hk.past hk.ahead) ?_ rfl
          · rintro j ⟨⟩
            exact hknown
          · refine ⟨fun s hs => hk.current.1 (List.mem_cons_of_mem _ hs), ?_⟩
            rw [if_neg hb]
            exact hsame
          · refine ⟨fun s hs => hk.current.1 (List.mem_cons_of_mem _ hs), ?_⟩
            rw [if_neg hb]
            exact Settled.alone hsame
      · rw [execute_reads (by simpa using hwr) hlock]
        refine Kept.stays hx ?_
        cases stop with
        | none =>
          refine hk.turn hx hblock rfl ?_ ?_ ?_ hk.past hk.ahead
          · show (Pc.running r k w todo).block = none
            cases w <;> first | rfl | exact absurd rfl hw
          · rintro j ⟨⟩
            exact hknown
          · cases w with
            | before => exact ⟨fun s hs => hk.current.1 (List.mem_cons_of_mem _ hs), hk.current.2⟩
            | within => exact absurd rfl hw
            | after => exact ⟨fun s hs => hk.current.1 (List.mem_cons_of_mem _ hs), hk.current.2⟩
        | some stop =>
          rw [hout]
          exact hstopped stop
    · cases h
  · cases h
    rw [hout]
    split
    · rename_i hlive
      have hnil := (hk.blocks_nil hx hblock (hfails rfl hlive)).1
      rw [Savepoints.spoil_nil hnil, Shared.put, Function.update_eq_self]
      exact Kept.stays hx (hstopped .raised)
    · exact Kept.stays hx (hstopped .raised)
  · rename_i landed
    cases h
    rw [hout]
    have honly : ∀ j c, (Pc.running r k w (st :: todo)).block = some (j, c) → j = k := by
      intro j c hc
      rw [hblock] at hc
      cases hc
    have hadds : ∀ ws : List Entry, (∀ e ∈ ws, e.1 = (⟨t, r.retry⟩ : Attempt)) →
        ∀ z, z.written = x.written ++ ws → z.committed = x.committed ++ ws → z.created = x.created →
        z.cached = x.cached → z.conns = x.conns → Settled z ⟨t, r.retry⟩ →
        Kept t x (z.put k (z.conns k).lose) (r.stopped k .raised) := by
      intro ws hws z hwritten hcommitted hcreated hcached hconns hset
      have hadd : Adds ⟨t, r.retry⟩ x (z.put k (z.conns k).lose) :=
        Adds.of_append hws hws hwritten hcommitted
      have hlost : Savepoints.Single (x.conns k).lose owns := Savepoints.Single.lose
      refine Kept.dies hx hk ?_ hcreated hcached hknown (by simp) hlost hadd honly ?_ ?_ hset ?_ ?_
      · show Function.update z.conns k (z.conns k).lose = _
        rw [hconns]
      · rintro j c ⟨⟩
      · rintro j ⟨⟩
      · exact hk.past_adds hadd rfl
      · exact hk.ahead_adds hadd rfl
    by_cases hland : landed = true ∧ x.accepts k = true ∧ (x.conns k).blocks.isEmpty = true
    · rw [if_pos hland]
      have hnil : (x.conns k).blocks = [] := by simpa using hland.2.2
      by_cases hwr : st.writes = true
      · rw [execute_alone hwr hnil]
        exact hadds [(⟨t, r.retry⟩, st)] (by simp) _ rfl rfl rfl rfl rfl
          (.inr (Settled.alone (hsolo hwr).2.1))
      · rw [execute_reads (by simpa using hwr) hlock]
        exact hadds [] (by simp) x (by simp) (by simp) rfl rfl rfl hsettled
    · rw [if_neg hland]
      exact hadds [] (by simp) x (by simp) (by simp) rfl rfl rfl hsettled
  · cases h

/-- The connection breaks under a call; what it has committed stays. -/
theorem Kept.breaks (hx : Sound x) (hk : Local t x pc) (hknown : k < x.created)
    (honly : ∀ j c, pc.block = some (j, c) → j = k) (honly' : ∀ j c, pc'.block = some (j, c) → j = k)
    (huses : ∀ j, pc'.uses = some j → j = k) {b : Bool}
    (hcur : ∀ z : Shared, z.written = x.written → z.committed = x.committed →
      (z.conns k).blocks = [] → Current t z pc')
    (hpast' : pc'.past = true → Settled x ⟨t, false⟩) (hahead' : pc'.past = false → Blank x ⟨t, true⟩) :
    Kept t x (x.put k (x.conns k).lose) pc' :=
  Kept.dies (b := b) hx hk rfl rfl rfl hknown (by simp) Savepoints.Single.lose (Adds.none rfl rfl)
    honly honly' huses (hcur _ rfl rfl (by simp [Shared.put, Session.lose])) hpast' hahead'

theorem onward_within {todo : List Stmt} (stop : Option Stop) :
    (r.onward k .within todo stop).block = some (k, r.retry) ∧
      (r.onward k .within todo stop).uses = some k ∧
      (r.onward k .within todo stop).past = r.retry := by
  cases stop with
  | none => exact ⟨rfl, rfl, rfl⟩
  | some stop => exact ⟨rfl, rfl, rfl⟩

/-- A step of a call whose block stays open, on that block. -/
theorem Kept.block (hx : Sound x) (hk : Local t x pc) (hpc : pc.block = some (k, r.retry))
    (hpc' : pc'.block = some (k, r.retry)) (huses : pc.uses = some k) (huses' : pc'.uses = some k)
    (hpast : pc.past = r.retry) (hpast' : pc'.past = r.retry) (hlive : x.live k = true)
    (s' : Conn) (blk' : Savepoints.Block Attempt Entry TenantId)
    (hconns : y.conns = Function.update x.conns k s') (hcreated : y.created = x.created)
    (hcached : y.cached = x.cached) (hone' : s'.blocks = [blk']) (howner' : blk'.owner = ⟨t, r.retry⟩)
    (haborted : ∀ o, s'.aborted = some o → o = ⟨t, r.retry⟩ ∧ pc'.unwinds = true)
    (hsingle : Savepoints.Single s' owns)
    (hrows : ∀ l ∈ s'.rows, l ∈ (x.conns k).rows ∨ ∀ j, j ≠ k → ∀ l' ∈ (x.conns j).rows, l'.2 ≠ l.2)
    (hadds : Adds ⟨t, r.retry⟩ x y) (hcur : Current t y pc') : Kept t x y pc' := by
  obtain ⟨blk, hone, howner, -⟩ := hk.own_block hx hpc hlive
  have honly : ∀ {pc₀ : Pc}, pc₀.block = some (k, r.retry) → ∀ j c, pc₀.block = some (j, c) → j = k := by
    intro pc₀ h j c hc
    rw [h] at hc
    cases hc
    rfl
  refine Kept.put hx hk hconns hcreated hcached (hk.uses k huses) hsingle hrows
    (.inr (.inr ⟨hlive, ?_, ?_, ?_⟩)) hadds (honly hpc) (honly hpc') ?_ ?_ ?_ ?_ hcur ?_ ?_
  · simp [hone, howner]
  · simp [hone', howner']
  · intro o ho
    rw [(haborted o ho).1]
  · intro b hb _
    obtain rfl : b = blk' := by simpa [hone'] using hb
    rw [hpc', howner']
  · intro c hc _
    rw [hpc'] at hc
    cases hc
    exact ⟨blk', by simp [hone'], howner'⟩
  · exact fun o ho _ => (haborted o ho).2
  · intro j hj
    rw [huses'] at hj
    cases hj
    rfl
  · rw [hpast']
    exact hk.past_adds hadds hpast
  · rw [hpast']
    exact hk.ahead_adds hadds hpast

/-- A statement that goes through in a block. -/
theorem execute_keeps {st : Stmt} {todo : List Stmt} {found : Bool} (hx : Sound x)
    (hk : Local t x (.running r k .within (st :: todo))) (haccepts : x.accepts k = true)
    (hgrants : x.grants k st found = true) (hpc : pc'.block = some (k, r.retry))
    (huses : pc'.uses = some k) (hpast : pc'.past = r.retry)
    (hcur : ∀ z : Shared, InBlock z k ⟨t, r.retry⟩ → Current t z pc') :
    Kept t x (x.execute k ⟨t, r.retry⟩ st found) pc' := by
  obtain ⟨-, hblank, hdone⟩ := hk.current
  have hlive : x.live k = true := (Bool.and_eq_true_iff.mp haccepts).1
  have hgood : (x.conns k).aborted = none := by
    simpa using (Bool.and_eq_true_iff.mp haccepts).2
  obtain ⟨blk, hone, howner, -⟩ := hk.own_block hx rfl hlive
  have hold := hdone blk (by simp [hone]) howner
  by_cases hwr : st.writes = true
  · rw [execute_record hwr hone]
    have hrecord := Savepoints.record_single hone ((⟨t, r.retry⟩, st) : Entry)
    refine Kept.block hx hk rfl hpc rfl huses rfl hpast hlive
      ((x.conns k).record (⟨t, r.retry⟩, st)) { blk with done := blk.done ++ [(⟨t, r.retry⟩, st)] }
      rfl rfl rfl (by rw [hrecord]) howner ?_
      ((hx.conns k).record hone howner.symm) ?_
      (Adds.written rfl rfl) (hcur _ ⟨hblank, fun b hb hbo => ?_⟩)
    · intro o ho
      rw [hrecord] at ho
      simp [hgood] at ho
    · intro l hl
      refine .inl ?_
      rw [hrecord] at hl
      simpa [Session.rows, hone] using hl
    · obtain rfl : b = { blk with done := blk.done ++ [(⟨t, r.retry⟩, st)] } := by
        simpa [hrecord] using hb
      show (blk.done ++ [((⟨t, r.retry⟩, st) : Entry)]).map Prod.snd =
        recordsOf ⟨t, r.retry⟩ (x.written ++ [(⟨t, r.retry⟩, st)])
      rw [recordsOf_append, recordsOf_single, ← hold]
      simp
  · by_cases hl : ∃ tenant, st = .lockQuota tenant ∧ found = true
    · obtain ⟨tenant, rfl, rfl⟩ := hl
      have htake := Savepoints.take_single hone ((⟨t, r.retry⟩, tenant) : Attempt × TenantId)
      refine Kept.block hx hk rfl hpc rfl huses rfl hpast hlive
        ((x.conns k).take (⟨t, r.retry⟩, tenant))
        { blk with rows := (⟨t, r.retry⟩, tenant) :: blk.rows } rfl rfl rfl (by rw [htake]) howner ?_
        ((hx.conns k).take hone howner.symm) ?_ (Adds.none rfl rfl)
        (hcur _ ⟨hblank, fun b hb hbo => ?_⟩)
      · intro o ho
        rw [htake] at ho
        simp [hgood] at ho
      · intro l hl
        rw [htake] at hl
        have hl : l = (⟨t, r.retry⟩, tenant) ∨ l ∈ blk.rows := by
          simpa [Session.rows] using hl
        rcases hl with rfl | hl
        · refine .inr fun j hj l' hl' => ?_
          have hfree : ∀ j < x.created, j ≠ k → ∀ l ∈ (x.conns j).rows, l.2 ≠ tenant := by
            simpa [Shared.grants] using hgrants
          by_cases hj' : j < x.created
          · exact hfree j hj' hj l' hl'
          · rw [hx.fresh j (not_lt.mp hj')] at hl'
            simp [Session.rows, Session.opened] at hl'
        · exact .inl (by simpa [Session.rows, hone] using hl)
      · obtain rfl : b = { blk with rows := (⟨t, r.retry⟩, tenant) :: blk.rows } := by
          simpa [Shared.execute, Shared.put, htake] using hb
        exact hold
    · have hexec : x.execute k ⟨t, r.retry⟩ st found = x := by
        cases st with
        | lockQuota tenant =>
          cases found with
          | false => rfl
          | true => exact absurd ⟨tenant, rfl, rfl⟩ hl
        | _ => first | rfl | exact absurd rfl hwr
      rw [hexec]
      refine Kept.stays hx (hk.at_pc hx (.inl hpc) (.inl rfl) ?_ (hcur x ⟨hblank, hdone⟩) ?_ ?_)
      · intro j hj
        rw [huses] at hj
        cases hj
        exact hk.uses k rfl
      · rw [hpast]
        exact hk.past
      · rw [hpast]
        exact hk.ahead

/-- A statement in a block. -/
theorem run_keeps_within {choice : Choice} {st : Stmt} {todo : List Stmt}
    (hx : Sound x) (hk : Local t x (.running r k .within (st :: todo)))
    (h : run t choice x r k .within st todo = some (y, pc')) : Kept t x y pc' := by
  have hknown : k < x.created := hk.uses k rfl
  obtain ⟨htodo, hblank, hdone⟩ := hk.current
  have honly : ∀ {pc₀ : Pc}, pc₀.block = some (k, r.retry) → ∀ j c, pc₀.block = some (j, c) → j = k := by
    intro pc₀ h j c hc
    rw [h] at hc
    cases hc
    rfl
  unfold run at h
  split at h
  · rename_i stop found
    split at h
    · rename_i hruns
      obtain ⟨haccepts, hgrants, -⟩ := hruns
      cases h
      obtain ⟨hblock, huses, hpast⟩ : (r.onward k .within todo stop).block = some (k, r.retry) ∧
          (r.onward k .within todo stop).uses = some k ∧
          (r.onward k .within todo stop).past = r.retry := onward_within stop
      refine execute_keeps hx hk haccepts hgrants hblock huses hpast fun z hz => ?_
      cases stop with
      | none => exact ⟨fun s hs => htodo (List.mem_cons_of_mem _ hs), hz⟩
      | some stop => exact hz.1
    · cases h
  · cases h
    split
    · rename_i hlive
      obtain ⟨blk, hone, howner, hab⟩ := hk.own_block hx rfl hlive
      have hspoil := Savepoints.spoil_single (o := (⟨t, r.retry⟩ : Attempt)) hone
      refine Kept.block (r := r) hx hk rfl rfl rfl rfl rfl rfl hlive
        ((x.conns k).spoil ⟨t, r.retry⟩) blk rfl rfl rfl (by rw [hspoil]; exact hone) howner ?_ ((hx.conns k).spoil hone howner) ?_ (Adds.none rfl rfl)
        hblank
      · intro o ho
        refine ⟨?_, rfl⟩
        rw [hspoil] at ho
        cases hao : (x.conns k).aborted with
        | none =>
          obtain rfl : (⟨t, r.retry⟩ : Attempt) = o := by simpa [hao] using ho
          rfl
        | some p =>
          obtain rfl : p = o := by simpa [hao] using ho
          exact hab p hao
      · intro l hl
        rw [hspoil] at hl
        exact .inl hl
    · refine Kept.stays hx (hk.at_pc hx (.inl rfl) (.inl rfl) ?_ hblank hk.past hk.ahead)
      rintro j ⟨⟩
      exact hknown
  · rename_i landed
    cases h
    have hland : ¬ (landed = true ∧ x.accepts k = true ∧ (x.conns k).blocks.isEmpty = true) := by
      rintro ⟨-, haccepts, hempty⟩
      have hlive : x.live k = true := (Bool.and_eq_true_iff.mp haccepts).1
      obtain ⟨blk, hone, -⟩ := hk.own_block hx rfl hlive
      simp [hone] at hempty
    rw [if_neg hland]
    refine Kept.breaks hx hk hknown (honly rfl) (honly rfl) ?_ (b := r.retry) ?_ hk.past hk.ahead
    · rintro j ⟨⟩
      rfl
    · intro z _ hcommitted _
      show recordsOf _ _ = []
      rw [hcommitted]
      exact hblank
  · cases h

/-! ## Blocks -/

theorem enter_keeps {choice : Choice} (hx : Sound x) (hk : Local t x (.entering r k))
    (hgo : choice = .go → Out t x k) (h : enter t choice x r k = some (y, pc')) :
    Kept t x y pc' := by
  have hknown : k < x.created := hk.uses k rfl
  have hblank : Blank x ⟨t, r.retry⟩ := hk.current
  unfold enter at h
  split at h
  · split at h
    · rename_i haccepts
      cases h
      have hlive : (x.conns k).live = true := (Bool.and_eq_true_iff.mp haccepts).1
      obtain ⟨hnil, hgood⟩ := hk.blocks_nil hx rfl (hgo rfl)
      have hentered : ((x.conns k).enter (⟨t, r.retry⟩ : Attempt)).blocks =
          [⟨⟨t, r.retry⟩, [], []⟩] := by simp [Session.enter, hnil]
      refine Kept.put hx hk (b := r.retry) rfl rfl rfl hknown (Savepoints.Single.enter hnil hgood hlive) ?_
        (.inr (.inr ⟨hlive, ?_, ?_, ?_⟩)) (Adds.none rfl rfl) ?_ ?_ ?_ ?_ ?_ ?_ ?_ hk.past hk.ahead
      · simp [Session.rows, hentered]
      · simp [hnil]
      · simp [hentered]
      · simp [Session.enter, hgood]
      · rintro j c ⟨⟩
      · rintro j c ⟨⟩
        rfl
      · intro b hb _
        obtain rfl : b = ⟨⟨t, r.retry⟩, [], []⟩ := by simpa [hentered] using hb
        rfl
      · rintro c ⟨⟩ _
        exact ⟨_, by rw [hentered]; exact List.mem_singleton.mpr rfl, rfl⟩
      · simp [Session.enter, hgood]
      · rintro j ⟨⟩
        rfl
      · refine ⟨List.Subset.refl _, hblank.2, fun b hb _ => ?_⟩
        obtain rfl : b = ⟨⟨t, r.retry⟩, [], []⟩ := by simpa [Shared.put, hentered] using hb
        exact hblank.1.symm
    · cases h
  · split at h
    · cases h
    · cases h
      exact Kept.stays hx (hk.stopped hx rfl rfl rfl hblank.settled .raised)
  · cases h
    refine Kept.breaks hx hk hknown ?_ ?_ ?_ (b := r.retry) ?_ hk.past hk.ahead
    · rintro j c ⟨⟩
    · rintro j c ⟨⟩
    · rintro j ⟨⟩
    · intro z hwritten hcommitted _
      exact (hblank.of_eq (by rw [hwritten]) (by rw [hcommitted])).settled
  · cases h

/-- The block of a call that is about to leave it. -/
theorem Local.commits (hx : Sound x) (hk : Local t x (.leaving r k)) (hlive : x.live k = true) :
    ∃ done, (x.conns k).commit ⟨t, r.retry⟩ = some (done, (x.conns k).ended) ∧
      (x.conns k).aborted = none ∧ (∀ e ∈ done, e.1 = ⟨t, r.retry⟩) ∧
      done.map Prod.snd = recordsOf ⟨t, r.retry⟩ x.written := by
  obtain ⟨blk, hone, howner, hab⟩ := hk.own_block hx rfl hlive
  have hgood : (x.conns k).aborted = none := by
    cases hao : (x.conns k).aborted with
    | none => rfl
    | some p =>
      obtain rfl := hab p hao
      have hunwinds := hk.aborted k _ hao rfl
      cases hunwinds
  have hmem : blk ∈ (x.conns k).blocks := by simp [hone]
  refine ⟨blk.done, Savepoints.commit_single hone howner hgood, hgood, fun e he => ?_,
    hk.current.2 blk hmem howner⟩
  rw [← howner]
  exact (hx.conns k).done blk hmem e he

theorem leave_keeps {choice : Choice} (hx : Sound x) (hk : Local t x (.leaving r k))
    (h : leave t choice x r k = some (y, pc')) : Kept t x y pc' := by
  have hknown : k < x.created := hk.uses k rfl
  obtain ⟨hblank, hdone⟩ := hk.current
  have honly : ∀ j c, (Pc.leaving r k).block = some (j, c) → j = k := by
    rintro j c ⟨⟩
    rfl
  have hraised : x.live k = false → Local t x (.raised r (some k)) := by
    intro hdead
    refine hk.at_pc hx (.inr ⟨rfl, ?_⟩) (.inl rfl) ?_ (.inl hblank) hk.past hk.ahead
    · rintro j c ⟨⟩
      exact hdead
    · rintro j ⟨⟩
  unfold leave at h
  by_cases hlive : x.live k = true
  · obtain ⟨done, hcommit, -, hown, hall⟩ := hk.commits hx hlive
    rw [if_pos hlive, hcommit] at h
    dsimp only at h
    split at h
    · rename_i done' s heq
      cases heq
      cases h
      have hadds : Adds ⟨t, r.retry⟩ x { x.put k (x.conns k).ended with
          committed := x.committed ++ done } := by
        refine Adds.of_append (fun e he => ?_) hown (List.append_nil _).symm rfl
        cases he
      refine Kept.put hx hk rfl rfl rfl hknown Savepoints.Single.ended ?_
        (.inr (.inr ⟨hlive, ?_, ?_, ?_⟩)) hadds honly ?_ ?_ ?_ ?_ ?_ ?_ (hk.past_adds hadds rfl)
        (hk.ahead_adds hadds rfl)
      · simp [Session.rows, Session.ended]
      · intro b hb
        obtain ⟨blk, hone, howner, -⟩ := hk.own_block hx rfl hlive
        obtain rfl : b = blk := by simpa [hone] using hb
        rw [howner]
      · simp [Session.ended]
      · simp [Session.ended]
      · rintro j c ⟨⟩
      · simp [Session.ended]
      · rintro c ⟨⟩
      · simp [Session.ended]
      · rintro j ⟨⟩
        rfl
      · refine ⟨List.Subset.refl _, ?_⟩
        show recordsOf _ (x.committed ++ done) = recordsOf _ x.written
        rw [recordsOf_append, hblank, recordsOf_own hown, hall]
        rfl
    · rename_i heq
      cases heq
    · rename_i landed done' s heq
      cases heq
      cases h
      have hcommitted : recordsOf ⟨t, r.retry⟩ (if landed = true then x.committed ++ done else x.committed) = [] ∨
          recordsOf ⟨t, r.retry⟩ (if landed = true then x.committed ++ done else x.committed) =
            recordsOf ⟨t, r.retry⟩ x.written := by
        cases landed with
        | true =>
          refine .inr ?_
          show recordsOf _ (x.committed ++ done) = _
          rw [recordsOf_append, hblank, recordsOf_own hown, hall]
          rfl
        | false => exact .inl hblank
      have hadds : Adds ⟨t, r.retry⟩ x { x.put k (x.conns k).lose with
          committed := if landed = true then x.committed ++ done else x.committed } := by
        cases landed with
        | true =>
          refine Adds.of_append (fun e he => ?_) hown (List.append_nil _).symm rfl
          cases he
        | false => exact Adds.none rfl rfl
      have hlost : Savepoints.Single (x.conns k).lose owns := Savepoints.Single.lose
      refine Kept.dies hx hk rfl rfl rfl hknown (by simp) hlost hadds honly ?_ ?_ hcommitted
        (hk.past_adds hadds rfl) (hk.ahead_adds hadds rfl)
      · rintro j c ⟨⟩
      · rintro j ⟨⟩
    · rename_i heq
      cases heq
    · cases h
  · have hdead : x.live k = false := by simpa using hlive
    rw [if_neg hlive] at h
    dsimp only at h
    split at h
    · rename_i heq
      cases heq
    · cases h
      exact Kept.stays hx (hraised hdead)
    · rename_i heq
      cases heq
    · cases h
      refine Kept.breaks hx hk hknown honly ?_ ?_ (b := r.retry) ?_ hk.past hk.ahead
      · rintro j c ⟨⟩
      · rintro j ⟨⟩
      · intro z hwritten hcommitted _
        refine .inl ?_
        rw [hcommitted]
        exact hblank
    · cases h

/-- After its block a call is stopped, or over. -/
theorem current_stopped (stop : Stop) {z : Shared} (hcur : Settled z ⟨t, r.retry⟩)
    (hpast : r.retry = true → Settled z ⟨t, false⟩) (hahead : r.retry = false → Blank z ⟨t, true⟩) :
    Current t z (r.stopped k stop) ∧ ((r.stopped k stop).past = true → Settled z ⟨t, false⟩) ∧
      ((r.stopped k stop).past = false → Blank z ⟨t, true⟩) := by
  cases stop with
  | answered =>
    cases hretry : r.retry with
    | true =>
      rw [hretry] at hcur
      exact ⟨hcur, fun _ => hpast hretry, fun h => by cases h⟩
    | false =>
      rw [hretry] at hcur
      exact ⟨(hahead hretry).settled, fun _ => hcur, fun h => by cases h⟩
  | raised => exact ⟨hcur, hpast, hahead⟩

theorem stopped_apart (stop : Stop) : (r.stopped k stop).block = none ∧
    (r.stopped k stop).uses = none := by
  cases stop <;> exact ⟨rfl, rfl⟩

theorem unwind_keeps {choice : Choice} {stop : Stop} (hx : Sound x)
    (hk : Local t x (.unwinding r k stop)) (h : unwind t choice x r k stop = some (y, pc')) :
    Kept t x y pc' := by
  have hknown : k < x.created := hk.uses k rfl
  have hblank : recordsOf ⟨t, r.retry⟩ x.committed = [] := hk.current
  have honly : ∀ j c, (Pc.unwinding r k stop).block = some (j, c) → j = k := by
    rintro j c ⟨⟩
    rfl
  obtain ⟨hblock, huses⟩ := stopped_apart (r := r) (k := k) stop
  have hno : ∀ j c, (r.stopped k stop).block = some (j, c) → j = k := by
    intro j c hc
    rw [hblock] at hc
    cases hc
  have hnot : ∀ j, (r.stopped k stop).uses = some j → j = k := by
    intro j hj
    rw [huses] at hj
    cases hj
  unfold unwind at h
  split at h
  · split at h
    · rename_i hlive
      obtain ⟨blk, hone, howner, -⟩ := hk.own_block hx rfl hlive
      rw [Savepoints.rollback_single hone howner] at h
      cases h
      have hset : Settled (x.put k (x.conns k).ended) ⟨t, r.retry⟩ := .inl hblank
      obtain ⟨hcur, hpast, hahead⟩ := current_stopped (k := k) stop hset hk.past hk.ahead
      refine Kept.put hx hk (b := r.retry) rfl rfl rfl hknown Savepoints.Single.ended ?_
        (.inr (.inr ⟨hlive, ?_, ?_, ?_⟩)) (Adds.none rfl rfl) honly hno ?_ ?_ ?_ hnot hcur hpast hahead
      · simp [Session.rows, Session.ended]
      · simp [hone, howner]
      · simp [Session.ended]
      · simp [Session.ended]
      · simp [Session.ended]
      · intro c hc
        rw [hblock] at hc
        cases hc
      · simp [Session.ended]
    · rename_i hdead
      cases h
      obtain ⟨hcur, hpast, hahead⟩ := current_stopped (k := k) stop (z := x) (.inl hblank) hk.past hk.ahead
      have hgone : ∀ j b, (Pc.unwinding r k stop).block = some (j, b) → x.live j = false := by
        rintro j b ⟨⟩
        simpa using hdead
      refine Kept.stays hx (hk.at_pc hx (.inr ⟨hblock, hgone⟩) (.inr (.inr hgone)) ?_ hcur hpast hahead)
      intro j hj
      rw [huses] at hj
      cases hj
  · cases h
    have hset : ∀ z : Shared, z.written = x.written → z.committed = x.committed →
        (z.conns k).blocks = [] → Current t z (r.stopped k stop) := by
      intro z hwritten hcommitted _
      have hsame : ∀ a, recordsOf a z.written = recordsOf a x.written ∧
          recordsOf a z.committed = recordsOf a x.committed := by
        intro a
        rw [hwritten, hcommitted]
        exact ⟨rfl, rfl⟩
      refine (current_stopped (k := k) stop (.inl ?_) (fun hr => ?_) (fun hr => ?_)).1
      · rw [hcommitted]
        exact hblank
      · exact (hk.past hr).of_eq (hsame _).1 (hsame _).2
      · exact (hk.ahead hr).of_eq (hsame _).1 (hsame _).2
    obtain ⟨-, hpast, hahead⟩ := current_stopped (k := k) stop (z := x) (.inl hblank) hk.past hk.ahead
    exact Kept.breaks hx hk hknown honly hno hnot (b := r.retry) hset hpast hahead
  · cases h

/-! ## Around the calls -/

/-- An error has been handled: once more, or over. -/
theorem current_handled {z : Shared} (hcur : Settled z ⟨t, r.retry⟩)
    (hpast : r.retry = true → Settled z ⟨t, false⟩) (hahead : r.retry = false → Blank z ⟨t, true⟩) :
    Current t z r.handled ∧ (r.handled.past = true → Settled z ⟨t, false⟩) ∧
      (r.handled.past = false → Blank z ⟨t, true⟩) := by
  have hover : Current t z .finished ∧ ((Pc.finished).past = true → Settled z ⟨t, false⟩) ∧
      ((Pc.finished).past = false → Blank z ⟨t, true⟩) :=
    current_stopped (k := 0) .answered hcur hpast hahead
  unfold Run.handled
  split
  · split
    · exact hover
    · rename_i hretry
      have hretry : r.retry = false := by simpa using hretry
      rw [hretry] at hcur
      exact ⟨hahead hretry, fun _ => hcur, fun h => by cases h⟩
  · exact hover

theorem handled_apart : r.handled.block = none ∧ r.handled.uses = none := by
  unfold Run.handled
  split
  · split <;> exact ⟨rfl, rfl⟩
  · exact ⟨rfl, rfl⟩

theorem Local.handled (hx : Sound x) (hk : Local t x pc) (hb : pc.block = none)
    (hu : pc.unwinds = false) (hpast : pc.past = r.retry) (hcur : Settled x ⟨t, r.retry⟩) :
    Local t x r.handled := by
  obtain ⟨hblock, huses⟩ := handled_apart (r := r)
  obtain ⟨hcur', hpast', hahead'⟩ := current_handled hcur (fun h => hk.past (hpast.trans h))
    fun h => hk.ahead (hpast.trans h)
  refine hk.turn hx hb hu hblock ?_ hcur' hpast' hahead'
  intro j hj
  rw [huses] at hj
  cases hj

theorem closing_keeps {j : SessionId} (hx : Sound x) (hk : Local t x (.closing r j))
    (hknown : j < x.created) : Kept t x (x.put j (x.conns j).close) r.handled := by
  obtain ⟨hblock, huses⟩ := handled_apart (r := r)
  have hset : Settled (x.put j (x.conns j).close) ⟨t, r.retry⟩ := hk.current
  obtain ⟨hcur, hpast, hahead⟩ := current_handled hset hk.past hk.ahead
  have hclosed : Savepoints.Single (x.conns j).close owns := Savepoints.Single.close
  refine Kept.dies (b := r.retry) hx hk rfl rfl rfl hknown (by simp) hclosed (Adds.none rfl rfl) ?_ ?_ ?_
    hcur hpast hahead
  · rintro i c ⟨⟩
  · intro i c hc
    rw [hblock] at hc
    cases hc
  · intro i hi
    rw [huses] at hi
    cases hi

theorem proceed_keeps {w : Where} (hx : Sound x) (hk : Local t x (.running r k w [])) :
    Local t x (r.proceed k w) := by
  have hknown := hk.uses k rfl
  cases w with
  | before =>
    have h2 := hk.current.2
    show Local t x (if r.call.hasBlock then .entering r k else .finished)
    split at h2
    · rename_i hb
      rw [if_pos hb]
      refine hk.turn hx rfl rfl rfl ?_ h2 hk.past hk.ahead
      rintro j ⟨⟩
      exact hknown
    · rename_i hb
      rw [if_neg hb]
      exact hk.finish hx rfl rfl rfl (.inr h2)
  | within =>
    refine hk.at_pc hx (.inl rfl) (.inl rfl) ?_ hk.current.2 hk.past hk.ahead
    rintro j ⟨⟩
    exact hknown
  | after => exact hk.finish hx rfl rfl rfl (.inr hk.current.2)

/-- What `Apart` says of a step. -/
structure Fits (t : CallId) (x : Shared) (pc : Pc) (choice : Choice) : Prop where
  writes : ∀ r k w st todo stop found, pc = .running r k w (st :: todo) →
    choice = .runs stop found → st.writes = true → Out t x k
  fails : ∀ r k w st todo, pc = .running r k w (st :: todo) → choice = .fails →
    x.live k = true → Out t x k
  enters : ∀ r k, pc = .entering r k → choice = .go → Out t x k

theorem advance_keeps {choice : Choice} (hx : Sound x) (hk : Local t x pc)
    (hfit : Fits t x pc choice) (hclosing : ∀ r j, pc = .closing r j → j < x.created)
    (h : advance t choice x pc = some (y, pc')) : Kept t x y pc' := by
  unfold advance at h
  split at h
  · rename_i c
    cases h
    refine Kept.stays hx (hk.turn hx rfl rfl rfl ?_ hk.current ?_ hk.ahead)
    · rintro j ⟨⟩
    · rintro ⟨⟩
  · exact connect_keeps hx hk h
  · cases h
    exact Kept.stays hx (proceed_keeps hx hk)
  · rename_i r k w st todo
    by_cases hw : w = .within
    · subst hw
      exact run_keeps_within hx hk h
    · exact run_keeps_plain hw hx hk
        (fun stop found hc hwr => hfit.writes r k w st todo stop found rfl hc hwr)
        (fun hc hlive => hfit.fails r k w st todo rfl hc hlive) h
  · rename_i r k
    exact enter_keeps hx hk (fun hc => hfit.enters r k rfl hc) h
  · exact leave_keeps hx hk h
  · exact unwind_keeps hx hk h
  · rename_i r k
    split at h
    · cases h
      refine Kept.uncached hx (hk.turn hx rfl rfl rfl ?_ hk.current hk.past hk.ahead)
      rintro j ⟨⟩
    · cases h
      exact Kept.stays hx (hk.handled hx rfl rfl rfl hk.current)
  · rename_i r j
    cases h
    exact closing_keeps hx hk (hclosing r j rfl)
  · cases h

/-! ## Connections taken out -/

/-- A connection fails, or is closed, or is there as before. -/
def Wears (s s' : Conn) : Prop :=
  s'.failed = true ∨ s'.failed = s.failed ∧ s'.closed = s.closed

theorem Wears.refl {s : Conn} : Wears s s := .inr ⟨rfl, rfl⟩

theorem Wears.commit {s s' : Conn} {done : List Entry} (h : s.commit a = some (done, s')) :
    Wears s s' := by
  refine .inr ?_
  unfold Session.commit at h
  split at h
  · cases h
  · split at h <;> cases h
    exact ⟨rfl, rfl⟩
  · split at h <;> cases h
    exact ⟨rfl, rfl⟩

theorem Wears.rollback {s s' : Conn} (h : s.rollback a = some s') : Wears s s' := by
  refine .inr ?_
  unfold Session.rollback at h
  split at h
  · cases h
  · split at h <;> cases h
    exact ⟨rfl, rfl⟩

theorem Wears.put {j : SessionId} {s' : Conn} (h : Wears (x.conns k) s') :
    Wears (x.conns j) ((x.put k s').conns j) := by
  by_cases hj : j = k
  · subst hj
    simpa [Shared.put] using h
  · simp [Shared.put, Function.update_of_ne hj, Wears.refl]

theorem Wears.lost {s : Conn} : Wears s s.lose := .inl rfl

theorem Wears.execute {st : Stmt} {found : Bool} {j : SessionId} :
    Wears (x.conns j) ((x.execute k a st found).conns j) := by
  have hrecord : ∀ e, Wears (x.conns k) ((x.conns k).record e) := by
    intro e
    unfold Session.record
    split <;> exact .inr ⟨rfl, rfl⟩
  have htake : ∀ l, Wears (x.conns k) ((x.conns k).take l) := by
    intro l
    unfold Session.take
    split <;> exact .inr ⟨rfl, rfl⟩
  unfold Shared.execute
  split
  · split
    · exact (htake _).put
    · exact .refl
  · split
    · dsimp only
      split
      · exact .refl
      · exact (hrecord _).put
    · exact .refl

theorem run_wears {choice : Choice} {w : Where} {st : Stmt} {todo : List Stmt} {j : SessionId}
    (h : run t choice x r k w st todo = some (y, pc')) : Wears (x.conns j) (y.conns j) := by
  unfold run at h
  split at h
  · split at h <;> cases h
    exact .execute
  · cases h
    split
    · refine Wears.put ?_
      unfold Session.spoil
      split <;> exact .inr ⟨rfl, rfl⟩
    · exact .refl
  · cases h
    split
    · rename_i hland
      by_cases hj : j = k
      · subst hj
        exact .inl (by simp [Shared.put, Session.lose])
      · simp only [Shared.put, Function.update_of_ne hj]
        exact .execute
    · exact Wears.lost.put
  · cases h

theorem leave_cases {choice : Choice} (h : leave t choice x r k = some (y, pc')) :
    (∃ done s, (x.conns k).commit ⟨t, r.retry⟩ = some (done, s) ∧
      y = { x.put k s with committed := x.committed ++ done } ∧
      pc' = .running r k .after (r.call.stmts .after)) ∨
    pc' = .raised r (some k) ∧
      (y = x ∨ ∃ l, y = { x.put k (x.conns k).lose with committed := l }) := by
  unfold leave at h
  generalize hended : (if x.live k = true then (x.conns k).commit ⟨t, r.retry⟩ else none) = ended at h
  dsimp only at h
  split at h
  · rename_i done s
    cases h
    split at hended
    · exact .inl ⟨done, s, hended, rfl, rfl⟩
    · cases hended
  · cases h
    exact .inr ⟨rfl, .inl rfl⟩
  · cases h
    exact .inr ⟨rfl, .inr ⟨_, rfl⟩⟩
  · cases h
    exact .inr ⟨rfl, .inr ⟨x.committed, rfl⟩⟩
  · cases h

/-- Only the close of an invalidation closes a connection. -/
theorem advance_wears {choice : Choice} {j : SessionId} (hj : j < x.created)
    (h : advance t choice x pc = some (y, pc')) :
    Wears (x.conns j) (y.conns j) ∨ ∃ r, pc = .closing r j ∧ (y.conns j).failed = (x.conns j).failed := by
  unfold advance at h
  split at h
  · cases h
    exact .inl .refl
  · unfold connect at h
    dsimp only at h
    split at h <;> cases h
    · exact .inl .refl
    · refine .inl ?_
      simp [Shared.put, Function.update_of_ne hj.ne, Wears.refl]
    · exact .inl .refl
  · cases h
    exact .inl .refl
  · exact .inl (run_wears h)
  · unfold enter at h
    split at h
    · split at h <;> cases h
      exact .inl (Wears.put (.inr ⟨rfl, rfl⟩))
    · split at h <;> cases h
      exact .inl .refl
    · cases h
      exact .inl Wears.lost.put
    · cases h
  · rcases leave_cases h with ⟨done, s, hended, rfl, -⟩ | ⟨-, rfl | ⟨l, rfl⟩⟩
    · exact .inl (Wears.commit hended).put
    · exact .inl .refl
    · exact .inl Wears.lost.put
  · unfold unwind at h
    split at h
    · split at h
      · split at h
        · rename_i s hended
          cases h
          exact .inl (Wears.rollback hended).put
        · cases h
          exact .inl .refl
      · cases h
        exact .inl .refl
    · cases h
      exact .inl Wears.lost.put
    · cases h
  · split at h <;> cases h <;> exact .inl .refl
  · rename_i r i
    cases h
    by_cases hi : j = i
    · subst hi
      exact .inr ⟨r, rfl, by simp [Shared.put, Session.close]⟩
    · refine .inl ?_
      simp [Shared.put, Function.update_of_ne hi, Wears.refl]
  · cases h

theorem proceed_uses {w : Where} {j : SessionId} (h : (r.proceed k w).uses = some j) : j = k := by
  cases w with
  | before =>
    have h : (if r.call.hasBlock then Pc.entering r k else .finished).uses = some j := h
    split at h <;> cases h
    rfl
  | within =>
    cases h
    rfl
  | after => cases h

theorem onward_uses {w : Where} {todo : List Stmt} {stop : Option Stop} {j : SessionId}
    (h : (r.onward k w todo stop).uses = some j) : j = k := by
  cases stop with
  | none =>
    cases h
    rfl
  | some stop =>
    have h : (if w = .within then Pc.unwinding r k stop else r.stopped k stop).uses = some j := h
    split at h
    · cases h
      rfl
    · rw [(stopped_apart stop).2] at h
      cases h

theorem run_pc {choice : Choice} {w : Where} {st : Stmt} {todo : List Stmt}
    (h : run t choice x r k w st todo = some (y, pc')) : ∃ stop, pc' = r.onward k w todo stop := by
  unfold run at h
  split at h
  · split at h <;> cases h
    exact ⟨_, rfl⟩
  · cases h
    exact ⟨_, rfl⟩
  · cases h
    exact ⟨_, rfl⟩
  · cases h

/-- A call comes to a connection by `conn` alone: the cached one, or a new one. -/
theorem advance_uses {choice : Choice} {j : SessionId} (h : advance t choice x pc = some (y, pc'))
    (hj : pc'.uses = some j) : pc.uses = some j ∨ x.cached = some j ∨ j = x.created := by
  unfold advance at h
  split at h
  · cases h
    cases hj
  · unfold connect at h
    dsimp only at h
    split at h <;> cases h
    · rename_i hfresh
      cases hj
      exact .inr (.inl (Option.filter_eq_some_iff.mp hfresh).1)
    · cases hj
      exact .inr (.inr rfl)
    · unfold Run.unconnected at hj
      split at hj <;> cases hj
  · cases h
    obtain rfl := proceed_uses hj
    exact .inl rfl
  · obtain ⟨stop, rfl⟩ := run_pc h
    obtain rfl := onward_uses hj
    exact .inl rfl
  · unfold enter at h
    split at h
    · split at h <;> cases h
      exact .inl hj
    · split at h <;> cases h
      cases hj
    · cases h
      cases hj
    · cases h
  · rcases leave_cases h with ⟨done, s, -, -, rfl⟩ | ⟨rfl, -⟩
    · exact .inl hj
    · cases hj
  · unfold unwind at h
    split at h
    · split at h
      · split at h <;> cases h
        · rw [(stopped_apart _).2] at hj
          cases hj
        · cases hj
      · cases h
        rw [(stopped_apart _).2] at hj
        cases hj
    · cases h
      rw [(stopped_apart _).2] at hj
      cases hj
    · cases h
  · split at h <;> cases h
    · cases hj
    · rw [handled_apart.2] at hj
      cases hj
  · cases h
    rw [handled_apart.2] at hj
    cases hj
  · cases h

@[simp] theorem execute_cached {st : Stmt} {found : Bool} :
    (x.execute k a st found).cached = x.cached := by
  unfold Shared.execute
  split
  · split <;> rfl
  · split
    · dsimp only
      split <;> rfl
    · rfl

theorem run_cached {choice : Choice} {w : Where} {st : Stmt} {todo : List Stmt}
    (h : run t choice x r k w st todo = some (y, pc')) : y.cached = x.cached := by
  unfold run at h
  split at h
  · split at h <;> cases h
    exact execute_cached
  · cases h
    split <;> rfl
  · cases h
    dsimp only [Shared.put]
    split
    · exact execute_cached
    · rfl
  · cases h

/-- What was taken out of the cache does not come back. -/
theorem advance_cached {choice : Choice} {j : SessionId} (h : advance t choice x pc = some (y, pc'))
    (hj : y.cached = some j) : x.cached = some j ∨ j = x.created := by
  unfold advance at h
  split at h
  · cases h
    exact .inl hj
  · unfold connect at h
    dsimp only at h
    split at h <;> cases h
    · exact .inl hj
    · cases hj
      exact .inr rfl
    · cases hj
  · cases h
    exact .inl hj
  · rw [run_cached h] at hj
    exact .inl hj
  · unfold enter at h
    split at h
    · split at h <;> cases h
      exact .inl hj
    · split at h <;> cases h
      exact .inl hj
    · cases h
      exact .inl hj
    · cases h
  · rcases leave_cases h with ⟨done, s, -, rfl, -⟩ | ⟨-, rfl | ⟨l, rfl⟩⟩ <;> exact .inl hj
  · unfold unwind at h
    split at h
    · split at h
      · split at h <;> cases h <;> exact .inl hj
      · cases h
        exact .inl hj
    · cases h
      exact .inl hj
    · cases h
  · split at h <;> cases h
    · cases hj
    · exact .inl hj
  · cases h
    exact .inl hj
  · cases h

theorem closes_cached {cached k : Option SessionId} {j : SessionId} (h : r.closes cached k = some j) :
    cached = some j := by
  unfold Run.closes at h
  split at h
  · split at h
    · exact h
    · cases h
  · exact h
  · exact h
  · exact h
  · cases h


theorem stopped_ne_closing {r' : Run} (stop : Stop) {j : SessionId} :
    r'.stopped k stop ≠ .closing r j := by
  cases stop with
  | answered => simp [Run.stopped]
  | raised => simp [Run.stopped]

theorem handled_ne_closing {r' : Run} {j : SessionId} : r'.handled ≠ .closing r j := by
  unfold Run.handled
  split
  · split <;> simp
  · simp

theorem advance_closing {choice : Choice} {j : SessionId}
    (h : advance t choice x pc = some (y, .closing r j)) :
    ∃ k, pc = .raised r k ∧ choice = .go ∧ r.closes x.cached k = some j ∧
      y = { x with cached := none } := by
  unfold advance at h
  split at h
  · cases h
  · unfold connect at h
    dsimp only at h
    split at h
    · cases h
    · cases h
    · obtain ⟨-, hpc⟩ := Prod.mk.inj (Option.some.inj h)
      unfold Run.unconnected at hpc
      split at hpc <;> cases hpc
    · cases h
  · obtain ⟨-, hpc⟩ := Prod.mk.inj (Option.some.inj h)
    rename_i w
    cases w with
    | before =>
      have hpc : (if _ then Pc.entering _ _ else .finished) = _ := hpc
      split at hpc <;> cases hpc
    | within => cases hpc
    | after => cases hpc
  · obtain ⟨stop, hpc⟩ := run_pc h
    cases stop with
    | none => cases hpc
    | some stop =>
      have hpc : _ = (if _ then Pc.unwinding _ _ stop else Run.stopped _ _ stop) := hpc
      split at hpc
      · cases hpc
      · exact absurd hpc.symm (stopped_ne_closing stop)
  · unfold enter at h
    split at h
    · split at h <;> cases h
    · split at h <;> cases h
    · cases h
    · cases h
  · rcases leave_cases h with ⟨done, s, -, -, hpc⟩ | ⟨hpc, -⟩ <;> cases hpc
  · unfold unwind at h
    split at h
    · split at h
      · split at h
        · exact absurd (Prod.mk.inj (Option.some.inj h)).2 (stopped_ne_closing _)
        · cases h
      · exact absurd (Prod.mk.inj (Option.some.inj h)).2 (stopped_ne_closing _)
    · exact absurd (Prod.mk.inj (Option.some.inj h)).2 (stopped_ne_closing _)
    · cases h
  · rename_i r' k
    split at h
    · rename_i j' hcloses
      cases h
      exact ⟨k, rfl, rfl, hcloses, rfl⟩
    · exact absurd (Prod.mk.inj (Option.some.inj h)).2 handled_ne_closing
  · exact absurd (Prod.mk.inj (Option.some.inj h)).2 handled_ne_closing
  · cases h


end

/-! ## Runs -/

/-- A connection on its way to be closed. -/
structure Taken (s : Sys) (t : CallId) (j : SessionId) : Prop where
  known : j < s.shared.created
  uncached : s.shared.cached ≠ some j
  apart : (s.shared.conns j).failed = true ∨ ∀ u, u ≠ t → (s.pc u).uses ≠ some j

structure Inv (s : Sys) : Prop where
  sound : Sound s.shared
  calls : ∀ t, Local t s.shared (s.pc t)
  taken : ∀ t r j, s.pc t = .closing r j → Taken s t j

section

variable {s s' : Sys} {t u : CallId} {choice : Choice} {r : Run} {j k : SessionId}

theorem fits (h : Apart s (t, choice)) : Fits t s.shared (s.pc t) choice := by
  refine ⟨fun r k w st todo stop found hpc hc => ?_, fun r k w st todo hpc hc => ?_,
    fun r k hpc hc => ?_⟩
  all_goals
    subst hc
    unfold Apart at h
    rw [hpc] at h
    exact h

theorem Inv.keeps (h : Inv s) (hok : Apart s (t, choice)) (hn : next s (t, choice) = some s') :
    Kept t s.shared s'.shared (s'.pc t) :=
  advance_keeps h.sound (h.calls t) (fits hok) (fun r j hpc => (h.taken t r j hpc).known)
    (Interleaving.of_next hn).1

theorem failed_mono (hn : next s (t, choice) = some s') (hj : j < s.shared.created)
    (hfailed : (s.shared.conns j).failed = true) : (s'.shared.conns j).failed = true := by
  rcases advance_wears hj (Interleaving.of_next hn).1 with (hyes | ⟨hsame, -⟩) | ⟨r, -, hsame⟩
  · exact hyes
  · rw [hsame]
    exact hfailed
  · rw [hsame]
    exact hfailed

/-- Where another call takes a step, a connection on its way stays on its way. -/
theorem Taken.stable (h : Inv s) (ht : Taken s u j) (hu : u ≠ t) (hok : Apart s (t, choice))
    (hn : next s (t, choice) = some s') : Taken s' u j := by
  obtain ⟨hadv, hothers⟩ := Interleaving.of_next hn
  have hnew : j ≠ s.shared.created := ht.known.ne
  refine ⟨lt_of_lt_of_le ht.known (h.keeps hok hn).others.created, fun hcached => ?_, ?_⟩
  · rcases advance_cached hadv hcached with hold | heq
    · exact ht.uncached hold
    · exact hnew heq
  · rcases ht.apart with hfailed | hunused
    · exact .inl (failed_mono hn ht.known hfailed)
    · refine .inr fun v hv huses => ?_
      by_cases hvt : v = t
      · subst hvt
        rcases advance_uses hadv huses with hold | hcached | heq
        · exact hunused v hv hold
        · exact ht.uncached hcached
        · exact hnew heq
      · rw [hothers v hvt] at huses
        exact hunused v hv huses

theorem Taken.begins (h : Inv s) (hok : Apart s (t, choice)) (hn : next s (t, choice) = some s')
    (hpc : s'.pc t = .closing r j) : Taken s' t j := by
  obtain ⟨hadv, hothers⟩ := Interleaving.of_next hn
  rw [hpc] at hadv
  obtain ⟨k, hraised, rfl, hcloses, hshared⟩ := advance_closing hadv
  unfold Apart at hok
  rw [hraised] at hok
  refine ⟨?_, ?_, ?_⟩
  · rw [hshared]
    exact h.sound.cached j (closes_cached hcloses)
  · simp [hshared]
  · rw [hshared]
    rcases hok j hcloses with hfailed | hunused
    · exact .inl hfailed
    · refine .inr fun u hu => ?_
      rw [hothers u hu]
      exact hunused u hu

theorem Inv.step (h : Inv s) (hok : Apart s (t, choice)) (hn : next s (t, choice) = some s') :
    Inv s' := by
  have hkept := h.keeps hok hn
  have hothers := (Interleaving.of_next hn).2
  refine ⟨hkept.sound, fun u => ?_, fun u r j hpc => ?_⟩
  · by_cases hu : u = t
    · rw [hu]
      exact hkept.own
    · rw [hothers u hu]
      exact (h.calls u).stable hu hkept.sound hkept.others
  · by_cases hu : u = t
    · subst hu
      exact Taken.begins h hok hn hpc
    · rw [hothers u hu] at hpc
      exact (h.taken u r j hpc).stable h hu hok hn

theorem Inv.init : Inv Sys.init := by
  refine ⟨⟨fun _ => Savepoints.Single.opened, fun _ _ => rfl, ?_, ?_⟩, fun t => ?_, ?_⟩
  · rintro k ⟨⟩
  · intro j k l hl
    simp [Sys.init, Session.rows, Session.opened] at hl
  · refine ⟨?_, ?_, ?_, ?_, ⟨rfl, rfl⟩, ?_, fun _ => ⟨rfl, rfl⟩⟩
    · simp [Sys.init, Session.opened]
    · rintro k b ⟨⟩
    · rintro k o ⟨⟩
    · rintro k ⟨⟩
    · rintro ⟨⟩
  · rintro t r j ⟨⟩

theorem inv_of_reachable (h : Runs.Reachable next Apart Sys.init s) : Inv s :=
  h.invariant Inv.init fun _ _ _ _ hI hok hn => hI.step hok hn

theorem attempt_of_block {pc : Pc} {b : Bool} (h : pc.block = some (k, b)) : pc.attempt = some b ∧
    pc.uses = some k := by
  cases pc with
  | running r k w todo =>
    cases w with
    | within =>
      cases h
      exact ⟨rfl, rfl⟩
    | before | after => cases h
  | leaving | unwinding =>
    cases h
    exact ⟨rfl, rfl⟩
  | _ => cases h

theorem Current.over {x : Shared} {pc : Pc} (h : Current t x pc) (ha : pc.attempt = none) :
    Settled x ⟨t, pc.past⟩ := by
  cases pc with
  | idle | connecting => exact Blank.settled h
  | raised | closing | finished => exact h
  | _ => cases ha

/-- An attempt that is not under way has come to its end, or has not begun. -/
theorem Local.settled {x : Shared} {pc : Pc} {b : Bool} (h : Local t x pc)
    (hb : pc.attempt ≠ some b) : Settled x ⟨t, b⟩ := by
  by_cases hpast : pc.past = b
  · have ha : pc.attempt = none := by
      cases pc with
      | running | entering | leaving | unwinding => exact absurd (congrArg some hpast) hb
      | _ => rfl
    rw [← hpast]
    exact h.current.over ha
  · cases b with
    | true => exact (h.ahead (by simpa using hpast)).settled
    | false => exact h.past (by simpa using hpast)

theorem Inv.whole (h : Inv s) (a : Attempt) (ha : (s.pc a.call).attempt ≠ some a.retry) :
    Whole s.shared a := by
  refine ⟨fun k b hb e he heq => ?_, (h.calls a.call).settled ha⟩
  have howner : b.owner = a := ((h.sound.conns k).done b hb e he).symm.trans heq
  have hblock := (h.calls a.call).mine k b hb (congrArg Attempt.call howner)
  rw [howner] at hblock
  exact ha (attempt_of_block hblock).1

/-- The rows locked on a session are those of its one block. -/
theorem Inv.exclusive (h : Inv s) : Exclusive s.shared := by
  intro j k l hl l' hl' heq
  obtain rfl := h.sound.rows j k l hl l' hl' heq
  obtain ⟨b, hb, hlb⟩ := List.mem_flatMap.mp hl
  obtain ⟨b', hb', hlb'⟩ := List.mem_flatMap.mp hl'
  have hone := (h.sound.conns j).single b hb
  rw [hone] at hb'
  obtain rfl := List.mem_singleton.mp hb'
  rw [(h.sound.conns j).rows b' hb l hlb, (h.sound.conns j).rows b' hb l' hlb']

theorem Inv.keepsOthers (h : Inv s) (hok : Apart s (t, choice)) (hn : next s (t, choice) = some s') :
    KeepsOthers t s.shared s'.shared := by
  intro k b hb e he hother
  have hsingle := h.sound.conns k
  have howner : e.1 = b.owner := hsingle.done b hb e he
  have hlive : (s.shared.conns k).live = true := by
    by_contra hdead
    rw [(hsingle.dead (by simpa using hdead)).1] at hb
    cases hb
  have hlive' : (s.shared.conns k).failed = false ∧ (s.shared.conns k).closed = false := by
    simpa [Session.live] using hlive
  have hknown : k < s.shared.created := by
    by_contra hk
    rw [h.sound.fresh k (not_lt.mp hk)] at hb
    cases hb
  rcases (h.keeps hok hn).others.moves k with hsame | hdead | ⟨-, hown, -⟩
  · exact .inl ⟨b, hsame ▸ hb, he⟩
  · refine .inr (.inr ⟨hlive'.1, ?_⟩)
    rcases advance_wears hknown (Interleaving.of_next hn).1 with (hyes | ⟨hf, hc⟩) | ⟨r, hpc, -⟩
    · exact hyes
    · rw [Session.live, hf, hc] at hdead
      rw [Session.live, hdead] at hlive
      cases hlive
    · -- what is closed is not a connection another call has a block on
      rcases (h.taken t r k hpc).apart with hfailed | hunused
      · rw [hlive'.1] at hfailed
        cases hfailed
      · have hblock := (h.calls b.owner.call).mine k b hb rfl
        exact absurd (attempt_of_block hblock).2 (hunused _ (howner ▸ hother))
  · rw [howner] at hother
    exact absurd (hown b hb) hother

/-- Who has aborted a transaction in which no other call has a block. -/
theorem Inv.aborted_own (h : Inv s) (hout : Out t s.shared k) {o : Attempt}
    (ho : (s.shared.conns k).aborted = some o) : (s.pc t).block = some (k, o.retry) ∧ o.call = t := by
  obtain ⟨b, hb, rfl⟩ := (h.sound.conns k).aborted o ho
  exact ⟨(h.calls t).mine k b hb (hout b hb), hout b hb⟩

theorem Inv.failsAlone (h : Inv s) (hok : Apart s (t, choice)) :
    FailsAlone t choice s.shared (s.pc t) := by
  have hlocal := h.calls t
  unfold Apart at hok
  dsimp only at hok
  cases hpc : s.pc t with
  | running r k w todo =>
    cases todo with
    | nil => trivial
    | cons st todo =>
      cases choice with
      | fails =>
        rw [hpc] at hok
        intro hlive o ho
        obtain ⟨hblock, hcall⟩ := h.aborted_own (hok hlive) ho
        rw [hpc] at hblock
        have hretry : o.retry = r.retry := by
          cases w with
          | within => simpa [Pc.block] using hblock.symm
          | before | after => cases hblock
        cases o
        subst hcall hretry
        rfl
      | _ => trivial
  | entering r k =>
    cases choice with
    | fails =>
      rw [hpc] at hok
      intro hlive o ho
      obtain ⟨hblock, -⟩ := h.aborted_own (hok hlive) ho
      rw [hpc] at hblock
      cases hblock
    | _ => trivial
  | leaving r k =>
    cases choice with
    | go =>
      intro hlive
      rw [hpc] at hlocal
      obtain ⟨done, hcommit, hgood, -⟩ := hlocal.commits h.sound hlive
      exact ⟨hgood, by rw [hcommit]; rfl⟩
    | _ => trivial
  | unwinding r k stop =>
    cases choice with
    | go =>
      intro hlive
      rw [hpc] at hlocal
      obtain ⟨blk, hone, howner, -⟩ := hlocal.own_block h.sound rfl hlive
      rw [Savepoints.rollback_single hone howner]
      rfl
    | _ => trivial
  | _ => trivial

theorem Inv.isolated (h : Inv s) : Isolated Apart s where
  whole := h.whole
  exclusive := h.exclusive
  keeps _ _ hok hn := h.keepsOthers hok hn
  alone _ _ hok _ := h.failsAlone hok
  closes t := by
    unfold ClosesOwn
    split
    · rename_i r j hpc
      exact (h.taken t r j hpc).apart
    · trivial

/-- In every run whose calls are kept apart on the connections, no call mixes
with another. -/
theorem callsIsolated (h : Runs.Reachable next Apart Sys.init s) : Isolated Apart s :=
  (inv_of_reachable h).isolated

/-- A sweep on a new connection, over. -/
theorem callsIsolated_sweep : ∃ s : Sys, s.shared.committed = [(⟨0, false⟩, .sweepReservations)] ∧
    Isolated Apart s := by
  have hcall : Runs.Reachable next Apart Sys.init _ := .step (0, .call .sweep) .init trivial rfl
  have hconn : Runs.Reachable next Apart Sys.init _ := .step (0, .connects) hcall trivial rfl
  refine ⟨_, ?_, callsIsolated (.step (0, .runs none true) hconn ?_ rfl)⟩
  · rfl
  · intro _ b hb
    cases hb

/-- A reserve has its block open; the release of another call runs in it; the
reserve finds the quota exhausted. -/
def refusedReserve : List Act :=
  [(0, .call (.reserve "a" "acme")), (0, .connects), (0, .runs none false), (0, .go), (0, .go),
    (0, .runs none true), (0, .runs none false), (1, .call (.release "b")), (1, .go),
    (1, .runs none true), (0, .runs (some .answered) false)]

/-- The refused reserve undoes the other call's release. -/
theorem refused_undoes : ¬ CallsIsolated Runs.anyStep := by
  intro h
  have hrun : ((Runs.run next Runs.anyStep Sys.init refusedReserve).bind fun s =>
      (next s (0, .go)).map fun s' =>
        (s.shared.conns 0).blocks.any
            (fun b => decide (((⟨1, false⟩, .releaseReservation "b") : Entry) ∈ b.done)) &&
          (s'.shared.conns 0).blocks.isEmpty && s'.shared.committed.isEmpty &&
          !(s'.shared.conns 0).failed) = some true := by
    decide +kernel
  obtain ⟨s, s', hs, hn, hp⟩ := Runs.exists_step hrun
  simp only [Bool.and_eq_true, List.any_eq_true, decide_eq_true_eq, List.isEmpty_iff,
    Bool.not_eq_true'] at hp
  obtain ⟨⟨⟨⟨b, hb, he⟩, hnil⟩, hnone⟩, hlive⟩ := hp
  rcases (h s hs).keeps (0, .go) s' trivial hn 0 b hb _ he (by decide) with
    ⟨b', hb', -⟩ | hcommitted | ⟨-, hfailed⟩
  · rw [hnil] at hb'
    cases hb'
  · rw [hnone] at hcommitted
    cases hcommitted
  · rw [hlive] at hfailed
    cases hfailed

end

end MlopsLite.Gateway.BrokerConn
