import MlopsLite.Lib.Permits

/-!
# Tracing — the bounded exports of traces

`emit`, `_emit_sync` and `_ensure_mlflow` (`gateway/app/tracing.py`) for any number of
concurrent calls. A call that gets a permit goes on as its daemon thread; the first ones
to come connect to the tracking server, under the lock and at most every 30 s. A section is
one access to what the threads share. The clock's readings, in seconds, are exact.
-/

namespace MlopsLite.Gateway.Tracing

open Interleaving (Counted Permits)

abbrev CallId := ℕ

abbrev ExperimentId := String

abbrev Payload := String

abbrev Attributes := List (String × String)

def maxConcurrentExports : ℕ := 2

def initRetrySec : ℚ := 30

/-- `_ENABLED` and `_CAPTURE_IO`. -/
structure Config where
  enabled : Bool
  captureIo : Bool

/-- What `emit` is called with. -/
structure Trace where
  name : String
  inputs : Option Payload
  outputs : Option Payload
  attributes : Option Attributes
  startNs : ℤ
  endNs : ℤ
  status : String
  deriving DecidableEq

/-- What `span.end` was given. -/
structure SpanEnd where
  outputs : Option Payload
  status : String
  endTimeNs : ℤ
  deriving DecidableEq

/-- A span of the tracking server, by the call that started it. -/
structure Span where
  call : CallId
  name : String
  inputs : Option Payload
  attributes : Attributes
  experimentId : Option ExperimentId
  startTimeNs : ℤ
  ended : Option SpanEnd
  deriving DecidableEq

structure Shared where
  /-- the value of `_export_sem` -/
  permits : ℕ
  /-- `_mlflow is not None` -/
  mlflow : Bool
  experimentId : Option ExperimentId
  /-- who is in `_init_lock` -/
  initLock : Option CallId
  lastInitMonotonic : ℚ
  /-- the last reading of `time.monotonic` -/
  clock : ℚ
  spans : List Span
  /-- when each attempt to connect began -/
  attempts : List ℚ
  /-- the answers of `set_experiment` -/
  connected : List ExperimentId

/-- Where a thread is in `_ensure_mlflow` and after it: at the first look at `_mlflow` and
the return of what it saw; at the lock; inside it at the second look, the return, the
clock, the connection, the write of the module or of `None`, and the way out with or
without something to return; at the last read; back in `_emit_sync` with what was
returned; about to start the span with what it read as the experiment, and to end it. -/
inductive At
  | look
  | found
  | enter
  | relook
  | foundInside
  | decide
  | connect
  | publish
  | abandon
  | leave (returns : Option Bool)
  | reread
  | got (mlflow : Bool)
  | start (experimentId : Option ExperimentId)
  | finish
  deriving DecidableEq

inductive Outcome
  | disabled
  | dropped
  | unscheduled
  | notReady
  | exported
  | failed
  deriving DecidableEq

/-- `overReleased`: the semaphore raised. -/
inductive Pc
  | idle
  | acquire (t : Trace)
  | spawn (t : Trace)
  | worker (t : Trace) (place : At)
  | release (t : Trace) (o : Outcome)
  | done (t : Trace) (o : Outcome)
  | overReleased
  deriving DecidableEq

/-- What a section leaves open: the call, the clock, the server's answer, a failure. -/
inductive Choice
  | go
  | call (t : Trace)
  | clock (now : ℚ)
  | connected (id : ExperimentId)
  | raises

namespace Shared

/-- `_last_init_monotonic and (now - _last_init_monotonic) < _INIT_RETRY_SEC`. -/
def throttled (x : Shared) (now : ℚ) : Prop :=
  x.lastInitMonotonic ≠ 0 ∧ now - x.lastInitMonotonic < initRetrySec

instance (x : Shared) (now : ℚ) : Decidable (x.throttled now) :=
  inferInstanceAs (Decidable (_ ∧ _))

def attempt (x : Shared) (now : ℚ) : Shared :=
  { x with clock := now, lastInitMonotonic := now, attempts := x.attempts ++ [now] }

def spansOf (x : Shared) (u : CallId) : List Span := x.spans.filter fun p => p.call = u

end Shared

/-- `start_span_no_context`. -/
def spanOf (cfg : Config) (u : CallId) (t : Trace) (id : Option ExperimentId) : Span where
  call := u
  name := t.name
  inputs := if cfg.captureIo then t.inputs else none
  attributes := t.attributes.getD []
  experimentId := id
  startTimeNs := t.startNs
  ended := none

def endOf (cfg : Config) (t : Trace) : SpanEnd where
  outputs := if cfg.captureIo then t.outputs else none
  status := t.status
  endTimeNs := t.endNs

def Span.finished (cfg : Config) (t : Trace) (p : Span) : Span :=
  { p with ended := some (endOf cfg t) }

/-- One section of `_ensure_mlflow` on the thread of the call `u`. -/
def ensureMlflow (cfg : Config) (u : CallId) (x : Shared) : At → Choice → Option (Shared × At)
  | .look, .go =>
      some (x, if x.mlflow then .found else if cfg.enabled then .enter else .got false)
  | .found, .go => some (x, .got x.mlflow)
  | .enter, .go => if x.initLock = none then some ({ x with initLock := some u }, .relook) else none
  | .relook, .go => some (x, if x.mlflow then .foundInside else .decide)
  | .foundInside, .go => some (x, .leave (some x.mlflow))
  | .decide, .clock now =>
      if now < x.clock then none
      else if x.throttled now then some ({ x with clock := now }, .leave (some false))
      else some (x.attempt now, .connect)
  | .connect, .connected id =>
      some ({ x with experimentId := some id, connected := x.connected ++ [id] }, .publish)
  | .connect, .raises => some (x, .abandon)
  | .publish, .go => some ({ x with mlflow := true }, .leave none)
  | .abandon, .go => some ({ x with mlflow := false }, .leave none)
  | .leave r, .go => some ({ x with initLock := none }, r.elim .reread .got)
  | .reread, .go => some (x, .got x.mlflow)
  | _, _ => none

/-- One section of `_emit_sync`; whatever it comes to, the permit is given back. -/
def emitSync (cfg : Config) (u : CallId) (t : Trace) (x : Shared) :
    At → Choice → Option (Shared × Pc)
  | .got false, .go => some (x, .release t .notReady)
  | .got true, .go => some (x, .worker t (.start x.experimentId))
  | .start id, .go => some ({ x with spans := x.spans ++ [spanOf cfg u t id] }, .worker t .finish)
  | .start _, .raises => some (x, .release t .failed)
  | .finish, .go =>
      some ({ x with
        spans := x.spans.map fun p => if p.call = u then p.finished cfg t else p },
        .release t .exported)
  | .finish, .raises => some (x, .release t .failed)
  | k, c => (ensureMlflow cfg u x k c).map fun r => (r.1, .worker t r.2)

/-- One section of `emit` or of its thread. A thread that cannot be started gives its
permit back like one that has ended. -/
def advance (cfg : Config) : Interleaving.Program CallId Shared Pc Choice := fun u c x k =>
  match k, c with
  | .idle, .call t => some (x, if cfg.enabled then .acquire t else .done t .disabled)
  | .acquire t, .go =>
      if x.permits = 0 then some (x, .done t .dropped)
      else some ({ x with permits := x.permits - 1 }, .spawn t)
  | .spawn t, .go => some (x, .worker t .look)
  | .spawn t, .raises => some (x, .release t .unscheduled)
  | .worker t k, c => emitSync cfg u t x k c
  | .release t o, .go =>
      if x.permits < maxConcurrentExports then
        some ({ x with permits := x.permits + 1 }, .done t o)
      else some (x, .overReleased)
  | _, _ => none

abbrev Sys := Interleaving.State CallId Shared Pc

abbrev Act := CallId × Choice

abbrev next (cfg : Config) : Sys → Act → Option Sys := Interleaving.next (advance cfg)

/-- `start`: what the clock shows at first. -/
def Sys.init (start : ℚ) : Sys :=
  ⟨⟨maxConcurrentExports, false, none, none, 0, start, [], [], []⟩, fun _ => .idle⟩

abbrev Reachable (cfg : Config) (start : ℚ) : Sys → Prop :=
  Runs.Reachable (next cfg) Runs.anyStep (.init start)

/-! ## What holds of a run -/

/-- Inside the section of `_init_lock`. -/
def At.inside : At → Prop
  | .relook | .foundInside | .decide | .connect | .publish | .abandon | .leave _ => True
  | .look | .found | .enter | .reread | .got _ | .start _ | .finish => False

namespace Pc

def inside : Pc → Prop
  | .worker _ k => k.inside
  | .idle | .acquire _ | .spawn _ | .release .. | .done .. | .overReleased => False

/-- Has a permit of `_export_sem`. -/
def holds : Pc → Prop
  | .spawn _ | .worker .. | .release .. => True
  | .idle | .acquire _ | .done .. | .overReleased => False

/-- `emit` has been called and its thread, if any, has not ended. -/
def unfinished : Pc → Prop
  | .acquire _ | .spawn _ | .worker .. | .release .. => True
  | .idle | .done .. | .overReleased => False

end Pc

/-- The spans of the call `u`: one for the experiment that `set_experiment` has named once
it has been started, ended if the export came through, and none before. -/
def Reported (cfg : Config) (u : CallId) (x : Shared) : Pc → Prop
  | .worker t .finish => ∃ e, x.connected = [e] ∧ x.spansOf u = [spanOf cfg u t (some e)]
  | .release t .exported | .done t .exported =>
      ∃ e, x.connected = [e] ∧ x.spansOf u = [(spanOf cfg u t (some e)).finished cfg t]
  | .release t .failed | .done t .failed =>
      x.spansOf u = [] ∨ ∃ e, x.connected = [e] ∧ x.spansOf u = [spanOf cfg u t (some e)]
  | .idle | .acquire _ | .spawn _ | .worker .. | .release .. | .done .. | .overReleased =>
      x.spansOf u = []

/-- The thread of `u` has a section it can run. -/
def Moves (cfg : Config) (s : Sys) (u : CallId) : Prop := ∃ c s', next cfg s (u, c) = some s'

/-- What a thread knows of the connection by where it is. -/
def Knows (x : Shared) : At → Prop
  | .found | .foundInside | .got true | .leave (some true) => x.mlflow = true
  | .relook => x.mlflow = false → x.connected = []
  | .decide | .connect | .abandon | .leave (some false) => x.mlflow = false ∧ x.connected = []
  | .publish => x.mlflow = false ∧ ∃ e, x.experimentId = some e ∧ x.connected = [e]
  | .leave none => x.mlflow = false → x.connected = []
  | .start id => ∃ e, id = some e ∧ x.connected = [e]
  | .look | .enter | .reread | .got false | .finish => True

/-- And that the semaphore has not raised. -/
def Pc.Knows (x : Shared) : Pc → Prop
  | .worker _ k => Tracing.Knows x k
  | .idle | .acquire _ | .spawn _ | .release .. | .done .. => True
  | .overReleased => False

/-- The connection and the attempts at it. -/
structure Connection (x : Shared) : Prop where
  ready : x.mlflow = true → ∃ e, x.experimentId = some e ∧ x.connected = [e]
  blank : x.initLock = none → x.mlflow = false → x.connected = []
  single : x.connected.length ≤ 1
  last : x.lastInitMonotonic = x.attempts.getLast?.getD 0
  clocked : ∀ a ∈ x.attempts, a ≤ x.clock
  paced : x.attempts.Pairwise fun a b => a ≠ 0 → a + initRetrySec ≤ b

structure Local (cfg : Config) (u : CallId) (x : Shared) (k : Pc) : Prop where
  inside : k.inside ↔ x.initLock = some u
  knows : k.Knows x
  reported : Reported cfg u x k

/-- What a section of `u` leaves to the others. -/
structure Leaves (u : CallId) (x y : Shared) : Prop where
  lock : ∀ v, v ≠ u → (y.initLock = some v ↔ x.initLock = some v)
  others : ∀ v, v ≠ u → x.initLock = some v →
    y.mlflow = x.mlflow ∧ y.experimentId = x.experimentId ∧ y.connected = x.connected
  ready : x.mlflow = true → y.mlflow = true ∧ y.experimentId = x.experimentId ∧
    y.connected = x.connected ∧ y.attempts = x.attempts
  connected : ∀ e, x.connected = [e] → y.connected = [e]
  spans : ∀ v, v ≠ u → y.spansOf v = x.spansOf v

variable {cfg : Config} {u v : CallId} {t : Trace} {x y : Shared} {k k' : At} {c : Choice}

theorem Leaves.of_same (lock : y.initLock = x.initLock) (mlflow : y.mlflow = x.mlflow)
    (id : y.experimentId = x.experimentId) (connected : y.connected = x.connected)
    (attempts : y.attempts = x.attempts) (spans : ∀ v, v ≠ u → y.spansOf v = x.spansOf v) :
    Leaves u x y where
  lock v _ := by rw [lock]
  others v _ _ := ⟨mlflow, id, connected⟩
  ready h := ⟨by rw [mlflow, h], id, connected, attempts⟩
  connected e h := by rw [connected, h]
  spans := spans

theorem Leaves.refl : Leaves u x x := .of_same rfl rfl rfl rfl rfl fun _ _ => rfl

/-- Who is in the lock writes to the connection as long as there is none. -/
theorem Leaves.of_inside (hin : x.initLock = some u) (lock : y.initLock = x.initLock)
    (hoff : x.mlflow = false) (connected : ∀ e, x.connected = [e] → y.connected = [e])
    (spans : y.spans = x.spans) : Leaves u x y where
  lock v _ := by rw [lock]
  others v hv h := by
    rw [hin] at h
    exact absurd (Option.some.inj h).symm hv
  ready h := by
    rw [hoff] at h
    cases h
  connected := connected
  spans v _ := by simp [Shared.spansOf, spans]

theorem Local.stable {k : Pc} (h : Local cfg v x k) (hl : Leaves u x y) (hv : v ≠ u) :
    Local cfg v y k := by
  have hin : k.inside ↔ y.initLock = some v := h.inside.trans (hl.lock v hv).symm
  have hspans : y.spansOf v = x.spansOf v := hl.spans v hv
  refine ⟨hin, ?_, ?_⟩
  · cases k with
    | worker t k =>
      have hknows : Knows x k := h.knows
      show Knows y k
      by_cases hi : k.inside
      · -- in the lock: nobody else has written to the connection
        obtain ⟨hm, hid, hc⟩ := hl.others v hv (h.inside.mp hi)
        cases k <;> simp only [At.inside] at hi <;> simpa [Knows, hm, hid, hc] using hknows
      · cases k with
        | found => exact (hl.ready hknows).1
        | got b =>
          cases b with
          | false => trivial
          | true => exact (hl.ready hknows).1
        | start id =>
          obtain ⟨e, hid, hc⟩ := hknows
          exact ⟨e, hid, hl.connected e hc⟩
        | look | enter | reread | finish => trivial
        | relook | foundInside | decide | connect | publish | abandon | leave _ =>
          exact absurd trivial hi
    | idle | acquire | spawn | release | done => trivial
    | overReleased => exact h.knows
  · have hr := h.reported
    cases k with
    | worker t k =>
      cases k with
      | finish =>
        obtain ⟨e, hc, hs⟩ := hr
        exact ⟨e, hl.connected e hc, hspans.trans hs⟩
      | _ => exact hspans.trans hr
    | release t o | done t o =>
      cases o with
      | exported =>
        obtain ⟨e, hc, hs⟩ := hr
        exact ⟨e, hl.connected e hc, hspans.trans hs⟩
      | failed =>
        rcases hr with hs | ⟨e, hc, hs⟩
        · exact .inl (hspans.trans hs)
        · exact .inr ⟨e, hl.connected e hc, hspans.trans hs⟩
      | _ => exact hspans.trans hr
    | idle | acquire | spawn | overReleased => exact hspans.trans hr

/-! ## The sections of `_ensure_mlflow` -/

/-- What a section of `_ensure_mlflow` keeps. -/
structure Ensures (u : CallId) (x : Shared) (k : At) (y : Shared) (k' : At) : Prop where
  connection : Connection y
  inside : k'.inside ↔ y.initLock = some u
  knows : Knows y k'
  leaves : Leaves u x y
  permits : y.permits = x.permits
  spans : y.spans = x.spans
  before : k ≠ .finish
  after : k' ≠ .finish

/-- A section that only looks. -/
theorem Ensures.looks (hG : Connection x) (hk : k.inside ↔ x.initLock = some u)
    (hsame : k'.inside ↔ k.inside) (hx : Knows x k') (before : k ≠ .finish)
    (after : k' ≠ .finish) : Ensures u x k x k' :=
  ⟨hG, hsame.trans hk, hx, .refl, rfl, rfl, before, after⟩

/-- The reading of the clock inside the lock. -/
theorem Connection.read (hG : Connection x) {now : ℚ} (hnow : x.clock ≤ now) :
    Connection { x with clock := now } :=
  { hG with clocked := fun a ha => (hG.clocked a ha).trans hnow }

theorem Connection.le_last (hG : Connection x) {a : ℚ} (ha : a ∈ x.attempts) (hne : a ≠ 0) :
    a = x.lastInitMonotonic ∨ a + initRetrySec ≤ x.lastInitMonotonic := by
  obtain ⟨l, b, hl⟩ := List.eq_nil_or_concat x.attempts |>.resolve_left (List.ne_nil_of_mem ha)
  have hlast : x.lastInitMonotonic = b := by
    rw [hG.last, hl]
    simp
  have hp := hG.paced
  rw [hl] at ha hp
  simp only [List.concat_eq_append, List.pairwise_append, List.mem_append,
    List.mem_singleton] at ha hp
  rw [hlast]
  rcases ha with ha | rfl
  · exact .inr (hp.2.2 a ha b rfl hne)
  · exact .inl rfl

/-- An attempt that the clock lets through. -/
theorem Connection.attempt (hG : Connection x) {now : ℚ} (hnow : x.clock ≤ now)
    (hgo : ¬ x.throttled now) : Connection (x.attempt now) := by
  have hlate : ∀ a ∈ x.attempts, a ≠ 0 → a + initRetrySec ≤ now := by
    intro a ha hne
    rcases hG.le_last ha hne with heq | hle
    · have hthrough : ¬ now - x.lastInitMonotonic < initRetrySec := by
        intro hlt
        apply hgo
        refine ⟨?_, hlt⟩
        rw [← heq]
        exact hne
      rw [← heq] at hthrough
      linarith
    · have hmem : x.lastInitMonotonic ∈ x.attempts := by
        rw [hG.last]
        obtain ⟨l, b, hl⟩ :=
          List.eq_nil_or_concat x.attempts |>.resolve_left (List.ne_nil_of_mem ha)
        rw [hl]
        simp
      have hle' := hG.clocked _ hmem
      linarith
  refine ⟨hG.ready, hG.blank, hG.single, ?_, ?_, ?_⟩
  · simp [Shared.attempt]
  · intro a ha
    show a ≤ now
    rcases List.mem_append.mp ha with ha | ha
    · exact (hG.clocked a ha).trans hnow
    · rw [List.mem_singleton.mp ha]
  · show (x.attempts ++ [now]).Pairwise _
    rw [List.pairwise_append]
    refine ⟨hG.paced, List.pairwise_singleton _ _, ?_⟩
    intro a ha b hb hne
    rw [List.mem_singleton.mp hb]
    exact hlate a ha hne

theorem ensureMlflow_spec (hG : Connection x) (hk : k.inside ↔ x.initLock = some u)
    (hx : Knows x k) (h : ensureMlflow cfg u x k c = some (y, k')) : Ensures u x k y k' := by
  cases k with
  | look =>
    cases c <;> simp only [ensureMlflow, reduceCtorEq] at h
    cases h
    split
    · rename_i hm
      exact .looks hG hk Iff.rfl hm nofun nofun
    · split
      · exact .looks hG hk Iff.rfl trivial nofun nofun
      · exact .looks hG hk Iff.rfl trivial nofun nofun
  | found =>
    cases c <;> simp only [ensureMlflow, reduceCtorEq] at h
    cases h
    have hm : x.mlflow = true := hx
    rw [hm]
    exact .looks hG hk Iff.rfl hm nofun nofun
  | enter =>
    cases c <;> simp only [ensureMlflow, reduceCtorEq] at h
    split at h
    · rename_i hfree
      cases h
      refine ⟨{ hG with blank := nofun }, by simp [At.inside], hG.blank hfree, ?_, rfl, rfl,
        nofun, nofun⟩
      refine ⟨fun v hv => ?_, fun _ _ _ => ⟨rfl, rfl, rfl⟩, fun h => ⟨h, rfl, rfl, rfl⟩,
        fun _ h => h, fun _ _ => rfl⟩
      simp [hfree, Ne.symm hv]
    · cases h
  | relook =>
    cases c <;> simp only [ensureMlflow, reduceCtorEq] at h
    cases h
    split
    · rename_i hm
      exact .looks hG hk Iff.rfl hm nofun nofun
    · rename_i hm
      have hoff : x.mlflow = false := by simpa using hm
      exact .looks hG hk Iff.rfl ⟨hoff, hx hoff⟩ nofun nofun
  | foundInside =>
    cases c <;> simp only [ensureMlflow, reduceCtorEq] at h
    cases h
    have hm : x.mlflow = true := hx
    rw [hm]
    exact .looks hG hk Iff.rfl hm nofun nofun
  | decide =>
    obtain ⟨hoff, hnone⟩ := hx
    have hin : x.initLock = some u := hk.mp trivial
    cases c <;> simp only [ensureMlflow, reduceCtorEq] at h
    rename_i now
    split at h
    · cases h
    · rename_i hnow
      have hlater : x.clock ≤ now := le_of_not_gt hnow
      split at h
      · cases h
        refine ⟨hG.read hlater, hk, ⟨hoff, hnone⟩, ?_, rfl, rfl, nofun, nofun⟩
        exact .of_same rfl rfl rfl rfl rfl fun _ _ => rfl
      · rename_i hgo
        cases h
        refine ⟨hG.attempt hlater hgo, hk, ⟨hoff, hnone⟩, ?_, rfl, rfl, nofun, nofun⟩
        exact .of_inside hin rfl hoff (fun _ h => h) rfl
  | connect =>
    obtain ⟨hoff, hnone⟩ := hx
    have hin : x.initLock = some u := hk.mp trivial
    cases c <;> simp only [ensureMlflow, reduceCtorEq] at h
    case connected id =>
      cases h
      have hone : x.connected ++ [id] = [id] := by rw [hnone, List.nil_append]
      refine ⟨?_, hk, ⟨hoff, id, rfl, hone⟩, ?_, rfl, rfl, nofun, nofun⟩
      · refine { hG with ready := ?_, blank := ?_, single := ?_ }
        · intro h
          rw [hoff] at h
          cases h
        · intro h
          rw [hin] at h
          cases h
        · show (x.connected ++ [id]).length ≤ 1
          rw [hone]
          exact le_rfl
      · refine .of_inside hin rfl hoff (fun e h => ?_) rfl
        rw [hnone] at h
        cases h
    case raises =>
      cases h
      exact .looks hG hk Iff.rfl ⟨hoff, hnone⟩ nofun nofun
  | publish =>
    obtain ⟨hoff, e, hid, hc⟩ := hx
    have hin : x.initLock = some u := hk.mp trivial
    cases c <;> simp only [ensureMlflow, reduceCtorEq] at h
    cases h
    refine ⟨?_, hk, nofun, ?_, rfl, rfl, nofun, nofun⟩
    · exact { hG with ready := fun _ => ⟨e, hid, hc⟩, blank := nofun }
    · exact .of_inside hin rfl hoff (fun _ h => h) rfl
  | abandon =>
    obtain ⟨hoff, hnone⟩ := hx
    have hin : x.initLock = some u := hk.mp trivial
    cases c <;> simp only [ensureMlflow, reduceCtorEq] at h
    cases h
    refine ⟨?_, hk, fun _ => hnone, ?_, rfl, rfl, nofun, nofun⟩
    · exact { hG with ready := nofun, blank := fun _ _ => hnone }
    · exact .of_inside hin rfl hoff (fun _ h => h) rfl
  | leave r =>
    have hin : x.initLock = some u := hk.mp trivial
    cases c <;> simp only [ensureMlflow, reduceCtorEq] at h
    cases h
    have hblank : x.mlflow = false → x.connected = [] := by
      intro hoff
      cases r with
      | none => exact hx hoff
      | some b =>
        cases b with
        | false => exact hx.2
        | true =>
          have hm : x.mlflow = true := hx
          rw [hoff] at hm
          cases hm
    have hleaves : Leaves u x { x with initLock := none } := by
      refine ⟨fun v hv => ?_, fun _ _ _ => ⟨rfl, rfl, rfl⟩, fun h => ⟨h, rfl, rfl, rfl⟩,
        fun _ h => h, fun _ _ => rfl⟩
      simp [hin, Ne.symm hv]
    have hopen : Connection { x with initLock := none } := { hG with blank := fun _ => hblank }
    cases r with
    | none => exact ⟨hopen, by simp [At.inside], trivial, hleaves, rfl, rfl, nofun, nofun⟩
    | some b =>
      cases b with
      | false => exact ⟨hopen, by simp [At.inside], trivial, hleaves, rfl, rfl, nofun, nofun⟩
      | true => exact ⟨hopen, by simp [At.inside], hx, hleaves, rfl, rfl, nofun, nofun⟩
  | reread =>
    cases c <;> simp only [ensureMlflow, reduceCtorEq] at h
    cases h
    cases hm : x.mlflow with
    | false => exact .looks hG hk Iff.rfl trivial nofun nofun
    | true => exact .looks hG hk Iff.rfl hm nofun nofun
  | got b => simp [ensureMlflow] at h
  | start id => simp [ensureMlflow] at h
  | finish => simp [ensureMlflow] at h

/-! ## The spans of a call -/

theorem spansOf_started (x : Shared) (id : Option ExperimentId) (v : CallId) :
    Shared.spansOf { x with spans := x.spans ++ [spanOf cfg u t id] } v =
      if v = u then x.spansOf v ++ [spanOf cfg u t id] else x.spansOf v := by
  show (x.spans ++ [spanOf cfg u t id]).filter _ = _
  rw [List.filter_append]
  by_cases hv : v = u
  · simp [hv, Shared.spansOf, spanOf]
  · simp [hv, Shared.spansOf, spanOf, Ne.symm hv]

theorem spansOf_ended (x : Shared) (v : CallId) :
    Shared.spansOf { x with
      spans := x.spans.map fun p => if p.call = u then p.finished cfg t else p } v =
      if v = u then (x.spansOf v).map (Span.finished cfg t) else x.spansOf v := by
  show (x.spans.map _).filter _ = _
  rw [List.filter_map]
  have hcall : ∀ p : Span, (if p.call = u then p.finished cfg t else p).call = p.call := by
    intro p
    split <;> rfl
  have hsame : ((fun p : Span => decide (p.call = v)) ∘
      fun p => if p.call = u then p.finished cfg t else p) = fun p => decide (p.call = v) := by
    funext p
    simp only [Function.comp_apply, hcall]
  rw [hsame]
  show (x.spansOf v).map _ = _
  split
  · rename_i hv
    apply List.map_congr_left
    intro p hp
    have hpu : p.call = u := by simpa [hv, Shared.spansOf] using (List.mem_filter.mp hp).2
    rw [if_pos hpu]
  · rename_i hv
    refine (List.map_congr_left fun p hp => ?_).trans (List.map_id _)
    have hpv : p.call = v := by simpa using (List.mem_filter.mp hp).2
    rw [if_neg (by rw [hpv]; exact hv)]
    rfl

theorem reported_worker (hk : k ≠ .finish) :
    Reported cfg u x (.worker t k) ↔ x.spansOf u = [] := by
  cases k <;> first | exact Iff.rfl | exact absurd rfl hk

theorem Local.outside {p p' : Pc} (h : Local cfg u x p) (hp : ¬ p.inside) (hp' : ¬ p'.inside) :
    p'.inside ↔ x.initLock = some u :=
  ⟨fun hi => absurd hi hp', fun hl => absurd (h.inside.mpr hl) hp⟩

/-! ## One section -/

/-- What a section of a call keeps. -/
structure Section (cfg : Config) (u : CallId) (x : Shared) (k : Pc) (y : Shared) (k' : Pc) :
    Prop where
  connection : Connection y
  own : Local cfg u y k'
  leaves : Leaves u x y
  permits : Permits Shared.permits Pc.holds x k y k'

/-- A section outside the lock that moves the thread on. -/
theorem Section.moves {p p' : Pc} (hG : Connection x) (hL : Local cfg u x p) (hp : ¬ p.inside)
    (hp' : ¬ p'.inside) (hknows : p'.Knows x) (hr : Reported cfg u x p')
    (hh : p'.holds ↔ p.holds) : Section cfg u x p x p' :=
  ⟨hG, ⟨hL.outside hp hp', hknows, hr⟩, .refl, .inl ⟨hh, rfl⟩⟩

theorem emitSync_spec {k' : Pc} (hG : Connection x) (hL : Local cfg u x (.worker t k))
    (h : emitSync cfg u t x k c = some (y, k')) : Section cfg u x (.worker t k) y k' := by
  have hens : ∀ r, ensureMlflow cfg u x k c = some r →
      Section cfg u x (.worker t k) r.1 (.worker t r.2) := by
    intro r hr
    have he := ensureMlflow_spec hG hL.inside hL.knows hr
    refine ⟨he.connection, ⟨he.inside, he.knows, (reported_worker he.after).mpr ?_⟩, he.leaves,
      .inl ⟨Iff.rfl, he.permits⟩⟩
    show r.1.spans.filter _ = []
    rw [he.spans]
    exact (reported_worker he.before).mp hL.reported
  cases k with
  | got b =>
    cases b <;> cases c <;>
      simp only [emitSync, ensureMlflow, Option.map_none, reduceCtorEq] at h
    · cases h
      exact .moves hG hL id id trivial hL.reported Iff.rfl
    · cases h
      obtain ⟨e, hid, hc⟩ := hG.ready hL.knows
      exact .moves hG hL id id ⟨e, hid, hc⟩ hL.reported Iff.rfl
  | start id =>
    obtain ⟨e, rfl, hc⟩ := hL.knows
    have hnone : x.spansOf u = [] := hL.reported
    cases c <;> simp only [emitSync, ensureMlflow, Option.map_none, reduceCtorEq] at h
    · cases h
      refine ⟨{ hG with }, ⟨hL.outside id id, trivial, e, hc, ?_⟩, ?_, .inl ⟨Iff.rfl, rfl⟩⟩
      · rw [spansOf_started, if_pos rfl, hnone, List.nil_append]
      · refine .of_same rfl rfl rfl rfl rfl fun v hv => ?_
        rw [spansOf_started, if_neg hv]
    · cases h
      exact .moves hG hL id id trivial (.inl hnone) Iff.rfl
  | finish =>
    obtain ⟨e, hc, hs⟩ := hL.reported
    cases c <;> simp only [emitSync, ensureMlflow, Option.map_none, reduceCtorEq] at h
    · cases h
      refine ⟨{ hG with }, ⟨hL.outside id id, trivial, e, hc, ?_⟩, ?_, .inl ⟨Iff.rfl, rfl⟩⟩
      · rw [spansOf_ended, if_pos rfl, hs, List.map_singleton]
      · refine .of_same rfl rfl rfl rfl rfl fun v hv => ?_
        rw [spansOf_ended, if_neg hv]
    · cases h
      exact .moves hG hL id id trivial (.inr ⟨e, hc, hs⟩) Iff.rfl
  | _ =>
    obtain ⟨r, hr, hy⟩ := Option.map_eq_some_iff.mp h
    cases hy
    exact hens r hr

theorem advance_spec {k k' : Pc} (hG : Connection x) (hL : Local cfg u x k)
    (hroom : k.holds → x.permits < maxConcurrentExports)
    (h : advance cfg u c x k = some (y, k')) : Section cfg u x k y k' := by
  cases k with
  | idle =>
    cases c <;> simp only [advance, reduceCtorEq] at h
    cases h
    split
    · exact .moves hG hL id id trivial hL.reported Iff.rfl
    · exact .moves hG hL id id trivial hL.reported Iff.rfl
  | acquire t =>
    cases c <;> simp only [advance, reduceCtorEq] at h
    split at h
    · cases h
      exact .moves hG hL id id trivial hL.reported Iff.rfl
    · rename_i hpos
      cases h
      refine ⟨{ hG with }, ⟨hL.outside id id, trivial, hL.reported⟩,
        .of_same rfl rfl rfl rfl rfl fun _ _ => rfl, .inr (.inl ⟨id, trivial, ?_⟩)⟩
      show x.permits = x.permits - 1 + 1
      omega
  | spawn t =>
    cases c <;> simp only [advance, reduceCtorEq] at h
    · cases h
      exact .moves hG hL id id trivial hL.reported Iff.rfl
    · cases h
      exact .moves hG hL id id trivial hL.reported Iff.rfl
  | worker t k => exact emitSync_spec hG hL h
  | release t o =>
    cases c <;> simp only [advance, reduceCtorEq] at h
    split at h
    · cases h
      have hr : Reported cfg u x (.done t o) := by cases o <;> exact hL.reported
      exact ⟨{ hG with }, ⟨hL.outside id id, trivial, hr⟩,
        .of_same rfl rfl rfl rfl rfl fun _ _ => rfl, .inr (.inr ⟨trivial, id, rfl⟩)⟩
    · rename_i hfull
      exact absurd (hroom trivial) hfull
  | done t o => simp [advance] at h
  | overReleased => simp [advance] at h

/-! ## Every run -/

/-- Assertions of every reachable state. -/
structure Inv (cfg : Config) (s : Sys) : Prop where
  holds : Interleaving.Holds Connection (Local cfg) s
  counted : Counted Shared.permits Pc.holds maxConcurrentExports s

theorem inv_init (start : ℚ) : Inv cfg (.init start) where
  holds := by
    refine ⟨⟨nofun, fun _ _ => rfl, by simp [Sys.init], rfl, ?_, List.Pairwise.nil⟩, ?_⟩
    · intro a ha
      cases ha
    · intro u
      refine ⟨⟨?_, nofun⟩, trivial, rfl⟩
      intro h
      exact h.elim
  counted := Interleaving.counted_init (fun _ h => h) rfl

theorem Inv.next {s s' : Sys} (h : Inv cfg s) (hn : next cfg s (u, c) = some s') : Inv cfg s' := by
  have hsec : ∀ x k, advance cfg u c s.shared (s.pc u) = some (x, k) →
      Section cfg u s.shared (s.pc u) x k := fun x k ha =>
    advance_spec h.holds.global (h.holds.thread u) h.counted.free_lt ha
  refine ⟨h.holds.next hn ?_ ?_, h.counted.next hn fun x k ha => (hsec x k ha).permits⟩
  · intro x k ha
    exact ⟨(hsec x k ha).connection, (hsec x k ha).own⟩
  · intro x k ha v hv hL
    exact hL.stable (hsec x k ha).leaves hv

theorem inv_of_reachable {start : ℚ} {s : Sys} (h : Reachable cfg start s) : Inv cfg s :=
  h.invariant (inv_init start) fun _ _ _ _ hI _ hn => hI.next hn

theorem Inv.released {s : Sys} (h : Inv cfg s) (u : CallId) : s.pc u ≠ .overReleased := by
  intro hu
  have hk := (h.holds.thread u).knows
  rw [hu] at hk
  exact hk

/-- Inside the lock there is always a section to run. -/
theorem moves_inside {s : Sys} (hp : (s.pc u).inside) : Moves cfg s u := by
  cases hpc : s.pc u with
  | worker t k =>
    rw [hpc] at hp
    have hrun : ∀ c x p, emitSync cfg u t s.shared k c = some (x, p) → Moves cfg s u := by
      intro c x p h
      refine ⟨c, _, Interleaving.next_eq_some.mpr ⟨x, p, ?_, rfl⟩⟩
      rw [hpc]
      exact h
    cases k with
    | relook | foundInside | publish | abandon | leave _ => exact hrun .go _ _ rfl
    | connect => exact hrun .raises _ _ rfl
    | decide =>
      by_cases hlate : s.shared.throttled s.shared.clock
      · refine hrun (.clock s.shared.clock) s.shared (.worker t (.leave (some false))) ?_
        simp [emitSync, ensureMlflow, hlate]
      · refine hrun (.clock s.shared.clock) (s.shared.attempt s.shared.clock)
          (.worker t .connect) ?_
        simp [emitSync, ensureMlflow, hlate]
    | look | found | enter | reread | got _ | start _ | finish => exact hp.elim
  | idle | acquire | spawn | release | done | overReleased =>
    rw [hpc] at hp
    exact hp.elim

/-- An unfinished call can go on, or is at the lock and who is inside can. -/
theorem Inv.goes_on {s : Sys} (h : Inv cfg s) (hu : (s.pc u).unfinished) :
    Moves cfg s u ∨ ∃ v, (s.pc v).inside ∧ Moves cfg s v := by
  have hrun : ∀ c x p, advance cfg u c s.shared (s.pc u) = some (x, p) → Moves cfg s u :=
    fun c x p ha => ⟨c, _, Interleaving.next_eq_some.mpr ⟨x, p, ha, rfl⟩⟩
  by_cases hin : (s.pc u).inside
  · exact .inl (moves_inside hin)
  cases hpc : s.pc u with
  | worker t k =>
    rw [hpc] at hin hrun
    cases k with
    | enter =>
      cases hl : s.shared.initLock with
      | none =>
        refine .inl (hrun .go { s.shared with initLock := some u } (.worker t .relook) ?_)
        simp [advance, emitSync, ensureMlflow, hl]
      | some v =>
        have hv : (s.pc v).inside := (h.holds.thread v).inside.mpr hl
        exact .inr ⟨v, hv, moves_inside hv⟩
    | look | found | reread | start _ | finish => exact .inl (hrun .go _ _ rfl)
    | got b => cases b <;> exact .inl (hrun .go _ _ rfl)
    | relook | foundInside | decide | connect | publish | abandon | leave _ =>
      exact absurd trivial hin
  | acquire t =>
    rw [hpc] at hrun
    by_cases hnone : s.shared.permits = 0
    · exact .inl (hrun .go s.shared (.done t .dropped) (by simp [advance, hnone]))
    · refine .inl (hrun .go { s.shared with permits := s.shared.permits - 1 } (.spawn t) ?_)
      simp [advance, hnone]
  | spawn t =>
    rw [hpc] at hrun
    exact .inl (hrun .go _ _ rfl)
  | release t o =>
    have hlt := h.counted.free_lt (t := u) (by rw [hpc]; trivial)
    rw [hpc] at hrun
    refine .inl (hrun .go { s.shared with permits := s.shared.permits + 1 } (.done t o) ?_)
    simp [advance, hlt]
  | idle | done | overReleased =>
    rw [hpc] at hu
    exact hu.elim

/-- With tracing off nothing is touched. -/
theorem untouched (hoff : cfg.enabled = false) {start : ℚ} {s : Sys} (h : Reachable cfg start s) :
    s.shared = (Sys.init start).shared ∧ ∀ u, s.pc u = .idle ∨ ∃ t, s.pc u = .done t .disabled := by
  refine h.invariant (I := fun s => s.shared = (Sys.init start).shared ∧
    ∀ u, s.pc u = .idle ∨ ∃ t, s.pc u = .done t .disabled) ⟨rfl, fun _ => .inl rfl⟩ ?_
  intro s a s' _ hI _ hn
  obtain ⟨u, c⟩ := a
  obtain ⟨x, k, ha, rfl⟩ := Interleaving.next_eq_some.mp hn
  obtain ⟨hx, hp⟩ := hI
  have hdone : x = s.shared ∧ ∃ t, k = .done t .disabled := by
    rcases hp u with hu | ⟨t, hu⟩
    · rw [hu] at ha
      cases c <;> simp only [advance, reduceCtorEq, hoff, Bool.false_eq_true, if_false] at ha
      cases ha
      exact ⟨rfl, _, rfl⟩
    · rw [hu] at ha
      simp [advance] at ha
  obtain ⟨rfl, t, rfl⟩ := hdone
  refine ⟨hx, fun v => ?_⟩
  show Function.update s.pc u _ v = _ ∨ ∃ t, Function.update s.pc u _ v = _
  by_cases hv : v = u
  · subst hv
    rw [Function.update_self]
    exact .inr ⟨t, rfl⟩
  · rw [Function.update_of_ne hv]
    exact hp v

/-- The exports of every run are bounded, never stuck, connect once and report each call by
one span at most. -/
structure Orderly (cfg : Config) (start : ℚ) (s : Sys) : Prop where
  /-- The permits left and the calls that have one are two; nothing is given back twice. -/
  bounded : Counted Shared.permits Pc.holds maxConcurrentExports s
  released : ∀ u, s.pc u ≠ .overReleased
  /-- With no call unfinished all permits are back. -/
  returned : (∀ u, ¬ (s.pc u).unfinished) → s.shared.permits = maxConcurrentExports
  /-- One call at a time connects. -/
  alone : ∀ u v, (s.pc u).inside → (s.pc v).inside → u = v
  /-- Between two attempts at least 30 s pass, unless the first one read 0 off the clock. -/
  paced : s.shared.attempts.Pairwise fun a b => a ≠ 0 → a + initRetrySec ≤ b
  once : s.shared.connected.length ≤ 1
  /-- Once connected, no call connects again. -/
  settled : s.shared.mlflow = true → ∀ a s', next cfg s a = some s' →
    s'.shared.mlflow = true ∧ s'.shared.experimentId = s.shared.experimentId ∧
      s'.shared.connected = s.shared.connected ∧ s'.shared.attempts = s.shared.attempts
  reported : ∀ u, Reported cfg u s.shared (s.pc u)
  goesOn : ∀ u, (s.pc u).unfinished → Moves cfg s u ∨ ∃ v, (s.pc v).inside ∧ Moves cfg s v
  off : cfg.enabled = false → s.shared = (Sys.init start).shared

theorem exports_orderly (cfg : Config) (start : ℚ) {s : Sys} (h : Reachable cfg start s) :
    Orderly cfg start s := by
  have hI : Inv cfg s := inv_of_reachable h
  refine ⟨hI.counted, hI.released, fun hn => ?_, fun u v hu hv => ?_, hI.holds.global.paced,
    hI.holds.global.single, fun hm a s' hn => ?_, fun u => (hI.holds.thread u).reported,
    fun u hu => hI.goes_on hu, fun hoff => (untouched hoff h).1⟩
  · apply hI.counted.free_eq
    intro u hu
    apply hn u
    cases hpc : s.pc u <;> rw [hpc] at hu <;> first | exact hu.elim | trivial
  · have hl := (hI.holds.thread u).inside.mp hu
    rw [(hI.holds.thread v).inside.mp hv] at hl
    exact (Option.some.inj hl).symm
  · obtain ⟨u, c⟩ := a
    obtain ⟨x, k, ha, rfl⟩ := Interleaving.next_eq_some.mp hn
    exact (advance_spec hI.holds.global (hI.holds.thread u) hI.counted.free_lt ha).leaves.ready hm

def question : Trace := ⟨"chat", some "hi", some "hello", none, 1, 2, "OK"⟩

/-- Two calls export while a third is dropped; the server is away at first. -/
def busy : List Act :=
  [(0, .call question), (0, .go), (0, .go), (1, .call question), (1, .go), (1, .go),
   (2, .call question), (2, .go),
   (0, .go), (0, .go), (1, .go), (0, .go), (0, .clock 5), (0, .raises), (0, .go), (0, .go),
   (0, .go), (0, .go), (0, .go),
   (1, .go), (1, .go), (1, .clock 35), (1, .connected "7"), (1, .go), (1, .go), (1, .go),
   (1, .go), (1, .go), (1, .go), (1, .go)]

def on : Config := ⟨true, false⟩

theorem busy_orderly : ∃ s, s.shared.attempts = [5, 35] ∧ s.pc 2 = .done question .dropped ∧
    s.shared.spans = [(spanOf on 1 question (some "7")).finished on question] ∧
    Orderly on 0 s := by
  have hrun : (Runs.run (next on) Runs.anyStep (.init 0) busy).map (fun s =>
      decide (s.shared.attempts = [5, 35] ∧ s.pc 2 = .done question .dropped ∧
        s.shared.spans = [(spanOf on 1 question (some "7")).finished on question])) =
      some true := by
    decide +kernel
  obtain ⟨s, hr, hp⟩ := Runs.exists_reachable hrun
  obtain ⟨ha, hd, hs⟩ := of_decide_eq_true hp
  exact ⟨s, ha, hd, hs, exports_orderly on 0 hr⟩

end MlopsLite.Gateway.Tracing
