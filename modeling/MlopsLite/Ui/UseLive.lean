import MlopsLite.Lib.Runs

/-!
# UseLive — the polling hook of the console

`useLive` and `backoffMs` (`ui/lib/use-live.ts`). JavaScript has one thread, so a
step is what runs between two waits: an effect, its cleanup, a timeout that fires, a
fetch that settles, a change of visibility, a call of `refresh`. When a timeout
fires and when a fetch settles is left open.
-/

namespace MlopsLite.Ui.UseLive

variable {α κ : Type}

def backoffBaseMs : ℚ := 1000

def backoffMaxMs : ℚ := 30000

/-- What `Number` makes of the `retryAfter` of a thrown value. -/
inductive RetryAfter
  | missing
  | notFinite
  | seconds (x : ℚ)
  deriving DecidableEq

structure Thrown where
  message : String
  retryAfter : RetryAfter
  deriving DecidableEq

def retryAfterSeconds (e : Thrown) : Option ℚ :=
  match e.retryAfter with
  | .missing | .notFinite => none
  | .seconds x => some x

def backoffMs (failures : ℕ) (e : Thrown) : ℚ :=
  match retryAfterSeconds e with
  | some x => min (x * 1000) backoffMaxMs
  | none => min (backoffBaseMs * 2 ^ (failures - 1)) backoffMaxMs

/-- The fields the hook reads; a field that is absent reads as `null`. -/
structure Envelope (α κ : Type) where
  data : Option α
  degraded : Option (List String)
  conflict : Option κ
  deriving DecidableEq

/-- How `gwGet` settles. The body `null` is no envelope, and reading its first
field throws. -/
inductive Reply (α κ : Type)
  | envelope (e : Envelope α κ)
  | null (thrown : Thrown)
  | rejected (thrown : Thrown)
  deriving DecidableEq

/-- One closure of `tick`. -/
structure Tick where
  path : String
  intervalMs : ℚ
  deriving DecidableEq

structure Timeout where
  id : ℕ
  tick : Tick
  delay : ℚ
  deriving DecidableEq

structure Fetch where
  id : ℕ
  tick : Tick
  deriving DecidableEq

/-- The React state. -/
structure Shown (α κ : Type) where
  data : Option α
  observedAt : Option ℚ
  degraded : List String
  conflict : Option κ
  loading : Bool
  error : Option String
  stale : Bool
  deriving DecidableEq

/-- An attempt that settled while the hook was alive. -/
structure Settled (α κ : Type) where
  tick : Tick
  reply : Reply α κ
  now : ℚ
  deriving DecidableEq

structure Hook (α κ : Type) where
  shown : Shown α κ
  failures : ℕ
  timer : Option ℕ
  alive : Bool
  /-- The closure of the last effect. -/
  mounted : Option Tick
  visible : Bool
  timeouts : List Timeout
  inFlight : List Fetch
  nextTimeout : ℕ
  nextFetch : ℕ
  /-- Every attempt, newest first. The hook keeps none of it. -/
  settled : List (Settled α κ)
  deriving DecidableEq

def Shown.init : Shown α κ := ⟨none, none, [], none, true, none, false⟩

def Hook.init (visible : Bool) : Hook α κ :=
  ⟨.init, 0, none, true, none, visible, [], [], 1, 0, []⟩

namespace Hook

/-- `clearTimeout(timer.current)`. -/
def clear (s : Hook α κ) : Hook α κ :=
  { s with timeouts := s.timeouts.filter fun t => some t.id ≠ s.timer }

def schedule (s : Hook α κ) (tick : Tick) (delay : ℚ) : Hook α κ :=
  { s.clear with
    timeouts := s.clear.timeouts ++ [⟨s.nextTimeout, tick, delay⟩]
    timer := some s.nextTimeout
    nextTimeout := s.nextTimeout + 1 }

def fetch (s : Hook α κ) (tick : Tick) : Hook α κ :=
  { s with inFlight := s.inFlight ++ [⟨s.nextFetch, tick⟩], nextFetch := s.nextFetch + 1 }

/-- `tick` up to its `await`. -/
def run (s : Hook α κ) (tick : Tick) : Hook α κ :=
  if !s.alive then s
  else if !s.visible then s.schedule tick tick.intervalMs
  else s.fetch tick

/-- The setters of an attempt that brought an envelope, and `finally`. -/
def answered (s : Hook α κ) (e : Envelope α κ) (now : ℚ) : Hook α κ :=
  let shown :=
    { s.shown with
      error := none, degraded := e.degraded.getD [], conflict := e.conflict, loading := false }
  { s with
    failures := 0
    shown := match e.data with
      | some value => { shown with data := some value, observedAt := some now, stale := false }
      | none => { shown with stale := true } }

/-- The `catch` of an attempt and `finally`. -/
def caught (s : Hook α κ) (tick : Tick) (e : Thrown) : Hook α κ :=
  { s with
    failures := s.failures + 1
    shown := { s.shown with error := some e.message, stale := true, loading := false }
    }.schedule tick (backoffMs (s.failures + 1) e)

/-- `tick` from its `await` on. -/
def settle (s : Hook α κ) (f : Fetch) (reply : Reply α κ) (now : ℚ) : Hook α κ :=
  let s := { s with inFlight := s.inFlight.filter fun g => g.id ≠ f.id }
  if !s.alive then s
  else
    let s := { s with settled := ⟨f.tick, reply, now⟩ :: s.settled }
    match reply with
    | .envelope e => (s.answered e now).schedule f.tick f.tick.intervalMs
    | .null e => { s with failures := 0 }.caught f.tick e
    | .rejected e => s.caught f.tick e

/-- Between an effect and its cleanup, while the listener is there. -/
def polls (s : Hook α κ) : Bool := s.mounted.isSome && s.alive

end Hook

inductive Event (α κ : Type)
  | effect (tick : Tick)
  | cleanup
  | fires (id : ℕ)
  | settles (id : ℕ) (reply : Reply α κ) (now : ℚ)
  | visibility (visible : Bool)
  | refresh

def next (s : Hook α κ) : Event α κ → Option (Hook α κ)
  | .effect tick =>
      if s.polls then none
      else some ({ s with alive := true, mounted := some tick }.run tick)
  | .cleanup => if s.polls then some { s with alive := false }.clear else none
  | .fires id =>
      (s.timeouts.find? fun t => t.id = id).map fun t =>
        { s with timeouts := s.timeouts.filter fun u => u.id ≠ id }.run t.tick
  | .settles id reply now =>
      (s.inFlight.find? fun f => f.id = id).map fun f => s.settle f reply now
  | .visibility visible =>
      if visible = s.visible then none
      else
        let s := { s with visible := visible }
        match s.mounted with
        | some tick => some (if s.alive && visible then s.run tick else s)
        | none => some s
  | .refresh => s.mounted.map s.run

/-! ## What the hook would show had it kept every attempt -/

namespace Settled

def envelope? (x : Settled α κ) : Option (Envelope α κ) :=
  match x.reply with
  | .envelope e => some e
  | .null _ | .rejected _ => none

def thrown? (x : Settled α κ) : Option Thrown :=
  match x.reply with
  | .envelope _ => none
  | .null e | .rejected e => some e

/-- The value the attempt brought, and when. -/
def brought? (x : Settled α κ) : Option (α × ℚ) :=
  x.envelope?.bind fun e => e.data.map fun value => (value, x.now)

end Settled

/-- The value is the last one brought, the sources and the conflict are those of the
last envelope, and the error is the last attempt's own. -/
def remembered (log : List (Settled α κ)) : Shown α κ where
  data := (log.findSome? Settled.brought?).map Prod.fst
  observedAt := (log.findSome? Settled.brought?).map Prod.snd
  degraded := ((log.findSome? Settled.envelope?).bind Envelope.degraded).getD []
  conflict := (log.findSome? Settled.envelope?).bind Envelope.conflict
  loading := log.isEmpty
  error := (log.head?.bind Settled.thrown?).map Thrown.message
  stale := log.head?.any fun x => x.brought?.isNone

/-- The failures in a row. A body `null` clears the count before it fails. -/
def streak : List (Settled α κ) → ℕ
  | [] => 0
  | x :: log =>
      match x.reply with
      | .envelope _ => 0
      | .null _ => 1
      | .rejected _ => streak log + 1

/-- The delay is the interval of the closure, or what the last failure asks for. -/
def Paced (s : Hook α κ) (t : Timeout) : Prop :=
  t.delay = t.tick.intervalMs ∨
    ∃ e, s.settled.head?.bind Settled.thrown? = some e ∧ t.delay = backoffMs s.failures e

/-- What is armed is what `timer` can clear. -/
def Clearable (s : Hook α κ) : Prop := ∀ t ∈ s.timeouts, s.timer = some t.id

/-- At most one timeout is armed, and none after the cleanup. -/
structure Armed (s : Hook α κ) : Prop where
  clearable : Clearable s
  single : s.timeouts.length ≤ 1
  silent : s.alive = false → s.timeouts = []
  paced : ∀ t ∈ s.timeouts, Paced s t

/-- The state kept says what the attempts say. -/
structure Recalled (s : Hook α κ) : Prop where
  shown : s.shown = remembered s.settled
  failures : s.failures = streak s.settled

/-- Polling goes on: the next attempt is armed or on its way. -/
def Going (s : Hook α κ) : Prop := s.timeouts ≠ [] ∨ s.inFlight ≠ []

structure Truthful (s : Hook α κ) : Prop where
  armed : Armed s
  recalled : Recalled s
  going : s.polls = true → Going s

/-! ## The operations -/

namespace Hook

variable {s : Hook α κ} {tick : Tick} {delay : ℚ}

@[simp] theorem clear_alive : s.clear.alive = s.alive := rfl
@[simp] theorem schedule_alive : (s.schedule tick delay).alive = s.alive := rfl
@[simp] theorem schedule_mounted : (s.schedule tick delay).mounted = s.mounted := rfl

/-- What `tick` does before it waits: nothing, a timeout, or a fetch. -/
theorem run_cases (s : Hook α κ) (tick : Tick) :
    (s.alive = false ∧ s.run tick = s) ∨
    (s.alive = true ∧ s.visible = false ∧ s.run tick = s.schedule tick tick.intervalMs) ∨
    (s.alive = true ∧ s.visible = true ∧ s.run tick = s.fetch tick) := by
  unfold run
  cases halive : s.alive with
  | false => exact .inl ⟨rfl, rfl⟩
  | true =>
    cases hvisible : s.visible with
    | false => exact .inr (.inl ⟨rfl, rfl, rfl⟩)
    | true => exact .inr (.inr ⟨rfl, rfl, rfl⟩)

@[simp] theorem run_shown : (s.run tick).shown = s.shown := by
  obtain ⟨-, h⟩ | ⟨-, -, h⟩ | ⟨-, -, h⟩ := s.run_cases tick <;> rw [h] <;> rfl

@[simp] theorem run_settled : (s.run tick).settled = s.settled := by
  obtain ⟨-, h⟩ | ⟨-, -, h⟩ | ⟨-, -, h⟩ := s.run_cases tick <;> rw [h] <;> rfl

@[simp] theorem run_failures : (s.run tick).failures = s.failures := by
  obtain ⟨-, h⟩ | ⟨-, -, h⟩ | ⟨-, -, h⟩ := s.run_cases tick <;> rw [h] <;> rfl

@[simp] theorem run_alive : (s.run tick).alive = s.alive := by
  obtain ⟨-, h⟩ | ⟨-, -, h⟩ | ⟨-, -, h⟩ := s.run_cases tick <;> rw [h] <;> rfl

@[simp] theorem run_mounted : (s.run tick).mounted = s.mounted := by
  obtain ⟨-, h⟩ | ⟨-, -, h⟩ | ⟨-, -, h⟩ := s.run_cases tick <;> rw [h] <;> rfl

end Hook

theorem Recalled.of_eq {s s' : Hook α κ} (h : Recalled s) (hshown : s'.shown = s.shown)
    (hfailures : s'.failures = s.failures) (hsettled : s'.settled = s.settled) : Recalled s' := by
  constructor
  · rw [hshown, hsettled]
    exact h.shown
  · rw [hfailures, hsettled]
    exact h.failures

theorem Clearable.clear {s : Hook α κ} (h : Clearable s) : s.clear.timeouts = [] := by
  show s.timeouts.filter (fun t => some t.id ≠ s.timer) = []
  apply List.filter_eq_nil_iff.mpr
  intro t ht
  simp [h t ht]

theorem Clearable.schedule {s : Hook α κ} (h : Clearable s) (tick : Tick) (delay : ℚ) :
    (s.schedule tick delay).timeouts = [⟨s.nextTimeout, tick, delay⟩] := by
  show s.clear.timeouts ++ [⟨s.nextTimeout, tick, delay⟩] = _
  rw [h.clear, List.nil_append]

theorem Clearable.going {s : Hook α κ} (h : Clearable s) (tick : Tick) (delay : ℚ) :
    Going (s.schedule tick delay) := by
  left
  rw [h.schedule]
  exact List.cons_ne_nil _ _

/-- The timeout before need not be paced any more: it is cleared. -/
theorem Clearable.armed {s : Hook α κ} (h : Clearable s) (halive : s.alive = true) {tick : Tick}
    {delay : ℚ} (hpaced : Paced s ⟨s.nextTimeout, tick, delay⟩) :
    Armed (s.schedule tick delay) := by
  have honly := h.schedule tick delay
  constructor
  · intro t ht
    rw [honly] at ht
    rw [List.mem_singleton.mp ht]
    rfl
  · rw [honly]
    exact le_rfl
  · intro hdead
    rw [Hook.schedule_alive, halive] at hdead
    cases hdead
  · intro t ht
    rw [honly] at ht
    rw [List.mem_singleton.mp ht]
    exact hpaced

theorem Armed.of_eq {s s' : Hook α κ} (h : Armed s) (htimeouts : s'.timeouts = s.timeouts)
    (htimer : s'.timer = s.timer) (halive : s'.alive = false → s.alive = false)
    (hfailures : s'.failures = s.failures) (hsettled : s'.settled = s.settled) : Armed s' := by
  constructor
  · intro t ht
    rw [htimer]
    exact h.clearable t (htimeouts ▸ ht)
  · rw [htimeouts]
    exact h.single
  · intro hdead
    rw [htimeouts]
    exact h.silent (halive hdead)
  · intro t ht
    have hpaced := h.paced t (htimeouts ▸ ht)
    unfold Paced at hpaced ⊢
    rwa [hfailures, hsettled]

theorem Armed.of_nil {s : Hook α κ} (h : s.timeouts = []) : Armed s := by
  constructor
  · intro t ht
    simp [h] at ht
  · simp [h]
  · exact fun _ => h
  · simp [h]

theorem Armed.run {s : Hook α κ} (h : Armed s) (tick : Tick) : Armed (s.run tick) := by
  obtain ⟨-, hrun⟩ | ⟨halive, -, hrun⟩ | ⟨-, -, hrun⟩ := s.run_cases tick
  · rw [hrun]
    exact h
  · rw [hrun]
    exact h.clearable.armed halive (.inl rfl)
  · rw [hrun]
    exact h.of_eq rfl rfl id rfl rfl

/-- A tick of a hook that is alive leaves something to come back to it. -/
theorem Armed.going_run {s : Hook α κ} (h : Armed s) (halive : s.alive = true) (tick : Tick) :
    Going (s.run tick) := by
  obtain ⟨hdead, -⟩ | ⟨-, -, hrun⟩ | ⟨-, -, hrun⟩ := s.run_cases tick
  · rw [halive] at hdead
    cases hdead
  · rw [hrun]
    exact h.clearable.going tick _
  · rw [hrun]
    right
    exact List.append_ne_nil_of_right_ne_nil _ (List.cons_ne_nil _ _)

/-! ## An attempt that settles -/

section

variable {s : Hook α κ} {f : Fetch} {reply : Reply α κ} {now : ℚ}

/-- The state before the settled attempt sets anything. -/
def Hook.received (s : Hook α κ) (f : Fetch) (reply : Reply α κ) (now : ℚ) : Hook α κ :=
  { s with
    inFlight := s.inFlight.filter fun g => g.id ≠ f.id
    settled := ⟨f.tick, reply, now⟩ :: s.settled }

theorem settle_dead (h : s.alive = false) :
    s.settle f reply now = { s with inFlight := s.inFlight.filter fun g => g.id ≠ f.id } := by
  simp [Hook.settle, h]

theorem settle_envelope (h : s.alive = true) (e : Envelope α κ) :
    s.settle f (.envelope e) now =
      ((s.received f (.envelope e) now).answered e now).schedule f.tick f.tick.intervalMs := by
  simp [Hook.settle, h, Hook.received]

theorem settle_null (h : s.alive = true) (e : Thrown) :
    s.settle f (.null e) now =
      { s.received f (.null e) now with failures := 0 }.caught f.tick e := by
  simp [Hook.settle, h, Hook.received]

theorem settle_rejected (h : s.alive = true) (e : Thrown) :
    s.settle f (.rejected e) now = (s.received f (.rejected e) now).caught f.tick e := by
  simp [Hook.settle, h, Hook.received]

/-- A failed attempt leaves the value, its time and its sources. -/
theorem remembered_failed {log : List (Settled α κ)} {x : Settled α κ} {e : Thrown}
    (h : x.thrown? = some e) : remembered (x :: log) =
      { remembered log with error := some e.message, stale := true, loading := false } := by
  have henvelope : x.envelope? = none := by
    unfold Settled.thrown? at h
    unfold Settled.envelope?
    split at h
    · cases h
    · rfl
    · rfl
  have hbrought : x.brought? = none := by rw [Settled.brought?, henvelope, Option.bind_none]
  simp only [remembered, List.findSome?_cons, henvelope, hbrought]
  simp [h, hbrought]

theorem remembered_answered {log : List (Settled α κ)} {x : Settled α κ} {e : Envelope α κ}
    (h : x.reply = .envelope e) : remembered (x :: log) =
      { data := e.data.or (remembered log).data
        observedAt := if e.data.isSome then some x.now else (remembered log).observedAt
        degraded := e.degraded.getD []
        conflict := e.conflict
        loading := false
        error := none
        stale := e.data.isNone } := by
  have henvelope : x.envelope? = some e := by rw [Settled.envelope?, h]
  have hthrown : x.thrown? = none := by rw [Settled.thrown?, h]
  cases hdata : e.data with
  | none =>
    have hbrought : x.brought? = none := by
      rw [Settled.brought?, henvelope, Option.bind_some, hdata, Option.map_none]
    simp only [remembered, List.findSome?_cons, henvelope, hbrought]
    simp [hthrown, hbrought]
  | some value =>
    have hbrought : x.brought? = some (value, x.now) := by
      rw [Settled.brought?, henvelope, Option.bind_some, hdata, Option.map_some]
    simp only [remembered, List.findSome?_cons, henvelope, hbrought]
    simp [hthrown, hbrought]

/-- What the setters of an envelope show is what is remembered with it. -/
theorem Recalled.answered (h : Recalled s) (e : Envelope α κ) :
    Recalled ((s.received f (.envelope e) now).answered e now) := by
  constructor
  · show (Hook.answered _ e now).shown = remembered (⟨f.tick, .envelope e, now⟩ :: s.settled)
    rw [remembered_answered (x := ⟨f.tick, .envelope e, now⟩) rfl, ← h.shown]
    cases hdata : e.data with
    | none => simp [Hook.answered, Hook.received, hdata]
    | some value => simp [Hook.answered, Hook.received, hdata]
  · rfl

/-- The same of a failure, the count of failures apart. -/
theorem remembered_caught (h : Recalled s) {e : Thrown}
    (hreply : reply = .null e ∨ reply = .rejected e) :
    { s.shown with error := some e.message, stale := true, loading := false } =
      remembered (⟨f.tick, reply, now⟩ :: s.settled) := by
  have hthrown : (⟨f.tick, reply, now⟩ : Settled α κ).thrown? = some e := by
    rcases hreply with rfl | rfl <;> rfl
  rw [remembered_failed hthrown, h.shown]

theorem Recalled.settle (h : Recalled s) (f : Fetch) (reply : Reply α κ) (now : ℚ) :
    Recalled (s.settle f reply now) := by
  cases halive : s.alive with
  | false =>
    rw [settle_dead halive]
    exact h.of_eq rfl rfl rfl
  | true =>
    cases reply with
    | envelope e =>
      rw [settle_envelope halive]
      exact (h.answered e).of_eq rfl rfl rfl
    | null e =>
      rw [settle_null halive]
      exact ⟨remembered_caught h (.inl rfl), rfl⟩
    | rejected e =>
      rw [settle_rejected halive]
      refine ⟨remembered_caught h (.inr rfl), ?_⟩
      show s.failures + 1 = streak s.settled + 1
      rw [h.failures]

/-- The parts that setting the shown state and the count of failures leaves. -/
structure SameRefs (s s' : Hook α κ) : Prop where
  timer : s'.timer = s.timer
  timeouts : s'.timeouts = s.timeouts
  alive : s'.alive = s.alive
  mounted : s'.mounted = s.mounted
  visible : s'.visible = s.visible
  nextFetch : s'.nextFetch = s.nextFetch

/-- However an attempt settles, the next is armed in the same step. -/
theorem settle_live (halive : s.alive = true) (f : Fetch) (reply : Reply α κ) (now : ℚ) :
    ∃ s' delay, s.settle f reply now = s'.schedule f.tick delay ∧ SameRefs s s' ∧
      Paced s' ⟨s'.nextTimeout, f.tick, delay⟩ := by
  cases reply with
  | envelope e =>
    rw [settle_envelope halive]
    exact ⟨_, _, rfl, ⟨rfl, rfl, rfl, rfl, rfl, rfl⟩, .inl rfl⟩
  | null e =>
    rw [settle_null halive]
    exact ⟨_, _, rfl, ⟨rfl, rfl, rfl, rfl, rfl, rfl⟩, .inr ⟨e, rfl, rfl⟩⟩
  | rejected e =>
    rw [settle_rejected halive]
    exact ⟨_, _, rfl, ⟨rfl, rfl, rfl, rfl, rfl, rfl⟩, .inr ⟨e, rfl, rfl⟩⟩

theorem SameRefs.clearable {s' : Hook α κ} (h : SameRefs s s') (hs : Clearable s) :
    Clearable s' := by
  intro t ht
  rw [h.timer]
  exact hs t (h.timeouts ▸ ht)

theorem Armed.settle (h : Armed s) (f : Fetch) (reply : Reply α κ) (now : ℚ) :
    Armed (s.settle f reply now) := by
  cases halive : s.alive with
  | false =>
    rw [settle_dead halive]
    exact h.of_eq rfl rfl id rfl rfl
  | true =>
    -- the timeout armed before was paced by an older attempt, and is cleared
    obtain ⟨s', delay, heq, hrefs, hpaced⟩ := settle_live halive f reply now
    rw [heq]
    apply (hrefs.clearable h.clearable).armed _ hpaced
    rw [hrefs.alive, halive]

theorem settle_inFlight (s : Hook α κ) (f : Fetch) (reply : Reply α κ) (now : ℚ) :
    (s.settle f reply now).inFlight = s.inFlight.filter fun g => g.id ≠ f.id := by
  cases halive : s.alive with
  | false => rw [settle_dead halive]
  | true =>
    cases reply with
    | envelope e => rw [settle_envelope halive]; rfl
    | null e => rw [settle_null halive]; rfl
    | rejected e => rw [settle_rejected halive]; rfl

theorem settle_refs (s : Hook α κ) (f : Fetch) (reply : Reply α κ) (now : ℚ) :
    (s.settle f reply now).alive = s.alive ∧ (s.settle f reply now).mounted = s.mounted ∧
      (s.settle f reply now).nextFetch = s.nextFetch := by
  cases halive : s.alive with
  | false =>
    rw [settle_dead halive]
    exact ⟨halive, rfl, rfl⟩
  | true =>
    obtain ⟨s', delay, heq, hrefs, -⟩ := settle_live halive f reply now
    rw [heq]
    exact ⟨hrefs.alive.trans halive, hrefs.mounted, hrefs.nextFetch⟩

end

/-! ## Steps -/

theorem truthful_init (visible : Bool) : Truthful (Hook.init visible : Hook α κ) := by
  refine ⟨Armed.of_nil rfl, ⟨rfl, rfl⟩, ?_⟩
  intro h
  cases h

section

variable {s s' : Hook α κ} {a : Event α κ}

theorem Truthful.run (h : Armed s) (hr : Recalled s) (tick : Tick) : Truthful (s.run tick) := by
  refine ⟨h.run tick, hr.of_eq s.run_shown s.run_failures s.run_settled, ?_⟩
  intro hpolls
  have halive : s.alive = true := by
    have hboth := Bool.and_eq_true_iff.mp hpolls
    simpa using hboth.2
  exact h.going_run halive tick

/-- What fires is armed no longer. -/
theorem Armed.fired (h : Armed s) (id : ℕ) :
    Armed { s with timeouts := s.timeouts.filter fun u => u.id ≠ id } := by
  constructor
  · intro t ht
    exact h.clearable t (List.mem_of_mem_filter ht)
  · exact (List.length_filter_le _ _).trans h.single
  · intro hdead
    show s.timeouts.filter _ = []
    rw [h.silent hdead, List.filter_nil]
  · intro t ht
    exact h.paced t (List.mem_of_mem_filter ht)

theorem Truthful.step (h : Truthful s) (hn : next s a = some s') : Truthful s' := by
  cases a with
  | effect tick =>
    simp only [next] at hn
    split at hn
    · cases hn
    · cases hn
      apply Truthful.run
      · exact h.armed.of_eq rfl rfl (fun hdead => nomatch hdead) rfl rfl
      · exact h.recalled.of_eq rfl rfl rfl
  | cleanup =>
    simp only [next] at hn
    split at hn
    · cases hn
      refine ⟨Armed.of_nil ?_, h.recalled.of_eq rfl rfl rfl, ?_⟩
      · exact Clearable.clear (s := { s with alive := false }) h.armed.clearable
      · intro hpolls
        simp [Hook.polls] at hpolls
    · cases hn
  | fires id =>
    obtain ⟨t, -, rfl⟩ := Option.map_eq_some_iff.mp hn
    apply Truthful.run
    · exact h.armed.fired id
    · exact h.recalled.of_eq rfl rfl rfl
  | settles id reply now =>
    obtain ⟨f, -, rfl⟩ := Option.map_eq_some_iff.mp hn
    refine ⟨h.armed.settle f reply now, h.recalled.settle f reply now, ?_⟩
    intro hpolls
    have halive : s.alive = true := by
      rw [← (settle_refs s f reply now).1]
      exact (Bool.and_eq_true_iff.mp hpolls).2
    obtain ⟨s', delay, heq, hrefs, -⟩ := settle_live halive f reply now
    rw [heq]
    exact (hrefs.clearable h.armed.clearable).going f.tick delay
  | visibility visible =>
    simp only [next] at hn
    split at hn
    · cases hn
    · have hseen : Truthful { s with visible := visible } :=
        ⟨h.armed.of_eq rfl rfl id rfl rfl, h.recalled.of_eq rfl rfl rfl, h.going⟩
      split at hn
      · cases hn
        split
        · exact Truthful.run hseen.armed hseen.recalled _
        · exact hseen
      · cases hn
        exact hseen
  | refresh =>
    obtain ⟨tick, -, rfl⟩ := Option.map_eq_some_iff.mp hn
    exact Truthful.run h.armed h.recalled tick

/-- A fetch is started one at a time, by a hook that is alive in a tab that is seen. -/
def Gated (s s' : Hook α κ) : Prop :=
  s'.nextFetch = s.nextFetch ∨
    s'.nextFetch = s.nextFetch + 1 ∧ s'.alive = true ∧ s'.visible = true

/-- Nothing that was under way at the cleanup shows up, arms or fetches after it. -/
def Frozen (s s' : Hook α κ) (a : Event α κ) : Prop :=
  s.alive = false → (∀ tick, a ≠ .effect tick) →
    s'.alive = false ∧ s'.shown = s.shown ∧ s'.timeouts = [] ∧ s'.nextFetch = s.nextFetch

theorem run_gated (s : Hook α κ) (tick : Tick) : Gated s (s.run tick) := by
  obtain ⟨-, hrun⟩ | ⟨-, -, hrun⟩ | ⟨halive, hvisible, hrun⟩ := s.run_cases tick
  · rw [hrun]
    exact .inl rfl
  · rw [hrun]
    exact .inl rfl
  · rw [hrun]
    exact .inr ⟨rfl, halive, hvisible⟩

theorem next_gated (hn : next s a = some s') : Gated s s' := by
  cases a with
  | effect tick =>
    simp only [next] at hn
    split at hn
    · cases hn
    · cases hn
      exact run_gated { s with alive := true, mounted := some tick } tick
  | cleanup =>
    simp only [next] at hn
    split at hn
    · cases hn
      exact .inl rfl
    · cases hn
  | fires id =>
    obtain ⟨t, -, rfl⟩ := Option.map_eq_some_iff.mp hn
    exact run_gated { s with timeouts := _ } t.tick
  | settles id reply now =>
    obtain ⟨f, -, rfl⟩ := Option.map_eq_some_iff.mp hn
    exact .inl (settle_refs s f reply now).2.2
  | visibility visible =>
    simp only [next] at hn
    split at hn
    · cases hn
    · split at hn
      · cases hn
        split
        · exact run_gated { s with visible := visible } _
        · exact .inl rfl
      · cases hn
        exact .inl rfl
  | refresh =>
    obtain ⟨tick, -, rfl⟩ := Option.map_eq_some_iff.mp hn
    exact run_gated s tick

theorem run_dead (h : s.alive = false) (tick : Tick) : s.run tick = s := by
  simp [Hook.run, h]

theorem next_frozen (h : Armed s) (hn : next s a = some s') : Frozen s s' a := by
  intro hdead hother
  have hnone := h.silent hdead
  have hpolls : s.polls = false := by rw [Hook.polls, hdead, Bool.and_false]
  cases a with
  | effect tick => exact absurd rfl (hother tick)
  | cleanup => simp [next, hpolls] at hn
  | fires id => simp [next, hnone] at hn
  | settles id reply now =>
    obtain ⟨f, -, rfl⟩ := Option.map_eq_some_iff.mp hn
    rw [settle_dead hdead]
    exact ⟨hdead, rfl, hnone, rfl⟩
  | visibility visible =>
    simp only [next, hdead, Bool.false_and, Bool.false_eq_true, if_false] at hn
    split at hn
    · cases hn
    · split at hn
      · cases hn
        exact ⟨rfl, rfl, hnone, rfl⟩
      · cases hn
        exact ⟨rfl, rfl, hnone, rfl⟩
  | refresh =>
    obtain ⟨tick, -, rfl⟩ := Option.map_eq_some_iff.mp hn
    rw [run_dead hdead]
    exact ⟨hdead, rfl, hnone, rfl⟩

end

/-! ## Runs -/

section

variable {s : Hook α κ} {visible : Bool}

theorem truthful_of_reachable
    (h : Runs.Reachable next Runs.anyStep (Hook.init visible) s) : Truthful s :=
  h.invariant (truthful_init visible) fun _ _ _ _ htruthful _ hn => htruthful.step hn

/-- Over every run of a panel: what is shown is what the attempts so far say, failures
included, though only the last value is kept; one timeout at most is armed, at the pace
of the interval or of the failures in a row; polling goes on until the cleanup, and only
where it is seen; after the cleanup nothing moves. -/
theorem polling_truthful (visible : Bool) (tr : List (Runs.Taken (Hook α κ) (Event α κ)))
    (h : Runs.Trace next (Hook.init visible) tr s) :
    Truthful s ∧ ∀ t ∈ tr, Gated t.src t.dst ∧ Frozen t.src t.dst t.act := by
  refine ⟨truthful_of_reachable h.reachable, ?_⟩
  intro t ht
  obtain ⟨hreach, hn⟩ := h.step_of_mem ht
  exact ⟨next_gated hn, next_frozen (truthful_of_reachable hreach).armed hn⟩

end

def jobsTick : Tick := ⟨"console/jobs", 4000⟩

/-- A reading, one with a source down, and two refusals. -/
def rough : List (Event ℕ Unit) :=
  [.effect jobsTick, .settles 0 (.envelope ⟨some 7, none, none⟩) 10, .fires 1,
   .settles 1 (.envelope ⟨none, some ["agent"], none⟩) 20, .fires 2,
   .settles 2 (.rejected ⟨"502", .missing⟩) 30, .fires 3,
   .settles 3 (.rejected ⟨"502", .missing⟩) 40]

theorem rough_truthful : ∃ tr, ∃ s : Hook ℕ Unit,
    Runs.Trace next (Hook.init true) tr s ∧ tr.map Runs.Taken.act = rough ∧ Truthful s ∧
      s.shown = ⟨some 7, some 10, ["agent"], none, false, some "502", true⟩ ∧
      s.timeouts = [⟨4, jobsTick, 2000⟩] := by
  have hrun : (Runs.run next Runs.anyStep (Hook.init true) rough).isSome = true := by
    decide +kernel
  obtain ⟨s, hs⟩ := Option.isSome_iff_exists.mp hrun
  obtain ⟨tr, htr, hact⟩ := Runs.Trace.nil.run hs
  have hshown : s.shown = ⟨some 7, some 10, ["agent"], none, false, some "502", true⟩ ∧
      s.timeouts = [⟨4, jobsTick, 2000⟩] := by
    have hend : (Runs.run next Runs.anyStep (Hook.init true) rough).map
        (fun s : Hook ℕ Unit => (s.shown, s.timeouts)) =
          some (⟨some 7, some 10, ["agent"], none, false, some "502", true⟩,
            [⟨4, jobsTick, 2000⟩]) := by
      decide +kernel
    rw [hs, Option.map_some, Option.some_inj, Prod.mk.injEq] at hend
    exact hend
  have htr : Runs.Trace next (Hook.init true) tr s := by simpa using htr
  exact ⟨tr, s, htr, hact, (polling_truthful true tr htr).1, hshown⟩

/-! ## The path that is polled -/

section

variable {s s' : Hook α κ} {a : Event α κ}

/-- What is armed asks for the path of the last effect. -/
def OnPath (s : Hook α κ) : Prop := ∀ t ∈ s.timeouts, s.mounted = some t.tick

/-- A fetch of a path that was left settles in a hook that lives on. -/
def Stray (s : Hook α κ) : Event α κ → Prop
  | .settles id _ _ => s.alive = true ∧
      ∃ f, s.inFlight.find? (fun f => f.id = id) = some f ∧ s.mounted ≠ some f.tick
  | _ => False

theorem OnPath.run (h : OnPath s) {tick : Tick} (hmounted : s.mounted = some tick) :
    OnPath (s.run tick) := by
  obtain ⟨-, hrun⟩ | ⟨-, -, hrun⟩ | ⟨-, -, hrun⟩ := s.run_cases tick
  · rw [hrun]
    exact h
  · rw [hrun]
    intro t ht
    rcases List.mem_append.mp ht with ht | ht
    · exact h t (List.mem_of_mem_filter ht)
    · rw [List.mem_singleton.mp ht]
      exact hmounted
  · rw [hrun]
    exact h

/-- Of the steps that keep to the path, those are left out that let a stray fetch settle. -/
theorem onPath_iff (htruthful : Truthful s) (h : OnPath s) (hn : next s a = some s') :
    OnPath s' ↔ ¬ Stray s a := by
  cases a with
  | effect tick =>
    refine iff_of_true ?_ id
    simp only [next] at hn
    split at hn
    · cases hn
    · rename_i hpolls
      cases hn
      apply OnPath.run _ rfl
      -- the timeout of the path before went with the cleanup, and before the first
      -- effect there is none
      have hnone : s.timeouts = [] := by
        apply List.eq_nil_iff_forall_not_mem.mpr
        intro t ht
        have hmounted := h t ht
        cases halive : s.alive with
        | false =>
          rw [htruthful.armed.silent halive] at ht
          cases ht
        | true => simp [Hook.polls, hmounted, halive] at hpolls
      intro t ht
      have ht : t ∈ s.timeouts := ht
      rw [hnone] at ht
      cases ht
  | cleanup =>
    refine iff_of_true ?_ id
    simp only [next] at hn
    split at hn
    · cases hn
      intro t ht
      exact h t (List.mem_of_mem_filter ht)
    · cases hn
  | fires id =>
    refine iff_of_true ?_ (fun hstray => hstray)
    obtain ⟨t, ht, rfl⟩ := Option.map_eq_some_iff.mp hn
    apply OnPath.run
    · intro u hu
      exact h u (List.mem_of_mem_filter hu)
    · exact h t (List.mem_of_find?_eq_some ht)
  | settles id reply now =>
    obtain ⟨f, hf, rfl⟩ := Option.map_eq_some_iff.mp hn
    cases halive : s.alive with
    | false =>
      refine iff_of_true ?_ (fun hstray => Bool.noConfusion (halive.symm.trans hstray.1))
      rw [settle_dead halive]
      exact h
    | true =>
      obtain ⟨s', delay, heq, hrefs, -⟩ := settle_live halive f reply now
      have honly := (hrefs.clearable htruthful.armed.clearable).schedule f.tick delay
      rw [heq]
      unfold OnPath Stray
      rw [honly, List.forall_mem_singleton, Hook.schedule_mounted, hrefs.mounted]
      simp [halive, hf]
  | visibility visible =>
    refine iff_of_true ?_ id
    simp only [next] at hn
    split at hn
    · cases hn
    · split at hn
      · rename_i tick hmounted
        cases hn
        split
        · exact OnPath.run (s := { s with visible := visible }) h hmounted
        · exact h
      · cases hn
        exact h
  | refresh =>
    refine iff_of_true ?_ id
    obtain ⟨tick, htick, rfl⟩ := Option.map_eq_some_iff.mp hn
    exact h.run htick

/-- Nobody touches the panel: timeouts fire and fetches settle. -/
def Untouched (_ : Hook α κ) : Event α κ → Prop
  | .fires _ | .settles _ _ _ => True
  | _ => False

instance (s : Hook α κ) (a : Event α κ) : Decidable (Untouched s a) := by
  cases a <;> unfold Untouched <;> infer_instance

/-- All there is of polling is for one closure. -/
structure Stuck (tick : Tick) (s : Hook α κ) : Prop where
  polls : s.polls = true
  timeouts : ∀ t ∈ s.timeouts, t.tick = tick
  inFlight : ∀ f ∈ s.inFlight, f.tick = tick

theorem Stuck.run {tick : Tick} (h : Stuck tick s) : Stuck tick (s.run tick) := by
  obtain ⟨-, hrun⟩ | ⟨-, -, hrun⟩ | ⟨-, -, hrun⟩ := s.run_cases tick
  · rw [hrun]
    exact h
  · rw [hrun]
    refine ⟨h.polls, ?_, h.inFlight⟩
    intro t ht
    rcases List.mem_append.mp ht with ht | ht
    · exact h.timeouts t (List.mem_of_mem_filter ht)
    · rw [List.mem_singleton.mp ht]
  · rw [hrun]
    refine ⟨h.polls, h.timeouts, ?_⟩
    intro f hf
    rcases List.mem_append.mp hf with hf | hf
    · exact h.inFlight f hf
    · rw [List.mem_singleton.mp hf]

theorem Stuck.step {tick : Tick} (h : Stuck tick s) (ha : Untouched s a)
    (hn : next s a = some s') : Stuck tick s' ∧ s'.mounted = s.mounted := by
  cases a with
  | fires id =>
    obtain ⟨t, ht, rfl⟩ := Option.map_eq_some_iff.mp hn
    have htick := h.timeouts t (List.mem_of_find?_eq_some ht)
    refine ⟨?_, Hook.run_mounted⟩
    rw [htick]
    apply Stuck.run
    refine ⟨h.polls, ?_, h.inFlight⟩
    intro u hu
    exact h.timeouts u (List.mem_of_mem_filter hu)
  | settles id reply now =>
    obtain ⟨f, hf, rfl⟩ := Option.map_eq_some_iff.mp hn
    have htick := h.inFlight f (List.mem_of_find?_eq_some hf)
    have halive : s.alive = true := (Bool.and_eq_true_iff.mp h.polls).2
    obtain ⟨halive', hmounted, -⟩ := settle_refs s f reply now
    refine ⟨⟨?_, ?_, ?_⟩, hmounted⟩
    · rw [Hook.polls, halive', hmounted]
      exact h.polls
    · obtain ⟨s', delay, heq, hrefs, -⟩ := settle_live halive f reply now
      rw [heq]
      intro t ht
      rcases List.mem_append.mp ht with ht | ht
      · have ht := List.mem_of_mem_filter ht
        rw [hrefs.timeouts] at ht
        exact h.timeouts t ht
      · rw [List.mem_singleton.mp ht]
        exact htick
    · rw [settle_inFlight]
      intro g hg
      exact h.inFlight g (List.mem_of_mem_filter hg)
  | _ => exact absurd ha id

theorem Stuck.stays {tick : Tick} (h : Stuck tick s)
    (hrun : Runs.Reachable next Untouched s s') : Stuck tick s' ∧ s'.mounted = s.mounted := by
  apply hrun.invariant (I := fun s' => Stuck tick s' ∧ s'.mounted = s.mounted) ⟨h, rfl⟩
  rintro s₁ a s₂ - ⟨hstuck, hmounted⟩ hok hn
  obtain ⟨hstuck', hmounted'⟩ := hstuck.step hok hn
  exact ⟨hstuck', hmounted'.trans hmounted⟩

/-- A panel polls the path it was last given in every state of a run exactly if no fetch
of a path it left settles while it lives; where one does and nothing else is under
way, the panel polls the path it left as long as nobody touches it. -/
theorem mounted_path_polled (visible : Bool) (tr : List (Runs.Taken (Hook α κ) (Event α κ)))
    (h : Runs.Trace next (Hook.init visible) tr s) :
    ((∀ t ∈ tr, OnPath t.dst) ↔ ∀ t ∈ tr, ¬ Stray t.src t.act) ∧
    ∀ left, Stuck left s → ∀ s', Runs.Reachable next Untouched s s' →
      Stuck left s' ∧ s'.mounted = s.mounted ∧ Going s' := by
  refine ⟨?_, ?_⟩
  · have hsteps (s : Hook α κ) (a : Event α κ) (s' : Hook α κ)
        (hreach : Runs.Reachable next Runs.anyStep (Hook.init visible) s) (hs : OnPath s)
        (hn : next s a = some s') : OnPath s' ↔ ¬ Stray s a :=
      onPath_iff (truthful_of_reachable hreach) hs hn
    apply h.forall_iff (I := OnPath) _ hsteps
    intro t ht
    cases ht
  · intro left hstuck s' hrun
    obtain ⟨hstuck', hmounted⟩ := hstuck.stays hrun
    have hreach := h.reachable.trans hrun.any
    exact ⟨hstuck', hmounted, (truthful_of_reachable hreach).going hstuck'.polls⟩

end

def jobTick (id : String) : Tick := ⟨"console/jobs/" ++ id, 4000⟩

/-- The path changes while a fetch is under way, and its answer comes last. -/
def overtaken : List (Event ℕ Unit) :=
  [.effect (jobTick "a"), .cleanup, .effect (jobTick "b"),
   .settles 1 (.envelope ⟨some 2, none, none⟩) 10, .settles 0 (.envelope ⟨some 1, none, none⟩) 20]

theorem overtaken_stuck : ∃ tr, ∃ s : Hook ℕ Unit,
    Runs.Trace next (Hook.init true) tr s ∧ tr.map Runs.Taken.act = overtaken ∧
      s.mounted = some (jobTick "b") ∧ s.shown.data = some 1 ∧ s.shown.stale = false ∧
      ∀ s', Runs.Reachable next Untouched s s' →
        Stuck (jobTick "a") s' ∧ s'.mounted = some (jobTick "b") := by
  have hrun : (Runs.run next Runs.anyStep (Hook.init true) overtaken).map
      (fun s : Hook ℕ Unit => decide (s.mounted = some (jobTick "b") ∧ s.shown.data = some 1 ∧
        s.shown.stale = false ∧ s.polls = true ∧ s.timeouts = [⟨2, jobTick "a", 4000⟩] ∧
        s.inFlight = [])) = some true := by
    decide +kernel
  obtain ⟨s, hs, hend⟩ := Option.map_eq_some_iff.mp hrun
  obtain ⟨tr, htr, hact⟩ := Runs.Trace.nil.run hs
  have htr : Runs.Trace next (Hook.init true) tr s := by simpa using htr
  obtain ⟨hmounted, hdata, hstale, hpolls, htimeouts, hinFlight⟩ := of_decide_eq_true hend
  have hstuck : Stuck (jobTick "a") s := by
    refine ⟨hpolls, ?_, ?_⟩
    · simp [htimeouts]
    · simp [hinFlight]
  refine ⟨tr, s, htr, hact, hmounted, hdata, hstale, ?_⟩
  intro s' hreach
  obtain ⟨hstuck', hmounted', -⟩ := (mounted_path_polled true tr htr).2 _ hstuck s' hreach
  exact ⟨hstuck', hmounted'.trans hmounted⟩

end MlopsLite.Ui.UseLive
