import MlopsLite.Supervisor.Supervise

/-!
# Shutdown — the monitor, the signals and the exit

`monitor_loop`, `shutdown`, `terminate` and the end of `main` (`supervisor/supervise.py`) over
`Daemon.reconcile`. The monitor is a thread of its own; a signal runs `shutdown` on
the main thread, in between any two of its steps, and `main` runs it once more before it
exits. The lock is not reentrant. Children exit when they like.
-/

namespace MlopsLite.Supervisor

open Backoff (Pace)

/-- A process that a daemon was started as. -/
structure Child where
  alive : Bool
  /-- `terminate` found it alive -/
  terminated : Bool
  /-- launched after the last `shutdown` -/
  late : Bool
  deriving DecidableEq

/-- A daemon, its `proc` and the ones before. -/
structure Slot where
  graceS : ℚ
  daemon : Daemon
  child : Option Child
  past : List Child

namespace Slot

def init (graceS : ℚ) : Slot := ⟨graceS, .init, none, []⟩

/-- `self.proc.poll() is None`. -/
def alive (s : Slot) : Bool := s.child.any Child.alive

/-- What a poll meets besides the child. -/
structure Meets where
  healthy : Bool
  launches : Bool
  clock : ℚ

def poll (s : Slot) (now : ℚ) (m : Meets) : Poll := ⟨now, s.alive, m.healthy, m.launches, m.clock⟩

def reconcile (p : Pace) (late : Bool) (now : ℚ) (m : Meets) (s : Slot) : Slot :=
  let r := s.daemon.reconcile p s.graceS (s.poll now m)
  if r.2 = .launch true then
    { s with
      daemon := r.1, past := s.past ++ s.child.toList, child := some ⟨true, false, late⟩ }
  else { s with daemon := r.1 }

/-- `terminate`: SIGTERM to the group, and SIGKILL after 10 s. -/
def terminate (s : Slot) : Slot :=
  { s with
    child := s.child.map fun c =>
      if c.alive then { c with alive := false, terminated := true } else c }

def dies (s : Slot) : Slot := { s with child := s.child.map fun c => { c with alive := false } }

end Slot

/-- `monitor_loop`: about to look at `stop`, about to take the lock, with the lock at the
daemon `i`, in `stop.wait`, returned. -/
inductive Monitor
  | check
  | acquire (now : ℚ)
  | reconcile (now : ℚ) (i : ℕ)
  | waiting
  | done

@[simp] def Monitor.holds : Monitor → Bool
  | .reconcile .. => true
  | .check | .acquire _ | .waiting | .done => false

/-- One `shutdown` on the main thread. -/
inductive FramePc
  | set
  | acquire
  | terminate (i : ℕ)

/-- `last`: the one of `main` itself. -/
structure Frame where
  last : Bool
  pc : FramePc

@[simp] def FramePc.holds : FramePc → Bool
  | .terminate _ => true
  | .set | .acquire => false

/-- Where `main` is below the calls of `shutdown`. -/
inductive Main
  | polling
  | closing
  | exited
  deriving DecidableEq

structure Sup where
  slots : List Slot
  stop : Bool
  monitor : Monitor
  main : Main
  /-- the calls of `shutdown` on the main thread, the innermost first -/
  frames : List Frame
  /-- the last one has returned -/
  finished : Bool

namespace Sup

def init (graces : List ℚ) : Sup := ⟨graces.map Slot.init, false, .check, .polling, [], false⟩

/-- Nobody is in a section of the lock. -/
def free (s : Sup) : Bool := !s.monitor.holds && !s.frames.any fun f => f.pc.holds

end Sup

inductive Event
  | monitor (now : ℚ) (m : Slot.Meets)
  | main
  | signal
  | dies (i : ℕ)

/-- The step of the monitor. -/
def Sup.stepMonitor (p : Pace) (s : Sup) (now : ℚ) (m : Slot.Meets) : Option Sup :=
  match s.monitor with
  | .check => some { s with monitor := if s.stop then .done else .acquire now }
  | .acquire now => if s.free then some { s with monitor := .reconcile now 0 } else none
  | .reconcile now i =>
      if i < s.slots.length then
        some { s with
          slots := s.slots.modify i (Slot.reconcile p s.finished now m)
          monitor := .reconcile now (i + 1) }
      else some { s with monitor := .waiting }
  | .waiting => some { s with monitor := .check }
  | .done => none

/-- The step of the main thread, in its innermost call. -/
def Sup.stepMain (s : Sup) : Option Sup :=
  match s.frames with
  | [] =>
      match s.main with
      | .polling =>
          if s.stop then some { s with main := .closing, frames := [⟨true, .set⟩] } else none
      | .closing => some { s with main := .exited }
      | .exited => none
  | ⟨last, .set⟩ :: rest => some { s with stop := true, frames := ⟨last, .acquire⟩ :: rest }
  | ⟨last, .acquire⟩ :: rest =>
      if s.free then some { s with frames := ⟨last, .terminate 0⟩ :: rest } else none
  | ⟨last, .terminate i⟩ :: rest =>
      if i < s.slots.length then
        some { s with
          slots := s.slots.modify i Slot.terminate, frames := ⟨last, .terminate (i + 1)⟩ :: rest }
      else some { s with frames := rest, finished := s.finished || last }

/-- The threads end with the process. -/
def next (p : Pace) (s : Sup) : Event → Option Sup
  | .monitor now m => if s.main = .exited then none else s.stepMonitor p now m
  | .main => s.stepMain
  | .signal =>
      if s.main = .exited then none else some { s with frames := ⟨false, .set⟩ :: s.frames }
  | .dies i => some { s with slots := s.slots.modify i Slot.dies }

/-! ## A poll -/

section

variable {p : Pace} {graceS now : ℚ} {d : Daemon} {e : Poll}

/-- The exit is registered already, the delay raises, or the wait begins. -/
theorem register_cases (p : Pace) (d : Daemon) (now : ℚ) :
    (d.exitRegistered = true ∧ d.register p now = (d, true)) ∨
    (d.exitRegistered = false ∧ 1024 ≤ d.consecutiveFailures ∧
      d.register p now = (d.countFailure, false)) ∨
    (d.exitRegistered = false ∧ ∃ delay, delay = min p.cap (p.base * 2 ^ d.consecutiveFailures) ∧
      d.register p now =
        ({ d.countFailure with backoffUntil := now + delay, exitRegistered := true }, true)) := by
  cases hregistered : d.exitRegistered with
  | true => exact .inl ⟨rfl, if_pos hregistered⟩
  | false =>
    right
    rcases Nat.lt_or_ge d.consecutiveFailures 1024 with hfew | hmany
    · right
      refine ⟨rfl, _, rfl, ?_⟩
      have hdelay : backoff p d.countFailure.consecutiveFailures =
          some (min p.cap (p.base * 2 ^ d.consecutiveFailures)) :=
        backoff_eq_some (Nat.succ_le_of_lt hfew)
      rw [Daemon.register, if_neg (by simp [hregistered]), hdelay]
    · left
      refine ⟨rfl, hmany, ?_⟩
      have hover : backoff p d.countFailure.consecutiveFailures = none :=
        backoff_eq_none (Nat.succ_le_succ hmany)
      rw [Daemon.register, if_neg (by simp [hregistered]), hover]

/-- What `start` makes of a daemon. -/
def Daemon.started (d : Daemon) (e : Poll) : Daemon :=
  { d with
    spawned := true, startedAt := e.clock, restartCount := d.restartCount + 1
    state := .starting, exitRegistered := false }

/-- A poll launches a daemon that was never started, or one that is down and whose wait is
over. -/
theorem reconcile_launched (h : (d.reconcile p graceS e).2 = .launch true) :
    ∃ d₁, (d.reconcile p graceS e).1 = d₁.started e ∧
      ((d.spawned = false ∧ d₁ = d) ∨
        (d.spawned = true ∧ e.alive = false ∧ d.register p e.now = (d₁, true) ∧
          d₁.backoffUntil ≤ e.now)) := by
  have hstart (d₁ : Daemon) (h : (d₁.start e).2 = .launch true) :
      (d₁.start e).1 = d₁.started e := by
    unfold Daemon.start at h ⊢
    by_cases hlaunches : e.launches = true
    · rw [if_pos hlaunches]
      rfl
    · rw [if_neg hlaunches] at h
      cases h
  cases hspawned : d.spawned with
  | false =>
    have heq : d.reconcile p graceS e = d.start e := by
      rw [Daemon.reconcile, if_pos (by simp [hspawned])]
    rw [heq] at h ⊢
    exact ⟨d, hstart d h, .inl ⟨rfl, rfl⟩⟩
  | true =>
    cases halive : e.alive with
    | true =>
      rw [Daemon.reconcile, if_neg (by simp [hspawned]), if_neg (by simp [halive])] at h
      split at h
      · cases h
      · split at h <;> cases h
    | false =>
      have heq := reconcile_down p graceS hspawned halive
      cases hregister : d.register p e.now with
      | mk d₁ fine =>
        rw [hregister] at heq
        cases fine with
        | false =>
          rw [heq] at h
          cases h
        | true =>
          dsimp only at heq
          rw [heq] at h ⊢
          split at h
          · cases h
          · rename_i hover
            rw [if_neg hover]
            exact ⟨d₁, hstart d₁ h, .inr ⟨rfl, rfl, rfl, not_lt.mp hover⟩⟩

/-- A poll that launches nothing: it leaves the daemon, finds it up, or registers its
exit. -/
theorem reconcile_stays (h : (d.reconcile p graceS e).2 ≠ .launch true) :
    (d.reconcile p graceS e).1.spawned = d.spawned ∧
    (d.reconcile p graceS e).1.restartCount = d.restartCount ∧
    (((d.reconcile p graceS e).1.exitRegistered = d.exitRegistered ∧
        ((d.reconcile p graceS e).1.consecutiveFailures = d.consecutiveFailures ∨
          (d.reconcile p graceS e).1.consecutiveFailures = 0)) ∨
      (d.spawned = true ∧ e.alive = false ∧
        (d.reconcile p graceS e).1.exitRegistered = (d.register p e.now).1.exitRegistered ∧
        (d.reconcile p graceS e).1.consecutiveFailures =
          (d.register p e.now).1.consecutiveFailures)) := by
  have hstart (d₁ : Daemon) (h : (d₁.start e).2 ≠ .launch true) : (d₁.start e).1 = d₁ := by
    unfold Daemon.start at h ⊢
    split at h
    · exact absurd rfl h
    · rename_i hno
      rw [if_neg hno]
  cases hspawned : d.spawned with
  | false =>
    have heq : d.reconcile p graceS e = d.start e := by
      rw [Daemon.reconcile, if_pos (by simp [hspawned])]
    rw [heq] at h ⊢
    rw [hstart d h]
    exact ⟨hspawned, rfl, .inl ⟨rfl, .inl rfl⟩⟩
  | true =>
    cases halive : e.alive with
    | true =>
      rw [Daemon.reconcile, if_neg (by simp [hspawned]), if_neg (by simp [halive])]
      split
      · exact ⟨hspawned, rfl, .inl ⟨rfl, .inr rfl⟩⟩
      · split <;> exact ⟨hspawned, rfl, .inl ⟨rfl, .inl rfl⟩⟩
    | false =>
      have heq := reconcile_down p graceS hspawned halive
      have hkept : (d.register p e.now).1.spawned = d.spawned ∧
          (d.register p e.now).1.restartCount = d.restartCount := by
        rcases register_cases p d e.now with ⟨-, hr⟩ | ⟨-, -, hr⟩ | ⟨-, delay, -, hr⟩
        all_goals rw [hr]; exact ⟨rfl, rfl⟩
      cases hregister : d.register p e.now with
      | mk d₁ fine =>
        rw [hregister] at heq hkept
        cases fine with
        | false =>
          rw [heq]
          exact ⟨hkept.1.trans hspawned, hkept.2, .inr ⟨rfl, rfl, rfl, rfl⟩⟩
        | true =>
          dsimp only at heq
          rw [heq] at h ⊢
          split
          · exact ⟨hkept.1.trans hspawned, hkept.2, .inr ⟨rfl, rfl, rfl, rfl⟩⟩
          · rename_i hover
            rw [if_neg hover] at h
            rw [hstart d₁ h]
            exact ⟨hkept.1.trans hspawned, hkept.2, .inr ⟨rfl, rfl, rfl, rfl⟩⟩

end

/-! ## A daemon and its processes -/

/-- No process of the daemon runs but the one it knows, each was counted as it was started,
and each exit is counted once while the delays do not raise. -/
structure Slot.Kept (s : Slot) : Prop where
  spawned : s.daemon.spawned = s.child.isSome
  registered : s.daemon.exitRegistered = true → s.alive = false ∧ s.child.isSome = true
  past : ∀ c ∈ s.past, c.alive = false
  count : s.daemon.restartCount = s.past.length + s.child.toList.length
  failures : 1024 < s.daemon.consecutiveFailures ∨
    s.daemon.consecutiveFailures + (if s.daemon.exitRegistered then 0 else s.child.toList.length) ≤
      s.daemon.restartCount

namespace Slot

variable {p : Pace} {late : Bool} {now : ℚ} {m : Meets} {s : Slot}

theorem kept_init (graceS : ℚ) : (init graceS).Kept := by
  refine ⟨rfl, (fun h => nomatch h), (fun c h => nomatch h), rfl, .inr ?_⟩
  exact le_rfl

theorem alive_eq_false_iff : s.alive = false ↔ ∀ c, s.child = some c → c.alive = false := by
  unfold alive
  cases s.child <;> simp

theorem toList_length : s.child.toList.length = if s.child.isSome then 1 else 0 := by
  cases s.child <;> rfl

/-- A launch: the child before is down, and the failures counted are those of the children
before. -/
theorem Kept.launched (h : s.Kept) (c : Child) {d₁ : Daemon} {e : Poll} (hdown : s.alive = false)
    (hcount : d₁.restartCount = s.daemon.restartCount)
    (hfailures : 1024 < d₁.consecutiveFailures ∨ d₁.consecutiveFailures ≤ s.daemon.restartCount) :
    Kept { s with
      daemon := d₁.started e, past := s.past ++ s.child.toList, child := some c } := by
  have hrestart : (d₁.started e).restartCount = s.daemon.restartCount + 1 :=
    congrArg (· + 1) hcount
  constructor
  · rfl
  · intro hno
    cases hno
  · intro c' hc'
    rcases List.mem_append.mp hc' with hc' | hc'
    · exact h.past c' hc'
    · exact alive_eq_false_iff.mp hdown c' (Option.mem_toList.mp hc')
  · show (d₁.started e).restartCount = (s.past ++ s.child.toList).length + 1
    rw [hrestart, List.length_append, h.count]
  · rcases hfailures with hmany | hfew
    · exact .inl hmany
    · right
      show d₁.consecutiveFailures + 1 ≤ (d₁.started e).restartCount
      omega

/-- What the exit's registration counts. -/
theorem Kept.registered_failures (h : s.Kept) (hspawned : s.daemon.spawned = true)
    {d₁ : Daemon} (hregister : (s.daemon.register p now).1 = d₁) :
    d₁.restartCount = s.daemon.restartCount ∧
    (1024 < d₁.consecutiveFailures ∨
      (d₁.exitRegistered = true ∧ d₁.consecutiveFailures ≤ s.daemon.restartCount)) := by
  have hone : s.child.toList.length = 1 := by
    rw [toList_length, ← h.spawned, hspawned, if_pos rfl]
  rcases register_cases p s.daemon now with ⟨hr, heq⟩ | ⟨hr, hmany, heq⟩ | ⟨hr, delay, -, heq⟩
  · rw [heq] at hregister
    subst hregister
    refine ⟨rfl, h.failures.imp id fun hfew => ⟨hr, ?_⟩⟩
    simpa [hr] using hfew
  · rw [heq] at hregister
    subst hregister
    exact ⟨rfl, .inl (Nat.lt_succ_of_le hmany)⟩
  · rw [heq] at hregister
    subst hregister
    have hfailures := h.failures
    rw [hr, if_neg Bool.false_ne_true, hone] at hfailures
    refine ⟨rfl, hfailures.imp (fun hmany => ?_) fun hfew => ⟨rfl, hfew⟩⟩
    exact Nat.lt_succ_of_lt hmany

/-- A poll that launches nothing. -/
theorem Kept.stays (h : s.Kept) {d : Daemon} (hspawned : d.spawned = s.daemon.spawned)
    (hcount : d.restartCount = s.daemon.restartCount)
    (hrest : (d.exitRegistered = true → s.alive = false ∧ s.child.isSome = true) ∧
      (1024 < d.consecutiveFailures ∨
        d.consecutiveFailures + (if d.exitRegistered then 0 else s.child.toList.length) ≤
          s.daemon.restartCount)) : Kept { s with daemon := d } := by
  refine ⟨hspawned.trans h.spawned, hrest.1, h.past, hcount.trans h.count, ?_⟩
  rw [← hcount] at hrest
  exact hrest.2

theorem Kept.reconcile (h : s.Kept) : (s.reconcile p late now m).Kept := by
  unfold Slot.reconcile
  by_cases hlaunch : (s.daemon.reconcile p s.graceS (s.poll now m)).2 = .launch true
  · rw [if_pos hlaunch]
    obtain ⟨d₁, hd, ⟨hno, rfl⟩ | ⟨hspawned, hdown, hregister, -⟩⟩ := reconcile_launched hlaunch
    · have hnone : s.child = none := by
        rw [h.spawned] at hno
        simpa using hno
      rw [hd]
      refine h.launched _ (by simp [alive, hnone]) rfl ?_
      exact h.failures.imp id fun hfew => (Nat.le_add_right _ _).trans hfew
    · obtain ⟨hcount, hfailures⟩ := h.registered_failures hspawned (congrArg Prod.fst hregister)
      rw [hd]
      exact h.launched _ hdown hcount (hfailures.imp id And.right)
  · rw [if_neg hlaunch]
    obtain ⟨hspawned, hcount, hrest⟩ := reconcile_stays hlaunch
    apply h.stays hspawned hcount
    rcases hrest with ⟨hregistered, hsame | hzero⟩ | ⟨hup, hdown, hregistered, hfailures⟩
    · rw [hregistered, hsame]
      exact ⟨h.registered, h.failures⟩
    · rw [hregistered, hzero]
      refine ⟨h.registered, .inr ?_⟩
      have hcount := h.count
      split <;> omega
    · have hone : s.child.isSome = true := by rw [← h.spawned, hup]
      rw [hregistered, hfailures]
      refine ⟨fun _ => ⟨hdown, hone⟩, ?_⟩
      rcases (h.registered_failures hup rfl).2 with hmany | ⟨hr, hfew⟩
      · exact .inl hmany
      · right
        rw [hr, if_pos rfl]
        exact hfew

/-- The child goes down, on its own or not. -/
theorem Kept.down (h : s.Kept) {f : Child → Child} (hf : ∀ c, (f c).alive = false) :
    Kept { s with child := s.child.map f } := by
  have hdown : Slot.alive { s with child := s.child.map f } = false := by
    rw [alive_eq_false_iff]
    intro c hc
    obtain ⟨c', -, rfl⟩ := Option.map_eq_some_iff.mp hc
    exact hf c'
  have hlength : (s.child.map f).toList.length = s.child.toList.length := by
    cases s.child <;> rfl
  constructor
  · rw [Option.isSome_map]
    exact h.spawned
  · intro hr
    rw [Option.isSome_map]
    exact ⟨hdown, (h.registered hr).2⟩
  · exact h.past
  · rw [hlength]
    exact h.count
  · rw [hlength]
    exact h.failures

theorem Kept.dies (h : s.Kept) : s.dies.Kept := h.down fun _ => rfl

theorem Kept.terminate (h : s.Kept) : s.terminate.Kept := by
  apply h.down
  intro c
  split
  · rfl
  · rename_i hdead
    simpa using hdead

end Slot

/-! ## The supervisor -/

/-- A pass of the monitor that is under way has come past the daemon, or there is none. -/
@[simp] def Monitor.Past (i : ℕ) : Monitor → Prop
  | .check | .waiting | .done => True
  | .acquire _ => False
  | .reconcile _ j => i < j

/-- What holds of the daemon `i`: a process that was terminated is not replaced, as its exit is
registered in the last pass at the earliest; and a process that is alive after the last
`shutdown` was launched after it. -/
structure SlotInv (stop finished : Bool) (monitor : Monitor) (i : ℕ) (x : Slot) : Prop where
  kept : x.Kept
  spared : ∀ c ∈ x.past, c.terminated = false
  ended : ∀ c, x.child = some c → c.terminated = true →
    c.alive = false ∧ stop = true ∧ (x.daemon.exitRegistered = false ∨ monitor.Past i)
  late : finished = true → ∀ c, x.child = some c → c.alive = true → c.late = true

section

variable {stop stop' finished finished' : Bool} {monitor monitor' : Monitor} {i : ℕ} {x : Slot}
  {p : Pace} {now : ℚ} {m : Slot.Meets}

theorem SlotInv.mono (h : SlotInv stop finished monitor i x) (hstop : stop = true → stop' = true)
    (hfinished : finished' = true → finished = true)
    (hpast : stop = true → monitor.Past i → monitor'.Past i) :
    SlotInv stop' finished' monitor' i x := by
  refine ⟨h.kept, h.spared, fun c hc ht => ?_, fun hf => h.late (hfinished hf)⟩
  obtain ⟨hdown, hs, hwhere⟩ := h.ended c hc ht
  exact ⟨hdown, hstop hs, hwhere.imp id (hpast hs)⟩

/-- A poll does not launch what it has just found down: the wait is ahead. -/
theorem not_launched_fresh (hbase : 0 < p.base) (hcap : 0 < p.cap)
    (hspawned : x.daemon.spawned = true) (hfresh : x.daemon.exitRegistered = false) :
    (x.daemon.reconcile p x.graceS (x.poll now m)).2 ≠ .launch true := by
  intro hlaunch
  obtain ⟨d₁, -, ⟨hno, -⟩ | ⟨-, -, hregister, hdue⟩⟩ := reconcile_launched hlaunch
  · rw [hspawned] at hno
    cases hno
  · rcases register_cases p x.daemon now with ⟨hr, -⟩ | ⟨-, -, hr⟩ | ⟨-, delay, hdelay, hr⟩
    · rw [hfresh] at hr
      cases hr
    · have heq := hr.symm.trans hregister
      cases congrArg Prod.snd heq
    · have heq : _ = d₁ := congrArg Prod.fst (hr.symm.trans hregister)
      have hpos : 0 < delay := by
        rw [hdelay]
        exact lt_min hcap (mul_pos hbase (pow_pos two_pos _))
      have hdue : now + delay ≤ now := by
        rw [← heq] at hdue
        exact hdue
      linarith

theorem SlotInv.reconcile (hbase : 0 < p.base) (hcap : 0 < p.cap)
    (h : SlotInv stop finished (.reconcile now i) i x) :
    SlotInv stop finished (.reconcile now (i + 1)) i (x.reconcile p finished now m) := by
  have hkept : (x.reconcile p finished now m).Kept := h.kept.reconcile
  by_cases hlaunch : (x.daemon.reconcile p x.graceS (x.poll now m)).2 = .launch true
  · have hnew : x.reconcile p finished now m =
        { x with
          daemon := (x.daemon.reconcile p x.graceS (x.poll now m)).1
          past := x.past ++ x.child.toList, child := some ⟨true, false, finished⟩ } :=
      if_pos hlaunch
    refine ⟨hkept, fun c hc => ?_, fun c hc ht => ?_, fun hf c hc _ => ?_⟩
    · rw [hnew] at hc
      rcases List.mem_append.mp hc with hc | hc
      · exact h.spared c hc
      · have hc := Option.mem_toList.mp hc
        by_contra hterminated
        rw [Bool.not_eq_false] at hterminated
        obtain ⟨-, -, hfresh | hpast⟩ := h.ended c hc hterminated
        · have hspawned : x.daemon.spawned = true := by rw [h.kept.spawned, hc]; rfl
          exact not_launched_fresh hbase hcap hspawned hfresh hlaunch
        · exact lt_irrefl i hpast
    · rw [hnew] at hc
      obtain rfl := Option.some.inj hc
      cases ht
    · rw [hnew] at hc
      obtain rfl := Option.some.inj hc
      exact hf
  · have hsame : x.reconcile p finished now m =
        { x with daemon := (x.daemon.reconcile p x.graceS (x.poll now m)).1 } := if_neg hlaunch
    rw [hsame] at hkept ⊢
    refine ⟨hkept, h.spared, fun c hc ht => ?_, h.late⟩
    obtain ⟨hdown, hs, -⟩ := h.ended c hc ht
    exact ⟨hdown, hs, .inr (Nat.lt_succ_self i)⟩

theorem SlotInv.dies (h : SlotInv stop finished monitor i x) :
    SlotInv stop finished monitor i x.dies := by
  refine ⟨h.kept.dies, h.spared, fun c hc ht => ?_, fun _ c hc halive => ?_⟩
  · obtain ⟨c', hc', rfl⟩ := Option.map_eq_some_iff.mp hc
    obtain ⟨-, hrest⟩ := h.ended c' hc' ht
    exact ⟨rfl, hrest⟩
  · obtain ⟨c', -, rfl⟩ := Option.map_eq_some_iff.mp hc
    cases halive

theorem Slot.terminate_alive (x : Slot) : x.terminate.alive = false := by
  rw [Slot.alive_eq_false_iff]
  intro c hc
  obtain ⟨c', -, rfl⟩ := Option.map_eq_some_iff.mp hc
  split
  · rfl
  · rename_i hdead
    simpa using hdead

/-- What is terminated alive has no registered exit. -/
theorem SlotInv.terminate (h : SlotInv stop finished monitor i x) (hstop : stop = true) :
    SlotInv stop finished monitor i x.terminate := by
  have hdown := Slot.alive_eq_false_iff.mp x.terminate_alive
  refine ⟨h.kept.terminate, h.spared, fun c hc ht => ⟨hdown c hc, hstop, ?_⟩,
    fun _ c hc halive => ?_⟩
  · obtain ⟨c', hc', rfl⟩ := Option.map_eq_some_iff.mp hc
    split at ht
    · rename_i halive
      left
      by_contra hregistered
      rw [Bool.not_eq_false] at hregistered
      have hno := Slot.alive_eq_false_iff.mp (h.kept.registered hregistered).1 c' hc'
      rw [halive] at hno
      cases hno
    · exact (h.ended c' hc' ht).2.2
  · rw [hdown c hc] at halive
    cases halive

end

/-- `main` is past its loop exactly from its own `shutdown` on. -/
structure Ending (main : Main) (finished : Bool) (lasts : List Bool) : Prop where
  polling : main = .polling → finished = false ∧ true ∉ lasts
  closing : main ≠ .polling → finished = true ∨ true ∈ lasts
  exited : main = .exited → lasts = []

/-- The lock has one owner, `shutdown` has set `stop` before it takes it, and the last one
leaves the daemons it has come past down. -/
structure Inv (s : Sup) : Prop where
  slots : ∀ i x, s.slots[i]? = some x → SlotInv s.stop s.finished s.monitor i x
  excl : s.monitor.holds = true → ∀ f ∈ s.frames, f.pc.holds = false
  one : s.frames.Pairwise fun f g => ¬ (f.pc.holds = true ∧ g.pc.holds = true)
  stopping : ∀ f ∈ s.frames, f.pc ≠ .set → s.stop = true
  down : ∀ f ∈ s.frames, f.last = true → ∀ i, f.pc = .terminate i →
    ∀ j < i, ∀ x, s.slots[j]? = some x → x.alive = false
  ending : Ending s.main s.finished (s.frames.map Frame.last)

theorem inv_init (graces : List ℚ) : Inv (Sup.init graces) := by
  refine ⟨fun i x hx => ?_, (fun h => nomatch h), .nil, (fun f h => nomatch h),
    (fun f h => nomatch h), fun _ => ⟨rfl, (fun h => nomatch h)⟩, fun h => absurd rfl h,
    fun _ => rfl⟩
  have hx : x ∈ graces.map Slot.init := List.mem_of_getElem? hx
  obtain ⟨graceS, -, rfl⟩ := List.mem_map.mp hx
  exact ⟨Slot.kept_init graceS, (fun c h => nomatch h), (fun c h => nomatch h),
    (fun h => nomatch h)⟩

theorem of_modify {α : Type} {l : List α} {i j : ℕ} {f : α → α} {a : α}
    (h : (l.modify i f)[j]? = some a) :
    (i = j ∧ ∃ b, l[j]? = some b ∧ a = f b) ∨ (i ≠ j ∧ l[j]? = some a) := by
  rw [List.getElem?_modify] at h
  obtain ⟨b, hb, rfl⟩ := Option.map_eq_some_iff.mp h
  by_cases hij : i = j
  · rw [if_pos hij]
    exact .inl ⟨hij, b, hb, rfl⟩
  · rw [if_neg hij]
    exact .inr ⟨hij, hb⟩

section

variable {p : Pace} {s s' : Sup}

theorem Sup.free_iff : s.free = true ↔
    s.monitor.holds = false ∧ ∀ f ∈ s.frames, f.pc.holds = false := by
  simp [Sup.free]

/-- The steps of the monitor, but for its section. -/
theorem Inv.monitor (h : Inv s) {monitor : Monitor}
    (hexcl : monitor.holds = true → ∀ f ∈ s.frames, f.pc.holds = false)
    (hpast : ∀ i, s.stop = true → s.monitor.Past i → monitor.Past i) :
    Inv { s with monitor := monitor } :=
  ⟨fun i x hx => (h.slots i x hx).mono id id (hpast i), hexcl, h.one, h.stopping, h.down,
    h.ending⟩

theorem Inv.stepMonitor (hbase : 0 < p.base) (hcap : 0 < p.cap) (h : Inv s) {now : ℚ}
    {m : Slot.Meets} (hn : s.stepMonitor p now m = some s') : Inv s' := by
  unfold Sup.stepMonitor at hn
  cases hpc : s.monitor with
  | check =>
    rw [hpc] at hn
    cases hn
    apply h.monitor
    · intro hholds
      split at hholds <;> cases hholds
    · intro i hstop _
      rw [if_pos hstop]
      trivial
  | acquire now' =>
    rw [hpc] at hn
    dsimp only at hn
    split at hn
    · rename_i hfree
      cases hn
      apply h.monitor
      · exact fun _ => (Sup.free_iff.mp hfree).2
      · intro i _ hno
        rw [hpc] at hno
        exact hno.elim
    · cases hn
  | reconcile now' i =>
    rw [hpc] at hn
    dsimp only at hn
    split at hn
    · cases hn
      have hnone := h.excl (by rw [hpc]; rfl)
      refine ⟨fun j x hx => ?_, fun _ => hnone, h.one, h.stopping, fun f hf hlast k hk => ?_,
        h.ending⟩
      · have hslots := h.slots
        rw [hpc] at hslots
        rcases of_modify hx with ⟨rfl, y, hy, rfl⟩ | ⟨hne, hy⟩
        · exact (hslots i y hy).reconcile hbase hcap
        · exact (hslots j x hy).mono id id fun _ hlt => Nat.lt_succ_of_lt hlt
      · have hno := hnone f hf
        rw [hk] at hno
        cases hno
    · cases hn
      apply h.monitor
      · intro hno
        cases hno
      · exact fun _ _ _ => trivial
  | waiting =>
    rw [hpc] at hn
    cases hn
    apply h.monitor
    · intro hno
      cases hno
    · exact fun _ _ _ => trivial
  | done =>
    rw [hpc] at hn
    cases hn

/-- The innermost call of `shutdown` moves on, outside its section. -/
theorem Inv.advance (h : Inv s) {last stop : Bool} {pc pc' : FramePc} {rest : List Frame}
    (hframes : s.frames = ⟨last, pc⟩ :: rest) (hstop : s.stop = true → stop = true)
    (hset : stop = true) (hexcl : pc'.holds = true → s.free = true)
    (hdown : ∀ i, pc' = .terminate i → i = 0) :
    Inv { s with stop := stop, frames := ⟨last, pc'⟩ :: rest } := by
  have hmem (f : Frame) (hf : f ∈ rest) : f ∈ s.frames := hframes ▸ List.mem_cons_of_mem _ hf
  have hone := h.one
  rw [hframes] at hone
  refine ⟨fun i x hx => (h.slots i x hx).mono hstop id fun _ hpast => hpast, fun hholds => ?_,
    List.pairwise_cons.mpr ⟨fun g hg hboth => ?_, (List.pairwise_cons.mp hone).2⟩,
    fun _ _ _ => hset, fun f hf hlast i hi j hj => ?_, ?_⟩
  · refine List.forall_mem_cons.mpr ⟨?_, fun f hf => h.excl hholds f (hmem f hf)⟩
    by_contra hno
    rw [Bool.not_eq_false] at hno
    rw [(Sup.free_iff.mp (hexcl hno)).1] at hholds
    cases hholds
  · have hfree := (Sup.free_iff.mp (hexcl hboth.1)).2 g (hmem g hg)
    rw [hboth.2] at hfree
    cases hfree
  · rcases List.mem_cons.mp hf with rfl | hf
    · rw [hdown i hi] at hj
      exact absurd hj (Nat.not_lt_zero j)
    · exact h.down f (hmem f hf) hlast i hi j hj
  · have hending := h.ending
    rw [hframes] at hending
    exact hending

/-- The section of `shutdown`: one daemon more is terminated. -/
theorem Inv.terminate (h : Inv s) {last : Bool} {i : ℕ} {rest : List Frame}
    (hframes : s.frames = ⟨last, .terminate i⟩ :: rest) :
    Inv { s with
      slots := s.slots.modify i Slot.terminate, frames := ⟨last, .terminate (i + 1)⟩ :: rest } := by
  have hmem (f : Frame) (hf : f ∈ rest) : f ∈ s.frames := hframes ▸ List.mem_cons_of_mem _ hf
  have hhead : (⟨last, .terminate i⟩ : Frame) ∈ s.frames := hframes ▸ List.mem_cons_self
  have hstop := h.stopping _ hhead (by simp)
  have hone := h.one
  rw [hframes] at hone
  refine ⟨fun j x hx => ?_, fun hholds => ?_, List.pairwise_cons.mpr ?_, fun _ _ _ => hstop,
    fun f hf hlast k hk j hj x hx => ?_, ?_⟩
  · rcases of_modify hx with ⟨rfl, y, hy, rfl⟩ | ⟨-, hy⟩
    · exact (h.slots i y hy).terminate hstop
    · exact h.slots j x hy
  · have hno := h.excl hholds _ hhead
    cases hno
  · exact ⟨fun g hg => (List.pairwise_cons.mp hone).1 g hg, (List.pairwise_cons.mp hone).2⟩
  · rcases of_modify hx with ⟨rfl, y, -, rfl⟩ | ⟨hne, hy⟩
    · exact y.terminate_alive
    · rcases List.mem_cons.mp hf with rfl | hf
      · cases hk
        exact h.down _ hhead hlast i rfl j (by omega) x hy
      · exact h.down f (hmem f hf) hlast k hk j hj x hy
  · have hending := h.ending
    rw [hframes] at hending
    exact hending

/-- `shutdown` returns; after the last one every daemon is down. -/
theorem Inv.return (h : Inv s) {last : Bool} {i : ℕ} {rest : List Frame}
    (hframes : s.frames = ⟨last, .terminate i⟩ :: rest) (hover : s.slots.length ≤ i) :
    Inv { s with frames := rest, finished := s.finished || last } := by
  have hmem (f : Frame) (hf : f ∈ rest) : f ∈ s.frames := hframes ▸ List.mem_cons_of_mem _ hf
  have hhead : (⟨last, .terminate i⟩ : Frame) ∈ s.frames := hframes ▸ List.mem_cons_self
  have hone := h.one
  have hending := h.ending
  rw [hframes] at hone hending
  refine ⟨fun j x hx => ?_, fun hholds f hf => h.excl hholds f (hmem f hf),
    (List.pairwise_cons.mp hone).2, fun f hf => h.stopping f (hmem f hf),
    fun f hf => h.down f (hmem f hf), ?_⟩
  · have hslot := h.slots j x hx
    refine ⟨hslot.kept, hslot.spared, hslot.ended, fun hfinished c hc halive => ?_⟩
    cases hlast : last with
    | false =>
      rw [hlast] at hfinished
      exact hslot.late (by simpa using hfinished) c hc halive
    | true =>
      have hlt : j < s.slots.length := (List.getElem?_eq_some_iff.mp hx).1
      have hdown := h.down _ hhead hlast i rfl j (by omega) x hx
      rw [Slot.alive_eq_false_iff.mp hdown c hc] at halive
      cases halive
  · constructor
    · intro hmain
      obtain ⟨hfinished, hnone⟩ := hending.polling hmain
      rw [List.map_cons, List.mem_cons, not_or] at hnone
      have hlast : last = false := by simpa using hnone.1
      exact ⟨by rw [hfinished, hlast]; rfl, hnone.2⟩
    · intro hmain
      rcases hending.closing hmain with hfinished | hin
      · exact .inl (by rw [hfinished]; rfl)
      · rcases List.mem_cons.mp hin with hlast | hin
        · left
          show (s.finished || last) = true
          rw [show last = true from hlast.symm, Bool.or_true]
        · exact .inr hin
    · intro hmain
      cases hending.exited hmain

/-- A call of `shutdown`, by a signal or at the end of `main`. -/
theorem Inv.call (h : Inv s) {last : Bool} {main : Main}
    (hending : Ending main s.finished (last :: s.frames.map Frame.last)) :
    Inv { s with main := main, frames := ⟨last, .set⟩ :: s.frames } := by
  refine ⟨h.slots, fun hholds => List.forall_mem_cons.mpr ⟨rfl, h.excl hholds⟩,
    List.pairwise_cons.mpr ⟨fun g _ hboth => (nomatch hboth.1), h.one⟩, fun f hf hset => ?_,
    fun f hf hlast i hi => ?_, hending⟩
  · rcases List.mem_cons.mp hf with rfl | hf
    · exact absurd rfl hset
    · exact h.stopping f hf hset
  · rcases List.mem_cons.mp hf with rfl | hf
    · cases hi
    · exact h.down f hf hlast i hi

theorem Inv.stepMain (h : Inv s) (hn : s.stepMain = some s') : Inv s' := by
  unfold Sup.stepMain at hn
  split at hn
  · rename_i hframes
    have hending := h.ending
    rw [hframes] at hending
    split at hn
    · rename_i hmain
      split at hn
      · cases hn
        have hcalled : Inv { s with main := .closing, frames := ⟨true, .set⟩ :: s.frames } := by
          apply h.call
          exact ⟨(fun hno => nomatch hno), fun _ => .inr List.mem_cons_self,
            (fun hno => nomatch hno)⟩
        rwa [hframes] at hcalled
      · cases hn
    · rename_i hmain
      cases hn
      refine ⟨h.slots, h.excl, h.one, h.stopping, h.down, ?_⟩
      rw [hframes]
      exact ⟨(fun hno => nomatch hno), fun _ => hending.closing (by rw [hmain]; decide),
        fun _ => rfl⟩
    · cases hn
  · rename_i hframes
    cases hn
    exact h.advance hframes (fun _ => rfl) rfl (fun hno => (nomatch hno))
      (fun i hno => (nomatch hno))
  · rename_i hframes
    split at hn
    · rename_i hfree
      cases hn
      have hstop : s.stop = true := h.stopping _ (hframes ▸ List.mem_cons_self) (by simp)
      apply h.advance hframes id hstop (fun _ => hfree)
      intro i hi
      cases hi
      rfl
    · cases hn
  · rename_i hframes
    split at hn
    · cases hn
      exact h.terminate hframes
    · rename_i hover
      cases hn
      exact h.return hframes (by omega)

theorem Inv.step (hbase : 0 < p.base) (hcap : 0 < p.cap) (h : Inv s) {a : Event}
    (hn : next p s a = some s') : Inv s' := by
  cases a with
  | monitor now m =>
    simp only [next] at hn
    split at hn
    · cases hn
    · exact h.stepMonitor hbase hcap hn
  | main => exact h.stepMain hn
  | signal =>
    simp only [next] at hn
    split at hn
    · cases hn
    · rename_i hmain
      cases hn
      apply h.call
      refine ⟨fun hp => ?_, fun hp => ?_, fun hexited => absurd hexited hmain⟩
      · obtain ⟨hfinished, hnone⟩ := h.ending.polling hp
        exact ⟨hfinished, by simpa using hnone⟩
      · exact (h.ending.closing hp).imp id (List.mem_cons_of_mem _)
  | dies i =>
    cases hn
    refine ⟨fun j x hx => ?_, h.excl, h.one, h.stopping, fun f hf hlast k hk j hj x hx => ?_,
      h.ending⟩
    · rcases of_modify hx with ⟨rfl, y, hy, rfl⟩ | ⟨-, hy⟩
      · exact (h.slots i y hy).dies
      · exact h.slots j x hy
    · rcases of_modify hx with ⟨rfl, y, -, rfl⟩ | ⟨-, hy⟩
      · rw [Slot.alive_eq_false_iff]
        intro c hc
        obtain ⟨c', -, rfl⟩ := Option.map_eq_some_iff.mp hc
        rfl
      · exact h.down f hf hlast k hk j hj x hy

end

/-! ## What is left running -/

theorem inv_of_reachable {p : Pace} {graces : List ℚ} {s : Sup} (hbase : 0 < p.base)
    (hcap : 0 < p.cap) (h : Runs.Reachable (next p) Runs.anyStep (Sup.init graces) s) : Inv s :=
  h.invariant (inv_init graces) fun _ _ _ _ hinv _ hn => hinv.step hbase hcap hn

def healthyStart : Slot.Meets := ⟨true, true, 0⟩

/-- The first pass waits for the lock until the last `shutdown` has returned. -/
def lateFirst : List Event :=
  [.monitor 0 healthyStart, .signal, .main, .main, .main, .main, .main, .main, .main, .main, .main,
    .monitor 0 healthyStart, .monitor 0 healthyStart, .main]

/-- No call of `shutdown` is interrupted in its section. -/
def Unnested (s : Sup) : Prop := ∀ f ∈ s.frames.tail, f.pc.holds = false

/-- A signal while a `shutdown` has the lock. -/
def Interrupts (s : Sup) (a : Event) : Prop :=
  a = .signal ∧ ∃ f ∈ s.frames, f.pc.holds = true

section

variable {p : Pace} {s s' : Sup} {a : Event}

theorem map_modify {α β : Type} {l : List α} {i : ℕ} {f : α → α} {g : α → β}
    (h : ∀ a, g (f a) = g a) : (l.modify i f).map g = l.map g := by
  apply List.ext_getElem?
  intro j
  rw [List.getElem?_map, List.getElem?_map, List.getElem?_modify]
  cases l[j]? with
  | none => rfl
  | some a =>
    show some (g (if i = j then f a else a)) = some (g a)
    split
    · rw [h]
    · rfl

theorem stepMonitor_frames {now : ℚ} {m : Slot.Meets} (hn : s.stepMonitor p now m = some s') :
    s'.frames = s.frames ∧ s'.main = s.main := by
  unfold Sup.stepMonitor at hn
  split at hn
  · cases hn
    exact ⟨rfl, rfl⟩
  · split at hn
    · cases hn
      exact ⟨rfl, rfl⟩
    · cases hn
  · split at hn
    · cases hn
      exact ⟨rfl, rfl⟩
    · cases hn
      exact ⟨rfl, rfl⟩
  · cases hn
    exact ⟨rfl, rfl⟩
  · cases hn

/-- The main thread goes on in its innermost call, and comes back to the one below. -/
theorem stepMain_tail (hn : s.stepMain = some s') : s'.frames.tail ⊆ s.frames.tail := by
  unfold Sup.stepMain at hn
  split at hn
  · rename_i hframes
    split at hn
    · split at hn
      · cases hn
        exact List.nil_subset _
      · cases hn
    · cases hn
      exact List.Subset.refl _
    · cases hn
  · rename_i hframes
    cases hn
    rw [hframes]
    exact List.Subset.refl _
  · rename_i hframes
    split at hn
    · cases hn
      rw [hframes]
      exact List.Subset.refl _
    · cases hn
  · rename_i hframes
    split at hn
    · cases hn
      rw [hframes]
      exact List.Subset.refl _
    · cases hn
      rw [hframes]
      exact List.tail_subset _

/-- A signal in the section is the one step that interrupts it. -/
theorem unnested_iff (h : Unnested s) (hn : next p s a = some s') :
    Unnested s' ↔ ¬ Interrupts s a := by
  cases a with
  | monitor now m =>
    refine iff_of_true ?_ (fun hno => nomatch hno.1)
    simp only [next] at hn
    split at hn
    · cases hn
    · rw [Unnested, (stepMonitor_frames hn).1]
      exact h
  | main =>
    refine iff_of_true ?_ (fun hno => nomatch hno.1)
    intro f hf
    exact h f (stepMain_tail hn hf)
  | signal =>
    simp only [next] at hn
    split at hn
    · cases hn
    · cases hn
      simp [Unnested, Interrupts]
  | dies i =>
    refine iff_of_true ?_ (fun hno => nomatch hno.1)
    cases hn
    exact h

/-- What a deadlock keeps: the lock, the main thread, and what the daemons know and what was
done to their processes. -/
structure Stuck (s s' : Sup) : Prop where
  nested : ¬ Unnested s'
  main : s'.main ≠ .exited
  daemons : s'.slots.map Slot.daemon = s.slots.map Slot.daemon
  spared : s'.slots.map (fun x => x.child.map Child.terminated) =
    s.slots.map (fun x => x.child.map Child.terminated)

theorem nested_holds (h : ¬ Unnested s) : ∃ f ∈ s.frames.tail, f.pc.holds = true := by
  by_contra hno
  apply h
  intro f hf
  by_contra hholds
  exact hno ⟨f, hf, by simpa using hholds⟩

theorem Inv.not_free (h : Inv s) (hnested : ¬ Unnested s) :
    s.free = false ∧ s.monitor.holds = false ∧ s.main ≠ .exited ∧
      ∃ f rest, s.frames = f :: rest ∧ f.pc.holds = false := by
  obtain ⟨g, hg, hholds⟩ := nested_holds hnested
  have hin : g ∈ s.frames := List.mem_of_mem_tail hg
  refine ⟨?_, ?_, ?_, ?_⟩
  · by_contra hfree
    have hno := (Sup.free_iff.mp (by simpa using hfree)).2 g hin
    rw [hholds] at hno
    cases hno
  · by_contra hmonitor
    have hno := h.excl (by simpa using hmonitor) g hin
    rw [hholds] at hno
    cases hno
  · intro hmain
    have hnil := h.ending.exited hmain
    rw [List.map_eq_nil_iff] at hnil
    rw [hnil] at hin
    cases hin
  · have hone := h.one
    cases hframes : s.frames with
    | nil =>
      rw [hframes] at hin
      cases hin
    | cons f rest =>
      rw [hframes] at hg hone
      refine ⟨f, rest, rfl, ?_⟩
      by_contra hf
      exact (List.pairwise_cons.mp hone).1 g hg ⟨by simpa using hf, hholds⟩

/-- Nothing but the children moves: the main thread waits for the lock that it has. -/
theorem Inv.stuck (h : Inv s) (hnested : ¬ Unnested s) (hn : next p s a = some s') :
    (∃ f ∈ s'.frames.tail, f.pc.holds = true) ∧
      s'.slots.map Slot.daemon = s.slots.map Slot.daemon ∧
      s'.slots.map (fun x => x.child.map Child.terminated) =
        s.slots.map (fun x => x.child.map Child.terminated) := by
  obtain ⟨hfree, hmonitor, -, f, rest, hframes, hf⟩ := h.not_free hnested
  obtain ⟨g, hg, hholds⟩ := nested_holds hnested
  cases a with
  | monitor now m =>
    simp only [next] at hn
    split at hn
    · cases hn
    · refine ⟨⟨g, ?_, hholds⟩, ?_⟩
      · rw [(stepMonitor_frames hn).1]
        exact hg
      · unfold Sup.stepMonitor at hn
        cases hpc : s.monitor with
        | reconcile now' i =>
          rw [hpc] at hmonitor
          cases hmonitor
        | acquire now' =>
          rw [hpc] at hn
          simp [hfree] at hn
        | check | waiting =>
          rw [hpc] at hn
          cases hn
          exact ⟨rfl, rfl⟩
        | done =>
          rw [hpc] at hn
          cases hn
  | main =>
    simp only [next, Sup.stepMain, hframes] at hn
    rw [hframes] at hg
    obtain ⟨last, pc⟩ := f
    cases pc with
    | set =>
      cases hn
      exact ⟨⟨g, hg, hholds⟩, rfl, rfl⟩
    | acquire => simp [hfree] at hn
    | terminate i => cases hf
  | signal =>
    simp only [next] at hn
    split at hn
    · cases hn
    · cases hn
      exact ⟨⟨g, List.mem_of_mem_tail hg, hholds⟩, rfl, rfl⟩
  | dies i =>
    cases hn
    refine ⟨⟨g, hg, hholds⟩, map_modify (fun _ => rfl), map_modify ?_⟩
    intro x
    show (x.child.map _).map Child.terminated = _
    rw [Option.map_map]
    rfl

end

/-- `main` never waits for the lock that it has exactly if no signal comes while a `shutdown`
has it; and where one does, `main` never exits, no daemon is polled and none is terminated
any more. -/
theorem signal_deadlocks (p : Pace) (hbase : 0 < p.base) (hcap : 0 < p.cap) (graces : List ℚ)
    (tr : List (Runs.Taken Sup Event)) (s : Sup)
    (h : Runs.Trace (next p) (Sup.init graces) tr s) :
    ((∀ t ∈ tr, Unnested t.dst) ↔ ∀ t ∈ tr, ¬ Interrupts t.src t.act) ∧
    (¬ Unnested s → ∀ s', Runs.Reachable (next p) Runs.anyStep s s' → Stuck s s') := by
  refine ⟨?_, fun hnested s' hrun => ?_⟩
  · have hsteps (s : Sup) (a : Event) (s' : Sup)
        (_ : Runs.Reachable (next p) Runs.anyStep (Sup.init graces) s) (hs : Unnested s)
        (hn : next p s a = some s') : Unnested s' ↔ ¬ Interrupts s a := unnested_iff hs hn
    apply h.forall_iff (I := Unnested) _ hsteps
    intro f hf
    cases hf
  · have hreach (s' : Sup) (hrun : Runs.Reachable (next p) Runs.anyStep s s') : Inv s' :=
      inv_of_reachable hbase hcap (h.reachable.trans hrun)
    apply hrun.invariant (I := Stuck s)
    · exact ⟨hnested, (hreach s .init).not_free hnested |>.2.2.1, rfl, rfl⟩
    · intro s₁ a s₂ hr hstuck _ hn
      obtain ⟨⟨f, hf, hholds⟩, hdaemons, hspared⟩ := (hreach s₁ hr).stuck hstuck.nested hn
      have hnested' : ¬ Unnested s₂ := by
        intro hno
        rw [hno f hf] at hholds
        cases hholds
      have hinv := hreach s₂ (hr.step a trivial hn)
      exact ⟨hnested', (hinv.not_free hnested').2.2.1, hdaemons.trans hstuck.daemons,
        hspared.trans hstuck.spared⟩

/-- The second signal comes while the first one's `shutdown` has the lock. -/
def twice : List Event :=
  [.monitor 0 healthyStart, .monitor 0 healthyStart, .monitor 0 healthyStart,
    .monitor 0 healthyStart, .signal, .main, .main, .signal]

theorem twice_stuck : ∃ tr s, Runs.Trace (next usual) (Sup.init [30]) tr s ∧
    tr.map Runs.Taken.act = twice ∧ (∃ x ∈ s.slots, x.alive = true) ∧
      ∀ s', Runs.Reachable (next usual) Runs.anyStep s s' → Stuck s s' := by
  have hrun : (Runs.run (next usual) Runs.anyStep (Sup.init [30]) twice).map
      (fun s => s.slots.any Slot.alive && s.frames.tail.any fun f => f.pc.holds) = some true := by
    decide +kernel
  obtain ⟨s, hs, hend⟩ := Option.map_eq_some_iff.mp hrun
  obtain ⟨tr, htr, hact⟩ := Runs.Trace.nil.run hs
  have htr : Runs.Trace (next usual) (Sup.init [30]) tr s := by simpa using htr
  rw [Bool.and_eq_true, List.any_eq_true, List.any_eq_true] at hend
  obtain ⟨hrunning, f, hf, hholds⟩ := hend
  refine ⟨tr, s, htr, hact, hrunning, ?_⟩
  apply (signal_deadlocks usual (by norm_num [usual]) (by norm_num [usual]) [30] tr s htr).2
  intro hno
  rw [hno f hf] at hholds
  cases hholds

end MlopsLite.Supervisor
