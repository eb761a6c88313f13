import MlopsLite.Gateway.Policy.Scheduler
import MlopsLite.Lib.Backoff

/-!
# Supervise — restarts and their delays

`_backoff` and `Daemon.reconcile` (`supervisor/supervise.py`), polled by the
monitor loop, which goes on after an exception. A failure is counted before its
delay is computed and the exit registered after it: where the delay raises, every
later poll counts another failure and raises again, and the daemon stays down.
-/

namespace MlopsLite.Supervisor

open Backoff (Pace Paced delay)

/-- `_backoff`. -/
def backoff (p : Pace) (failures : ℕ) : Option ℚ := delay p.base p.cap (failures - 1)

inductive State
  | pending
  | starting
  | healthy
  | unhealthy
  | backoff
  deriving DecidableEq, Repr

structure Daemon where
  /-- `self.proc is not None`. -/
  spawned : Bool
  state : State
  restartCount : ℕ
  consecutiveFailures : ℕ
  backoffUntil : ℚ
  startedAt : ℚ
  exitRegistered : Bool

def Daemon.init : Daemon := ⟨false, .pending, 0, 0, 0, 0, false⟩

/-- One `reconcile` and what it meets: the time, the child, the probe, and what
a launch would do. -/
structure Poll where
  now : ℚ
  alive : Bool
  healthy : Bool
  launches : Bool
  clock : ℚ

inductive Outcome
  | launch (ok : Bool)
  | waiting
  | raised
  | up
  deriving DecidableEq, Repr

namespace Daemon

def start (d : Daemon) (e : Poll) : Daemon × Outcome :=
  if e.launches then
    ({ d with
        spawned := true, startedAt := e.clock, restartCount := d.restartCount + 1
        state := .starting, exitRegistered := false }, .launch true)
  else (d, .launch false)

def countFailure (d : Daemon) : Daemon :=
  { d with consecutiveFailures := d.consecutiveFailures + 1 }

/-- The transition to dead: counted once, unless the delay raises. -/
def register (p : Pace) (d : Daemon) (now : ℚ) : Daemon × Bool :=
  if d.exitRegistered then (d, true)
  else match backoff p d.countFailure.consecutiveFailures with
    | none => (d.countFailure, false)
    | some delay => ({ d.countFailure with backoffUntil := now + delay, exitRegistered := true }, true)

def reconcile (p : Pace) (graceS : ℚ) (d : Daemon) (e : Poll) : Daemon × Outcome :=
  if !d.spawned then d.start e
  else if !e.alive then
    match d.register p e.now with
    | (d, false) => (d, .raised)
    | (d, true) =>
      if e.now < d.backoffUntil then ({ d with state := .backoff }, .waiting) else d.start e
  else if e.healthy then
    ({ d with state := .healthy, consecutiveFailures := 0, backoffUntil := 0 }, .up)
  else if e.now - d.startedAt < graceS then ({ d with state := .starting }, .up)
  else ({ d with state := .unhealthy }, .up)

/-- The polls of the monitor loop. -/
def run (p : Pace) (graceS : ℚ) (d : Daemon) : List Poll → Daemon × List Outcome
  | [] => (d, [])
  | e :: polls =>
    let next := d.reconcile p graceS e
    let rest := run p graceS next.1 polls
    (rest.1, next.2 :: rest.2)

/-- The child was up when last looked at, or has not been looked at. -/
def Fresh (d : Daemon) : Prop := d.spawned = true ∧ d.exitRegistered = false

/-- Where the child is down from here on, it is launched at the latest by a poll
that is a delay after the first one; the delay keeps to the cap. -/
def Revived (p : Pace) (graceS : ℚ) (d : Daemon) : Prop :=
  ∃ delay ≤ p.cap, ∀ first polls last,
    (∀ e ∈ first :: (polls ++ [last]), e.alive = false) → first.now + delay ≤ last.now →
      ∃ ok, .launch ok ∈ (run p graceS d (first :: (polls ++ [last]))).2

end Daemon

open Daemon

variable {p : Pace} {graceS : ℚ} {d : Daemon} {e : Poll} {polls : List Poll} {n : ℕ}

theorem backoff_eq_none (h : 1025 ≤ n) : backoff p n = none := Backoff.delay_of_le _ _ (by omega)

theorem backoff_eq_some (h : n ≤ 1024) : backoff p n = some (min p.cap (p.base * 2 ^ (n - 1))) :=
  Backoff.delay_of_lt _ _ (by omega)

/-- A poll of a child that is down, by what its registration gives. -/
theorem reconcile_down (p : Pace) (graceS : ℚ) (hspawned : d.spawned = true) (hdown : e.alive = false) :
    d.reconcile p graceS e = match d.register p e.now with
      | (d, false) => (d, .raised)
      | (d, true) =>
        if e.now < d.backoffUntil then ({ d with state := .backoff }, .waiting) else d.start e := by
  rw [reconcile, if_neg (by simp [hspawned]), if_pos (by simp [hdown])]

/-- From 1024 failures on a child that is down stays down. -/
theorem run_raises (hfresh : d.Fresh) (hmany : 1024 ≤ d.consecutiveFailures)
    (hdown : ∀ e ∈ polls, e.alive = false) : ∀ o ∈ (run p graceS d polls).2, o = .raised := by
  induction polls generalizing d with
  | nil => simp [run]
  | cons e polls ih =>
    have hover : 1025 ≤ d.countFailure.consecutiveFailures := Nat.succ_le_succ hmany
    have hregister : d.register p e.now = (d.countFailure, false) := by
      rw [register, if_neg (by simp [hfresh.2]), backoff_eq_none hover]
    have hstep : d.reconcile p graceS e = (d.countFailure, .raised) := by
      rw [reconcile_down p graceS hfresh.1 (hdown e List.mem_cons_self), hregister]
    intro o ho
    rw [run, hstep] at ho
    rcases List.mem_cons.mp ho with rfl | ho
    · rfl
    · exact ih (d := d.countFailure) ⟨hfresh.1, hfresh.2⟩ (by omega)
        (fun e he => hdown e (List.mem_cons_of_mem _ he)) o ho

/-- A poll of a child that is down and whose exit is registered. -/
theorem reconcile_registered (p : Pace) (graceS : ℚ) (hspawned : d.spawned = true) (hregistered : d.exitRegistered = true)
    (hdown : e.alive = false) : d.reconcile p graceS e =
      if e.now < d.backoffUntil then ({ d with state := .backoff }, .waiting) else d.start e := by
  have hregister : d.register p e.now = (d, true) := if_pos hregistered
  rw [reconcile_down p graceS hspawned hdown, hregister]

theorem start_launch (d : Daemon) (e : Poll) : ∃ ok, (d.start e).2 = .launch ok := by
  unfold Daemon.start
  split
  · exact ⟨true, rfl⟩
  · exact ⟨false, rfl⟩

/-- Once the exit is registered the wait is over when its time is. -/
theorem run_launches (p : Pace) (graceS : ℚ) (hspawned : d.spawned = true) (hregistered : d.exitRegistered = true)
    (hdown : ∀ e ∈ polls, e.alive = false) (hlast : ∃ e ∈ polls, d.backoffUntil ≤ e.now) :
    ∃ ok, .launch ok ∈ (run p graceS d polls).2 := by
  induction polls generalizing d with
  | nil =>
    obtain ⟨e, he, -⟩ := hlast
    cases he
  | cons e polls ih =>
    have hstep := reconcile_registered p graceS hspawned hregistered
      (hdown e List.mem_cons_self)
    rw [run, hstep]
    by_cases hwait : e.now < d.backoffUntil
    · rw [if_pos hwait]
      obtain ⟨e', he', hdue⟩ := hlast
      have hlater : ∃ e ∈ polls, d.backoffUntil ≤ e.now := by
        rcases List.mem_cons.mp he' with rfl | he'
        · exact absurd hdue (not_le.mpr hwait)
        · exact ⟨e', he', hdue⟩
      obtain ⟨ok, hok⟩ := ih (d := { d with state := .backoff }) hspawned hregistered
        (fun e he => hdown e (List.mem_cons_of_mem _ he)) hlater
      exact ⟨ok, List.mem_cons_of_mem _ hok⟩
    · rw [if_neg hwait]
      obtain ⟨ok, hok⟩ := start_launch d e
      exact ⟨ok, hok ▸ List.mem_cons_self⟩

/-- Up to there the exit is registered, with a delay that keeps to the cap. -/
theorem register_waits (hfresh : d.Fresh) (hfew : d.consecutiveFailures < 1024) (now : ℚ) :
    d.register p now = ({ d.countFailure with
      backoffUntil := now + min p.cap (p.base * 2 ^ d.consecutiveFailures)
      exitRegistered := true }, true) := by
  have hdelay : backoff p d.countFailure.consecutiveFailures =
      some (min p.cap (p.base * 2 ^ d.consecutiveFailures)) := backoff_eq_some (Nat.succ_le_of_lt hfew)
  rw [register, if_neg (by simp [hfresh.2]), hdelay]

theorem revived_of_lt (hfresh : d.Fresh) (hfew : d.consecutiveFailures < 1024) :
    Revived p graceS d := by
  refine ⟨min p.cap (p.base * 2 ^ d.consecutiveFailures), min_le_left _ _, ?_⟩
  intro first polls last hdown hdue
  have hstep := reconcile_down p graceS hfresh.1 (hdown first List.mem_cons_self)
  rw [register_waits hfresh hfew] at hstep
  rw [run, hstep]
  dsimp only
  split
  · have hlater := run_launches p graceS
      (d := { d.countFailure with
        backoffUntil := first.now + min p.cap (p.base * 2 ^ d.consecutiveFailures)
        exitRegistered := true, state := .backoff })
      hfresh.1 rfl (fun e he => hdown e (List.mem_cons_of_mem _ he)) ⟨last, by simp, hdue⟩
    obtain ⟨ok, hok⟩ := hlater
    exact ⟨ok, List.mem_cons_of_mem _ hok⟩
  · obtain ⟨ok, hok⟩ := start_launch _ first
    exact ⟨ok, hok ▸ List.mem_cons_self⟩

theorem not_revived_of_le (hfresh : d.Fresh) (hmany : 1024 ≤ d.consecutiveFailures) :
    ¬ Revived p graceS d := by
  rintro ⟨wait, -, hrevived⟩
  have hdown : ∀ e ∈ ([⟨0, false, false, true, 0⟩, ⟨wait, false, false, true, 0⟩] : List Poll),
      e.alive = false := by simp
  obtain ⟨ok, hok⟩ := hrevived ⟨0, false, false, true, 0⟩ [] ⟨wait, false, false, true, 0⟩ hdown
    (by simp)
  cases run_raises hfresh hmany hdown _ hok

/-! ## Both loops -/

/-- The settings of the policy scheduler at a pace. -/
def atPace (q : Pace) (cfg : Gateway.Policy.Settings) : Gateway.Policy.Settings :=
  { cfg with backoffBaseS := q.base, backoffMaxS := q.cap }

/-- The supervisor's delays are fine up to 1024 failures and the scheduler's up to
1023 attempts, and a child that is down is launched again exactly while the
failures before were fewer. -/
theorem backoff_paces (p q : Pace) (graceS : ℚ) (cfg : Gateway.Policy.Settings) (n : ℕ)
    (hfresh : d.Fresh) :
    (Paced (backoff p) p.cap n ↔ n ≤ 1024) ∧
    (Paced (Gateway.Policy.retryDelay (atPace q cfg)) q.cap n ↔ n ≤ 1023) ∧
    (Revived p graceS d ↔ d.consecutiveFailures ≤ 1023) := by
  refine ⟨?_, ?_, ?_⟩
  · have hpred : Monotone fun n : ℕ => n - 1 := fun _ _ h => Nat.sub_le_sub_right h 1
    rw [show backoff p = fun n => delay p.base p.cap (n - 1) from rfl, Backoff.paced_iff p hpred]
    omega
  · have hpaced := Backoff.paced_iff (n := n) q monotone_id
    exact hpaced.trans Nat.lt_succ_iff
  · constructor
    · intro h
      by_contra hmany
      exact not_revived_of_le hfresh (by omega) h
    · intro h
      exact revived_of_lt hfresh (by omega)

theorem backoff_paces_first : Revived ⟨1, 30, by norm_num⟩ 30 ⟨true, .starting, 1, 0, 0, 0, false⟩ :=
  ((backoff_paces ⟨1, 30, by norm_num⟩ ⟨60, 1800, by norm_num⟩ 30
    ⟨⟨"block", .fin 0, "warn"⟩, 0, 60, 1800, 3600⟩ 1 ⟨rfl, rfl⟩).2.2).mpr (by decide)

/-- The default settings. -/
def usual : Pace := ⟨1, 30, by norm_num⟩

/-- The child is found dead, and launched again after the cap. -/
def crash (k : ℕ) : List Poll :=
  [⟨100 * k, false, false, true, 100 * k⟩, ⟨100 * k + 30, false, false, true, 100 * k + 30⟩]

def crashLoop (n : ℕ) : List Poll := ⟨0, false, false, true, 0⟩ :: (List.range n).flatMap crash

theorem run_append (polls later : List Poll) :
    (run p graceS d (polls ++ later)).1 = (run p graceS (run p graceS d polls).1 later).1 := by
  induction polls generalizing d with
  | nil => rfl
  | cons e polls ih => exact ih

theorem run_crash (graceS : ℚ) (hfresh : d.Fresh) (hfew : d.consecutiveFailures < 1024) (k : ℕ) :
    (run usual graceS d (crash k)).1.Fresh ∧
      (run usual graceS d (crash k)).1.consecutiveFailures = d.consecutiveFailures + 1 := by
  set wait := min usual.cap (usual.base * 2 ^ d.consecutiveFailures) with hwait
  have hcap : wait ≤ 30 := min_le_left _ _
  have hpos : 0 < wait := lt_min (by norm_num [usual]) (by norm_num [usual])
  set found : Daemon :=
    { d.countFailure with
      backoffUntil := 100 * k + wait, exitRegistered := true, state := .backoff } with hfoundDef
  have hfound : d.reconcile usual graceS ⟨100 * k, false, false, true, 100 * k⟩ =
      (found, .waiting) := by
    rw [reconcile_down usual graceS hfresh.1 rfl, register_waits hfresh hfew]
    dsimp only
    rw [if_pos (by linarith)]
  have hagain : found.reconcile usual graceS ⟨100 * k + 30, false, false, true, 100 * k + 30⟩ =
      found.start ⟨100 * k + 30, false, false, true, 100 * k + 30⟩ := by
    have hspawned : found.spawned = true := hfresh.1
    have hover : ¬ 100 * (k : ℚ) + 30 < found.backoffUntil :=
      not_lt.mpr (show 100 * (k : ℚ) + wait ≤ 100 * k + 30 by linarith)
    rw [reconcile_registered usual graceS hspawned rfl rfl, if_neg hover]
  rw [crash, run, hfound]
  dsimp only
  rw [run, hagain]
  exact ⟨⟨rfl, rfl⟩, rfl⟩

theorem run_crashLoop (graceS : ℚ) (n : ℕ) (hn : n ≤ 1024) : (run usual graceS Daemon.init (crashLoop n)).1.Fresh ∧
    (run usual graceS Daemon.init (crashLoop n)).1.consecutiveFailures = n := by
  induction n with
  | zero => exact ⟨⟨rfl, rfl⟩, rfl⟩
  | succ n ih =>
    obtain ⟨hfresh, hcount⟩ := ih (by omega)
    have hloop : crashLoop (n + 1) = crashLoop n ++ crash n := by
      rw [crashLoop, List.range_succ, List.flatMap_append]
      simp [crashLoop]
    obtain ⟨hfresh', hcount'⟩ := run_crash graceS hfresh (by omega) n
    rw [hloop, run_append]
    exact ⟨hfresh', by rw [hcount', hcount]⟩

/-- The child that crashes once more after 1024 times is not launched again. -/
theorem crashLoop_stops : backoff usual 1025 = none ∧ delay 60 1800 1024 = none ∧
    (run usual 30 Daemon.init (crashLoop 1024)).1.Fresh ∧
    ¬ Revived usual 30 (run usual 30 Daemon.init (crashLoop 1024)).1 := by
  obtain ⟨hfresh, hcount⟩ := run_crashLoop 30 1024 le_rfl
  exact ⟨backoff_eq_none le_rfl, Backoff.delay_of_le _ _ le_rfl, hfresh,
    not_revived_of_le hfresh hcount.ge⟩

end MlopsLite.Supervisor
