import MlopsLite.PlatformLib.BrokerJobs.States
import MlopsLite.PlatformLib.Metering.Reconcile

/-!
# Broker jobs — recovery after a restart

`_recover_broker_lane` of `hostagent/main.py` over the two stores it writes:
it resolves the lane (`recover_broker_lane`), and then settles the
reservation of each job it interrupted and finishes the job with its elapsed
seconds. The process may die before any statement; the database then rolls
its transaction back, and the next start begins a new pass.

`finish_broker_job` leaves a job that has ended as it is, and the pass has
just ended every job it comes to: no run records the seconds of one
(`restored_iff`).
-/

namespace MlopsLite.PlatformLib

/-- What `recover_broker_lane` returns for a job: its id and `started_at`. -/
abbrev Interrupted := JobId × Option Time

/-- The table as the next process finds it: no transaction is open. -/
def Lane.reopened (x : Lane) : Lane :=
  { rows := x.rows.map fun _ row => ⟨row.committed, none⟩, advisory := none }

namespace Recovery

/-- The process that recovers is the only caller. -/
def self : CallId := 0

inductive Pc
  | down
  | lane (pc : LanePc)
  | entries (todo : List Interrupted)
  | settle (id : JobId) (elapsed : ℚ) (todo : List Interrupted)
  | settling (id : JobId) (elapsed : ℚ) (todo : List Interrupted) (pc : StorePc)
  | finish (id : JobId) (elapsed : ℚ) (todo : List Interrupted)
  | done
  deriving DecidableEq

/-- `clock` is what the two calls of `time.time()` answer. -/
inductive Choice
  | start
  | lane (c : LaneChoice)
  | store (c : StoreChoice)
  | clock (now now' : Time)
  | go
  | crash

structure Sys where
  lane : Lane
  store : Store
  pc : Pc

/-- `max(0.0, time.time() - (entry["started_at"] or time.time()))`. -/
def elapsed (startedAt : Option Time) (now now' : Time) : ℚ :=
  max 0 (now - match startedAt with
    | some at' => if at' = 0 then now' else at'
    | none => now')

def usage (elapsed : ℚ) : Usage := ⟨some elapsed, none, none⟩

/-- `recover_broker_lane` goes on; what it raises ends the pass. -/
def afterLane : LanePc → Pc
  | .recovered interrupted => .entries interrupted
  | .raised _ => .down
  | pc => .lane pc

/-- `settle` begins; a `StoreError` is passed over. -/
def afterEnter (id : JobId) (elapsed : ℚ) (todo : List Interrupted) : StorePc → Pc
  | .raised | .finished _ => .finish id elapsed todo
  | pc => .settling id elapsed todo pc

/-- `settle` goes on; an error of the database ends the pass. -/
def afterStore (id : JobId) (elapsed : ℚ) (todo : List Interrupted) : StorePc → Pc
  | .finished _ => .finish id elapsed todo
  | .raised => .down
  | pc => .settling id elapsed todo pc

/-- `finish_broker_job` has returned or raised. -/
def afterFinish (todo : List Interrupted) : LanePc → Pc
  | .raised _ => .down
  | _ => .entries todo

/-- The process dies. -/
def crash (s : Sys) : Sys :=
  { lane := s.lane.rollback self, store := s.store.unlock self, pc := .down }

def next (trunc : Window → Time → Time) (s : Sys) (c : Choice) : Option Sys :=
  match s.pc, c with
  | .down, .start => some { s with pc := .lane (Lane.enter .recover) }
  | .lane pc, .lane c =>
      (Lane.advance self c s.lane pc).map fun r => { s with lane := r.1, pc := afterLane r.2 }
  | .entries [], .go => some { s with pc := .done }
  | .entries (e :: todo), .clock now now' =>
      some { s with pc := .settle e.1 (elapsed e.2 now now') todo }
  | .settle id el todo, .go =>
      some { s with pc := afterEnter id el todo (s.store.enter (.settle id el)) }
  | .settling id el todo pc, .store c =>
      (Store.advance trunc self c s.store pc).map fun r =>
        { s with store := r.1, pc := afterStore id el todo r.2 }
  | .finish id el todo, .lane c =>
      (Lane.advance self c s.lane (Lane.enter (.finish id .interrupted (usage el)))).map fun r =>
        { s with lane := r.1, pc := afterFinish todo r.2 }
  | .done, .crash => none
  | _, .crash => some (crash s)
  | _, _ => none

/-! ## What a pass does to the lane -/

open Versions
open Lane (NoOwn Wrote ended)

/-- A lane as the database holds it while no process is connected. -/
structure Persisted (x : Lane) : Prop where
  closed : ∀ t, NoOwn x t
  checked : Lane.Checked x.rows
  unmetered : Lane.Unmetered x.rows

/-- A version of a row after recovery: as it was, or no longer running. -/
def Resolved (old new : Option BrokerJob) : Prop :=
  new = old ∨ ∃ j, old = some j ∧ j.state = .running ∧ new = some (ended .interrupted j)

/-- Nothing but running rows has changed, and these are interrupted. -/
structure Follows (x₀ x : Lane) : Prop where
  keys : x.rows.keys = x₀.rows.keys
  committed : ∀ id, Resolved (committed x₀.rows id) (committed x.rows id)
  own : ∀ id j, own x.rows self id = some j → Resolved (Versions.committed x₀.rows id) (some j)

variable {x₀ x x' y : Lane} {id : JobId} {j : BrokerJob}

theorem Follows.refl (h : NoOwn x self) : Follows x x :=
  ⟨rfl, fun _ => .inl rfl, fun id _ hown => by cases (h id).symm.trans hown⟩

theorem Follows.view (h : Follows x₀ x) (id : JobId) :
    Resolved (Versions.committed x₀.rows id) (view x.rows self id) := by
  rw [view_eq]
  cases hown : Versions.own x.rows self id with
  | none => exact h.committed id
  | some j => exact h.own id j hown

theorem Follows.commit (h : Follows x₀ x) : Follows x₀ (x.commit self) := by
  constructor
  · exact (Dict.keys_map ..).trans h.keys
  · intro id
    have hc : Versions.committed (x.commit self).rows id = Versions.view x.rows self id :=
      committed_commit ..
    rw [hc]
    exact h.view id
  · intro id j hown
    cases (Lane.noOwn_commit x self id).symm.trans hown

theorem Follows.rollback (h : Follows x₀ x) : Follows x₀ (x.rollback self) := by
  constructor
  · exact (Dict.keys_map ..).trans h.keys
  · intro id
    have hc : Versions.committed (x.rollback self).rows id = Versions.committed x.rows id :=
      committed_rollback ..
    rw [hc]
    exact h.committed id
  · intro id j hown
    cases (Lane.noOwn_rollback x self id).symm.trans hown

/-- A running row is resolved. -/
theorem Follows.interrupt (h : Follows x₀ x) (hview : Versions.view x.rows self id = some j)
    (hrun : j.state = .running) (hw : Wrote self x x' id (ended .interrupted j)) :
    Follows x₀ x' := by
  constructor
  · obtain ⟨row, hrow⟩ := Dict.mem_keys.mp (Lane.mem_keys_of_view hview)
    rw [hw.eq]
    exact (Dict.keys_insert_of_some _ hrow).trans h.keys
  · intro k
    rw [hw.committed]
    exact h.committed k
  · intro k v hown
    by_cases hk : k = id
    · subst hk
      cases hw.own_self.symm.trans hown
      rcases h.view k with hsame | ⟨j₀, -, -, hnew⟩
      · exact .inr ⟨j, hsame.symm.trans hview, hrun, rfl⟩
      · -- an interrupted row is not running
        cases hnew.symm.trans hview
        cases hrun
    · exact h.own k v ((hw.own_ne hk).symm.trans hown)

/-- The process reads a running row. -/
def Running (x : Lane) (id : JobId) : Prop :=
  ∃ j, view x.rows self id = some j ∧ j.state = .running

/-- The row is not queued: an UPDATE of recovery comes to it, or has. -/
def OffLane (x : Lane) (id : JobId) : Prop :=
  ∀ j, view x.rows self id = some j → j.state = .running ∨ j.state.terminal = true

/-- What `recover_broker_lane` knows of the lane at each statement. -/
def Resolving (x : Lane) : LanePc → Prop
  | .recoverSelect | .raised _ => NoOwn x self
  | .recoverUpdate l => NoOwn x self ∧ ∀ e ∈ l, OffLane x e.1
  | .recovering l todo => (∀ e ∈ l, OffLane x e.1) ∧ ∀ id, Running x id → id ∈ todo
  | .recoverCommit l => (∀ e ∈ l, OffLane x e.1) ∧ ∀ id, ¬ Running x id
  | .recovered l => NoOwn x self ∧ (∀ e ∈ l, OffLane x e.1) ∧ ∀ id, ¬ Running x id
  | _ => False

theorem mem_select_running : id ∈ x.select self BrokerJob.isRunning ↔ Running x id := by
  rw [Lane.mem_select]
  simp [Running, BrokerJob.isRunning]

theorem view_commit (x : Lane) (id : JobId) :
    view (x.commit self).rows self id = view x.rows self id := by
  rw [(Lane.noOwn_commit x self).view]
  exact committed_commit ..

/-- The row of an UPDATE that has come to it is not running any more. -/
theorem resolving_interrupt {l : List Interrupted} {todo : List JobId}
    (h : Resolving x (.recovering l (id :: todo)))
    (hput : x.rewrite self id BrokerJob.isRunning (ended .interrupted) = .done x') :
    Resolving x' (.recovering l todo) := by
  obtain ⟨hoff, hrun⟩ := h
  rcases (Lane.rewrite_done hput).2 with ⟨rfl, hnot⟩ | ⟨j, hview, hj, hw⟩
  · refine ⟨hoff, fun k hk => ?_⟩
    rcases List.mem_cons.mp (hrun k hk) with rfl | hmem
    · obtain ⟨j, hview, hstate⟩ := hk
      have hfalse := hnot j hview
      simp [BrokerJob.isRunning, hstate] at hfalse
    · exact hmem
  · have hself : view x'.rows self id = some (ended .interrupted j) := view_of_own hw.own_self
    have hother : ∀ k, k ≠ id → view x'.rows self k = view x.rows self k := by
      intro k hk
      rw [view_eq, view_eq, hw.own_ne hk, hw.committed]
    constructor
    · intro e he v hv
      by_cases hk : e.1 = id
      · rw [hk, hself] at hv
        cases hv
        exact .inr rfl
      · rw [hother _ hk] at hv
        exact hoff e he v hv
    · rintro k ⟨v, hv, hstate⟩
      by_cases hk : k = id
      · subst hk
        cases hself.symm.trans hv
        cases hstate
      · rw [hother k hk] at hv
        rcases List.mem_cons.mp (hrun k ⟨v, hv, hstate⟩) with rfl | hmem
        · exact absurd rfl hk
        · exact hmem

theorem resolving_fails {pc pc' : LanePc} (hf : Follows x₀ x)
    (hn : Lane.advance self .fails x pc = some (x', pc')) : Follows x₀ x' ∧ Resolving x' pc' := by
  have hfails : pc.over = false ∧ (x.rollback self, LanePc.raised .database) = (x', pc') := by
    cases pc <;> simp_all [Lane.advance, LanePc.over]
  cases hfails.2
  exact ⟨hf.rollback, Lane.noOwn_rollback x self⟩

/-- A statement of `recover_broker_lane`. -/
theorem resolving_next {c : LaneChoice} {pc pc' : LanePc} (hf : Follows x₀ x)
    (h : Resolving x pc) (hn : Lane.advance self c x pc = some (x', pc')) :
    Follows x₀ x' ∧ Resolving x' pc' := by
  by_cases hc : c = .fails
  · subst hc
    exact resolving_fails hf hn
  cases pc with
  | recoverSelect =>
    cases c with
    | go =>
      cases hn
      refine ⟨hf, h, fun e he j hj => ?_⟩
      obtain ⟨id, hid, rfl⟩ := List.mem_map.mp he
      obtain ⟨v, hv, hstate⟩ := mem_select_running.mp hid
      cases hv.symm.trans hj
      exact .inl hstate
    | fails => exact absurd rfl hc
    | _ => cases hn
  | recoverUpdate l =>
    cases c with
    | scan ids =>
      simp only [Lane.advance] at hn
      split at hn
      · rename_i hp
        cases hn
        exact ⟨hf, h.2, fun id hid => hp.mem_iff.mpr (mem_select_running.mpr hid)⟩
      · cases hn
    | fails => exact absurd rfl hc
    | _ => cases hn
  | recovering l todo =>
    cases c with
    | go =>
      cases todo with
      | nil =>
        cases hn
        refine ⟨hf, h.1, fun id hid => ?_⟩
        cases h.2 id hid
      | cons id todo =>
        rcases Lane.of_thenAt hn with ⟨hput, rfl⟩ | ⟨rfl, rfl⟩
        · refine ⟨?_, resolving_interrupt h hput⟩
          rcases (Lane.rewrite_done hput).2 with ⟨rfl, -⟩ | ⟨j, hview, hj, hw⟩
          · exact hf
          · exact hf.interrupt hview (by simpa [BrokerJob.isRunning] using hj) hw
        · exact ⟨hf.rollback, Lane.noOwn_rollback x self⟩
    | fails => exact absurd rfl hc
    | _ => cases hn
  | recoverCommit l =>
    cases c with
    | go =>
      cases hn
      refine ⟨hf.commit, Lane.noOwn_commit x self, fun e he v hv => ?_, fun id hid => ?_⟩
      · exact h.1 e he v ((view_commit x e.1).symm.trans hv)
      · obtain ⟨v, hv, hstate⟩ := hid
        exact h.2 id ⟨v, (view_commit x id).symm.trans hv, hstate⟩
    | fails => exact absurd rfl hc
    | _ => cases hn
  | raised e | recovered l =>
    cases c with
    | fails => exact absurd rfl hc
    | _ => cases hn
  | _ => exact absurd h id

/-! ## Passes -/

variable {trunc : Window → Time → Time} {y₀ : Store} {s s' : Sys}

/-- What a pass knows of the lane: nothing runs, and every job it is still to
come to has ended. -/
def Standing (x : Lane) : Pc → Prop
  | .down => NoOwn x self
  | .lane pc => Resolving x pc
  | .entries todo => Resolving x (.recovered todo)
  | .settle id _ todo | .settling id _ todo _ | .finish id _ todo =>
      Resolving x (.recovered ((id, none) :: todo))
  | .done => Resolving x (.recovered [])

theorem resolving_tail {e : Interrupted} {todo : List Interrupted}
    (h : Resolving x (.recovered (e :: todo))) : Resolving x (.recovered todo) :=
  ⟨h.1, fun e' he' => h.2.1 e' (List.mem_cons_of_mem _ he'), h.2.2⟩

/-- A job that has ended is left as it is. -/
theorem finish_next {el : ℚ} {todo : List Interrupted} {c : LaneChoice} {pc' : LanePc}
    (hf : Follows x₀ x) (h : Resolving x (.recovered ((id, none) :: todo)))
    (hn : Lane.advance self c x (Lane.enter (.finish id .interrupted (usage el))) = some (x', pc')) :
    Follows x₀ x' ∧ Standing x' (afterFinish todo pc') := by
  by_cases hc : c = .fails
  · subst hc
    obtain ⟨hf', hr⟩ := resolving_fails hf hn
    cases hn
    exact ⟨hf', hr⟩
  cases c with
  | go =>
    rcases Lane.of_thenCommit hn with ⟨y, hup, rfl, rfl⟩ | ⟨rfl, rfl⟩
    · rcases Lane.update_done hup with ⟨rfl, -⟩ | ⟨j, hview, hlive, -⟩
      · obtain ⟨hnone, hoff, hrun⟩ := resolving_tail h
        refine ⟨hf.commit, Lane.noOwn_commit _ self, fun e he v hv => ?_, fun k hk => ?_⟩
        · exact hoff e he v ((view_commit _ e.1).symm.trans hv)
        · obtain ⟨v, hv, hstate⟩ := hk
          exact hrun k ⟨v, (view_commit _ k).symm.trans hv, hstate⟩
      · rcases h.2.1 _ List.mem_cons_self j hview with hrun | hterm
        · exact absurd ⟨j, hview, hrun⟩ (h.2.2 id)
        · simp [hterm] at hlive
    · exact ⟨hf.rollback, Lane.noOwn_rollback x self⟩
  | fails => exact absurd rfl hc
  | _ => cases hn

theorem eq_crash (hn : next trunc s .crash = some s') : s' = crash s := by
  unfold next at hn
  split at hn <;> simp_all

theorem standing_next {c : Choice} (hf : Follows x₀ s.lane) (h : Standing s.lane s.pc)
    (hn : next trunc s c = some s') : Follows x₀ s'.lane ∧ Standing s'.lane s'.pc := by
  obtain ⟨x, y, pc⟩ := s
  by_cases hc : c = .crash
  · subst hc
    rw [eq_crash hn]
    exact ⟨hf.rollback, Lane.noOwn_rollback x self⟩
  cases pc with
  | down =>
    cases c <;> cases hn
    · exact ⟨hf, h⟩
    · exact absurd rfl hc
  | lane pc =>
    cases c with
    | lane c =>
      obtain ⟨⟨x', pc'⟩, ha, rfl⟩ := Option.map_eq_some_iff.mp hn
      obtain ⟨hf', hr⟩ := resolving_next hf h ha
      refine ⟨hf', ?_⟩
      cases pc' <;> exact hr
    | crash => exact absurd rfl hc
    | _ => cases hn
  | entries todo =>
    cases todo with
    | nil =>
      cases c <;> cases hn
      · exact ⟨hf, h⟩
      · exact absurd rfl hc
    | cons e todo =>
      cases c <;> cases hn
      · refine ⟨hf, h.1, fun e' he' => ?_, h.2.2⟩
        rcases List.mem_cons.mp he' with rfl | hmem
        · exact h.2.1 e List.mem_cons_self
        · exact h.2.1 e' (List.mem_cons_of_mem _ hmem)
      · exact absurd rfl hc
  | settle id el todo =>
    cases c <;> cases hn
    · refine ⟨hf, ?_⟩
      cases y.enter (.settle id el) <;> exact h
    · exact absurd rfl hc
  | settling id el todo pc =>
    cases c with
    | store c =>
      obtain ⟨⟨y', pc'⟩, ha, rfl⟩ := Option.map_eq_some_iff.mp hn
      refine ⟨hf, ?_⟩
      cases pc' <;> first | exact h | exact h.1
    | crash => exact absurd rfl hc
    | _ => cases hn
  | finish id el todo =>
    cases c with
    | lane c =>
      obtain ⟨⟨x', pc'⟩, ha, rfl⟩ := Option.map_eq_some_iff.mp hn
      exact finish_next hf h ha
    | crash => exact absurd rfl hc
    | _ => cases hn
  | done => cases c <;> cases hn

theorem standing_of_reachable (hp : Persisted x₀)
    (h : Runs.Reachable (next trunc) Runs.anyStep ⟨x₀, y₀, .down⟩ s) :
    Follows x₀ s.lane ∧ Standing s.lane s.pc := by
  have h0 : Follows x₀ x₀ ∧ Standing x₀ .down := ⟨.refl (hp.closed self), hp.closed self⟩
  refine h.invariant (I := fun s => Follows x₀ s.lane ∧ Standing s.lane s.pc) h0 ?_
  intro s c s' _ hI _ hn
  exact standing_next hI.1 hI.2 hn

/-! ## What a completed pass leaves -/

theorem Follows.posOf (h : Follows x₀ x) :
    Lane.posOf (Versions.committed x.rows) = Lane.posOf (Versions.committed x₀.rows) := by
  funext id
  unfold Lane.posOf
  rcases h.committed id with hsame | ⟨j, hold, hrun, hnew⟩
  · rw [hsame]
  · -- neither a running nor an interrupted job has a place
    rw [hold, hnew]
    simp [ended, hrun]

/-- The queued jobs keep their order. -/
theorem Follows.order (h : Follows x₀ x) : x.order = x₀.order := by
  unfold Lane.order
  rw [h.keys, h.posOf]

/-- A queued job is left as it was. -/
theorem Follows.queued (h : Follows x₀ x) (hj : Versions.committed x₀.rows id = some j)
    (hq : j.state = .queued) : Versions.committed x.rows id = some j := by
  rcases h.committed id with hsame | ⟨j', hold, hrun, -⟩
  · exact hsame.trans hj
  · cases hold.symm.trans hj
    cases hq.symm.trans hrun

/-- Every job that was running is interrupted. -/
theorem interrupted_of_done (hf : Follows x₀ x) (h : Standing x .done)
    (hj : Versions.committed x₀.rows id = some j) (hrun : j.state = .running) :
    Versions.committed x.rows id = some (ended .interrupted j) := by
  rcases hf.committed id with hsame | ⟨j', hold, -, hnew⟩
  · have hview : view x.rows self id = some j := (h.1.view id).trans (hsame.trans hj)
    exact absurd ⟨j, hview, hrun⟩ (h.2.2 id)
  · cases hold.symm.trans hj
    exact hnew

/-- What recovery owes the lane `x₀` and the reservations `y₀` of the crash. -/
structure Restored (x₀ : Lane) (y₀ : Store) (x : Lane) (y : Store) : Prop where
  interrupted : ∀ id j, committed x₀.rows id = some j → j.state = .running →
    ∃ j', committed x.rows id = some j' ∧ j'.state = .interrupted ∧ j'.gpuSeconds.isSome = true
  settled : ∀ id j r, committed x₀.rows id = some j → j.state = .running →
    y₀.reservations.get? id = some r → r.state = .reserved →
    ∃ r', y.reservations.get? id = some r' ∧ r'.state = .settled
  queued : ∀ id j, committed x₀.rows id = some j → j.state = .queued →
    ∃ j', committed x.rows id = some j' ∧ j'.state = .queued
  order : x.order = x₀.order

/-- A completed pass has restored the lane exactly where there was no running
job to restore: the seconds of one are never recorded. -/
theorem restored_iff (trunc : Window → Time → Time) (x₀ : Lane) (y₀ : Store) (s : Sys)
    (hp : Persisted x₀) (h : Runs.Reachable (next trunc) Runs.anyStep ⟨x₀, y₀, .down⟩ s)
    (hdone : s.pc = .done) :
    Restored x₀ y₀ s.lane s.store ↔
      ∀ id j, committed x₀.rows id = some j → j.state ≠ .running := by
  obtain ⟨hf, hs⟩ := standing_of_reachable hp h
  rw [hdone] at hs
  constructor
  · intro hr id j hj hrun
    obtain ⟨j', hj', -, hgpu⟩ := hr.interrupted id j hj hrun
    cases (interrupted_of_done hf hs hj hrun).symm.trans hj'
    have hlive : j.state.terminal = false := by
      rw [hrun]
      rfl
    have hnone : j.gpuSeconds = none := hp.unmetered.committed id j hj hlive
    simp [ended, hnone] at hgpu
  · intro hnot
    refine ⟨fun id j hj hrun => ?_, fun id j r hj hrun _ _ => ?_, fun id j hj hq => ?_, hf.order⟩
    · exact absurd hrun (hnot id j hj)
    · exact absurd hrun (hnot id j hj)
    · exact ⟨j, hf.queued hj hq, hq⟩

/-! ## The lanes of a running agent -/

theorem committed_reopened (x : Lane) (id : JobId) :
    Versions.committed x.reopened.rows id = Versions.committed x.rows id := by
  rw [Lane.reopened, committed_map]
  rfl

theorem noOwn_reopened (x : Lane) (t : CallId) : NoOwn x.reopened t := by
  intro id
  have hnone : Versions.pending x.reopened.rows id = none := by
    rw [Lane.reopened, pending_map]
    cases x.rows.get? id <;> rfl
  simp [Versions.own, hnone]

theorem all_reopened {p : BrokerJob → Prop} (h : Versions.All p x.rows) :
    Versions.All p x.reopened.rows := by
  constructor
  · intro id j hj
    exact h.committed id j ((committed_reopened x id).symm.trans hj)
  · intro t id j hown
    cases (noOwn_reopened x t id).symm.trans hown

/-- Whatever the calls on it were doing, a lane is persisted. -/
theorem persisted_of_reachable {ok : Lane.Sys → Lane.Act → Prop} {l : Lane.Sys}
    (h : Runs.Reachable Lane.next ok Lane.Sys.init l) : Persisted l.shared.reopened :=
  ⟨noOwn_reopened _, all_reopened (Lane.all_of_reachable Lane.kept_checked h),
    all_reopened (Lane.all_of_reachable Lane.kept_unmetered h)⟩

/-! ## Runs -/

/-- One job queued. -/
def queuedLane : List Lane.Act := Lane.enqueueing 0 "a"

/-- A pass with nothing to settle. -/
def plainPass : List Choice :=
  [.start, .lane .go, .lane (.scan []), .lane .go, .lane .go, .go]

theorem plainPass_restored : ∃ (x₀ : Lane) (s : Sys), s.pc = .done ∧ s.lane.order = ["a"] ∧
    Restored x₀ Store.init s.lane s.store := by
  have hrun : ((Runs.run Lane.next Runs.anyStep Lane.Sys.init queuedLane).bind fun l =>
      (Runs.run (next Store.midnight) Runs.anyStep ⟨l.shared.reopened, Store.init, .down⟩
        plainPass).map fun s => decide (s.pc = .done) && decide (s.lane.order = ["a"]) &&
          l.shared.rows.keys.all fun id =>
            (committed l.shared.rows id).all fun j => j.state ≠ .running) = some true := by
    decide +kernel
  obtain ⟨l, hl, hrun⟩ := Option.bind_eq_some_iff.mp hrun
  obtain ⟨s, hs, hp⟩ := Runs.exists_reachable hrun
  obtain ⟨hp, hnot⟩ := Bool.and_eq_true_iff.mp hp
  obtain ⟨hdone, horder⟩ := Bool.and_eq_true_iff.mp hp
  have hpers : Persisted l.shared.reopened := persisted_of_reachable (.run .init hl)
  refine ⟨_, s, of_decide_eq_true hdone, of_decide_eq_true horder,
    (restored_iff Store.midnight _ _ s hpers hs (of_decide_eq_true hdone)).mpr ?_⟩
  intro id j hj
  rw [committed_reopened] at hj
  have hkey : id ∈ l.shared.rows.keys := by
    cases hget : l.shared.rows.get? id with
    | none => simp [Versions.committed, hget] at hj
    | some row => exact Dict.mem_keys.mpr ⟨row, hget⟩
  have hj' := List.all_eq_true.mp hnot id hkey
  rw [hj] at hj'
  exact of_decide_eq_true hj'

/-- One job running, with its reservation. -/
def runningLane : List Lane.Act := Lane.enqueueing 0 "a" ++ [(1, .call (.start "a")), (1, .now 5)]

def runningStore : List Store.Act := Store.reserving 0 (Store.job "a" 60 none)

/-- The process dies when the job is interrupted and not yet settled; the next
pass completes. -/
def crashBeforeSettle : List Choice :=
  [.start, .lane .go, .lane (.scan ["a"]), .lane .go, .lane .go, .lane .go, .crash,
    .start, .lane .go, .lane (.scan []), .lane .go, .lane .go, .go]

/-- The reservation is then left as it is. -/
theorem crashBeforeSettle_not_restored :
    ¬ ∀ (x₀ : Lane) (y₀ : Store) (s : Sys), Persisted x₀ →
      Runs.Reachable (next Store.midnight) Runs.anyStep ⟨x₀, y₀, .down⟩ s → s.pc = .done →
      Restored x₀ y₀ s.lane s.store := by
  have hrun : ((Runs.run Lane.next Runs.anyStep Lane.Sys.init runningLane).bind fun l =>
      (Runs.run (Store.next Store.midnight) Runs.anyStep Store.Sys.init runningStore).bind fun m =>
        (Runs.run (next Store.midnight) Runs.anyStep ⟨l.shared.reopened, m.shared, .down⟩
          crashBeforeSettle).map fun s => decide (s.pc = .done) &&
            ((committed l.shared.reopened.rows "a").any fun j => j.state = .running) &&
            ((m.shared.reservations.get? "a").any fun r => r.state = .reserved) &&
            (s.store.reservations.get? "a").any fun r => r.state = .reserved) = some true := by
    decide +kernel
  obtain ⟨l, hl, hrun⟩ := Option.bind_eq_some_iff.mp hrun
  obtain ⟨m, -, hrun⟩ := Option.bind_eq_some_iff.mp hrun
  obtain ⟨s, hs, hp⟩ := Runs.exists_reachable hrun
  obtain ⟨hp, hleft⟩ := Bool.and_eq_true_iff.mp hp
  obtain ⟨hp, hreserved⟩ := Bool.and_eq_true_iff.mp hp
  obtain ⟨hdone, hrunning⟩ := Bool.and_eq_true_iff.mp hp
  obtain ⟨j, hj, hstate⟩ := (Option.any_eq_true _ _).mp hrunning
  obtain ⟨r, hr, hres⟩ := (Option.any_eq_true _ _).mp hreserved
  obtain ⟨r', hr', hres'⟩ := (Option.any_eq_true _ _).mp hleft
  intro hall
  have hpers : Persisted l.shared.reopened := persisted_of_reachable (.run .init hl)
  have hrest := hall _ _ s hpers hs (of_decide_eq_true hdone)
  obtain ⟨r'', hr'', hset⟩ := hrest.settled "a" j r hj (of_decide_eq_true hstate) hr
    (of_decide_eq_true hres)
  cases hr'.symm.trans hr''
  rw [of_decide_eq_true hres'] at hset
  cases hset

end Recovery

end MlopsLite.PlatformLib
