import MlopsLite.PlatformLib.BrokerJobs.Lane

/-!
# Broker jobs — what a step can do

`Step` lists every outcome of a step, with what it found; reads that change
nothing share one constructor. `laneOp` says which steps complete an
operation on the lane. Whoever steps, the versions the others have pending
stay, and so do the rows they have locked.
-/

namespace MlopsLite.PlatformLib

/-- An operation on the order of the queued jobs. -/
inductive LaneOp
  | append (id : JobId)
  | remove (id : JobId)
  | move (id : JobId) (position : ℤ)
  deriving DecidableEq

/-- The operation that going from one control point to another completes. -/
def laneOp : LanePc → LanePc → Option LaneOp
  | .enqueueCommit j, .returned => some (.append j.id)
  | .start id, .returned => some (.remove id)
  | .finish id _ _, .returned => some (.remove id)
  | .commit via (.reorder id position _), pc =>
      if pc = via.returns then some (.move id position) else none
  | .commit via (.compact id _), pc => if pc = via.returns then some (.remove id) else none
  | _, _ => none

/-- No row is written here and no lock is held. -/
def LanePc.quiet : LanePc → Bool
  | .enqueueMax _ | .enqueueInsert .. | .enqueueCommit _ | .compact .. | .placing .. | .shift ..
  | .lowering .. | .commit .. | .recovering .. | .recoverCommit _ => false
  | _ => true

namespace Lane

open Versions

/-! ## Rows written -/

/-- `t` wrote one row. -/
structure Wrote (t : CallId) (x x' : Lane) (id : JobId) (j : BrokerJob) : Prop where
  eq : x' = { x with rows := write x.rows t id j }
  free : free x.rows t id = true
  check : j.isQueued = j.queuePos.isSome
  notTaken : taken x.rows t id (fun k =>
    (j.isQueued && j.queuePos.any fun p => k.at p) || (j.isRunning && k.isRunning)) = false

section

variable {t u : CallId} {x x' : Lane} {id : JobId} {j : BrokerJob}
  {guard : BrokerJob → Bool} {f : BrokerJob → BrokerJob}

theorem put_done (hf : free x.rows t id = true) (h : x.put t id j = .done x') :
    Wrote t x x' id j := by
  unfold put at h
  split at h
  · cases h
  · rename_i hcheck
    simp only at h
    split at h
    · cases h
    · split at h
      · cases h
      · rename_i htaken
        cases h
        exact ⟨rfl, hf, by simpa using hcheck, by simpa using htaken⟩

/-- An UPDATE that ended found nothing to do, or wrote the row. -/
theorem update_done (h : x.update t id guard f = .done x') :
    (x' = x ∧ ∀ j, view x.rows t id = some j → guard j = false) ∨
      ∃ j, view x.rows t id = some j ∧ guard j = true ∧ Wrote t x x' id (f j) := by
  unfold update at h
  split at h
  · rename_i hview
    cases h
    exact .inl ⟨rfl, fun j hj => nomatch hview.symm.trans hj⟩
  · rename_i j hview
    split at h
    · rename_i hg
      split at h
      · rename_i hf
        exact .inr ⟨j, hview, hg, put_done hf h⟩
      · cases h
    · rename_i hg
      cases h
      refine .inl ⟨rfl, fun k hk => ?_⟩
      cases hview.symm.trans hk
      simpa using hg

theorem rewrite_done (h : x.rewrite t id guard f = .done x') :
    free x.rows t id = true ∧
      ((x' = x ∧ ∀ j, view x.rows t id = some j → guard j = false) ∨
        ∃ j, view x.rows t id = some j ∧ guard j = true ∧ Wrote t x x' id (f j)) := by
  unfold rewrite at h
  split at h
  · rename_i hf
    exact ⟨hf, update_done h⟩
  · cases h

theorem Wrote.own_self (h : Wrote t x x' id j) : own x'.rows t id = some j := by
  rw [h.eq]
  exact own_write_self ..

theorem Wrote.own_ne (h : Wrote t x x' id j) {k : JobId} (hk : k ≠ id) :
    own x'.rows u k = own x.rows u k := by
  rw [h.eq]
  exact own_write_ne _ _ _ _ hk

theorem Wrote.own_other (h : Wrote t x x' id j) (hu : u ≠ t) (k : JobId) :
    own x'.rows u k = own x.rows u k := by
  rw [h.eq]
  exact own_write_other h.free hu k

theorem Wrote.committed (h : Wrote t x x' id j) (k : JobId) :
    committed x'.rows k = committed x.rows k := by
  rw [h.eq]
  exact committed_write ..

end

/-! ## Steps -/

/-- What a call has checked before it stands at a control point. -/
def Found (x : Lane) (t : CallId) : LanePc → Prop
  | .finish _ state _ => state.terminal = true
  | .cancelUpdate _ id => (view x.rows t id).isSome = true
  | _ => True

/-- `Step t x pc x' pc'`: call `t`, standing at `pc`, can take the lane from
`x` to `x'` and stand at `pc'`. -/
inductive Step (t : CallId) : Lane → LanePc → Lane → LanePc → Prop
  | read {x pc pc'} (hq : pc.quiet = true) (hq' : pc'.quiet = true)
      (hfound : Found x t pc') (hop : laneOp pc pc' = none) : Step t x pc x pc'
  | lock {x j} (ha : x.advisory = none) :
      Step t x (.enqueueLock j) { x with advisory := some t } (.enqueueMax j)
  | max {x j} : Step t x (.enqueueMax j) x (.enqueueInsert j (x.nextPos t))
  | insert {x x' j pos} (hnew : view x.rows t j.id = none)
      (hw : Wrote t x x' j.id (newRow j pos)) :
      Step t x (.enqueueInsert j pos) x' (.enqueueCommit j)
  | enqueued {x j} : Step t x (.enqueueCommit j) (x.commit t) .returned
  | start {x y id at'} (hup : x.update t id BrokerJob.isQueued (started at') = .done y) :
      Step t x (.start id) (y.commit t) .returned
  | finish {x y id state usage}
      (hup : x.update t id (fun j => !j.state.terminal) (finished state usage) = .done y) :
      Step t x (.finish id state usage) (y.commit t) .returned
  | cancelUpdate {x x' via id}
      (hup : x.update t id (fun _ => true) (ended .cancelled) = .done x') :
      Step t x (.cancelUpdate via id) x' (.compact via id)
  | rank {x via id ids} (hp : ids.Perm (x.listQueued t)) :
      Step t x (.compact via id) x (.placing via (.compact id (x.listQueued t)) ids)
  | list {x via id position} (hmem : id ∈ x.listQueued t) :
      Step t x (.reorderList via id position) x
        (.placing via (.reorder id position (x.listQueued t))
          (moveTo id position (x.listQueued t)))
  | placed {x via m} : Step t x (.placing via m []) x (.shift via m)
  | place {x x' via m id todo} (hput : x.place t m id = .done x') :
      Step t x (.placing via m (id :: todo)) x' (.placing via m todo)
  | scan {x via m ids} (hp : ids.Perm (x.select t BrokerJob.isQueued)) :
      Step t x (.shift via m) x (.lowering via m ids)
  | lowered {x via m} : Step t x (.lowering via m []) x (.commit via m)
  | lower {x x' via m id todo} (hput : x.lower t id = .done x') :
      Step t x (.lowering via m (id :: todo)) x' (.lowering via m todo)
  | commit {x via m} : Step t x (.commit via m) (x.commit t) via.returns
  | interrupting {x l ids} (hp : ids.Perm (x.select t BrokerJob.isRunning)) :
      Step t x (.recoverUpdate l) x (.recovering l ids)
  | interrupt {x x' l id todo}
      (hput : x.rewrite t id BrokerJob.isRunning (ended .interrupted) = .done x') :
      Step t x (.recovering l (id :: todo)) x' (.recovering l todo)
  | interrupted {x l} : Step t x (.recovering l []) x (.recoverCommit l)
  | recovered {x l} : Step t x (.recoverCommit l) (x.commit t) (.recovered l)
  | fails {x pc} (e : LaneError) (hpc : pc.over = false) : Step t x pc (x.rollback t) (.raised e)

variable {t u : CallId} {x x' : Lane} {pc pc' : LanePc}

theorem quiet_enter (c : LaneCall) : (enter c).quiet = true ∧ Found x t (enter c) := by
  cases c with
  | finish id state usage =>
    simp only [enter]
    split
    · rename_i hstate
      exact ⟨rfl, hstate⟩
    · exact ⟨rfl, trivial⟩
  | _ => exact ⟨rfl, trivial⟩

theorem quiet_overrideRead (id : JobId) (action : String) (position : Option ℤ) :
    (x.overrideRead t id action position).quiet = true ∧
      Found x t (x.overrideRead t id action position) := by
  unfold overrideRead
  split
  · exact ⟨rfl, trivial⟩
  · repeat' split
    all_goals exact ⟨rfl, trivial⟩

theorem quiet_cancelRead (via : Caller) (id : JobId) :
    (x.cancelRead t via id).quiet = true ∧ Found x t (x.cancelRead t via id) := by
  unfold cancelRead
  split
  · cases via <;> exact ⟨rfl, trivial⟩
  · rename_i j hview
    split
    · cases via <;> exact ⟨rfl, trivial⟩
    · refine ⟨rfl, ?_⟩
      simp [Found, hview]

theorem quiet_reorderRead (via : Caller) (id : JobId) (position : ℤ) :
    (x.reorderRead t via id position).quiet = true ∧
      Found x t (x.reorderRead t via id position) := by
  unfold reorderRead
  split
  · cases via <;> exact ⟨rfl, trivial⟩
  · split
    · exact ⟨rfl, trivial⟩
    · cases via <;> exact ⟨rfl, trivial⟩

/-- A row that is written, or a constraint that ends the call. -/
theorem of_thenAt {p : Put} {k : LanePc} (h : p.thenAt x t k = some (x', pc')) :
    (p = .done x' ∧ pc' = k) ∨ (x' = x.rollback t ∧ pc' = .raised .database) := by
  cases p with
  | waits => cases h
  | violates =>
    cases h
    exact .inr ⟨rfl, rfl⟩
  | done y =>
    cases h
    exact .inl ⟨rfl, rfl⟩

theorem of_thenCommit {p : Put} {k : LanePc} (h : p.thenCommit x t k = some (x', pc')) :
    (∃ y, p = .done y ∧ x' = y.commit t ∧ pc' = k) ∨
      (x' = x.rollback t ∧ pc' = .raised .database) := by
  cases p with
  | waits => cases h
  | violates =>
    cases h
    exact .inr ⟨rfl, rfl⟩
  | done y =>
    cases h
    exact .inl ⟨y, rfl, rfl, rfl⟩

theorem step_enqueueInsert {j : NewJob} {pos : ℤ}
    (h : (x.enqueueInsert t j pos).thenAt x t (.enqueueCommit j) = some (x', pc')) :
    Step t x (.enqueueInsert j pos) x' pc' := by
  rcases of_thenAt h with ⟨hput, rfl⟩ | ⟨rfl, rfl⟩
  · unfold enqueueInsert at hput
    split at hput
    · rename_i hf
      split at hput
      · cases hput
      · rename_i hnew
        exact .insert hnew (put_done hf hput)
    · cases hput
  · exact .fails _ rfl

theorem step_start {id : JobId} {at' : Time} (h : x.startJob t id at' = some (x', pc')) :
    Step t x (.start id) x' pc' := by
  unfold startJob at h
  split at h
  · rcases of_thenCommit h with ⟨y, hup, rfl, rfl⟩ | ⟨rfl, rfl⟩
    · exact .start hup
    · exact .fails _ rfl
  · cases h
    exact .read rfl rfl trivial rfl

theorem step_of_advance {ch : LaneChoice} (h : advance t ch x pc = some (x', pc')) :
    Step t x pc x' pc' := by
  cases ch with
  | call c =>
    cases pc <;> cases h
    obtain ⟨hquiet, hfound⟩ := quiet_enter (x := x) (t := t) c
    refine .read rfl hquiet hfound ?_
    cases enter c <;> rfl
  | fails =>
    have hover : pc.over = false ∧ (x.rollback t, LanePc.raised .database) = (x', pc') := by
      cases pc <;> simp_all [advance, LanePc.over]
    obtain ⟨hpc, heq⟩ := hover
    cases heq
    exact .fails _ hpc
  | now at' =>
    cases pc with
    | start id => exact step_start h
    | _ => cases h
  | scan ids =>
    cases pc with
    | compact via id =>
      simp only [advance] at h
      split at h
      · rename_i hp
        cases h
        exact .rank hp
      · cases h
    | shift via m =>
      simp only [advance] at h
      split at h
      · rename_i hp
        cases h
        exact .scan hp
      · cases h
    | recoverUpdate l =>
      simp only [advance] at h
      split at h
      · rename_i hp
        cases h
        exact .interrupting hp
      · cases h
    | _ => cases h
  | go =>
    cases pc with
    | enqueueLock j =>
      simp only [advance] at h
      split at h
      · rename_i ha
        cases h
        exact .lock ha
      · cases h
    | enqueueMax j =>
      cases h
      exact .max
    | enqueueInsert j pos => exact step_enqueueInsert h
    | enqueueCommit j =>
      cases h
      exact .enqueued
    | finish id state usage =>
      rcases of_thenCommit h with ⟨y, hup, rfl, rfl⟩ | ⟨rfl, rfl⟩
      · exact .finish hup
      · exact .fails _ rfl
    | overrideRead id action position =>
      cases h
      exact .read rfl (quiet_overrideRead ..).1 (quiet_overrideRead ..).2 rfl
    | overrideLength id action =>
      cases h
      exact .read rfl rfl trivial rfl
    | cancelRead via id =>
      cases h
      exact .read rfl (quiet_cancelRead ..).1 (quiet_cancelRead ..).2 rfl
    | cancelUpdate via id =>
      rcases of_thenAt h with ⟨hput, rfl⟩ | ⟨rfl, rfl⟩
      · exact .cancelUpdate hput
      · exact .fails _ rfl
    | reorderRead via id position =>
      cases h
      exact .read rfl (quiet_reorderRead ..).1 (quiet_reorderRead ..).2 rfl
    | reorderList via id position =>
      simp only [advance, reorderList, Option.some.injEq, Prod.mk.injEq] at h
      obtain ⟨rfl, rfl⟩ := h
      split
      · rename_i hmem
        exact .list hmem
      · cases via <;> exact .read rfl rfl trivial rfl
    | placing via m todo =>
      cases todo with
      | nil =>
        cases h
        exact .placed
      | cons id todo =>
        rcases of_thenAt h with ⟨hput, rfl⟩ | ⟨rfl, rfl⟩
        · exact .place hput
        · exact .fails _ rfl
    | lowering via m todo =>
      cases todo with
      | nil =>
        cases h
        exact .lowered
      | cons id todo =>
        rcases of_thenAt h with ⟨hput, rfl⟩ | ⟨rfl, rfl⟩
        · exact .lower hput
        · exact .fails _ rfl
    | commit via m =>
      cases h
      exact .commit
    | recoverSelect =>
      cases h
      exact .read rfl rfl trivial rfl
    | recovering l todo =>
      cases todo with
      | nil =>
        cases h
        exact .interrupted
      | cons id todo =>
        rcases of_thenAt h with ⟨hput, rfl⟩ | ⟨rfl, rfl⟩
        · exact .interrupt hput
        · exact .fails _ rfl
    | recoverCommit l =>
      cases h
      exact .recovered
    | idle | start | compact | shift | recoverUpdate | returned | recovered | answered | raised =>
      cases h

theorem step_of_next {s s' : Sys} {a : Act} (h : next s a = some s') :
    Step a.1 s.shared (s.pc a.1) s'.shared (s'.pc a.1) ∧ ∀ u, u ≠ a.1 → s'.pc u = s.pc u := by
  obtain ⟨t, ch⟩ := a
  obtain ⟨x, k, ha, rfl⟩ := Interleaving.next_eq_some.mp h
  refine ⟨by simpa using step_of_advance ha, ?_⟩
  intro u hu
  exact Function.update_of_ne hu ..

end Lane

end MlopsLite.PlatformLib
