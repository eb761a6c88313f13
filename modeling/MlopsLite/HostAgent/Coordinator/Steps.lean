import MlopsLite.HostAgent.Coordinator.System

/-!
# Coordinator — what a step can do

`Section` lists every outcome an atomic section can have, guards included;
`section_of_advance` says the list is complete. Invariants are proved by
cases on it and never unfold the sections themselves.
-/

namespace MlopsLite.HostAgent

namespace Coordinator

/-- Steps that leave the coordinator alone and only move the operation on. -/
inductive Quiet : Pc → Pc → Prop
  | admitServing {m est} : Quiet .idle (.attempt m est 1)
  | callEvict {m} : Quiet .idle (.evict m .direct)
  | jobBusy : Quiet .idle (.finished false)
  | refuse {m est n} (r : Refusal) : Quiet (.attempt m est n) (.served (.refuse r))
  | transient {m est n} : Quiet (.attempt m est n) (.awaitTransient m est n)
  | transientWait {m est n} : Quiet (.awaitTransient m est n) (.awaitTransient m est n)
  | transientOver {m est n} : Quiet (.awaitTransient m est n) (.attempt m est (n + 1))
  | rollbackUnload {m e gen child ws d} :
      Quiet (.rollback m e gen child ws d) (.rolledBack m e gen ws d)
  | failedUnload {m e child ws} :
      Quiet (.failedUnload m e child ws) (.dispose ws (.outcome (.refuse .failedToLoad)) true)
  | evictUnload {m e gen child k} : Quiet (.evicting m e gen child k) (.evicted m e gen k)
  | jobDrained {j} : Quiet (.jobDrain j) (.jobClose j true)
  | jobTimedOut {j} : Quiet (.jobDrain j) (.jobClose j false)
  | jobPass {j vs} : Quiet (.jobDrain j) (Caller.resume (.drain j vs) true)

/-- `Section gpu op co pc co' pc'`: operation `op`, standing at `pc`, can
take the coordinator from `co` to `co'` and stand at `pc'`. -/
inductive Section (gpu : Gpu) (op : OpId) : Coordinator → Pc → Coordinator → Pc → Prop
  | quiet {co pc pc'} (h : Quiet pc pc') : Section gpu op co pc co pc'
  | forget {co m} : Section gpu op co .idle (co.forget m) (.finished (co.residents.get? m).isSome)
  | release {co c} : Section gpu op co .idle (co.releaseClaim c) (.finished true)
  | raiseBarrier {co j} (hb : co.barred = false) :
      Section gpu op co .idle co.raiseBarrier (.jobDrain j)
  | endJob {co j} : Section gpu op co .idle (co.endJob j) (.finished true)
  | share {co m est n x} (hb : co.barred = false) (hx : co.residents.get? m = some x)
      (hs : x.state = .resident) :
      Section gpu op co (.attempt m est n) (co.grantClaim m op) (.served (.share co.nextClaim))
  | join {co m est n x owner} (hb : co.barred = false) (hx : co.residents.get? m = some x)
      (hs : x.state = .loading) (ho : co.reservationFor m = some owner) :
      Section gpu op co (.attempt m est n) (co.join owner op) (.awaitLoad m est n co.nextWaiter)
  | reserve {co m est n} {free : ℚ} (hb : co.barred = false) (hx : co.residents.get? m = none)
      (hf : co.fitsBudget gpu est = true) (hl : co.fitsLive gpu free est = true)
      (hi : co.evictIntent.get? op = none) :
      Section gpu op co (.attempt m est n) (co.reserve m est op) (.gate m est co.nextEntry)
  | intentOpen {co m est n} (hi : (co.evictIntent.get? op).isSome) :
      Section gpu op co (.attempt m est n) co .raised
  | evictVictims {co m est n vs} {free : ℚ} (hb : co.barred = false)
      (hx : co.residents.get? m = none) (hv : co.selectVictims gpu m free est = vs)
      (hne : vs ≠ []) :
      Section gpu op co (.attempt m est n) (co.evictVictims op vs)
        (Caller.resume (.victims m est n vs) true)
  | waiterTimeout {co m est n w} (hd : (co.waiters.get? w).bind Waiter.disposition = none) :
      Section gpu op co (.awaitLoad m est n w) (co.deregister op w)
        (.served (.refuse .waiterDeadline))
  | waiterServed {co m est n w d o} (hd : (co.waiters.get? w).bind Waiter.disposition = some d)
      (ho : waiterOutcome d = .outcome o) :
      Section gpu op co (.awaitLoad m est n w)
        { co with liveWaiters := co.liveWaiters.erase op } (.served o)
  | waiterRetry {co m est n w d} (hd : (co.waiters.get? w).bind Waiter.disposition = some d)
      (ho : waiterOutcome d = .retry) :
      Section gpu op co (.awaitLoad m est n w)
        { co with liveWaiters := co.liveWaiters.erase op } (.attempt m est (n + 1))
  | clearIntent {co m est n} :
      Section gpu op co (.clearIntent m est n)
        { co with evictIntent := co.evictIntent.erase op } (.attempt m est (n + 1))
  | acquireGate {co m est e} (hg : co.loadGate = true) :
      Section gpu op co (.gate m est e) { co with loadGate := false } (.load m est e)
  | loadRaised {co m est e} : Section gpu op co (.load m est e) co (.loadFailed m e none)
  | loadUnmeasured {co m est e} (pid : Nat) :
      Section gpu op co (.load m est e) { co with nextChild := co.nextChild + 1 }
        (.loadFailed m e (some { ref := co.nextChild, pid := some pid }))
  | loaded {co m est e} (pid : Option Nat) (realBytes : Bytes) (hd : pid = none → realBytes = est) :
      Section gpu op co (.load m est e) { co with nextChild := co.nextChild + 1 }
        (.reconcile m e { ref := co.nextChild, pid } realBytes)
  | reconcile {co m e child realBytes} :
      Section gpu op co (.reconcile m e child realBytes)
        { co.reconcile op child realBytes with loadGate := true } (.commit m e child realBytes)
  | reservationLost {co m e child realBytes} (hr : co.reservations.get? op = none) :
      Section gpu op co (.commit m e child realBytes) co
        (.rollback m e (co.generation m) child [] (.outcome (.refuse .reservationLost)))
  | rollBack {co m e child realBytes r} (hr : co.reservations.get? op = some r)
      (h : co.barred ∨ co.stale m r ∨ co.drift gpu m op realBytes) :
      Section gpu op co (.commit m e child realBytes)
        ((co.setState m .rollingBack).takeCustody op r.waiters)
        (.rollback m e r.generation child r.waiters (co.rollbackDisposition gpu m r realBytes))
  | keyError {co m e child realBytes r} (hr : co.reservations.get? op = some r)
      (hg : co.generation m = r.generation) (hx : co.residents.get? m = none) :
      Section gpu op co (.commit m e child realBytes) co .raised
  | commit {co m e child realBytes r x} (hr : co.reservations.get? op = some r)
      (hb : co.barred = false) (hg : co.generation m = r.generation)
      (hd : co.drift gpu m op realBytes = false) (hx : co.residents.get? m = some x) :
      Section gpu op co (.commit m e child realBytes)
        (co.commitLoad m op child realBytes r.waiters)
        (.dispose r.waiters (.outcome (.grant co.nextClaim)) false)
  | rolledBack {co m e gen ws d} :
      Section gpu op co (.rolledBack m e gen ws d) (co.dropEntry m) (.dispose ws d false)
  | failedOwn {co m e child r x} (hr : co.reservations.get? op = some r)
      (hg : co.generation m = r.generation) (hx : co.residents.get? m = some x) :
      Section gpu op co (.loadFailed m e child) ((co.takeCustody op r.waiters).dropEntry m)
        (.afterFailure m e r.waiters child)
  | failedStale {co m e child ws}
      (hw : ws = ((co.reservations.get? op).map Reservation.waiters).getD [])
      (hg : ∀ r x, co.reservations.get? op = some r → co.residents.get? m = some x →
        co.generation m ≠ r.generation) :
      Section gpu op co (.loadFailed m e child) (co.takeCustody op ws)
        (.afterFailure m e ws child)
  | disposed {co ws d} :
      Section gpu op co (.dispose ws d false) (co.dispose ws d op) (.served d.toOutcome)
  | disposedGate {co ws d} :
      Section gpu op co (.dispose ws d true) { co.dispose ws d op with loadGate := true }
        (.served d.toOutcome)
  | evictGone {co m k pc} (hpc : pc = .evict m k ∨ pc = .draining m k)
      (hx : co.residents.get? m = none) :
      Section gpu op co pc co (k.resume true)
  | evictEnter {co m k x} (hx : co.residents.get? m = some x) :
      Section gpu op co (.evict m k) (co.evictEnter m).2 (.draining m k)
  | drained {co m k x} (hx : co.residents.get? m = some x) (h0 : x.activeRequests = 0) :
      Section gpu op co (.draining m k) (co.setState m .evicting)
        (.evicting m x.eid (co.generation m) x.child k)
  | drainFailed {co m k x} (hx : co.residents.get? m = some x) (h0 : 0 < x.activeRequests) :
      Section gpu op co (.draining m k) (if co.barred then co else co.setState m .resident)
        (k.resume false)
  | drainWait {co m k x} (hx : co.residents.get? m = some x) (h0 : 0 < x.activeRequests) :
      Section gpu op co (.draining m k) co (.draining m k)
  | evicted {co m e gen k} : Section gpu op co (.evicted m e gen k) (co.dropEntry m) (k.resume true)
  | jobFailed {co j drained} :
      Section gpu op co (.jobClose j drained) co.dropBarrier (.finished false)
  | jobTakes {co j} (hr : co.residents.isEmpty) (hs : co.reservations.isEmpty) :
      Section gpu op co (.jobClose j true) (co.takeGpu j op) (.finished true)

/-! ## Completeness -/

theorem section_of_enter {gpu : Gpu} {op : OpId} {co : Coordinator} (call : Call) :
    Section gpu op co .idle (co.enter call).1 (co.enter call).2 := by
  cases call with
  | admitServing m est => exact .quiet .admitServing
  | evict m => exact .quiet .callEvict
  | forget m => exact .forget
  | release c => exact .release
  | admitJob j =>
    cases hb : co.barred with
    | true => simpa [enter, jobEnter, hb] using Section.quiet .jobBusy
    | false => simpa [enter, jobEnter, hb] using Section.raiseBarrier hb
  | endJob j => exact .endJob

theorem section_of_stage1 {gpu : Gpu} {op : OpId} {co : Coordinator} {m : ModelKey} {est : Bytes}
    {n : Nat} {free free' : ℚ} :
    Section gpu op co (.attempt m est n) (co.stage1 gpu m est op free free').2
      ((co.stage1 gpu m est op free free').1.resume m est n) := by
  cases hb : co.barred with
  | true => simpa [stage1, Plan.resume, hb] using Section.quiet (.refuse .exclusiveJob)
  | false =>
    cases hx : co.residents.get? m with
    | some x =>
      cases hs : x.state with
      | resident => simpa [stage1, Plan.resume, hb, hx, hs] using Section.share hb hx hs
      | loading =>
        cases ho : co.reservationFor m with
        | some owner => simpa [stage1, Plan.resume, hb, hx, hs, ho] using Section.join hb hx hs ho
        | none => simpa [stage1, Plan.resume, hb, hx, hs, ho] using Section.quiet .transient
      | draining => simpa [stage1, Plan.resume, hb, hx, hs] using Section.quiet .transient
      | evicting => simpa [stage1, Plan.resume, hb, hx, hs] using Section.quiet .transient
      | rollingBack => simpa [stage1, Plan.resume, hb, hx, hs] using Section.quiet .transient
    | none =>
      by_cases hf : co.fitsBudget gpu est && co.fitsLive gpu free est
      · obtain ⟨hf', hl⟩ := Bool.and_eq_true_iff.mp hf
        cases hi : co.evictIntent.get? op with
        | some vs =>
          simpa [stage1, Plan.resume, hb, hx, hf, hi] using Section.intentOpen (by simp [hi])
        | none => simpa [stage1, Plan.resume, hb, hx, hf, hi] using Section.reserve hb hx hf' hl hi
      · cases hv : co.selectVictims gpu m free' est with
        | nil =>
          by_cases hc : (gpu.usableCapacity : ℚ) - gpu.config.safetyHeadroomBytes < est
          · simpa [stage1, Plan.resume, hb, hx, hf, hv, hc] using Section.quiet (.refuse .needsTooMuch)
          · simpa [stage1, Plan.resume, hb, hx, hf, hv, hc] using Section.quiet (.refuse .noEvictableCapacity)
        | cons v vs =>
          simpa [stage1, Plan.resume, hb, hx, hf, hv] using Section.evictVictims hb hx hv (by simp)

theorem section_of_commit {gpu : Gpu} {op : OpId} {co : Coordinator} {m : ModelKey} {e : EntryId}
    {child : Child} {realBytes : Bytes} :
    Section gpu op co (.commit m e child realBytes) (co.commit gpu m op child realBytes).2
      ((co.commit gpu m op child realBytes).1.resume m e child) := by
  cases hr : co.reservations.get? op with
  | none => simpa [Coordinator.commit, CommitPlan.resume, hr] using Section.reservationLost hr
  | some r =>
    by_cases h : co.barred || co.stale m r || co.drift gpu m op realBytes
    · have h' : co.barred ∨ co.stale m r ∨ co.drift gpu m op realBytes := by
        simpa [or_assoc] using h
      simpa [Coordinator.commit, CommitPlan.resume, hr, h] using Section.rollBack hr h'
    · have hg : co.generation m = r.generation := by
        by_contra hne
        exact h (by simp [stale, hne])
      cases hx : co.residents.get? m with
      | none => simpa [Coordinator.commit, CommitPlan.resume, hr, h, hx] using
          Section.keyError hr hg hx
      | some x =>
        simp only [Bool.or_eq_true, not_or, Bool.not_eq_true] at h
        simpa [Coordinator.commit, CommitPlan.resume, hr, h, hx] using
          Section.commit hr h.1.1 hg h.2 hx

theorem section_of_loadFailed {gpu : Gpu} {op : OpId} {co : Coordinator} {m : ModelKey}
    {e : EntryId} {child : Option Child} :
    Section gpu op co (.loadFailed m e child) (co.loadFailed m op).2
      (.afterFailure m e (co.loadFailed m op).1 child) := by
  cases hx : co.residents.get? m with
  | none =>
    simpa [Coordinator.loadFailed, hx] using Section.failedStale rfl (by simp [hx])
  | some x =>
    cases hr : co.reservations.get? op with
    | none =>
      have hs : Section gpu op co (.loadFailed m e child) _ _ := .failedStale rfl (by simp [hr])
      simpa [Coordinator.loadFailed, hx, hr] using hs
    | some r =>
      by_cases hg : co.generation m = r.generation
      · simpa [Coordinator.loadFailed, hx, hr, hg] using Section.failedOwn hr hg hx
      · have hs : Section gpu op co (.loadFailed m e child) _ _ := .failedStale rfl (by simp_all)
        simpa [Coordinator.loadFailed, hx, hr, hg] using hs

theorem section_of_evictDrain {gpu : Gpu} {op : OpId} {co : Coordinator} {m : ModelKey}
    {k : Caller} (timedOut : Bool) :
    Section gpu op co (.draining m k) (co.evictDrain m timedOut).2
      ((co.evictDrain m timedOut).1.resume m k) := by
  cases hx : co.residents.get? m with
  | none => simpa [evictDrain, DrainPlan.resume, hx] using Section.evictGone (.inr rfl) hx
  | some x =>
    by_cases h0 : x.activeRequests = 0
    · simpa [evictDrain, DrainPlan.resume, hx, h0] using Section.drained hx h0
    · have hpos : 0 < x.activeRequests := Nat.pos_of_ne_zero h0
      cases timedOut with
      | true => simpa [evictDrain, DrainPlan.resume, hx, h0] using Section.drainFailed hx hpos
      | false => simpa [evictDrain, DrainPlan.resume, hx, h0] using Section.drainWait hx hpos

/-- Every atomic step is a `Section`. -/
theorem section_of_advance {gpu : Gpu} {op : OpId} {choice : Choice} {co co' : Coordinator}
    {pc pc' : Pc} (h : advance gpu op choice co pc = some (co', pc')) :
    Section gpu op co pc co' pc' := by
  cases pc with
  | idle =>
    cases choice <;> simp only [advance, Option.some.injEq, reduceCtorEq] at h
    rename_i call
    have hs : Section gpu op co .idle _ _ := section_of_enter call
    rwa [h] at hs
  | attempt m est n =>
    by_cases hn : gpu.config.maxAdmissionAttempts < n
    · simp only [advance, hn, if_true, Option.some.injEq, Prod.mk.injEq] at h
      obtain ⟨rfl, rfl⟩ := h
      exact .quiet (.refuse _)
    · cases choice <;>
        simp only [advance, hn, if_false, Option.some.injEq, Prod.mk.injEq, reduceCtorEq] at h
      · obtain ⟨rfl, rfl⟩ := h
        exact .quiet (.refuse _)
      · obtain ⟨rfl, rfl⟩ := h
        exact section_of_stage1
  | awaitLoad m est n w =>
    cases choice <;> simp only [advance, Option.some.injEq, Prod.mk.injEq, reduceCtorEq] at h
    obtain ⟨rfl, rfl⟩ := h
    cases hd : (co.waiters.get? w).bind Waiter.disposition with
    | none => simpa [Coordinator.awaitLoad, hd] using Section.waiterTimeout hd
    | some d =>
      cases ho : waiterOutcome d with
      | outcome o => simpa [Coordinator.awaitLoad, hd, ho] using Section.waiterServed hd ho
      | retry => simpa [Coordinator.awaitLoad, hd, ho] using Section.waiterRetry hd ho
  | awaitTransient m est n =>
    simp only [advance, Option.map_eq_some_iff] at h
    obtain ⟨timedOut, -, h⟩ := h
    split at h
    · cases h
      exact .quiet .transientWait
    · cases h
      exact .quiet .transientOver
  | clearIntent m est n =>
    cases choice <;> simp only [advance, Option.some.injEq, Prod.mk.injEq, reduceCtorEq] at h
    obtain ⟨rfl, rfl⟩ := h
    exact .clearIntent
  | gate m est e =>
    cases choice <;> simp only [advance, reduceCtorEq] at h
    split at h
    · rename_i hg
      cases h
      exact .acquireGate hg
    · cases h
  | load m est e =>
    cases choice with
    | loadRaised =>
      cases h
      exact .loadRaised
    | loadReturned pid reading =>
      cases pid with
      | none =>
        cases h
        exact .loaded none est fun _ => rfl
      | some pid =>
        cases reading with
        | none =>
          cases h
          exact .loadUnmeasured pid
        | some realBytes =>
          cases h
          exact .loaded (some pid) realBytes (by simp)
    | start | go | expired | freeBytes => simp [advance, loadChild] at h
  | reconcile m e child realBytes =>
    cases choice <;> simp only [advance, Option.some.injEq, Prod.mk.injEq, reduceCtorEq] at h
    obtain ⟨rfl, rfl⟩ := h
    exact .reconcile
  | commit m e child realBytes =>
    cases choice <;> simp only [advance, Option.some.injEq, Prod.mk.injEq, reduceCtorEq] at h
    obtain ⟨rfl, rfl⟩ := h
    exact section_of_commit
  | rollback m e gen child ws d =>
    cases choice <;> simp only [advance, Option.some.injEq, Prod.mk.injEq, reduceCtorEq] at h
    obtain ⟨rfl, rfl⟩ := h
    exact .quiet .rollbackUnload
  | rolledBack m e gen ws d =>
    cases choice <;> simp only [advance, Option.some.injEq, Prod.mk.injEq, reduceCtorEq] at h
    obtain ⟨rfl, rfl⟩ := h
    exact .rolledBack
  | loadFailed m e child =>
    cases choice <;> simp only [advance, Option.some.injEq, Prod.mk.injEq, reduceCtorEq] at h
    obtain ⟨rfl, rfl⟩ := h
    exact section_of_loadFailed
  | failedUnload m e child ws =>
    cases choice <;> simp only [advance, Option.some.injEq, Prod.mk.injEq, reduceCtorEq] at h
    obtain ⟨rfl, rfl⟩ := h
    exact .quiet .failedUnload
  | dispose ws d holdsGate =>
    cases choice <;> simp only [advance, Option.some.injEq, Prod.mk.injEq, reduceCtorEq] at h
    obtain ⟨rfl, rfl⟩ := h
    cases holdsGate with
    | true => exact .disposedGate
    | false => exact .disposed
  | evict m k =>
    cases choice <;> simp only [advance, Option.some.injEq, Prod.mk.injEq, reduceCtorEq] at h
    obtain ⟨rfl, rfl⟩ := h
    cases hx : co.residents.get? m with
    | none => simpa [Coordinator.evictEnter, hx] using Section.evictGone (.inl rfl) hx
    | some x => simpa [Coordinator.evictEnter, hx] using Section.evictEnter (k := k) hx
  | draining m k =>
    simp only [advance, Option.map_eq_some_iff, Prod.mk.injEq] at h
    obtain ⟨timedOut, -, rfl, rfl⟩ := h
    exact section_of_evictDrain timedOut
  | evicting m e gen child k =>
    cases choice <;> simp only [advance, Option.some.injEq, Prod.mk.injEq, reduceCtorEq] at h
    obtain ⟨rfl, rfl⟩ := h
    exact .quiet .evictUnload
  | evicted m e gen k =>
    cases choice <;> simp only [advance, Option.some.injEq, Prod.mk.injEq, reduceCtorEq] at h
    obtain ⟨rfl, rfl⟩ := h
    exact .evicted
  | jobDrain j =>
    simp only [advance, Option.map_eq_some_iff, Prod.mk.injEq] at h
    obtain ⟨timedOut, -, rfl, rfl⟩ := h
    unfold drainServingSet
    split
    · exact .quiet .jobDrained
    · split
      · exact .quiet .jobTimedOut
      · exact .quiet .jobPass
  | jobClose j drained =>
    cases choice <;> simp only [advance, Option.some.injEq, Prod.mk.injEq, reduceCtorEq] at h
    obtain ⟨rfl, rfl⟩ := h
    unfold Coordinator.jobClose
    split
    · exact .jobFailed
    · rename_i hc
      simp only [Bool.or_eq_true, Bool.not_eq_true', not_or, Bool.not_eq_false] at hc
      obtain ⟨⟨rfl, hr⟩, hs⟩ := hc
      exact .jobTakes hr hs
  | served o => cases choice <;> simp [advance] at h
  | finished ok => cases choice <;> simp [advance] at h
  | raised => cases choice <;> simp [advance] at h

/-- A step of the system is a section of one operation. -/
theorem section_of_next {gpu : Gpu} {s s' : Sys} {a : Act} (h : next gpu s a = some s') :
    Section gpu a.1 s.shared (s.pc a.1) s'.shared (s'.pc a.1) ∧
      ∀ o, o ≠ a.1 → s'.pc o = s.pc o := by
  obtain ⟨op, choice⟩ := a
  obtain ⟨co', pc', ha, rfl⟩ := Interleaving.next_eq_some.mp h
  refine ⟨by simpa using section_of_advance ha, ?_⟩
  intro o ho
  exact Function.update_of_ne ho ..

end Coordinator

end MlopsLite.HostAgent
