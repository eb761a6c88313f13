import MlopsLite.HostAgent.Coordinator.Waiters

/-!
# Coordinator — joiners of a load

Every section keeps the joiners' invariants, so they hold in every run: no
joiner is orphaned and no claim is lost.
-/

namespace MlopsLite.HostAgent

namespace Coordinator

variable {gpu : Gpu} {op : OpId} {co co' : Coordinator} {pc pc' : Pc} {k k' : Desk}

/-! ## Every section -/

theorem registry_of_some {r : Reservation} (hr : co.reservations.get? op = some r) :
    co.registry op = r.waiters := by
  simp [registry, hr]

theorem plain_rollbackDisposition (m : ModelKey) (r : Reservation) (realBytes : Bytes) :
    (co.rollbackDisposition gpu m r realBytes).plain = true := by
  unfold rollbackDisposition
  split
  · rfl
  · split
    · rfl
    · split <;> rfl

theorem desk_disposed {d : Disposition} (hd : d.plain = true) :
    (Pc.served d.toOutcome).desk = .away := by
  cases d with
  | retry => rfl
  | outcome o =>
    cases o with
    | share c => cases hd
    | grant c => cases hd
    | refuse r => cases r <;> first | rfl | cases hd

theorem desk_dispose_plain {ws : List WaiterId} {d : Disposition} {b : Bool}
    (hd : d.plain = true) : (Pc.dispose ws d b).desk = .disposing ws d := by
  cases d with
  | retry => rfl
  | outcome o =>
    cases o with
    | share c => cases hd
    | grant c => cases hd
    | refuse r => rfl

/-- The load owner's last section, whichever way its load ended. -/
theorem serves_disposed {ws : List WaiterId} {d : Disposition} {b : Bool} (hr : Registry co)
    (hj : Joined op co (Pc.dispose ws d b).desk) :
    Serves op co (co.dispose ws d op) (Pc.served d.toOutcome).desk := by
  have plain (hk : (Pc.dispose ws d b).desk = .disposing ws d) :
      Serves op co (co.dispose ws d op) (Pc.served d.toOutcome).desk := by
    rw [hk] at hj
    rw [desk_disposed (hj.plain ws d rfl)]
    exact serves_dispose hr hj
  cases d with
  | retry => exact plain rfl
  | outcome o =>
    cases o with
    | share c => exact plain rfl
    | grant c => exact (sameDesk_dispose_granted hj).serves hr hj.return_claim
    | refuse r => exact plain rfl

theorem Quiet.desk (h : Quiet pc pc') (hj : Joined op co pc.desk) : Joined op co pc'.desk := by
  cases h with
  | refuse r =>
    cases r with
    | waiterDeadline => exact hj.time_out
    | exclusiveJob | deadlineExceeded | attemptsExhausted | needsTooMuch | noEvictableCapacity
    | reservationLost | jobClaimedGpu | loadRolledBack | measuredTooLarge | contentionDuringLoad
    | failedToLoad => exact hj
  | rollbackUnload | admitServing | callEvict | jobBusy | transient | transientWait | transientOver
  | evictUnload | jobDrained | jobTimedOut => exact hj
  | failedUnload => exact hj
  | jobPass => exact (Pc.desk_resume _ _).symm ▸ hj

theorem sameDesk_releaseClaim (co : Coordinator) (c : ClaimId) :
    SameDesk co (co.releaseClaim c) := by
  cases hc : co.claims.get? c with
  | none =>
    rw [releaseClaim_of_none hc]
    exact .of_eq rfl rfl rfl rfl rfl rfl
  | some claim =>
    cases hr : claim.released with
    | true =>
      rw [releaseClaim_of_released hc hr]
      exact .of_eq rfl rfl rfl rfl rfl rfl
    | false =>
      have hs := sansClaims_releaseClaim co c
      have hrest : (co.releaseClaim c).waiters = co.waiters ∧
          (co.releaseClaim c).nextClaim = co.nextClaim := by
        by_cases hx : (co.residents.get? claim.modelKey).isSome = true
        · simp [releaseClaim, hc, hr, hx, touch]
        · simp [releaseClaim, hc, hr, hx]
      refine ⟨fun w => by rw [hrest.1], ?_, ?_, ?_, (congrArg Coordinator.nextWaiter hs :), hrest.2⟩
      · intro c'
        rw [claims_releaseClaim hc hr, Dict.get?_modify]
        split
        · rw [Option.map_map]
          rfl
        · rfl
      · intro o
        rw [registry, reservations_releaseClaim, registry]
      · intro o
        have hp : (co.releaseClaim c).pendingDisposal = co.pendingDisposal :=
          (congrArg Coordinator.pendingDisposal hs :)
        rw [hp]

theorem sameDesk_reconcile (child : Child) (realBytes : Bytes) :
    SameDesk co { co.reconcile op child realBytes with loadGate := true } := by
  unfold Coordinator.reconcile
  split
  · refine ⟨fun _ => rfl, fun _ => rfl, fun o => ?_, fun _ => rfl, rfl, rfl⟩
    simp only [registry, Dict.get?_modify]
    split
    · rw [Option.map_map]
      rfl
    · rfl
  · exact .of_eq rfl rfl rfl rfl rfl rfl

/-- A joiner's own section: it takes what it was assigned. -/
theorem joined_served {w : WaiterId} {d : Disposition} {o : Outcome}
    (hj : Joined op co (.awaiting w)) (hd : (co.waiters.get? w).bind Waiter.disposition = some d)
    (ho : waiterOutcome d = .outcome o) : Joined op co (Pc.served o).desk := by
  obtain ⟨x, hx, hop⟩ := hj.awaits w rfl
  have hxd : x.disposition = some d := by simpa [hx] using hd
  cases d with
  | retry => cases ho
  | outcome o' =>
    cases o' with
    | share c =>
      obtain rfl : Outcome.share c = o := by simpa [waiterOutcome] using ho
      exact hj.take_claim hx hxd
    | grant c => exact absurd hxd (hj.noGrant w x c hx hop)
    | refuse r =>
      have hgo := hj.go_on hx hxd (by simp)
      cases r with
      | needsTooMuch | measuredTooLarge | failedToLoad =>
        obtain rfl := (by simpa [waiterOutcome, Refusal.code] using ho : _ = o)
        exact hgo
      | exclusiveJob | deadlineExceeded | attemptsExhausted | noEvictableCapacity | waiterDeadline
      | reservationLost | jobClaimedGpu | loadRolledBack | contentionDuringLoad =>
        simp [waiterOutcome, Refusal.code] at ho

theorem joined_retry {w : WaiterId} {d : Disposition} (hj : Joined op co (.awaiting w))
    (hd : (co.waiters.get? w).bind Waiter.disposition = some d)
    (ho : waiterOutcome d = .retry) : Joined op co .away := by
  obtain ⟨x, hx, -⟩ := hj.awaits w rfl
  refine hj.go_on hx (d := d) (by simpa [hx] using hd) ?_
  rintro c rfl
  cases ho

theorem reservationFor_some {m : ModelKey} {owner : OpId} (h : co.reservationFor m = some owner) :
    ∃ r, co.reservations.get? owner = some r := by
  obtain ⟨kv, hkv, rfl⟩ := Option.map_eq_some_iff.mp h
  exact ⟨kv.2, Dict.mem_items.mp (List.mem_of_find?_eq_some hkv)⟩

theorem Section.serves (h : Section gpu op co pc co' pc') (hr : Registry co)
    (hj : Joined op co pc.desk) (hc : Custody op co pc) : Serves op co co' pc'.desk := by
  have same (hs : SameDesk co co') (hk : pc'.desk = pc.desk) : Serves op co co' pc'.desk :=
    hk ▸ hs.serves hr hj
  cases h with
  | quiet hq => exact (SameDesk.of_eq rfl rfl rfl rfl rfl rfl).serves hr (hq.desk hj)
  | forget =>
    refine same ?_ rfl
    unfold Coordinator.forget
    split <;> exact .of_eq rfl rfl rfl rfl rfl rfl
  | release => exact same (sameDesk_releaseClaim _ _) rfl
  | endJob =>
    refine same ?_ rfl
    unfold Coordinator.endJob
    split <;> exact .of_eq rfl rfl rfl rfl rfl rfl
  | share _ _ _ => exact serves_grantClaim hr hj
  | join _ _ _ ho =>
    obtain ⟨r, hr'⟩ := reservationFor_some ho
    exact serves_join hr' hr hj
  | reserve _ _ _ _ _ =>
    refine same ⟨fun _ => rfl, fun _ => rfl, fun o => ?_, fun _ => rfl, rfl, rfl⟩ rfl
    by_cases ho : o = op
    · subst ho
      simp [registry, Coordinator.reserve, hc.unreserved rfl]
    · simp [registry, Coordinator.reserve, Dict.get?_insert_ne _ _ ho]
  | evictVictims _ _ _ _ => exact same (.of_eq rfl rfl rfl rfl rfl rfl) (Pc.desk_resume _ _)
  | waiterTimeout hd => exact serves_deregister hr hj hd
  | waiterServed hd ho =>
    have hs : SameDesk co { co with liveWaiters := co.liveWaiters.erase op } :=
      .of_eq rfl rfl rfl rfl rfl rfl
    exact hs.serves hr (joined_served hj hd ho)
  | waiterRetry hd ho =>
    have hs : SameDesk co { co with liveWaiters := co.liveWaiters.erase op } :=
      .of_eq rfl rfl rfl rfl rfl rfl
    exact hs.serves hr (joined_retry hj hd ho)
  | reconcile => exact same (sameDesk_reconcile _ _) rfl
  | reservationLost hr' =>
    obtain ⟨r, hget, -⟩ := hc.load _ _ rfl
    simp [hr'] at hget
  | rollBack hr' _ =>
    rw [← registry_of_some hr']
    exact serves_custody (plain_rollbackDisposition _ _ _) rfl rfl rfl rfl rfl rfl hr hj
  | keyError => exact same (.of_eq rfl rfl rfl rfl rfl rfl) rfl
  | commit hr' _ _ _ _ =>
    rw [← registry_of_some hr']
    exact serves_commitLoad hr hj
  | failedOwn hr' _ _ =>
    rw [Pc.desk_afterFailure, ← registry_of_some hr']
    exact serves_custody rfl rfl rfl rfl rfl rfl rfl hr hj
  | failedStale hw _ =>
    rw [Pc.desk_afterFailure, hw]
    exact serves_custody rfl rfl rfl rfl rfl rfl rfl hr hj
  | disposed => exact serves_disposed hr hj
  | disposedGate => exact (serves_disposed hr hj).same (.of_eq rfl rfl rfl rfl rfl rfl)
  | evictGone hpc _ =>
    refine same (.of_eq rfl rfl rfl rfl rfl rfl) ?_
    rcases hpc with rfl | rfl <;> exact Pc.desk_resume _ _
  | evictEnter hx =>
    refine same ?_ rfl
    simp only [Coordinator.evictEnter, hx]
    split <;> exact .of_eq rfl rfl rfl rfl rfl rfl
  | drainFailed _ _ =>
    refine same ?_ (Pc.desk_resume _ _)
    split <;> exact .of_eq rfl rfl rfl rfl rfl rfl
  | evicted => exact same (.of_eq rfl rfl rfl rfl rfl rfl) (Pc.desk_resume _ _)
  | rolledBack =>
    refine same (.of_eq rfl rfl rfl rfl rfl rfl) ?_
    exact desk_dispose_plain (hj.plain _ _ rfl)
  | raiseBarrier | intentOpen | clearIntent | acquireGate | loadRaised | loadUnmeasured | loaded
  | drained | drainWait | jobFailed | jobTakes => exact same (.of_eq rfl rfl rfl rfl rfl rfl) rfl

/-! ## Every run -/

theorem registry_init : Registry .init :=
  ⟨nofun, fun _ => List.nodup_nil, nofun, nofun, nofun, nofun, nofun, nofun⟩

theorem joined_init (u : OpId) : Joined u .init .away :=
  ⟨nofun, nofun, nofun, nofun, nofun, nofun, nofun, nofun, rfl, nofun, nofun, nofun⟩

theorem holds_joined {s : Sys} (h : Reachable gpu s) :
    Interleaving.Holds Registry (fun u co pc => Joined u co pc.desk) s := by
  refine Interleaving.threadwise (R := Handover) ?_ ?_ ?_ h
  · exact ⟨registry_init, joined_init⟩
  · intro s u choice co pc hr hs _ ha
    have hserves := (section_of_advance ha).serves hs.global (hs.thread u)
      ((holds_custody hr).thread u)
    exact ⟨hserves.registry, hserves.joined, hserves.handover⟩
  · intro u o co co' pc hr ho hj
    exact hj.stable hr ho

theorem serves_of_next {s s' : Sys} {a : Act} (h : Reachable gpu s)
    (hn : next gpu s a = some s') :
    Serves a.1 s.shared s'.shared (s'.pc a.1).desk := by
  have hs := holds_joined h
  exact (section_of_next hn).1.serves hs.global (hs.thread a.1) ((holds_custody h).thread a.1)

/-- A waiter stays in the table, under its operation, and once it has a
disposition it keeps it. -/
theorem waiter_kept {s s' : Sys} (h : Reachable gpu s)
    (h' : Runs.Reachable (next gpu) Runs.anyStep s s') {w : WaiterId} {x : Waiter}
    (hx : s.shared.waiters.get? w = some x) :
    ∃ x', s'.shared.waiters.get? w = some x' ∧ x'.opId = x.opId ∧
      (x.disposition ≠ none → x' = x) := by
  refine h'.invariant (I := fun s' => ∃ x', s'.shared.waiters.get? w = some x' ∧
    x'.opId = x.opId ∧ (x.disposition ≠ none → x' = x)) ⟨x, hx, rfl, fun _ => rfl⟩ ?_
  intro s₁ a s₂ hr hI _ hn
  obtain ⟨x₁, hx₁, hop₁, hfin₁⟩ := hI
  obtain ⟨x₂, hx₂, hop₂, hfin₂⟩ := (serves_of_next (h.trans hr) hn).handover.final w x₁ hx₁
  refine ⟨x₂, hx₂, hop₂.trans hop₁, ?_⟩
  intro hd
  obtain rfl := hfin₁ hd
  exact hfin₂ hd

/-- Where an undisposed waiter is: in the registry of a load in progress, or
in the custody of the owner of one that did not commit. -/
def InCustody (s : Sys) (w : WaiterId) : Prop :=
  (∃ o, w ∈ s.shared.registry o ∧ (s.pc o).load?.isSome = true) ∨
    ∃ o ws d, (s.pc o).desk = .disposing ws d ∧ s.shared.pendingDisposal.get? o = some ws ∧ w ∈ ws

/-- What joiners are promised in state `s`. -/
structure JoinerContract (gpu : Gpu) (s : Sys) : Prop where
  /-- Without a disposition its operation still waits for it, and so does the
  owner of its load. -/
  undisposed : ∀ w x, s.shared.waiters.get? w = some x → x.disposition = none →
    (s.pc x.opId).desk = .awaiting w ∧ InCustody s w
  /-- One disposition and no second one. -/
  final : ∀ w x s', s.shared.waiters.get? w = some x →
    Runs.Reachable (next gpu) Runs.anyStep s s' →
    ∃ x', s'.shared.waiters.get? w = some x' ∧ x'.opId = x.opId ∧
      (x.disposition ≠ none → x' = x)
  /-- The waiting operation can always wake up; it then has a disposition, and
  a claim it was assigned is what it returns. -/
  wakes : ∀ u w, (s.pc u).desk = .awaiting w → ∃ s' x', next gpu s (u, .go) = some s' ∧
    s'.shared.waiters.get? w = some x' ∧ x'.opId = u ∧ x'.disposition ≠ none ∧
    ∀ c, x'.disposition = some (.outcome (.share c)) → s'.pc u = .served (.share c)
  /-- The owner's last section leaves no joiner of it undisposed. -/
  disposed : ∀ a s' ws d b, s.pc a.1 = .dispose ws d b → next gpu s a = some s' →
    ∀ w ∈ ws, ∀ x, s'.shared.waiters.get? w = some x → x.disposition ≠ none
  /-- A claim a section mints for another operation is one for a joiner of it
  that was still waiting. -/
  minted : ∀ a s' c cl, next gpu s a = some s' → s.shared.claims.get? c = none →
    s'.shared.claims.get? c = some cl → cl.opId ≠ a.1 → ∃ w x x',
      s.shared.waiters.get? w = some x ∧ x.disposition = none ∧ x.opId = cl.opId ∧
      s'.shared.waiters.get? w = some x' ∧ x'.disposition = some (.outcome (.share c))
  /-- A joiner with a claim is about to return it or has. -/
  delivered : ∀ w x c, s.shared.waiters.get? w = some x →
    x.disposition = some (.outcome (.share c)) →
    (∃ cl, s.shared.claims.get? c = some cl ∧ cl.opId = x.opId) ∧
      ((s.pc x.opId).desk = .awaiting w ∨ s.pc x.opId = .served (.share c))
  /-- An operation is a joiner with a claim once. -/
  once : ∀ w w' x x' c c', s.shared.waiters.get? w = some x → s.shared.waiters.get? w' = some x' →
    x.opId = x'.opId → x.disposition = some (.outcome (.share c)) →
    x'.disposition = some (.outcome (.share c')) → w = w'
  /-- Every claim is in the hands of the operation it was minted for. -/
  held : ∀ c cl, s.shared.claims.get? c = some cl →
    (s.pc cl.opId).desk.claim? = some c ∨ ∃ w x, (s.pc cl.opId).desk = .awaiting w ∧
      s.shared.waiters.get? w = some x ∧ x.disposition = some (.outcome (.share c))
  /-- And no operation returns a claim minted for another. -/
  returned : ∀ u c, s.pc u = .served (.share c) →
    ∃ cl, s.shared.claims.get? c = some cl ∧ cl.opId = u
  /-- A joiner that timed out first has no claim. -/
  timedOut : ∀ w x, s.shared.waiters.get? w = some x →
    x.disposition = some (.outcome (.refuse .waiterDeadline)) →
    ∀ c cl, s.shared.claims.get? c = some cl → cl.opId ≠ x.opId

theorem inCustody_of_undisposed {s : Sys} (h : Reachable gpu s) {w : WaiterId} {x : Waiter}
    (hx : s.shared.waiters.get? w = some x) (hd : x.disposition = none) : InCustody s w := by
  have hs := holds_joined h
  rcases hs.global.custody w x hx hd with ⟨o, hw⟩ | ⟨o, ws, hp, hw⟩
  · refine .inl ⟨o, hw, ?_⟩
    -- only a load in progress has a reservation
    by_contra hload
    have hnone := ((holds_custody h).thread o).unreserved (Option.not_isSome_iff_eq_none.mp hload)
    simp [registry, hnone] at hw
  · have hdesk := (hs.thread o).pending.symm.trans hp
    cases hk : (s.pc o).desk with
    | disposing ws' d =>
      obtain rfl : ws' = ws := by simpa [hk, Desk.custody?] using hdesk
      exact .inr ⟨o, ws', d, hk, hp, hw⟩
    | away | awaiting | granted | shared | owns | timedOut => simp [hk, Desk.custody?] at hdesk

theorem wakes_up {s : Sys} (h : Reachable gpu s) {u : OpId} {w : WaiterId}
    (hk : (s.pc u).desk = .awaiting w) : ∃ s' x', next gpu s (u, .go) = some s' ∧
      s'.shared.waiters.get? w = some x' ∧ x'.opId = u ∧ x'.disposition ≠ none ∧
      ∀ c, x'.disposition = some (.outcome (.share c)) → s'.pc u = .served (.share c) := by
  obtain ⟨m, est, n, hpc⟩ := Pc.awaitLoad_of_desk hk
  have hjoined := (holds_joined h).thread u
  obtain ⟨x, hx, hop⟩ := hjoined.awaits w hk
  cases hd : x.disposition with
  | none =>
    refine ⟨_, { x with disposition := some (.outcome (.refuse .waiterDeadline)) },
      Interleaving.next_eq_some.mpr ⟨_, _, by rw [hpc]; rfl, rfl⟩, ?_, hop, by simp, by simp⟩
    simp [awaitLoad, deregister, hx, hd]
  | some d =>
    refine ⟨_, x, Interleaving.next_eq_some.mpr ⟨_, _, by rw [hpc]; rfl, rfl⟩, ?_, hop,
      by simp [hd], ?_⟩
    · simp [awaitLoad, hx, hd]
    · intro c hc
      obtain rfl : d = .outcome (.share c) := Option.some.inj (hd.symm.trans hc)
      simp [awaitLoad, hx, hd, waiterOutcome]

theorem dispose_disposes (op : OpId) {ws : List WaiterId} {d : Disposition} {w : WaiterId}
    {x : Waiter} (hw : w ∈ ws) (hx : (co.dispose ws d op).waiters.get? w = some x) : x.disposition ≠ none := by
  rw [dispose, get?_foldl_assign, if_pos hw] at hx
  obtain ⟨y, -, rfl⟩ := Option.map_eq_some_iff.mp hx
  cases hd : y.disposition with
  | none => simp [Waiter.given_of_none hd]
  | some d' => simp [Waiter.given_of_some (d := d) (x := y) (by simp [hd]), hd]

/-- In every run joiners are neither orphaned nor leak a claim. -/
theorem joiners_settled {s : Sys} (h : Reachable gpu s) : JoinerContract gpu s := by
  have hs := holds_joined h
  refine ⟨?_, ?_, ?_, ?_, ?_, ?_, ?_, ?_, ?_, ?_⟩
  · intro w x hx hd
    exact ⟨(hs.thread x.opId).waiting w x hx rfl hd, inCustody_of_undisposed h hx hd⟩
  · intro w x s' hx h'
    exact waiter_kept h h' hx
  · intro u w hk
    exact wakes_up h hk
  · intro a s' ws d b hpc hn w hw x hx
    obtain ⟨u, choice⟩ := a
    obtain ⟨co', pc', ha, rfl⟩ := Interleaving.next_eq_some.mp hn
    rw [show s.pc u = .dispose ws d b from hpc] at ha
    cases choice <;> simp only [advance, Option.some.injEq, Prod.mk.injEq, reduceCtorEq] at ha
    obtain ⟨rfl, rfl⟩ := ha
    cases b <;> exact dispose_disposes u hw hx
  · intro a s' c cl hn hnone hc hne
    exact (serves_of_next h hn).handover.minted c cl hnone hc hne
  · intro w x c hx hd
    refine ⟨(hs.thread x.opId).sharedClaim w x c hx rfl hd, ?_⟩
    rcases (hs.thread x.opId).shared w x c hx rfl hd with hk | hk
    · exact .inl hk
    · exact .inr (Pc.served_of_desk hk)
  · intro w w' x x' c c' hx hx' hop hd hd'
    have hj := hs.thread x.opId
    rcases hj.shared w x c hx rfl hd with hk | hk
    · rcases hj.shared w' x' c' hx' hop.symm hd' with hk' | hk'
      · exact Desk.awaiting.inj (hk.symm.trans hk')
      · cases hk.symm.trans hk'
    · exact hj.once c hk w w' x x' c c' hx rfl hd hx' hop.symm hd'
  · intro c cl hc
    exact (hs.thread cl.opId).claimed c cl hc rfl
  · intro u c hpc
    exact (hs.thread u).held c (by rw [hpc]; rfl)
  · intro w x hx hd c cl hc hop
    have hj := hs.thread x.opId
    have hk := hj.timedOut w x hx rfl hd
    rcases hj.claimed c cl hc hop with hk' | ⟨w', x', hk', -⟩
    · simp [hk, Desk.claim?] at hk'
    · cases hk.symm.trans hk'

/-- Two requests join a load; one times out, the other finds its claim after
the commit. -/
def joinedLoad : List Act :=
  [(0, .start (.admitServing "a" (5 : ℕ))), (0, .freeBytes 10 10), (1, .start (.admitServing "a" (5 : ℕ))),
   (1, .freeBytes 10 10), (2, .start (.admitServing "a" (5 : ℕ))), (2, .freeBytes 10 10), (2, .go),
   (0, .go), (0, .loadReturned (some 1) (some (5 : ℕ))), (0, .go), (0, .go)]

theorem joinedLoad_settled : ∃ s : Sys, Reachable (.ofTotal 10) s ∧
    (s.pc 1).desk = .awaiting 0 ∧ s.pc 2 = .served (.refuse .waiterDeadline) ∧
    JoinerContract (.ofTotal 10) s := by
  have hrun : (Runs.run (next (.ofTotal 10)) Runs.anyStep Sys.init joinedLoad).map
      (fun s => decide ((s.pc 1).desk = .awaiting 0 ∧
        s.pc 2 = .served (.refuse .waiterDeadline))) = some true := by
    decide +kernel
  obtain ⟨s, hs, hp⟩ := Runs.exists_reachable hrun
  obtain ⟨h1, h2⟩ := of_decide_eq_true hp
  exact ⟨s, hs, h1, h2, joiners_settled hs⟩

end Coordinator

end MlopsLite.HostAgent
