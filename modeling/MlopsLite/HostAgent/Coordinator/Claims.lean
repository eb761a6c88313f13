import MlopsLite.HostAgent.Coordinator.Entries
import MlopsLite.HostAgent.Coordinator.Joiners
import MlopsLite.HostAgent.Coordinator.Cleanup

/-!
# Coordinator — the claims on an entry

An entry counts its requests in flight; a claim keeps the model it was
minted for, and its release goes through that name. The count is the number
of unreleased claims on the entry as long as a release finds the entry it
was minted on, a commit finds its entry still `loading`, and a finalize
finds its own.
-/

namespace MlopsLite.HostAgent

/-- The entry an operation loads or takes down. -/
def Pc.subject? : Pc → Option EntryId
  | .gate _ _ e | .load _ _ e | .reconcile _ e _ _ | .commit _ e _ _ | .loadFailed _ e _
  | .rollback _ e _ _ _ _ | .rolledBack _ e _ _ _ | .failedUnload _ e _ _ | .evicting _ e _ _ _
  | .evicted _ e _ _ => some e
  | _ => none

/-- The entry an operation takes down. -/
def Pc.departing? : Pc → Option EntryId
  | .rollback _ e _ _ _ _ | .rolledBack _ e _ _ _ | .failedUnload _ e _ _ | .evicting _ e _ _ _
  | .evicted _ e _ _ => some e
  | _ => none

@[simp] theorem Pc.subject?_resume (k : Caller) (ok : Bool) : (k.resume ok).subject? = none := by
  cases k with
  | direct => rfl
  | victims m est n rest => cases rest <;> rfl
  | drain j rest => cases rest <;> rfl

theorem Pc.subject?_of_departing {pc : Pc} {e : EntryId} (h : pc.departing? = some e) :
    pc.subject? = some e := by
  unfold Pc.departing? at h
  split at h <;> simp_all [Pc.subject?]

theorem Pc.subject?_cases {pc : Pc} {e : EntryId} (h : pc.subject? = some e) :
    pc.departing? = some e ∨ ∃ m, pc.load? = some (m, e) := by
  unfold Pc.subject? at h
  split at h <;> simp_all [Pc.departing?, Pc.load?]

theorem Pc.subject?_of_unloads {pc : Pc} {e : EntryId} {child : Option Child}
    (h : pc.unloads? = some (e, child)) : pc.subject? = some e := by
  unfold Pc.unloads? at h
  split at h <;> simp_all [Pc.subject?]

theorem Pc.subject?_afterFailure {m : ModelKey} {e e' : EntryId} {ws : List WaiterId}
    {child : Option Child} (h : (Pc.afterFailure m e ws child).subject? = some e') : e' = e := by
  cases child with
  | none => cases h
  | some c => exact (Option.some.inj h).symm

/-- The sections that write a count. -/
def Pc.counts : Pc → Pc → Prop
  | .idle, _ | .attempt .., .served (.share _) | .commit .., .dispose .. => True
  | _, _ => False

/-- Not yet served, or no longer, and without a request in flight. -/
def ResidentModel.unserved (x : ResidentModel) : Prop :=
  (x.state = .loading ∨ x.state = .evicting ∨ x.state = .rollingBack) ∧ x.activeRequests = 0

/-- On its way out without a request in flight. -/
def ResidentModel.sealed (x : ResidentModel) : Prop :=
  (x.state = .evicting ∨ x.state = .rollingBack) ∧ x.activeRequests = 0

theorem ResidentModel.sealed.unserved {x : ResidentModel} (h : x.sealed) : x.unserved :=
  ⟨.inr h.1, h.2⟩

/-- A claim counts for its entry until it is released. -/
def Claim.liveOn (e : EntryId) (c : Claim) : Nat :=
  if c.entry = e ∧ c.released = false then 1 else 0

namespace Coordinator

variable {gpu : Gpu} {op : OpId} {co co' : Coordinator} {pc pc' : Pc} {m : ModelKey} {e : EntryId}
  {x x' : ResidentModel}

/-! ## Counting claims -/

/-- The number of claims minted on entry `e` and not yet released. -/
def liveClaims (co : Coordinator) (e : EntryId) : Nat := co.claims.total fun _ c => c.liveOn e

theorem liveClaims_eq_zero : co.liveClaims e = 0 ↔
    ∀ c cl, co.claims.get? c = some cl → cl.entry = e → cl.released = true := by
  rw [liveClaims, Dict.total_eq_zero]
  constructor
  · intro h c cl hc he
    simpa [Claim.liveOn, he] using h c cl hc
  · intro h c cl hc
    have hrel := h c cl hc
    simpa [Claim.liveOn] using hrel

theorem liveClaims_congr (h : co'.claims = co.claims) : co'.liveClaims e = co.liveClaims e := by
  rw [liveClaims, h, liveClaims]

/-- Every claim has an id that was given out. -/
def OldClaims (co : Coordinator) : Prop := ∀ c cl, co.claims.get? c = some cl → c < co.nextClaim

theorem OldClaims.next (h : OldClaims co) : co.claims.get? co.nextClaim = none := by
  cases hc : co.claims.get? co.nextClaim with
  | none => rfl
  | some cl => exact absurd (h _ cl hc) (Nat.lt_irrefl _)

theorem claims_grantClaim_on (hx : (co.residents.get? m).map ResidentModel.eid = some e) :
    (co.grantClaim m op).claims = co.claims.insert co.nextClaim
      { modelKey := m, opId := op, released := false, entry := e } := by
  simp [grantClaim, hx]

theorem OldClaims.grantClaim (h : OldClaims co) (m : ModelKey) (op : OpId) :
    OldClaims (co.grantClaim m op) := by
  obtain ⟨cl₀, -, hcl⟩ := claims_grantClaim co m op
  intro c cl hc
  show c < co.nextClaim + 1
  rw [hcl, Dict.get?_insert] at hc
  split at hc
  · exact ‹c = co.nextClaim› ▸ Nat.lt_succ_self _
  · exact Nat.lt_succ_of_lt (h c cl hc)

theorem liveClaims_grantClaim {i : EntryId} (h : OldClaims co)
    (hx : (co.residents.get? m).map ResidentModel.eid = some i) :
    (co.grantClaim m op).liveClaims e = co.liveClaims e + if i = e then 1 else 0 := by
  rw [liveClaims, claims_grantClaim_on hx, Dict.total_insert _ _ h.next, liveClaims]
  simp [Claim.liveOn]

theorem liveClaims_releaseClaim {c : ClaimId} {cl : Claim} (hc : co.claims.get? c = some cl)
    (hr : cl.released = false) :
    co.liveClaims e = (co.releaseClaim c).liveClaims e + if cl.entry = e then 1 else 0 := by
  rw [liveClaims, liveClaims, claims_releaseClaim hc hr, Dict.total_modify _ _ hc,
    Dict.total_split _ hc]
  simp [Claim.liveOn, hr, Nat.add_comm]

/-- Claims for `ws` on the entry of `m`. -/
theorem liveClaims_grantAll (m : ModelKey) (ws : List WaiterId) {i : EntryId} (co : Coordinator)
    (h : OldClaims co) (hx : (co.residents.get? m).map ResidentModel.eid = some i) :
    (ws.foldl (grantWaiter m) co).liveClaims e =
      co.liveClaims e + if i = e then ws.countP fun w => (co.waiters.get? w).isSome else 0 := by
  induction ws generalizing co with
  | nil => simp
  | cons w ws ih =>
    rw [List.foldl_cons]
    cases hw : co.waiters.get? w with
    | none =>
      have hsame : grantWaiter m co w = co := by simp [grantWaiter, hw]
      rw [hsame, ih co h hx]
      simp [hw]
    | some y =>
      have hclaims : (grantWaiter m co w).claims = (co.grantClaim m y.opId).claims := by
        simp [grantWaiter, hw]
      have hres : (grantWaiter m co w).residents = (co.grantClaim m y.opId).residents := by
        simp [grantWaiter, hw]
      have hnext : (grantWaiter m co w).nextClaim = (co.grantClaim m y.opId).nextClaim := by
        simp [grantWaiter, hw]
      have hold : OldClaims (grantWaiter m co w) := by
        intro c cl hc
        rw [hnext]
        exact h.grantClaim m y.opId c cl (hclaims ▸ hc)
      have hx' : ((grantWaiter m co w).residents.get? m).map ResidentModel.eid = some i := by
        rw [hres, residents_grantClaim, Dict.get?_modify_self, Option.map_map]
        exact hx
      rw [ih _ hold hx', liveClaims_congr hclaims, liveClaims_grantClaim h hx]
      simp only [isSome_waiters_grantWaiter]
      split
      · simp [hw]
        omega
      · rfl

theorem liveClaims_commitLoad {child : Child} {realBytes : Bytes} {ws : List WaiterId}
    (h : OldClaims co) (hx : co.residents.get? m = some x) :
    (co.commitLoad m op child realBytes ws).liveClaims e = co.liveClaims e +
      if x.eid = e then 1 + ws.countP fun w => (co.waiters.get? w).isSome else 0 := by
  have hx₀ : (((co.settle m child realBytes).touch m).residents.get? m).map ResidentModel.eid =
      some x.eid := by
    simp [settle, touch, hx]
  have hold : OldClaims ((co.settle m child realBytes).touch m) := h
  have hx₁ : ((((co.settle m child realBytes).touch m).grantClaim m op).residents.get? m).map
      ResidentModel.eid = some x.eid := by
    rw [residents_grantClaim, Dict.get?_modify_self, Option.map_map]
    exact hx₀
  have hall := liveClaims_grantAll (e := e) m ws _ (hold.grantClaim m op) hx₁
  rw [liveClaims_grantClaim hold hx₀] at hall
  have hfirst : ((co.settle m child realBytes).touch m).liveClaims e = co.liveClaims e := rfl
  have hwaiters : (((co.settle m child realBytes).touch m).grantClaim m op).waiters = co.waiters :=
    rfl
  have hlast : (co.commitLoad m op child realBytes ws).liveClaims e =
      (ws.foldl (grantWaiter m)
        (((co.settle m child realBytes).touch m).grantClaim m op)).liveClaims e := rfl
  rw [hlast, hall, hfirst, hwaiters]
  split <;> omega

/-! ## What a section does to the claims -/

inductive ClaimStep (gpu : Gpu) (op : OpId) (co : Coordinator) :
    Choice → Pc → Coordinator → Prop
  /-- Nothing, neither to the claims nor to a count. -/
  | plain {choice : Choice} {p : Pc} {c' : Coordinator} (hc : c'.claims = co.claims)
      (ha : ∀ m x x', co.residents.get? m = some x → c'.residents.get? m = some x' →
        x'.activeRequests = x.activeRequests) : ClaimStep gpu op co choice p c'
  | share {choice : Choice} {m : ModelKey} {est : Bytes} {n : Nat} {x : ResidentModel}
      (hx : co.residents.get? m = some x) (hs : x.state = .resident) :
      ClaimStep gpu op co choice (.attempt m est n) (co.grantClaim m op)
  | release {c : ClaimId} {cl : Claim} (hc : co.claims.get? c = some cl)
      (hr : cl.released = false) :
      ClaimStep gpu op co (.start (.release c)) .idle (co.releaseClaim c)
  | commit {choice : Choice} {m : ModelKey} {e : EntryId} {child : Child} {realBytes : Bytes}
      {r : Reservation} {x : ResidentModel} (hr : co.reservations.get? op = some r)
      (hb : co.barred = false) (hg : co.generation m = r.generation)
      (hd : co.drift gpu m op realBytes = false) (hx : co.residents.get? m = some x) :
      ClaimStep gpu op co choice (.commit m e child realBytes)
        (co.commitLoad m op child realBytes r.waiters)

theorem ClaimStep.of_eq {choice : Choice} (hr : co'.residents = co.residents)
    (hc : co'.claims = co.claims) : ClaimStep gpu op co choice pc co' := by
  refine .plain hc ?_
  intro m x x' hx hx'
  rw [hr, hx] at hx'
  rw [Option.some.inj hx']

theorem claims_of_enter (call : Call) :
    ClaimStep gpu op co (.start call) .idle (co.enter call).1 := by
  cases call with
  | admitServing | evict => exact .of_eq rfl rfl
  | forget m =>
    refine .plain ?_ ?_
    · simp only [enter, Coordinator.forget]
      split <;> rfl
    · intro m' x x' hx hx'
      simp only [enter, Coordinator.forget] at hx'
      split at hx'
      · simp only [dropEntry, Dict.get?_erase] at hx'
        split at hx'
        · cases hx'
        · rw [Option.some.inj (hx.symm.trans hx')]
      · rw [Option.some.inj (hx.symm.trans hx')]
  | release c =>
    show ClaimStep gpu op co (.start (.release c)) .idle (co.releaseClaim c)
    cases hc : co.claims.get? c with
    | none =>
      rw [releaseClaim_of_none hc]
      exact .of_eq rfl rfl
    | some cl =>
      cases hr : cl.released with
      | true =>
        rw [releaseClaim_of_released hc hr]
        exact .of_eq rfl rfl
      | false => exact .release hc hr
  | admitJob j =>
    simp only [enter, jobEnter]
    split
    · exact .of_eq rfl rfl
    · refine .plain rfl ?_
      intro m x x' hx hx'
      rw [residents_raiseBarrier, Dict.get?_map, hx, Option.map_some] at hx'
      rw [← Option.some.inj hx']
      split <;> rfl
  | endJob j =>
    simp only [enter, Coordinator.endJob]
    split <;> exact .of_eq rfl rfl

theorem Touch.active (h : Touch gpu op co m x pc pc' (some x')) :
    x'.activeRequests = x.activeRequests ∨ pc.counts pc' := by
  cases h with
  | keep | mark | unmark | rollBack | drained | revert => exact .inl rfl
  | share | release | commit => exact .inr trivial

theorem Section.claims {choice : Choice} (h : Section gpu op co pc co' pc') (hp : pc ≠ .idle) :
    ClaimStep gpu op co choice pc co' := by
  have touched : ∀ {m x x'}, co.residents.get? m = some x → co'.residents.get? m = some x' →
      x'.activeRequests = x.activeRequests ∨ pc.counts pc' := by
    intro m x x' hx hx'
    exact Touch.active (hx' ▸ h.touch hx)
  cases h with
  | forget | release | raiseBarrier | endJob => exact absurd rfl hp
  | share _ hx hs => exact .share hx hs
  | reconcile =>
    unfold Coordinator.reconcile
    split <;> exact .of_eq rfl rfl
  | commit hr hb hg hd hx => exact .commit hr hb hg hd hx
  | evictVictims _ _ _ _ =>
    refine .plain rfl ?_
    intro m x x' hx hx'
    rw [residents_evictVictims, Dict.get?_map, hx, Option.map_some] at hx'
    rw [← Option.some.inj hx']
    split <;> rfl
  | evictEnter hx =>
    refine .plain ?_ fun m x x' hx hx' => (touched hx hx').resolve_right id
    simp only [Coordinator.evictEnter, hx]
    split <;> rfl
  | drainFailed _ _ =>
    refine .plain ?_ fun m x x' hx hx' => (touched hx hx').resolve_right id
    split <;> rfl
  | reserve | rollBack | rolledBack | failedOwn | drained | evicted | jobFailed =>
    exact .plain rfl fun m x x' hx hx' => (touched hx hx').resolve_right id
  | quiet | join | intentOpen | waiterTimeout | waiterServed | waiterRetry | clearIntent
  | acquireGate | loadRaised | loadUnmeasured | loaded | reservationLost | keyError
  | failedStale | disposed | disposedGate | evictGone | drainWait | jobTakes => exact .of_eq rfl rfl

theorem claims_of_advance {choice : Choice} (h : advance gpu op choice co pc = some (co', pc')) :
    ClaimStep gpu op co choice pc co' := by
  by_cases hp : pc = .idle
  · subst hp
    cases choice <;> simp only [advance, Option.some.injEq, reduceCtorEq] at h
    rename_i call
    have hstep : ClaimStep gpu op co (.start call) .idle (co.enter call).1 := claims_of_enter call
    rwa [h] at hstep
  · exact (section_of_advance h).claims hp

/-! ## The side condition -/

/-- A release finds no entry under its model, the one its claim was minted
on, or one without a request; a commit finds its entry still `loading`; the
finalize of an `evict` or a rollback finds no entry or its own. -/
def KeepsClaims (gpu : Gpu) (s : Sys) (a : Act) : Prop :=
  match s.pc a.1, a.2 with
  | .idle, .start (.release c) => ∀ cl ∈ s.shared.claims.get? c, cl.released = false →
      ∀ x ∈ s.shared.residents.get? cl.modelKey, x.eid = cl.entry ∨ x.activeRequests = 0
  | .commit m _ _ realBytes, _ => s.shared.barred = false →
      s.shared.drift gpu m a.1 realBytes = false → ∀ r ∈ s.shared.reservations.get? a.1,
      s.shared.generation m = r.generation → ∀ x ∈ s.shared.residents.get? m, x.state = .loading
  | .evicted m _ g _, _ | .rolledBack m _ g _ _, _ =>
      s.shared.residents.get? m = none ∨ s.shared.generation m = g
  | _, _ => True

instance (gpu : Gpu) (s : Sys) (a : Act) : Decidable (KeepsClaims gpu s a) := by
  unfold KeepsClaims
  exact Interleaving.pointwise (s.pc a.1) a.2 fun pc c => by split <;> infer_instance

/-! ## The invariants -/

structure Counts (co : Coordinator) : Prop where
  slots : co.slots.WellFormed
  count : ∀ m x, co.residents.get? m = some x → x.activeRequests = co.liveClaims x.eid
  token : ∀ c cl, co.claims.get? c = some cl → ∃ g, co.slots.Token cl.modelKey cl.entry g
  /-- An entry whose load still has its reservation serves no one. -/
  loading : ∀ o r x, co.reservations.get? o = some r → co.generation r.modelKey = r.generation →
    co.residents.get? r.modelKey = some x → x.unserved
  unique : ∀ o o' r r', co.reservations.get? o = some r → co.reservations.get? o' = some r' →
    r.modelKey = r'.modelKey → co.generation r.modelKey = r.generation →
    co.generation r'.modelKey = r'.generation → o = o'

/-- What an operation may rely on: no claim is live on the entry it loads or
takes down. -/
structure Unclaimed (co : Coordinator) (pc : Pc) : Prop where
  old : ∀ e, pc.subject? = some e → e < co.nextEntry
  unclaimed : ∀ e, pc.subject? = some e → co.liveClaims e = 0
  leaving : ∀ e m x, pc.departing? = some e → co.residents.get? m = some x → x.eid = e → x.sealed

/-- What a section leaves to the other operations. -/
structure Considerate (op : OpId) (co co' : Coordinator) : Prop where
  rely : Rely op co co'
  counts : Counts co
  minted : ∀ e, co.liveClaims e < co'.liveClaims e → ∃ m x, co.residents.get? m = some x ∧
    x.eid = e ∧ (x.state = .resident ∨ x.state = .loading ∧ ∃ r,
      co.reservations.get? op = some r ∧ r.modelKey = m ∧ co.generation m = r.generation)
  leaving : ∀ m x x', co.residents.get? m = some x → co'.residents.get? m = some x' → x.sealed →
    x'.sealed

theorem Unclaimed.stable {u : OpId} (h : Unclaimed co pc) (hc : Custody u co pc)
    (hr : Considerate op co co') (hu : u ≠ op) : Unclaimed co' pc := by
  refine ⟨?_, ?_, ?_⟩
  · intro e hp
    exact Nat.lt_of_lt_of_le (h.old e hp) hr.rely.slots.fresh_le
  · intro e hp
    by_contra hlive
    have hmore : co.liveClaims e < co'.liveClaims e := by
      rw [h.unclaimed e hp]
      exact Nat.pos_of_ne_zero hlive
    obtain ⟨m, x, hx, he, hs⟩ := hr.minted e hmore
    rcases Pc.subject?_cases hp with hd | ⟨m', hl⟩
    · obtain ⟨hsealed, -⟩ := h.leaving e m x hd hx he
      rcases hs with hs | ⟨hs, -⟩ <;> simp [hs] at hsealed
    · obtain ⟨r', hget, hm', ht⟩ := hc.load m' e hl
      have hcur : co.slots.cur m = some e := by simp [slots, hx, he]
      obtain rfl := ht.home m hcur
      subst hm'
      have hgen : co.generation r'.modelKey = r'.generation := ht.current.mp hcur
      rcases hs with hs | ⟨-, r, hr', hm, hg⟩
      · obtain ⟨hun, -⟩ := hr.counts.loading u r' x hget hgen hx
        simp [hs] at hun
      · exact hu (hr.counts.unique u op r' r hget hr' hm.symm hgen (hm ▸ hg))
  · intro e m x' hd hx' he
    have hcur' : co'.slots.cur m = some e := by simp [slots, hx', he]
    have hcur := hr.rely.slots.back hcur' (h.old e (Pc.subject?_of_departing hd))
    obtain ⟨x, hx, hxe⟩ := Option.map_eq_some_iff.mp hcur
    exact hr.leaving m x x' hx hx' (h.leaving e m x hd hx hxe)

/-! ## One section -/

/-- What the side condition gives for a section. -/
structure Minds (gpu : Gpu) (op : OpId) (co : Coordinator) (choice : Choice) (pc : Pc) : Prop where
  release : ∀ c cl x, choice = .start (.release c) → pc = .idle →
    co.claims.get? c = some cl → cl.released = false →
    co.residents.get? cl.modelKey = some x → x.eid = cl.entry ∨ x.activeRequests = 0
  commit : ∀ m e child realBytes r x, pc = .commit m e child realBytes → co.barred = false →
    co.drift gpu m op realBytes = false → co.reservations.get? op = some r →
    co.generation m = r.generation → co.residents.get? m = some x → x.state = .loading
  finalize : ∀ m e g, (∃ k, pc = .evicted m e g k) ∨ (∃ ws d, pc = .rolledBack m e g ws d) →
    co.residents.get? m = none ∨ co.generation m = g

theorem KeepsClaims.minds {s : Sys} {choice : Choice} (h : KeepsClaims gpu s (op, choice)) :
    Minds gpu op s.shared choice (s.pc op) := by
  refine ⟨?_, ?_, ?_⟩
  · rintro c cl x rfl hp hc hr hx
    simp only [KeepsClaims, hp] at h
    exact h cl hc hr x hx
  · intro m e child realBytes r x hp hb hd hr hg hx
    simp only [KeepsClaims, hp] at h
    exact h hb hd r hr hg x hx
  · rintro m e g (⟨k, hp⟩ | ⟨ws, d, hp⟩)
    · simpa only [KeepsClaims, hp] using h
    · simpa only [KeepsClaims, hp] using h

/-- A reservation is as it was, its registry and size apart, or new. -/
theorem Section.reservation_source (hsec : Section gpu op co pc co' pc') {o : OpId}
    {r' : Reservation} (hr' : co'.reservations.get? o = some r') :
    (∃ r, co.reservations.get? o = some r ∧ r.modelKey = r'.modelKey ∧
      r.generation = r'.generation) ∨
    o = op ∧ ∃ est, co.residents.get? r'.modelKey = none ∧ co' = co.reserve r'.modelKey est op ∧
      r'.generation = co.generation r'.modelKey := by
  have kept (h : (co'.reservations.get? o).map (fun r => (r.modelKey, r.generation)) =
      (co.reservations.get? o).map fun r => (r.modelKey, r.generation)) :
      ∃ r, co.reservations.get? o = some r ∧ r.modelKey = r'.modelKey ∧
        r.generation = r'.generation := by
    rw [hr'] at h
    obtain ⟨r, hr, heq⟩ := Option.map_eq_some_iff.mp h.symm
    exact ⟨r, hr, (Prod.mk.inj heq).1, (Prod.mk.inj heq).2⟩
  by_cases ho : o = op
  · subst ho
    cases hsec with
    | forget =>
      unfold Coordinator.forget at kept
      split at kept <;> exact .inl (kept rfl)
    | release => exact .inl (kept (by rw [reservations_releaseClaim]))
    | endJob =>
      unfold Coordinator.endJob at kept
      split at kept <;> exact .inl (kept rfl)
    | join _ _ _ _ =>
      refine .inl (kept ?_)
      simp only [Coordinator.join, Dict.get?_modify]
      split
      · rw [Option.map_map]
        rfl
      · rfl
    | reserve _ hx _ _ _ =>
      simp only [Coordinator.reserve, Dict.get?_insert_self, Option.some.injEq] at hr'
      subst hr'
      exact .inr ⟨rfl, _, hx, rfl, rfl⟩
    | waiterTimeout _ =>
      refine .inl (kept ?_)
      rw [Coordinator.deregister, Dict.get?_map, Option.map_map]
      rfl
    | reconcile =>
      refine .inl (kept ?_)
      unfold Coordinator.reconcile
      split
      · simp [Option.map_map, Function.comp_def]
      · rfl
    | rollBack _ _ => simp [Coordinator.takeCustody] at hr'
    | commit _ _ _ _ _ => simp [reservations_commitLoad] at hr'
    | failedOwn _ _ _ => simp [Coordinator.takeCustody, dropEntry] at hr'
    | failedStale _ _ => simp [Coordinator.takeCustody] at hr'
    | evictEnter hx =>
      simp only [Coordinator.evictEnter, hx] at kept
      split at kept <;> exact .inl (kept rfl)
    | drainFailed _ _ => split at kept <;> exact .inl (kept rfl)
    | quiet | raiseBarrier | share | intentOpen | evictVictims | waiterServed | waiterRetry
    | clearIntent | acquireGate | loadRaised | loadUnmeasured | loaded | reservationLost | keyError
    | rolledBack | disposed | disposedGate | evictGone | drained | drainWait | evicted | jobFailed
    | jobTakes => exact .inl (kept rfl)
  · have hothers := hsec.others_reservation ho
    rw [hr'] at hothers
    obtain ⟨r, hr, heq⟩ := Option.map_eq_some_iff.mp hothers.symm
    exact .inl ⟨r, hr, (congrArg Reservation.modelKey heq :), (congrArg Reservation.generation heq :)⟩

theorem Custody.present {o : OpId} (h : Custody o co pc) {r : Reservation}
    (hr : co.reservations.get? o = some r) (hg : co.generation r.modelKey = r.generation) :
    ∃ x, co.residents.get? r.modelKey = some x := by
  cases hl : pc.load? with
  | none => simp [h.unreserved hl] at hr
  | some me =>
    obtain ⟨m, e⟩ := me
    obtain ⟨r', hr', rfl, ht⟩ := h.load m e hl
    obtain rfl := Option.some.inj (hr.symm.trans hr')
    obtain ⟨x, hx, -⟩ := Option.map_eq_some_iff.mp (ht.current.mpr hg)
    exact ⟨x, hx⟩

theorem Custody.generation_le {o : OpId} (h : Custody o co pc) {r : Reservation}
    (hr : co.reservations.get? o = some r) : r.generation ≤ co.generation r.modelKey := by
  cases hl : pc.load? with
  | none => simp [h.unreserved hl] at hr
  | some me =>
    obtain ⟨m, e⟩ := me
    obtain ⟨r', hr', rfl, ht⟩ := h.load m e hl
    obtain rfl := Option.some.inj (hr.symm.trans hr')
    exact ht.le

theorem Counts.fresh (h : Counts co) : co.liveClaims co.nextEntry = 0 := by
  rw [liveClaims_eq_zero]
  intro c cl hc he
  obtain ⟨g, ht⟩ := h.token c cl hc
  exact absurd he (Nat.ne_of_lt ht.old)

theorem claims_grantAll (m : ModelKey) (ws : List WaiterId) {i : EntryId} (co : Coordinator)
    (hx : (co.residents.get? m).map ResidentModel.eid = some i) {c : ClaimId} {cl : Claim}
    (hc : (ws.foldl (grantWaiter m) co).claims.get? c = some cl) :
    co.claims.get? c = some cl ∨ cl.modelKey = m ∧ cl.entry = i := by
  induction ws generalizing co with
  | nil => exact .inl hc
  | cons w ws ih =>
    rw [List.foldl_cons] at hc
    cases hw : co.waiters.get? w with
    | none =>
      have hsame : grantWaiter m co w = co := by simp [grantWaiter, hw]
      exact ih co hx (hsame ▸ hc)
    | some y =>
      have hclaims : (grantWaiter m co w).claims = (co.grantClaim m y.opId).claims := by
        simp [grantWaiter, hw]
      have hres : (grantWaiter m co w).residents = (co.grantClaim m y.opId).residents := by
        simp [grantWaiter, hw]
      have hx' : ((grantWaiter m co w).residents.get? m).map ResidentModel.eid = some i := by
        rw [hres, residents_grantClaim, Dict.get?_modify_self, Option.map_map]
        exact hx
      rcases ih _ hx' hc with hc | hnew
      · rw [hclaims, claims_grantClaim_on hx, Dict.get?_insert] at hc
        split at hc
        · obtain rfl := Option.some.inj hc
          exact .inr ⟨rfl, rfl⟩
        · exact .inl hc
      · exact .inr hnew

/-- Where a claim comes from. -/
theorem ClaimStep.source {choice : Choice} (h : ClaimStep gpu op co choice pc co') {c : ClaimId}
    {cl' : Claim} (hc' : co'.claims.get? c = some cl') :
    (∃ cl, co.claims.get? c = some cl ∧ cl.modelKey = cl'.modelKey ∧ cl.entry = cl'.entry) ∨
      ∃ x, co.residents.get? cl'.modelKey = some x ∧ x.eid = cl'.entry := by
  cases h with
  | plain hc _ => exact .inl ⟨cl', hc ▸ hc', rfl, rfl⟩
  | share hx _ =>
    rw [claims_grantClaim_on (by rw [hx]; rfl), Dict.get?_insert] at hc'
    split at hc'
    · obtain rfl := Option.some.inj hc'
      exact .inr ⟨_, hx, rfl⟩
    · exact .inl ⟨cl', hc', rfl, rfl⟩
  | release hc hr =>
    rw [claims_releaseClaim hc hr, Dict.get?_modify] at hc'
    split at hc'
    · obtain ⟨cl, hcl, rfl⟩ := Option.map_eq_some_iff.mp hc'
      exact .inl ⟨cl, hcl, rfl, rfl⟩
    · exact .inl ⟨cl', hc', rfl, rfl⟩
  | @commit _ m e child realBytes r x hr _ _ _ hx =>
    have hx₁ : ((((co.settle m child realBytes).touch m).grantClaim m op).residents.get? m).map
        ResidentModel.eid = some x.eid := by
      rw [residents_grantClaim]
      simp [settle, touch, hx]
    rcases claims_grantAll m r.waiters _ hx₁ hc' with hc | ⟨rfl, he⟩
    · have hx₀ : (((co.settle m child realBytes).touch m).residents.get? m).map
          ResidentModel.eid = some x.eid := by
        simp [settle, touch, hx]
      rw [claims_grantClaim_on hx₀, Dict.get?_insert] at hc
      split at hc
      · obtain rfl := Option.some.inj hc
        exact .inr ⟨x, hx, rfl⟩
      · exact .inl ⟨cl', hc, rfl, rfl⟩
    · exact .inr ⟨x, hx, he.symm⟩

theorem ClaimStep.count {choice : Choice} (h : ClaimStep gpu op co choice pc co')
    (hsec : Section gpu op co pc co' pc') (hG : Counts co) (hold : OldClaims co)
    (hm : Minds gpu op co choice pc) {m : ModelKey} {x' : ResidentModel}
    (hx' : co'.residents.get? m = some x') : x'.activeRequests = co'.liveClaims x'.eid := by
  have inj : ∀ {m m' x y}, co.residents.get? m = some x → co.residents.get? m' = some y →
      x.eid = y.eid → m = m' := by
    intro m m' x y hx hy he
    exact hG.slots.inj m m' y.eid (by simp [slots, hx, he]) (by simp [slots, hy])
  cases h with
  | plain hc ha =>
    rw [liveClaims_congr hc]
    rcases hsec.source hx' with ⟨x, hx, he, -⟩ | ⟨est, -, rfl, -⟩
    · rw [ha m x x' hx hx', he, hG.count m x hx]
    · exact hG.fresh.symm
  | @share _ m₀ est n x₀ hx₀ _ =>
    rw [residents_grantClaim, Dict.get?_modify] at hx'
    rw [liveClaims_grantClaim hold (by rw [hx₀]; rfl)]
    split at hx'
    · rename_i heq
      subst heq
      rw [hx₀] at hx'
      obtain rfl := Option.some.inj hx'
      simp [hG.count m x₀ hx₀]
    · rename_i hne
      rw [if_neg fun he => hne (inj hx' hx₀ he.symm), hG.count m x' hx', Nat.add_zero]
  | @release c cl hc hr =>
    rw [residents_releaseClaim hc hr, Dict.get?_modify] at hx'
    split at hx'
    · rename_i heq
      subst heq
      obtain ⟨x, hx, rfl⟩ := Option.map_eq_some_iff.mp hx'
      have hcount := hG.count _ x hx
      have hfind := hm.release c cl x rfl rfl hc hr hx
      have hlive : co.liveClaims x.eid = _ := liveClaims_releaseClaim hc hr
      show x.activeRequests - 1 = (co.releaseClaim c).liveClaims x.eid
      split at hlive
      · omega
      · rename_i hne
        rcases hfind with he | h0
        · exact absurd he.symm hne
        · omega
    · rename_i hne
      have hother : cl.entry ≠ x'.eid := by
        intro he
        obtain ⟨g, ht⟩ := hG.token c cl hc
        exact hne (ht.home m (by simp [slots, hx', he]))
      have hlive : co.liveClaims x'.eid = _ := liveClaims_releaseClaim hc hr
      rw [if_neg hother, Nat.add_zero] at hlive
      rw [← hlive]
      exact hG.count m x' hx'
  | @commit _ m₀ e child realBytes r x₀ hr hb hg hd hx₀ =>
    obtain ⟨seq, hseq⟩ := residents_commitLoad co m₀ op child realBytes r.waiters
    rw [hseq, Dict.get?_modify] at hx'
    rw [liveClaims_commitLoad hold hx₀]
    split at hx'
    · rename_i heq
      subst heq
      rw [hx₀] at hx'
      obtain rfl := Option.some.inj hx'
      have hcount := hG.count m x₀ hx₀
      simp only [if_true]
      omega
    · rename_i hne
      rw [if_neg fun he => hne (inj hx' hx₀ he.symm), hG.count m x' hx', Nat.add_zero]

/-- An entry that serves no one is not called back, except by the commit of
its own load. -/
theorem Touch.unserved {choice : Choice} (ht : Touch gpu op co m x pc pc' (some x'))
    (hm : Minds gpu op co choice pc) (hx : co.residents.get? m = some x) (hun : x.unserved) :
    x'.unserved ∧ (x.sealed → x'.sealed) ∨ x.state = .loading ∧ ∃ e child realBytes r,
      pc = .commit m e child realBytes ∧ pc'.load? = none ∧ co.reservations.get? op = some r ∧
      co.generation m = r.generation := by
  obtain ⟨hs, h0⟩ := hun
  cases ht with
  | keep => exact .inl ⟨⟨hs, h0⟩, id⟩
  | mark hs' | unmark hs' | share hs' => simp [hs'] at hs
  | release => exact .inl ⟨⟨hs, by simp [h0]⟩, fun h => ⟨h.1, by simp [h0]⟩⟩
  | rollBack => exact .inl ⟨⟨.inr (.inr rfl), h0⟩, fun _ => ⟨.inr rfl, h0⟩⟩
  | drained => exact .inl ⟨⟨.inr (.inl rfl), h0⟩, fun _ => ⟨.inl rfl, h0⟩⟩
  | revert hpos => exact absurd h0 (Nat.ne_of_gt hpos)
  | commit hr hb hg hd =>
    exact .inr ⟨hm.commit _ _ _ _ _ x rfl hb hd hr hg hx, _, _, _, _, rfl, rfl, hr, hg⟩

theorem Section.keeps_counts {choice : Choice} (hsec : Section gpu op co pc co' pc')
    (hstep : ClaimStep gpu op co choice pc co') (hG : Counts co) (hold : OldClaims co)
    (hm : Minds gpu op co choice pc) (hcust : ∀ o, ∃ p, Custody o co p)
    (hown : Custody op co pc) : Counts co' := by
  have hslots := hsec.slots_step
  -- a reservation that is current after the section was so before
  have current : ∀ o r, co.reservations.get? o = some r →
      co'.generation r.modelKey = r.generation → co.generation r.modelKey = r.generation := by
    intro o r hr hg
    obtain ⟨p, hp⟩ := hcust o
    have hle := hp.generation_le hr
    have hle' : co.generation r.modelKey ≤ co'.generation r.modelKey := hslots.gen_le r.modelKey
    omega
  have present : ∀ o r, co.reservations.get? o = some r →
      co.generation r.modelKey = r.generation → ∃ x, co.residents.get? r.modelKey = some x := by
    intro o r hr hg
    obtain ⟨p, hp⟩ := hcust o
    exact hp.present hr hg
  refine ⟨hslots.wellFormed hG.slots, ?_, ?_, ?_, ?_⟩
  · intro m x' hx'
    exact hstep.count hsec hG hold hm hx'
  · intro c cl' hc'
    rcases hstep.source hc' with ⟨cl, hc, hk, he⟩ | ⟨x, hx, he⟩
    · obtain ⟨g, ht⟩ := hG.token c cl hc
      exact ⟨g, hk ▸ he ▸ ht.step hslots⟩
    · have ht := hG.slots.token (k := cl'.modelKey) (e := x.eid) (by simp [slots, hx])
      exact ⟨_, he ▸ ht.step hslots⟩
  · intro o r' x' hr' hg' hx'
    rcases hsec.reservation_source hr' with ⟨r, hr, hk, hg⟩ | ⟨rfl, est, hx, rfl, -⟩
    · have hcur := current o r hr (by rw [hk, hg, hg'])
      obtain ⟨x, hx⟩ := present o r hr hcur
      have ht := hsec.touch hx
      rw [hk, hx'] at ht
      rcases ht.unserved hm (hk ▸ hx) (hG.loading o r x hr hcur hx) with
        ⟨hun, -⟩ | ⟨-, e, child, realBytes, r₀, hpc, hload, hr₀, hg₀⟩
      · exact hun
      · obtain ⟨r₁, hr₁, hkey, -⟩ := hown.load r'.modelKey e (by rw [hpc]; rfl)
        obtain rfl := Option.some.inj (hr₀.symm.trans hr₁)
        obtain rfl := hG.unique o op r r₀ hr hr₀ (hk.trans hkey.symm) hcur (hkey ▸ hg₀)
        have hnone := (hsec.own_custody hG.slots hown).unreserved hload
        simp [hnone] at hr'
    · have hfresh : x' = .loading co.nextEntry co.recencySeq := by
        simpa [Coordinator.reserve] using hx'.symm
      subst hfresh
      exact ⟨.inl rfl, rfl⟩
  · intro o o' r₁ r₂ hr₁ hr₂ hkey hg₁ hg₂
    rcases hsec.reservation_source hr₁ with ⟨s₁, hs₁, hk₁, hsg₁⟩ | ⟨rfl, est, hx, rfl, -⟩
    · rcases hsec.reservation_source hr₂ with ⟨s₂, hs₂, hk₂, hsg₂⟩ | ⟨rfl, est, hx, rfl, -⟩
      · exact hG.unique o o' s₁ s₂ hs₁ hs₂ (hk₁.trans (hkey.trans hk₂.symm))
          (current o s₁ hs₁ (by rw [hk₁, hsg₁, hg₁])) (current o' s₂ hs₂ (by rw [hk₂, hsg₂, hg₂]))
      · obtain ⟨x, hx'⟩ := present o s₁ hs₁ (current o s₁ hs₁ (by rw [hk₁, hsg₁, hg₁]))
        simp [hk₁.trans hkey, hx] at hx'
    · rcases hsec.reservation_source hr₂ with ⟨s₂, hs₂, hk₂, hsg₂⟩ | ⟨rfl, -⟩
      · obtain ⟨x, hx'⟩ := present o' s₂ hs₂ (current o' s₂ hs₂ (by rw [hk₂, hsg₂, hg₂]))
        simp [hk₂.trans hkey.symm, hx] at hx'
      · rfl

theorem Section.considerate {choice : Choice} (hsec : Section gpu op co pc co' pc')
    (hstep : ClaimStep gpu op co choice pc co') (hG : Counts co) (hold : OldClaims co)
    (hm : Minds gpu op co choice pc) (hown : Custody op co pc) : Considerate op co co' := by
  refine ⟨hsec.rely, hG, ?_, ?_⟩
  · intro e hmore
    cases hstep with
    | plain hc _ =>
      rw [liveClaims_congr hc] at hmore
      exact absurd hmore (Nat.lt_irrefl _)
    | share hx hs =>
      rw [liveClaims_grantClaim hold (by rw [hx]; rfl)] at hmore
      split at hmore
      · exact ⟨_, _, hx, ‹_›, .inl hs⟩
      · exact absurd hmore (Nat.lt_irrefl _)
    | release hc hr =>
      have hlive := liveClaims_releaseClaim (e := e) hc hr
      omega
    | commit hr hb hg hd hx =>
      rw [liveClaims_commitLoad hold hx] at hmore
      split at hmore
      · obtain ⟨r', hr', hkey, -⟩ := hown.load _ _ rfl
        obtain rfl := Option.some.inj (hr.symm.trans hr')
        exact ⟨_, _, hx, ‹_›, .inr ⟨hm.commit _ _ _ _ _ _ rfl hb hd hr hg hx, _, hr, hkey, hg⟩⟩
      · exact absurd hmore (Nat.lt_irrefl _)
  · intro m x x' hx hx' hsealed
    have ht := hsec.touch hx
    rw [hx'] at ht
    rcases ht.unserved hm hx hsealed.unserved with ⟨-, hs⟩ | ⟨hs, -⟩
    · exact hs hsealed
    · have hgone := hsealed.1
      simp [hs] at hgone

/-- Where the entry an operation loads or takes down comes from. -/
theorem Section.subject (hsec : Section gpu op co pc co' pc') (hp : pc'.subject? = some e) :
    pc.subject? = some e ∧ co'.claims = co.claims ∨
      (e = co.nextEntry ∧ co.nextEntry < co'.nextEntry ∧ co'.claims = co.claims) ∨
      ∃ m x, co.residents.get? m = some x ∧ x.eid = e ∧ x.activeRequests = 0 ∧
        co'.claims = co.claims := by
  cases hsec with
  | quiet hq =>
    cases hq with
    | rollbackUnload | evictUnload => exact .inl ⟨hp, rfl⟩
    | jobPass => simp at hp
    | admitServing | callEvict | jobBusy | refuse | transient | transientWait | transientOver
    | failedUnload | jobDrained | jobTimedOut => cases hp
  | reserve => exact .inr (.inl ⟨(Option.some.inj hp).symm, Nat.lt_succ_self _, rfl⟩)
  | acquireGate | loadRaised | loadUnmeasured | loaded | rollBack | reservationLost =>
    exact .inl ⟨hp, rfl⟩
  | reconcile =>
    refine .inl ⟨hp, ?_⟩
    unfold Coordinator.reconcile
    split <;> rfl
  | failedOwn | failedStale =>
    rw [Pc.subject?_afterFailure hp]
    exact .inl ⟨rfl, rfl⟩
  | drained hx h0 => exact .inr (.inr ⟨_, _, hx, Option.some.inj hp, h0, rfl⟩)
  | evictVictims | evictGone | drainFailed | evicted => simp at hp
  | forget | release | raiseBarrier | endJob | share | join | intentOpen | waiterTimeout
  | waiterServed | waiterRetry | clearIntent | keyError | commit | rolledBack | disposed
  | disposedGate | evictEnter | drainWait | jobFailed | jobTakes => cases hp

theorem Section.own_unclaimed (hsec : Section gpu op co pc co' pc') (hG : Counts co)
    (hU : Unclaimed co pc) (hown : Custody op co pc) : Unclaimed co' pc' := by
  have hslots := hsec.slots_step
  -- an entry found after the section was there before
  have back : ∀ {m e x'}, co'.residents.get? m = some x' → x'.eid = e → e < co.nextEntry →
      ∃ x, co.residents.get? m = some x ∧ x.eid = e := by
    intro m e x' hx' he hlt
    have hcur := hslots.back (k := m) (e := e) (by simp [slots, hx', he]) hlt
    exact Option.map_eq_some_iff.mp hcur
  refine ⟨?_, ?_, ?_⟩
  · intro e hp
    rcases hsec.subject hp with ⟨hp, -⟩ | ⟨rfl, hlt, -⟩ | ⟨m, x, hx, rfl, -⟩
    · exact Nat.lt_of_lt_of_le (hU.old e hp) hslots.fresh_le
    · exact hlt
    · exact Nat.lt_of_lt_of_le (hG.slots.old m x.eid (by simp [slots, hx])) hslots.fresh_le
  · intro e hp
    rcases hsec.subject hp with ⟨hp, hc⟩ | ⟨rfl, -, hc⟩ | ⟨m, x, hx, rfl, h0, hc⟩
    · rw [liveClaims_congr hc, hU.unclaimed e hp]
    · rw [liveClaims_congr hc, hG.fresh]
    · rw [liveClaims_congr hc, ← hG.count m x hx, h0]
  · intro e m' x' hp hx' he
    cases hsec with
    | quiet hq =>
      cases hq with
      | rollbackUnload | evictUnload => exact hU.leaving e m' x' hp hx' he
      | jobPass =>
        have hnone := Pc.subject?_of_departing hp
        simp at hnone
      | admitServing | callEvict | jobBusy | refuse | transient | transientWait | transientOver
      | failedUnload | jobDrained | jobTimedOut => cases hp
    | reservationLost hr =>
      obtain ⟨r, hget, -⟩ := hown.load _ _ rfl
      simp [hr] at hget
    | @rollBack m e₀ child realBytes r hr _ =>
      obtain rfl : e₀ = e := Option.some.inj hp
      obtain ⟨r', hr', hkey, ht⟩ := hown.load m e₀ rfl
      obtain rfl := Option.some.inj (hr.symm.trans hr')
      obtain ⟨x, hx, hxe⟩ := back hx' he ht.old
      have hcur : co.slots.cur m' = some e₀ := by simp [slots, hx, hxe]
      obtain rfl := ht.home m' hcur
      obtain ⟨-, h0⟩ := hG.loading op r x hr (hkey ▸ ht.current.mp hcur) (hkey ▸ hx)
      have hrolled : { x with state := .rollingBack } = x' := by
        simpa [Coordinator.takeCustody, setState, hx] using hx'
      subst hrolled
      exact ⟨.inr rfl, h0⟩
    | @failedOwn m e₀ child r _ _ _ _ =>
      obtain rfl := Pc.subject?_afterFailure (Pc.subject?_of_departing hp)
      obtain ⟨r', -, -, ht⟩ := hown.load m e rfl
      obtain ⟨x, hx, hxe⟩ := back hx' he ht.old
      obtain rfl := ht.home m' (by simp [slots, hx, hxe])
      simp [dropEntry] at hx'
    | @failedStale m e₀ child ws _ hg =>
      obtain rfl := Pc.subject?_afterFailure (Pc.subject?_of_departing hp)
      obtain ⟨r, hr, -, ht⟩ := hown.load m e rfl
      obtain ⟨x, hx, hxe⟩ := back hx' he ht.old
      have hcur : co.slots.cur m' = some e := by simp [slots, hx, hxe]
      obtain rfl := ht.home m' hcur
      exact absurd (ht.current.mp hcur) (hg r x hr hx)
    | @drained m k x hx h0 =>
      obtain rfl : x.eid = e := Option.some.inj hp
      obtain ⟨y, hy, hye⟩ := back hx' he (hG.slots.old m x.eid (by simp [slots, hx]))
      obtain rfl := hG.slots.inj m' m x.eid (by simp [slots, hy, hye]) (by simp [slots, hx])
      have hevicting : { x with state := .evicting } = x' := by
        simpa [setState, hx] using hx'
      subst hevicting
      exact ⟨.inl rfl, h0⟩
    | evictVictims | evictGone | drainFailed | evicted =>
      have hnone := Pc.subject?_of_departing hp
      simp at hnone
    | forget | release | raiseBarrier | endJob | share | join | reserve | intentOpen | waiterTimeout
    | waiterServed | waiterRetry | clearIntent | acquireGate | loadRaised | loadUnmeasured | loaded
    | reconcile | keyError | commit | rolledBack | disposed | disposedGate | evictEnter | drainWait
    | jobFailed | jobTakes => cases hp

/-! ## Every run -/

theorem holds_counts {s : Sys} (h : Runs.Reachable (next gpu) (KeepsClaims gpu) Sys.init s) :
    Interleaving.Holds Counts (fun op co pc => Custody op co pc ∧ Unclaimed co pc) s := by
  refine Interleaving.threadwise (R := Considerate) ?_ ?_ ?_ h
  · refine ⟨⟨⟨nofun, nofun⟩, nofun, nofun, nofun, nofun⟩, ?_⟩
    intro op
    exact ⟨.of_none rfl rfl rfl, nofun, nofun, nofun⟩
  · intro s op choice co' pc' hr hs hok ha
    obtain ⟨hown, hU⟩ := hs.thread op
    have hsec := section_of_advance ha
    have hstep := claims_of_advance ha
    have hold : OldClaims s.shared := (holds_joined hr.any).global.oldClaim
    refine ⟨?_, ⟨?_, ?_⟩, ?_⟩
    · exact hsec.keeps_counts hstep hs.global hold hok.minds (fun o => ⟨_, (hs.thread o).1⟩) hown
    · exact hsec.own_custody hs.global.slots hown
    · exact hsec.own_unclaimed hs.global hU hown
    · exact hsec.considerate hstep hs.global hold hok.minds hown
  · intro op u co co' pc hr hu hL
    exact ⟨hL.1.stable hr.rely hu, hL.2.stable hL.1 hr hu⟩

/-- In every run whose steps meet the condition each entry counts its
unreleased claims, and no entry with one is unloaded, or removed by an
eviction, a rollback or a failed load. -/
theorem claims_counted {s : Sys} (h : Runs.Reachable (next gpu) (KeepsClaims gpu) Sys.init s) :
    (∀ m x, s.shared.residents.get? m = some x → x.activeRequests = s.shared.liveClaims x.eid) ∧
    ∀ a s', KeepsClaims gpu s a → next gpu s a = some s' →
      (∀ e child, (s.pc a.1).unloads? = some (e, child) →
        ∀ c cl, s.shared.claims.get? c = some cl → cl.entry = e → cl.released = true) ∧
      ∀ m e x, (s.pc a.1).cleanup? = some (m, e) → s.shared.residents.get? m = some x →
        s'.shared.residents.get? m = none →
        ∀ c cl, s.shared.claims.get? c = some cl → cl.entry = x.eid → cl.released = true := by
  have hs := holds_counts h
  refine ⟨hs.global.count, ?_⟩
  rintro ⟨op, choice⟩ s' hok hn
  obtain ⟨hown, hU⟩ := hs.thread op
  obtain ⟨co', pc', ha, rfl⟩ := Interleaving.next_eq_some.mp hn
  refine ⟨?_, ?_⟩
  · intro e child hp
    exact liveClaims_eq_zero.mp (hU.unclaimed e (Pc.subject?_of_unloads hp))
  · intro m e x hp hx hgone
    have ht := (section_of_advance ha).touch hx
    rw [show co'.residents.get? m = none from hgone] at ht
    -- what is removed is the entry of the operation's token
    have own : ∀ g, s.shared.slots.Token m e g → s.shared.generation m = g →
        (s.pc op).subject? = some e →
        ∀ c cl, s.shared.claims.get? c = some cl → cl.entry = x.eid → cl.released = true := by
      intro g htok hg hsub
      have hcur : s.shared.slots.cur m = some x.eid := by simp [slots, hx]
      obtain rfl := (htok.owns_iff hcur).mpr hg
      exact liveClaims_eq_zero.mp (hU.unclaimed _ hsub)
    have hfinal := (KeepsClaims.minds hok).finalize
    generalize hpc : s.pc op = pc at hp ht own hown hfinal
    cases pc with
    | evicted m' e' g k =>
      obtain ⟨rfl, rfl⟩ : _ ∧ _ := by simpa [Pc.cleanup?] using hp
      rcases hfinal m' e' g (.inl ⟨k, rfl⟩) with hnone | hg
      · simp [hx] at hnone
      · exact own g (hown.token _ _ _ rfl) hg rfl
    | rolledBack m' e' g ws d =>
      obtain ⟨rfl, rfl⟩ : _ ∧ _ := by simpa [Pc.cleanup?] using hp
      rcases hfinal m' e' g (.inr ⟨ws, d, rfl⟩) with hnone | hg
      · simp [hx] at hnone
      · exact own g (hown.token _ _ _ rfl) hg rfl
    | loadFailed m' e' child =>
      obtain ⟨rfl, rfl⟩ : _ ∧ _ := by simpa [Pc.cleanup?] using hp
      obtain ⟨r, hr, -, htok⟩ := hown.load m' e' rfl
      cases ht with
      | failed hr' hg =>
        obtain rfl := Option.some.inj (hr.symm.trans hr')
        exact own _ htok hg rfl
    | commit => cases ht
    | idle | attempt | awaitLoad | awaitTransient | clearIntent | gate | load | reconcile | rollback
    | failedUnload | dispose | evict | draining | evicting | jobDrain | jobClose | served | finished
    | raised => cases hp

theorem plainEviction_counted : ∃ s : Sys,
    Runs.Reachable (next (.ofTotal 10)) (KeepsClaims (.ofTotal 10)) Sys.init s ∧
    (s.shared.claims.get? 1).isSome = true ∧
    ∀ m x, s.shared.residents.get? m = some x → x.activeRequests = s.shared.liveClaims x.eid := by
  have hrun : (Runs.run (next (.ofTotal 10)) (KeepsClaims (.ofTotal 10)) Sys.init plainEviction).map
      (fun s => (s.shared.claims.get? 1).isSome) = some true := by
    decide +kernel
  obtain ⟨s, hs, hp⟩ := Runs.exists_reachable hrun
  exact ⟨s, hs, hp, (claims_counted hs).1⟩

/-! ## A claim that outlives its entry -/

/-- Claim 1 is minted on entry 0, which is forgotten; a second request loads
entry 1 and holds claim 2; then claim 1 is released. -/
def staleRelease : List Act :=
  [(0, .start (.admitServing "a" (5 : ℕ))), (0, .freeBytes 10 10), (0, .go),
   (0, .loadReturned (some 1) (some (5 : ℕ))), (0, .go), (0, .go), (0, .go), (1, .start (.forget "a")),
   (2, .start (.admitServing "a" (5 : ℕ))), (2, .freeBytes 10 10), (2, .go),
   (2, .loadReturned (some 2) (some (5 : ℕ))), (2, .go), (2, .go), (2, .go), (3, .start (.release 1))]

/-- Entry 1 then counts no request, and its claim is not released. -/
theorem staleRelease_miscounts : ∃ s : Sys, Reachable (.ofTotal 10) s ∧
    ¬ ∀ m x, s.shared.residents.get? m = some x →
      x.activeRequests = s.shared.liveClaims x.eid := by
  have hrun : (Runs.run (next (.ofTotal 10)) Runs.anyStep Sys.init staleRelease).map
      (fun s => decide ((s.shared.residents.get? "a").map (fun x => (x.eid, x.activeRequests)) =
        some (1, 0) ∧ s.shared.liveClaims 1 = 1)) = some true := by
    decide +kernel
  obtain ⟨s, hs, hp⟩ := Runs.exists_reachable hrun
  obtain ⟨hfound, hlive⟩ := of_decide_eq_true hp
  obtain ⟨x, hx, hxe⟩ := Option.map_eq_some_iff.mp hfound
  obtain ⟨he, h0⟩ := Prod.mk.inj hxe
  refine ⟨s, hs, fun h => ?_⟩
  have hcount := h "a" x hx
  rw [he, h0, hlive] at hcount
  cases hcount

end Coordinator

end MlopsLite.HostAgent
