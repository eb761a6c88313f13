import MlopsLite.HostAgent.Coordinator.Ownership

/-!
# Coordinator — claims and waiters of an operation

A joiner waits in its load's registry until the commit assigns it a claim,
the load owner takes it into custody and disposes of it, or its own
deadline passes. `Desk` is an operation's control point as far as joiners
go; `Registry` is the invariant on the shared state, `Joined` the one of
each operation, and `Handover` what a section leaves to the others.
-/

namespace MlopsLite.HostAgent

/-- Where an operation stands with claims and waiters. -/
inductive Desk
  | away
  | awaiting (w : WaiterId)
  /-- Its joiners have claims, and so has it. -/
  | granted (c : ClaimId) (ws : List WaiterId)
  /-- Its joiners are in its custody and will get `d`. -/
  | disposing (ws : List WaiterId) (d : Disposition)
  | shared (c : ClaimId)
  | owns (c : ClaimId)
  | timedOut
  deriving DecidableEq

/-- The claim an operation has in hand. -/
def Desk.claim? : Desk → Option ClaimId
  | .granted c _ | .shared c | .owns c => some c
  | _ => none

/-- The joiners in an operation's custody. -/
def Desk.custody? : Desk → Option (List WaiterId)
  | .disposing ws _ => some ws
  | _ => none

def Pc.desk : Pc → Desk
  | .awaitLoad _ _ _ w => .awaiting w
  | .rollback _ _ _ _ ws d | .rolledBack _ _ _ ws d => .disposing ws d
  | .failedUnload _ _ _ ws => .disposing ws (.outcome (.refuse .failedToLoad))
  | .dispose ws (.outcome (.grant c)) _ => .granted c ws
  | .dispose ws d _ => .disposing ws d
  | .served (.share c) => .shared c
  | .served (.grant c) => .owns c
  | .served (.refuse .waiterDeadline) => .timedOut
  | _ => .away

@[simp] theorem Pc.desk_resume (k : Caller) (ok : Bool) : (k.resume ok).desk = .away := by
  cases k with
  | direct => rfl
  | victims m est n rest => cases rest <;> rfl
  | drain j rest => cases rest <;> rfl

theorem Pc.desk_afterFailure (m : ModelKey) (e : EntryId) (ws : List WaiterId)
    (child : Option Child) :
    (Pc.afterFailure m e ws child).desk = .disposing ws (.outcome (.refuse .failedToLoad)) := by
  cases child <;> rfl

theorem Pc.awaitLoad_of_desk {pc : Pc} {w : WaiterId} (h : pc.desk = .awaiting w) :
    ∃ m est n, pc = .awaitLoad m est n w := by
  unfold Pc.desk at h
  split at h <;> simp_all

theorem Pc.served_of_desk {pc : Pc} {c : ClaimId}
    (h : pc.desk = .shared c) : pc = .served (.share c) := by
  unfold Pc.desk at h
  split at h <;> simp_all

/-- What a load that did not commit hands its joiners. -/
def Disposition.plain : Disposition → Bool
  | .retry => true
  | .outcome (.refuse r) => r ≠ .waiterDeadline
  | _ => false

namespace Coordinator

variable {gpu : Gpu} {op : OpId} {co co' : Coordinator} {pc pc' : Pc} {k k' : Desk}

/-! ## The invariants -/

/-- The joiners registered with `o`'s reservation. -/
def registry (co : Coordinator) (o : OpId) : List WaiterId :=
  ((co.reservations.get? o).map Reservation.waiters).getD []

/-- Registries and custody lists: no waiter twice, undisposed as long as it
is registered, and no undisposed waiter outside. -/
structure Registry (co : Coordinator) : Prop where
  member : ∀ o w, w ∈ co.registry o → ∃ x, co.waiters.get? w = some x ∧ x.disposition = none
  nodup : ∀ o, (co.registry o).Nodup
  disjoint : ∀ o o' w, w ∈ co.registry o → w ∈ co.registry o' → o = o'
  apart : ∀ o o' ws w, w ∈ co.registry o → co.pendingDisposal.get? o' = some ws → w ∉ ws
  custody : ∀ w x, co.waiters.get? w = some x → x.disposition = none →
    (∃ o, w ∈ co.registry o) ∨ ∃ o ws, co.pendingDisposal.get? o = some ws ∧ w ∈ ws
  oldWaiter : ∀ w x, co.waiters.get? w = some x → w < co.nextWaiter
  oldPending : ∀ o ws w, co.pendingDisposal.get? o = some ws → w ∈ ws → w < co.nextWaiter
  oldClaim : ∀ c cl, co.claims.get? c = some cl → c < co.nextClaim

/-- What operation `u` at desk `k` may rely on. -/
structure Joined (u : OpId) (co : Coordinator) (k : Desk) : Prop where
  awaits : ∀ w, k = .awaiting w → ∃ x, co.waiters.get? w = some x ∧ x.opId = u
  waiting : ∀ w x, co.waiters.get? w = some x → x.opId = u → x.disposition = none →
    k = .awaiting w
  shared : ∀ w x c, co.waiters.get? w = some x → x.opId = u →
    x.disposition = some (.outcome (.share c)) → k = .awaiting w ∨ k = .shared c
  sharedClaim : ∀ w x c, co.waiters.get? w = some x → x.opId = u →
    x.disposition = some (.outcome (.share c)) → ∃ cl, co.claims.get? c = some cl ∧ cl.opId = u
  noGrant : ∀ w x c, co.waiters.get? w = some x → x.opId = u →
    x.disposition ≠ some (.outcome (.grant c))
  timedOut : ∀ w x, co.waiters.get? w = some x → x.opId = u →
    x.disposition = some (.outcome (.refuse .waiterDeadline)) → k = .timedOut
  claimed : ∀ c cl, co.claims.get? c = some cl → cl.opId = u →
    k.claim? = some c ∨ ∃ w x, k = .awaiting w ∧ co.waiters.get? w = some x ∧
      x.disposition = some (.outcome (.share c))
  held : ∀ c, k.claim? = some c → ∃ cl, co.claims.get? c = some cl ∧ cl.opId = u
  pending : co.pendingDisposal.get? u = k.custody?
  plain : ∀ ws d, k = .disposing ws d → d.plain = true
  granted : ∀ c ws w, k = .granted c ws → w ∈ ws → ∃ x, co.waiters.get? w = some x ∧
    x.disposition ≠ none
  once : ∀ c, k = .shared c → ∀ w w' x x' c₁ c₂,
    co.waiters.get? w = some x → x.opId = u → x.disposition = some (.outcome (.share c₁)) →
    co.waiters.get? w' = some x' → x'.opId = u → x'.disposition = some (.outcome (.share c₂)) →
    w = w'

/-- How a section changes another operation's waiter: not at all, or, if it
was undisposed, by the disposition of a load that did not commit, or with a
claim minted for its operation. -/
def Evolves (co' : Coordinator) (x x' : Waiter) : Prop :=
  x' = x ∨ x.disposition = none ∧ x'.opId = x.opId ∧
    ((∃ d, d.plain = true ∧ x'.disposition = some d) ∨
      ∃ c cl, x'.disposition = some (.outcome (.share c)) ∧ co'.claims.get? c = some cl ∧
        cl.opId = x.opId)

/-- What a section of `op` leaves to the other operations. -/
structure Handover (op : OpId) (co co' : Coordinator) : Prop where
  final : ∀ w x, co.waiters.get? w = some x → ∃ x', co'.waiters.get? w = some x' ∧
    x'.opId = x.opId ∧ (x.disposition ≠ none → x' = x)
  evolves : ∀ w x', co'.waiters.get? w = some x' → x'.opId ≠ op →
    ∃ x, co.waiters.get? w = some x ∧ Evolves co' x x'
  kept : ∀ c cl, co.claims.get? c = some cl → ∃ cl', co'.claims.get? c = some cl' ∧
    cl'.opId = cl.opId
  minted : ∀ c cl, co.claims.get? c = none → co'.claims.get? c = some cl → cl.opId ≠ op →
    ∃ w x x', co.waiters.get? w = some x ∧ x.disposition = none ∧ x.opId = cl.opId ∧
      co'.waiters.get? w = some x' ∧ x'.disposition = some (.outcome (.share c))
  pending : ∀ o, o ≠ op → co'.pendingDisposal.get? o = co.pendingDisposal.get? o

/-- The other operations' invariants survive. -/
theorem Joined.stable {u : OpId} (h : Joined u co k) (hr : Handover op co co') (hu : u ≠ op) :
    Joined u co' k := by
  have back : ∀ w x', co'.waiters.get? w = some x' → x'.opId = u →
      ∃ x, co.waiters.get? w = some x ∧ x.opId = u ∧ Evolves co' x x' := by
    intro w x' hx' hop
    obtain ⟨x, hx, hev⟩ := hr.evolves w x' hx' (hop ▸ hu)
    refine ⟨x, hx, ?_, hev⟩
    rcases hev with rfl | ⟨-, heq, -⟩
    · exact hop
    · exact heq ▸ hop
  refine ⟨?_, ?_, ?_, ?_, ?_, ?_, ?_, ?_, ?_, h.plain, ?_, ?_⟩
  · intro w hk
    obtain ⟨x, hx, hop⟩ := h.awaits w hk
    obtain ⟨x', hx', hop', -⟩ := hr.final w x hx
    exact ⟨x', hx', hop'.trans hop⟩
  · intro w x' hx' hop hd
    obtain ⟨x, hx, hxu, rfl | ⟨-, -, ⟨d, -, hd'⟩ | ⟨c, cl, hd', -⟩⟩⟩ := back w x' hx' hop
    · exact h.waiting w x' hx hxu hd
    · simp [hd] at hd'
    · simp [hd] at hd'
  · intro w x' c hx' hop hd
    obtain ⟨x, hx, hxu, rfl | ⟨hnone, -⟩⟩ := back w x' hx' hop
    · exact h.shared w x' c hx hxu hd
    · exact .inl (h.waiting w x hx hxu hnone)
  · intro w x' c hx' hop hd
    obtain ⟨x, hx, hxu, rfl | ⟨-, -, ⟨d, hp, hd'⟩ | ⟨c', cl, hd', hcl, hclu⟩⟩⟩ := back w x' hx' hop
    · obtain ⟨cl, hcl, hclu⟩ := h.sharedClaim w x' c hx hxu hd
      obtain ⟨cl', hcl', heq⟩ := hr.kept c cl hcl
      exact ⟨cl', hcl', heq.trans hclu⟩
    · obtain rfl := Option.some.inj (hd.symm.trans hd')
      simp [Disposition.plain] at hp
    · have hcc : c = c' := by simpa using hd.symm.trans hd'
      exact ⟨cl, hcc ▸ hcl, hclu.trans hxu⟩
  · intro w x' c hx' hop hd
    obtain ⟨x, hx, hxu, rfl | ⟨-, -, ⟨d, hp, hd'⟩ | ⟨c', cl, hd', -⟩⟩⟩ := back w x' hx' hop
    · exact h.noGrant w x' c hx hxu hd
    · obtain rfl := Option.some.inj (hd.symm.trans hd')
      simp [Disposition.plain] at hp
    · simp [hd] at hd'
  · intro w x' hx' hop hd
    obtain ⟨x, hx, hxu, rfl | ⟨-, -, ⟨d, hp, hd'⟩ | ⟨c', cl, hd', -⟩⟩⟩ := back w x' hx' hop
    · exact h.timedOut w x' hx hxu hd
    · obtain rfl := Option.some.inj (hd.symm.trans hd')
      simp [Disposition.plain] at hp
    · simp [hd] at hd'
  · intro c cl' hcl' hop
    cases hc : co.claims.get? c with
    | some cl =>
      obtain ⟨cl'', hcl'', heq⟩ := hr.kept c cl hc
      obtain rfl := Option.some.inj (hcl'.symm.trans hcl'')
      rcases h.claimed c cl hc (heq.symm.trans hop) with hk | ⟨w, x, hk, hx, hd⟩
      · exact .inl hk
      · obtain ⟨x', hx', -, hfin⟩ := hr.final w x hx
        obtain rfl := hfin (by simp [hd])
        exact .inr ⟨w, x', hk, hx', hd⟩
    | none =>
      obtain ⟨w, x, x', hx, hnone, hxu, hx', hd⟩ := hr.minted c cl' hc hcl' (hop ▸ hu)
      exact .inr ⟨w, x', h.waiting w x hx (hxu.trans hop) hnone, hx', hd⟩
  · intro c hk
    obtain ⟨cl, hcl, hclu⟩ := h.held c hk
    obtain ⟨cl', hcl', heq⟩ := hr.kept c cl hcl
    exact ⟨cl', hcl', heq.trans hclu⟩
  · rw [hr.pending u hu, h.pending]
  · intro c ws w hk hw
    obtain ⟨x, hx, hd⟩ := h.granted c ws w hk hw
    obtain ⟨x', hx', -, hfin⟩ := hr.final w x hx
    obtain rfl := hfin hd
    exact ⟨x', hx', hd⟩
  · intro c hk w₁ w₂ x₁ x₂ c₁ c₂ hx₁ hop₁ hd₁ hx₂ hop₂ hd₂
    -- an operation with a claim has no undisposed waiter
    have old : ∀ w x', co'.waiters.get? w = some x' → x'.opId = u → co.waiters.get? w = some x' := by
      intro w x' hx' hop
      obtain ⟨x, hx, hxu, rfl | ⟨hnone, -⟩⟩ := back w x' hx' hop
      · exact hx
      · cases hk.symm.trans (h.waiting w x hx hxu hnone)
    exact h.once c hk w₁ w₂ x₁ x₂ c₁ c₂ (old w₁ x₁ hx₁ hop₁) hop₁ hd₁ (old w₂ x₂ hx₂ hop₂) hop₂ hd₂

/-! ## Sections that leave joiners alone -/

structure SameDesk (co co' : Coordinator) : Prop where
  waiters : ∀ w, co'.waiters.get? w = co.waiters.get? w
  claims : ∀ c, (co'.claims.get? c).map Claim.opId = (co.claims.get? c).map Claim.opId
  registry : ∀ o, co'.registry o = co.registry o
  pending : ∀ o, co'.pendingDisposal.get? o = co.pendingDisposal.get? o
  nextWaiter : co'.nextWaiter = co.nextWaiter
  nextClaim : co'.nextClaim = co.nextClaim

namespace SameDesk

theorem of_eq (hw : co'.waiters = co.waiters) (hc : co'.claims = co.claims)
    (hr : co'.reservations = co.reservations) (hp : co'.pendingDisposal = co.pendingDisposal)
    (hnw : co'.nextWaiter = co.nextWaiter) (hnc : co'.nextClaim = co.nextClaim) :
    SameDesk co co' :=
  ⟨fun w => by rw [hw], fun c => by rw [hc],
    fun o => by rw [Coordinator.registry, hr, Coordinator.registry], fun o => by rw [hp], hnw, hnc⟩

theorem claim (h : SameDesk co co') {c : ClaimId} {cl : Claim} (hc : co.claims.get? c = some cl) :
    ∃ cl', co'.claims.get? c = some cl' ∧ cl'.opId = cl.opId := by
  have heq := h.claims c
  rw [hc] at heq
  exact Option.map_eq_some_iff.mp heq

theorem claim' (h : SameDesk co co') {c : ClaimId} {cl : Claim} (hc : co'.claims.get? c = some cl) :
    ∃ cl', co.claims.get? c = some cl' ∧ cl'.opId = cl.opId := by
  have heq := h.claims c
  rw [hc] at heq
  exact Option.map_eq_some_iff.mp heq.symm

theorem keeps_registry (h : SameDesk co co') (hr : Registry co) : Registry co' := by
  refine ⟨?_, ?_, ?_, ?_, ?_, ?_, ?_, ?_⟩
  · intro o w hw
    rw [h.waiters]
    exact hr.member o w (h.registry o ▸ hw)
  · intro o
    exact h.registry o ▸ hr.nodup o
  · intro o o' w hw hw'
    exact hr.disjoint o o' w (h.registry o ▸ hw) (h.registry o' ▸ hw')
  · intro o o' ws w hw hp
    exact hr.apart o o' ws w (h.registry o ▸ hw) (h.pending o' ▸ hp)
  · intro w x hx hd
    simp only [h.registry, h.pending]
    exact hr.custody w x (h.waiters w ▸ hx) hd
  · intro w x hx
    exact h.nextWaiter ▸ hr.oldWaiter w x (h.waiters w ▸ hx)
  · intro o ws w hp hw
    exact h.nextWaiter ▸ hr.oldPending o ws w (h.pending o ▸ hp) hw
  · intro c cl hc
    obtain ⟨cl', hc', -⟩ := h.claim' hc
    exact h.nextClaim ▸ hr.oldClaim c cl' hc'

theorem handover (h : SameDesk co co') : Handover op co co' := by
  refine ⟨?_, ?_, ?_, ?_, ?_⟩
  · intro w x hx
    exact ⟨x, h.waiters w ▸ hx, rfl, fun _ => rfl⟩
  · intro w x' hx' _
    exact ⟨x', h.waiters w ▸ hx', .inl rfl⟩
  · intro c cl hc
    exact h.claim hc
  · intro c cl hnone hc
    obtain ⟨cl', hc', -⟩ := h.claim' hc
    simp [hnone] at hc'
  · intro o _
    rw [h.pending]

theorem joined {u : OpId} (h : SameDesk co co') (hj : Joined u co k) : Joined u co' k := by
  refine ⟨?_, ?_, ?_, ?_, ?_, ?_, ?_, ?_, ?_, hj.plain, ?_, ?_⟩
  · simp only [h.waiters]
    exact hj.awaits
  · simp only [h.waiters]
    exact hj.waiting
  · simp only [h.waiters]
    exact hj.shared
  · intro w x c hx hop hd
    obtain ⟨cl, hcl, hclu⟩ := hj.sharedClaim w x c (h.waiters w ▸ hx) hop hd
    obtain ⟨cl', hcl', heq⟩ := h.claim hcl
    exact ⟨cl', hcl', heq.trans hclu⟩
  · simp only [h.waiters]
    exact hj.noGrant
  · simp only [h.waiters]
    exact hj.timedOut
  · intro c cl hc hop
    obtain ⟨cl', hc', heq⟩ := h.claim' hc
    simp only [h.waiters]
    exact hj.claimed c cl' hc' (heq.trans hop)
  · intro c hk
    obtain ⟨cl, hcl, hclu⟩ := hj.held c hk
    obtain ⟨cl', hcl', heq⟩ := h.claim hcl
    exact ⟨cl', hcl', heq.trans hclu⟩
  · rw [h.pending, hj.pending]
  · simp only [h.waiters]
    exact hj.granted
  · simp only [h.waiters]
    exact hj.once

end SameDesk

/-- An operation that timed out elsewhere holds nothing either. -/
theorem Joined.time_out {u : OpId} (h : Joined u co .away) : Joined u co .timedOut := by
  refine ⟨nofun, ?_, ?_, h.sharedClaim, h.noGrant, fun _ _ _ _ _ => rfl, ?_, nofun, h.pending,
    nofun, nofun, nofun⟩
  · intro w x hx hop hd
    cases h.waiting w x hx hop hd
  · intro w x c hx hop hd
    rcases h.shared w x c hx hop hd with hk | hk <;> cases hk
  · intro c cl hcl hop
    rcases h.claimed c cl hcl hop with hk | ⟨w, x, hk, -⟩ <;> cases hk

/-- What one section establishes. -/
structure Serves (op : OpId) (co co' : Coordinator) (k' : Desk) : Prop where
  registry : Registry co'
  joined : Joined op co' k'
  handover : Handover op co co'

theorem SameDesk.serves (h : SameDesk co co') (hr : Registry co) (hj : Joined op co k) :
    Serves op co co' k :=
  ⟨h.keeps_registry hr, h.joined hj, h.handover⟩

theorem Serves.same {co'' : Coordinator} (h : Serves op co co' k) (hs : SameDesk co' co'') :
    Serves op co co'' k := by
  refine ⟨hs.keeps_registry h.registry, hs.joined h.joined, ⟨?_, ?_, ?_, ?_, ?_⟩⟩
  · intro w x hx
    rw [hs.waiters]
    exact h.handover.final w x hx
  · intro w x' hx' hne
    obtain ⟨x, hx, hev⟩ := h.handover.evolves w x' (hs.waiters w ▸ hx') hne
    refine ⟨x, hx, ?_⟩
    rcases hev with heq | ⟨hnone, hop, hd | ⟨c, cl, hd, hc, hcl⟩⟩
    · exact .inl heq
    · exact .inr ⟨hnone, hop, .inl hd⟩
    · obtain ⟨cl', hc', heq⟩ := hs.claim hc
      exact .inr ⟨hnone, hop, .inr ⟨c, cl', hd, hc', heq.trans hcl⟩⟩
  · intro c cl hc
    obtain ⟨cl', hc', heq⟩ := h.handover.kept c cl hc
    obtain ⟨cl'', hc'', heq'⟩ := hs.claim hc'
    exact ⟨cl'', hc'', heq'.trans heq⟩
  · intro c cl hnone hc hne
    obtain ⟨cl', hc', heq⟩ := hs.claim' hc
    obtain ⟨w, x, x', hx, hd, hop, hx', hd'⟩ := h.handover.minted c cl' hnone hc' (heq ▸ hne)
    exact ⟨w, x, x', hx, hd, hop.trans heq, hs.waiters w ▸ hx', hd'⟩
  · intro o ho
    rw [hs.pending, h.handover.pending o ho]

end Coordinator

end MlopsLite.HostAgent
