import MlopsLite.HostAgent.Coordinator.Steps

/-!
# Coordinator — what the sections write

The composite sections (claims, the commit) as single updates of each
field, so that later proofs need not look inside them.
-/

namespace MlopsLite.HostAgent

namespace Coordinator

variable (co : Coordinator) (m : ModelKey) (op : OpId)

/-- A fold of sections keeps what each of them keeps. -/
theorem foldl_view {α β γ : Type} (p : β → γ) {f : β → α → β} (h : ∀ b a, p (f b a) = p b)
    (l : List α) (b : β) : p (l.foldl f b) = p b := by
  induction l generalizing b with
  | nil => rfl
  | cons a l ih => rw [List.foldl_cons, ih, h]

/-- The coordinator with the fields blanked that minting and releasing claims
write. -/
def sansClaims (co : Coordinator) : Coordinator :=
  { co with
    residents := .empty, claims := .empty, claimIds := fun _ => ∅, recencySeq := 0,
    nextClaim := 0, waiters := .empty }

/-! ## Claims -/

theorem residents_grantClaim : (co.grantClaim m op).residents = co.residents.modify m fun r =>
    { r with activeRequests := r.activeRequests + 1, recencySeq := co.recencySeq } := by
  simp only [grantClaim, touch, Dict.modify_modify]

theorem releaseClaim_of_none {co : Coordinator} {c : ClaimId} (hc : co.claims.get? c = none) :
    co.releaseClaim c = co := by
  simp [releaseClaim, hc]

theorem releaseClaim_of_released {co : Coordinator} {c : ClaimId} {claim : Claim}
    (hc : co.claims.get? c = some claim) (hr : claim.released = true) :
    co.releaseClaim c = co := by
  simp [releaseClaim, hc, hr]

theorem residents_releaseClaim {co : Coordinator} {c : ClaimId} {claim : Claim}
    (hc : co.claims.get? c = some claim) (hr : claim.released = false) :
    (co.releaseClaim c).residents = co.residents.modify claim.modelKey fun r =>
      { r with activeRequests := r.activeRequests - 1, recencySeq := co.recencySeq } := by
  cases hx : co.residents.get? claim.modelKey with
  | none => simp [releaseClaim, hc, hr, hx, Dict.modify_of_none]
  | some x => simp [releaseClaim, hc, hr, hx, touch, Dict.modify_modify]

theorem claims_releaseClaim {co : Coordinator} {c : ClaimId} {claim : Claim}
    (hc : co.claims.get? c = some claim) (hr : claim.released = false) :
    (co.releaseClaim c).claims = co.claims.modify c fun x => { x with released := true } := by
  simp [releaseClaim, hc, hr]

theorem sansClaims_grantClaim : (co.grantClaim m op).sansClaims = co.sansClaims := rfl

theorem sansClaims_releaseClaim (c : ClaimId) :
    (co.releaseClaim c).sansClaims = co.sansClaims := by
  cases hc : co.claims.get? c with
  | none => rw [releaseClaim_of_none hc]
  | some claim =>
    cases hr : claim.released with
    | true => rw [releaseClaim_of_released hc hr]
    | false =>
      by_cases hx : (co.residents.get? claim.modelKey).isSome = true
      · simp [releaseClaim, hc, hr, hx, touch, sansClaims]
      · simp [releaseClaim, hc, hr, hx, sansClaims]

theorem reservations_releaseClaim (c : ClaimId) :
    (co.releaseClaim c).reservations = co.reservations :=
  (congrArg Coordinator.reservations (sansClaims_releaseClaim co c) :)

theorem barrier_releaseClaim (c : ClaimId) :
    (co.releaseClaim c).jobBarrier = co.jobBarrier ∧
      (co.releaseClaim c).exclusiveJob = co.exclusiveJob :=
  have hs := sansClaims_releaseClaim co c
  ⟨(congrArg Coordinator.jobBarrier hs :), (congrArg Coordinator.exclusiveJob hs :)⟩

/-! ## Marks on many entries -/

theorem residents_evictVictims (vs : List ModelKey) :
    (co.evictVictims op vs).residents =
      co.residents.map fun k r => if k ∈ vs then { r with state := .draining } else r := rfl

theorem residents_raiseBarrier : co.raiseBarrier.residents =
    co.residents.map fun _ r => if r.state = .resident then { r with state := .draining } else r :=
  rfl

theorem residents_dropBarrier : co.dropBarrier.residents =
    co.residents.map fun _ r => if r.state = .draining then { r with state := .resident } else r :=
  rfl

/-! ## The commit -/

theorem sansClaims_grantWaiter (w : WaiterId) :
    (grantWaiter m co w).sansClaims = co.sansClaims := by
  unfold grantWaiter
  split <;> rfl

theorem isSome_waiters_grantWaiter (w w' : WaiterId) :
    ((grantWaiter m co w).waiters.get? w').isSome = (co.waiters.get? w').isSome := by
  unfold grantWaiter
  split
  · rw [Dict.get?_modify]
    split <;> simp
  · rfl

/-- Claims for `ws` raise the count by the number of waiters among them. -/
theorem residents_grantAll (ws : List WaiterId) (co : Coordinator) :
    ∃ seq : ResidentModel → Nat, (ws.foldl (grantWaiter m) co).residents =
      co.residents.modify m fun r => { r with
        activeRequests := r.activeRequests + ws.countP fun w => (co.waiters.get? w).isSome
        recencySeq := seq r } := by
  induction ws generalizing co with
  | nil =>
    refine ⟨fun r => r.recencySeq, ?_⟩
    ext1
    simp [Dict.modify, Dict.map]
  | cons w ws ih =>
    obtain ⟨seq, hseq⟩ := ih (grantWaiter m co w)
    simp only [isSome_waiters_grantWaiter] at hseq
    rw [List.foldl_cons, hseq]
    cases hw : co.waiters.get? w with
    | none => exact ⟨seq, by simp [grantWaiter, hw]⟩
    | some x =>
      have hres : (grantWaiter m co w).residents = (co.grantClaim m x.opId).residents := by
        simp [grantWaiter, hw]
      rw [hres, residents_grantClaim, Dict.modify_modify]
      refine ⟨fun r => seq { r with
        activeRequests := r.activeRequests + 1, recencySeq := co.recencySeq }, ?_⟩
      congr 1
      funext r
      simp [hw]
      omega

theorem sansClaims_commitLoad (child : Child) (realBytes : Bytes) (ws : List WaiterId) :
    (co.commitLoad m op child realBytes ws).sansClaims =
      { co.sansClaims with reservations := co.reservations.erase op } := by
  have h := foldl_view sansClaims (fun co w => sansClaims_grantWaiter co m w) ws
    (((co.settle m child realBytes).touch m).grantClaim m op)
  exact congrArg (fun c : Coordinator => { c with reservations := c.reservations.erase op }) h

theorem reservations_commitLoad (child : Child) (realBytes : Bytes) (ws : List WaiterId) :
    (co.commitLoad m op child realBytes ws).reservations = co.reservations.erase op :=
  (congrArg Coordinator.reservations (sansClaims_commitLoad co m op child realBytes ws) :)

theorem barrier_commitLoad (child : Child) (realBytes : Bytes) (ws : List WaiterId) :
    (co.commitLoad m op child realBytes ws).jobBarrier = co.jobBarrier ∧
      (co.commitLoad m op child realBytes ws).exclusiveJob = co.exclusiveJob :=
  have hs := sansClaims_commitLoad co m op child realBytes ws
  ⟨(congrArg Coordinator.jobBarrier hs :), (congrArg Coordinator.exclusiveJob hs :)⟩

/-- A commit writes its own entry only: the measured size, the child, and a
claim for the loader and each joiner. -/
theorem residents_commitLoad (child : Child) (realBytes : Bytes) (ws : List WaiterId) :
    ∃ seq : ResidentModel → Nat, (co.commitLoad m op child realBytes ws).residents =
      co.residents.modify m fun r => { r with
        state := .resident
        vramAccountedBytes := realBytes
        activeRequests := r.activeRequests + 1 + ws.countP fun w => (co.waiters.get? w).isSome
        recencySeq := seq r
        child := some child
        materialized := child.pid.isSome } := by
  obtain ⟨seq, hseq⟩ := residents_grantAll m ws
    (((co.settle m child realBytes).touch m).grantClaim m op)
  have hpre : (((co.settle m child realBytes).touch m).grantClaim m op).residents =
      co.residents.modify m fun r => { r with
        state := .resident
        vramAccountedBytes := realBytes
        activeRequests := r.activeRequests + 1
        recencySeq := co.recencySeq + 1
        child := some child
        materialized := child.pid.isSome } := by
    rw [residents_grantClaim]
    simp only [settle, touch, Dict.modify_modify]
  rw [hpre, Dict.modify_modify] at hseq
  exact ⟨_, hseq⟩

end Coordinator

end MlopsLite.HostAgent
