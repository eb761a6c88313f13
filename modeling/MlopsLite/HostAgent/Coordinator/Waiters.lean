import MlopsLite.HostAgent.Coordinator.Desk

/-!
# Coordinator — sections that write claims or waiters

For each section that mints a claim or changes a waiter, what it does for
its own operation and what it leaves to the others.
-/

namespace MlopsLite.HostAgent

namespace Coordinator

variable {gpu : Gpu} {op : OpId} {co co' : Coordinator} {pc pc' : Pc} {k k' : Desk}

/-! ## Minting one claim -/

theorem claims_grantClaim (co : Coordinator) (m : ModelKey) (op : OpId) :
    ∃ cl : Claim, cl.opId = op ∧
      (co.grantClaim m op).claims = co.claims.insert co.nextClaim cl :=
  ⟨_, rfl, rfl⟩

theorem serves_grantClaim {m : ModelKey} (hr : Registry co) (hj : Joined op co .away) :
    Serves op co (co.grantClaim m op) (.shared co.nextClaim) := by
  obtain ⟨cl₀, hop₀, hcl⟩ := claims_grantClaim co m op
  have old : ∀ c cl, co.claims.get? c = some cl → (co.grantClaim m op).claims.get? c = some cl := by
    intro c cl hc
    have hne : c ≠ co.nextClaim := Nat.ne_of_lt (hr.oldClaim c cl hc)
    rw [hcl, Dict.get?_insert_ne _ _ hne, hc]
  have new : ∀ c cl, (co.grantClaim m op).claims.get? c = some cl →
      (c = co.nextClaim ∧ cl = cl₀) ∨ co.claims.get? c = some cl := by
    intro c cl hc
    rw [hcl, Dict.get?_insert] at hc
    split at hc
    · exact .inl ⟨‹_›, (Option.some.inj hc).symm⟩
    · exact .inr hc
  refine ⟨⟨hr.member, hr.nodup, hr.disjoint, hr.apart, hr.custody, hr.oldWaiter, hr.oldPending, ?_⟩,
    ⟨(by simp), ?_, ?_, ?_, hj.noGrant, ?_, ?_, ?_, hj.pending, (by simp), (by simp), ?_⟩,
    ⟨fun w x hx => ⟨x, hx, rfl, fun _ => rfl⟩, fun w x hx _ => ⟨x, hx, .inl rfl⟩, ?_, ?_,
      fun _ _ => rfl⟩⟩
  · intro c cl hc
    show c < co.nextClaim + 1
    rcases new c cl hc with ⟨rfl, -⟩ | hc
    · exact Nat.lt_succ_self _
    · exact Nat.lt_succ_of_lt (hr.oldClaim c cl hc)
  · intro w x hx hop hd
    cases hj.waiting w x hx hop hd
  · intro w x c hx hop hd
    rcases hj.shared w x c hx hop hd with hk | hk <;> cases hk
  · intro w x c hx hop hd
    rcases hj.shared w x c hx hop hd with hk | hk <;> cases hk
  · intro w x hx hop hd
    cases hj.timedOut w x hx hop hd
  · intro c cl hc hop
    rcases new c cl hc with ⟨rfl, -⟩ | hc
    · exact .inl rfl
    · rcases hj.claimed c cl hc hop with hk | ⟨w, x, hk, -⟩ <;> cases hk
  · intro c hk
    obtain rfl : co.nextClaim = c := by simpa [Desk.claim?] using hk
    exact ⟨cl₀, by rw [hcl, Dict.get?_insert_self], hop₀⟩
  · intro c _ w w' x x' c₁ c₂ hx hop hd
    rcases hj.shared w x c₁ hx hop hd with hk | hk <;> cases hk
  · intro c cl hc
    exact ⟨cl, old c cl hc, rfl⟩
  · intro c cl hnone hc hne
    rcases new c cl hc with ⟨-, rfl⟩ | hc
    · exact absurd hop₀ hne
    · simp [hnone] at hc

/-! ## Joining -/

theorem Registry.old (hr : Registry co) {o : OpId} {w : WaiterId} (hw : w ∈ co.registry o) :
    w < co.nextWaiter := by
  obtain ⟨x, hx, -⟩ := hr.member o w hw
  exact hr.oldWaiter w x hx

theorem mem_registry_join {owner : OpId} {r : Reservation}
    (ho : co.reservations.get? owner = some r) (o : OpId) (w : WaiterId) :
    w ∈ (co.join owner op).registry o ↔
      w ∈ co.registry o ∨ o = owner ∧ w = co.nextWaiter := by
  simp only [registry, join, Dict.get?_modify]
  split
  · rename_i h
    simp [h, ho]
  · rename_i h
    simp [h]

theorem nodup_registry_join {owner : OpId} (hr : Registry co) (o : OpId) :
    ((co.join owner op).registry o).Nodup := by
  have hnodup := hr.nodup o
  simp only [registry, join, Dict.get?_modify] at hnodup ⊢
  split
  · cases hget : co.reservations.get? o with
    | none => simp
    | some r =>
      have hnew : co.nextWaiter ∉ r.waiters := by
        intro hw
        exact absurd (hr.old (o := o) (by simpa [registry, hget] using hw)) (Nat.lt_irrefl _)
      rw [hget] at hnodup
      have happ : (r.waiters ++ [co.nextWaiter]).Nodup := by
        rw [List.nodup_append]
        refine ⟨hnodup, List.nodup_singleton _, ?_⟩
        intro a ha b hb hab
        exact hnew (List.mem_singleton.mp hb ▸ hab ▸ ha)
      exact happ
  · exact hnodup

theorem serves_join {owner : OpId} {r : Reservation} (ho : co.reservations.get? owner = some r)
    (hr : Registry co) (hj : Joined op co .away) :
    Serves op co (co.join owner op) (.awaiting co.nextWaiter) := by
  have hmem : ∀ o w, w ∈ (co.join owner op).registry o ↔ _ := mem_registry_join ho
  have old : ∀ w x, co.waiters.get? w = some x →
      (co.join owner op).waiters.get? w = some x := by
    intro w x hx
    have hne : w ≠ co.nextWaiter := Nat.ne_of_lt (hr.oldWaiter w x hx)
    simp [join, Dict.get?_insert_ne _ _ hne, hx]
  have new : ∀ w x, (co.join owner op).waiters.get? w = some x →
      (w = co.nextWaiter ∧ x = ⟨op, none⟩) ∨ co.waiters.get? w = some x := by
    intro w x hx
    simp only [join, Dict.get?_insert] at hx
    split at hx
    · exact .inl ⟨‹_›, (Option.some.inj hx).symm⟩
    · exact .inr hx
  have hself : (co.join owner op).waiters.get? co.nextWaiter = some ⟨op, none⟩ := by
    simp [join]
  refine ⟨⟨?_, nodup_registry_join hr, ?_, ?_, ?_, ?_, ?_, hr.oldClaim⟩,
    ⟨?_, ?_, ?_, ?_, ?_, ?_, ?_, (by intros; contradiction), hj.pending, (by simp), (by simp), (by simp)⟩,
    ⟨fun w x hx => ⟨x, old w x hx, rfl, fun _ => rfl⟩, ?_, fun c cl hc => ⟨cl, hc, rfl⟩, ?_,
      fun _ _ => rfl⟩⟩
  · intro o w hw
    rcases (hmem o w).mp hw with hw | ⟨-, rfl⟩
    · obtain ⟨x, hx, hd⟩ := hr.member o w hw
      exact ⟨x, old w x hx, hd⟩
    · exact ⟨_, hself, rfl⟩
  · intro o o' w hw hw'
    rcases (hmem o w).mp hw with hin | ⟨rfl, rfl⟩
    · rcases (hmem o' w).mp hw' with hin' | ⟨rfl, rfl⟩
      · exact hr.disjoint o o' w hin hin'
      · exact absurd (hr.old hin) (Nat.lt_irrefl _)
    · rcases (hmem o' _).mp hw' with hin' | ⟨rfl, -⟩
      · exact absurd (hr.old hin') (Nat.lt_irrefl _)
      · rfl
  · intro o o' ws w hw hp hin
    rcases (hmem o w).mp hw with hw | ⟨-, rfl⟩
    · exact hr.apart o o' ws w hw hp hin
    · exact absurd (hr.oldPending o' ws _ hp hin) (Nat.lt_irrefl _)
  · intro w x hx hd
    rcases new w x hx with ⟨rfl, -⟩ | hx
    · exact .inl ⟨owner, (hmem owner _).mpr (.inr ⟨rfl, rfl⟩)⟩
    · rcases hr.custody w x hx hd with ⟨o, hw⟩ | hp
      · exact .inl ⟨o, (hmem o w).mpr (.inl hw)⟩
      · exact .inr hp
  · intro w x hx
    rcases new w x hx with ⟨rfl, -⟩ | hx
    · exact Nat.lt_succ_self _
    · exact Nat.lt_succ_of_lt (hr.oldWaiter w x hx)
  · intro o ws w hp hw
    exact Nat.lt_succ_of_lt (hr.oldPending o ws w hp hw)
  · intro w hk
    obtain rfl : co.nextWaiter = w := by simpa using hk
    exact ⟨_, hself, rfl⟩
  · intro w x hx hop hd
    rcases new w x hx with ⟨rfl, -⟩ | hx
    · rfl
    · cases hj.waiting w x hx hop hd
  · intro w x c hx hop hd
    rcases new w x hx with ⟨-, rfl⟩ | hx
    · cases hd
    · rcases hj.shared w x c hx hop hd with hk | hk <;> cases hk
  · intro w x c hx hop hd
    rcases new w x hx with ⟨-, rfl⟩ | hx
    · cases hd
    · exact hj.sharedClaim w x c hx hop hd
  · intro w x c hx hop hd
    rcases new w x hx with ⟨-, rfl⟩ | hx
    · cases hd
    · exact hj.noGrant w x c hx hop hd
  · intro w x hx hop hd
    rcases new w x hx with ⟨-, rfl⟩ | hx
    · cases hd
    · cases hj.timedOut w x hx hop hd
  · intro c cl hc hop
    rcases hj.claimed c cl hc hop with hk | ⟨w, x, hk, -⟩ <;> cases hk
  · intro w x hx hne
    rcases new w x hx with ⟨-, rfl⟩ | hx
    · exact absurd rfl hne
    · exact ⟨x, hx, .inl rfl⟩
  · intro c cl hnone hc
    have hc' : co.claims.get? c = some cl := hc
    simp [hnone] at hc'

/-! ## Waking up -/

/-- A joiner that finds a claim takes it. -/
theorem Joined.take_claim {w : WaiterId} {x : Waiter} {c : ClaimId}
    (hj : Joined op co (.awaiting w)) (hx : co.waiters.get? w = some x)
    (hd : x.disposition = some (.outcome (.share c))) : Joined op co (.shared c) := by
  obtain ⟨y, hy, hop⟩ := hj.awaits w rfl
  obtain rfl := Option.some.inj (hx.symm.trans hy)
  refine ⟨nofun, ?_, ?_, hj.sharedClaim, hj.noGrant, ?_, ?_, ?_, hj.pending, nofun, nofun, ?_⟩
  · intro w' x' hx' hop' hd'
    obtain rfl : w = w' := by simpa using hj.waiting w' x' hx' hop' hd'
    obtain rfl := Option.some.inj (hx.symm.trans hx')
    simp [hd] at hd'
  · intro w' x' c' hx' hop' hd'
    rcases hj.shared w' x' c' hx' hop' hd' with hk | hk
    · obtain rfl : w = w' := by simpa using hk
      obtain rfl := Option.some.inj (hx.symm.trans hx')
      obtain rfl : c = c' := by simpa using hd.symm.trans hd'
      exact .inr rfl
    · cases hk
  · intro w' x' hx' hop' hd'
    cases hj.timedOut w' x' hx' hop' hd'
  · intro c' cl hc hop'
    rcases hj.claimed c' cl hc hop' with hk | ⟨w', x', hk, hx', hd'⟩
    · cases hk
    · obtain rfl : w = w' := by simpa using hk
      obtain rfl := Option.some.inj (hx.symm.trans hx')
      obtain rfl : c = c' := by simpa using hd.symm.trans hd'
      exact .inl rfl
  · intro c' hk
    obtain rfl : c = c' := by simpa [Desk.claim?] using hk
    exact hj.sharedClaim w x c hx hop hd
  · intro _ _ w₁ w₂ x₁ x₂ c₁ c₂ hx₁ hop₁ hd₁ hx₂ hop₂ hd₂
    have one : ∀ v y b, co.waiters.get? v = some y → y.opId = op →
        y.disposition = some (.outcome (.share b)) → w = v := by
      intro v y b hy hop' hd'
      rcases hj.shared v y b hy hop' hd' with hk | hk
      · simpa using hk
      · cases hk
    exact (one w₁ x₁ c₁ hx₁ hop₁ hd₁).symm.trans (one w₂ x₂ c₂ hx₂ hop₂ hd₂)

/-- A joiner that finds any other disposition goes on without a claim. -/
theorem Joined.go_on {w : WaiterId} {x : Waiter} {d : Disposition}
    (hj : Joined op co (.awaiting w)) (hx : co.waiters.get? w = some x)
    (hd : x.disposition = some d) (hshare : ∀ c, d ≠ .outcome (.share c)) :
    Joined op co .away := by
  refine ⟨nofun, ?_, ?_, hj.sharedClaim, hj.noGrant, ?_, ?_, nofun, hj.pending, nofun, nofun,
    nofun⟩
  · intro w' x' hx' hop' hd'
    obtain rfl : w = w' := by simpa using hj.waiting w' x' hx' hop' hd'
    obtain rfl := Option.some.inj (hx.symm.trans hx')
    simp [hd] at hd'
  · intro w' x' c' hx' hop' hd'
    rcases hj.shared w' x' c' hx' hop' hd' with hk | hk
    · obtain rfl : w = w' := by simpa using hk
      obtain rfl := Option.some.inj (hx.symm.trans hx')
      exact absurd (Option.some.inj (hd.symm.trans hd')) (hshare c')
    · cases hk
  · intro w' x' hx' hop' hd'
    cases hj.timedOut w' x' hx' hop' hd'
  · intro c' cl hc hop'
    rcases hj.claimed c' cl hc hop' with hk | ⟨w', x', hk, hx', hd'⟩
    · cases hk
    · obtain rfl : w = w' := by simpa using hk
      obtain rfl := Option.some.inj (hx.symm.trans hx')
      exact absurd (Option.some.inj (hd.symm.trans hd')) (hshare c')

/-! ## Timing out -/

theorem serves_deregister {w : WaiterId} (hr : Registry co) (hj : Joined op co (.awaiting w))
    (hd : (co.waiters.get? w).bind Waiter.disposition = none) :
    Serves op co (co.deregister op w) .timedOut := by
  obtain ⟨x, hx, hop⟩ := hj.awaits w rfl
  have hnone : x.disposition = none := by simpa [hx] using hd
  have hreg : ∀ o, (co.deregister op w).registry o = (co.registry o).erase w := by
    intro o
    cases hget : co.reservations.get? o <;> simp [registry, deregister, hget]
  have hmem : ∀ o w', w' ∈ (co.deregister op w).registry o ↔ w' ≠ w ∧ w' ∈ co.registry o := by
    intro o w'
    rw [hreg, (hr.nodup o).mem_erase_iff]
  have hself : (co.deregister op w).waiters.get? w =
      some { x with disposition := some (.outcome (.refuse .waiterDeadline)) } := by
    simp [deregister, hx]
  have other : ∀ w', w' ≠ w → (co.deregister op w).waiters.get? w' = co.waiters.get? w' := by
    intro w' hne
    exact Dict.get?_modify_ne _ _ hne
  -- a waiter of `op` in any state but timed out is the one it awaits
  have only : ∀ w' x', (co.deregister op w).waiters.get? w' = some x' →
      x'.disposition ≠ some (.outcome (.refuse .waiterDeadline)) →
      w' ≠ w ∧ co.waiters.get? w' = some x' := by
    intro w' x' hx' hne
    by_cases hw : w' = w
    · subst hw
      obtain rfl := Option.some.inj (hself.symm.trans hx')
      exact absurd rfl hne
    · exact ⟨hw, other w' hw ▸ hx'⟩
  refine ⟨⟨?_, ?_, ?_, ?_, ?_, ?_, hr.oldPending, hr.oldClaim⟩,
    ⟨(by simp), ?_, ?_, ?_, ?_, fun _ _ _ _ _ => rfl, ?_, (by intros; contradiction), hj.pending, (by simp), (by simp), (by simp)⟩,
    ⟨?_, ?_, fun c cl hc => ⟨cl, hc, rfl⟩, ?_, fun _ _ => rfl⟩⟩
  · intro o w' hw
    obtain ⟨hne, hin⟩ := (hmem o w').mp hw
    rw [other w' hne]
    exact hr.member o w' hin
  · intro o
    rw [hreg]
    exact (hr.nodup o).erase w
  · intro o o' w' hw hw'
    exact hr.disjoint o o' w' ((hmem o w').mp hw).2 ((hmem o' w').mp hw').2
  · intro o o' ws w' hw hp
    exact hr.apart o o' ws w' ((hmem o w').mp hw).2 hp
  · intro w' x' hx' hd'
    obtain ⟨hne, hx'⟩ := only w' x' hx' (by simp [hd'])
    rcases hr.custody w' x' hx' hd' with ⟨o, hin⟩ | hp
    · exact .inl ⟨o, (hmem o w').mpr ⟨hne, hin⟩⟩
    · exact .inr hp
  · intro w' x' hx'
    by_cases hw : w' = w
    · subst hw
      exact hr.oldWaiter w' x hx
    · exact hr.oldWaiter w' x' (other w' hw ▸ hx')
  · intro w' x' hx' hop' hd'
    obtain ⟨hne, hx'⟩ := only w' x' hx' (by simp [hd'])
    have hk : Desk.awaiting w = .awaiting w' := hj.waiting w' x' hx' hop' hd'
    exact absurd (by simpa using hk.symm) hne
  · intro w' x' c hx' hop' hd'
    obtain ⟨hne, hx'⟩ := only w' x' hx' (by simp [hd'])
    rcases hj.shared w' x' c hx' hop' hd' with hk | hk
    · exact absurd (by simpa using hk.symm) hne
    · cases hk
  · intro w' x' c hx' hop' hd'
    obtain ⟨-, hx'⟩ := only w' x' hx' (by simp [hd'])
    exact hj.sharedClaim w' x' c hx' hop' hd'
  · intro w' x' c hx' hop' hd'
    obtain ⟨-, hx'⟩ := only w' x' hx' (by simp [hd'])
    exact hj.noGrant w' x' c hx' hop' hd'
  · intro c cl hc hop'
    rcases hj.claimed c cl hc hop' with hk | ⟨w', x', hk, hx', hd'⟩
    · cases hk
    · obtain rfl : w = w' := by simpa using hk
      obtain rfl := Option.some.inj (hx.symm.trans hx')
      simp [hnone] at hd'
  · intro w' x' hx'
    by_cases hw : w' = w
    · subst hw
      obtain rfl := Option.some.inj (hx.symm.trans hx')
      exact ⟨_, hself, rfl, fun hne => absurd hnone hne⟩
    · exact ⟨x', by rw [other w' hw, hx'], rfl, fun _ => rfl⟩
  · intro w' x' hx' hne
    by_cases hw : w' = w
    · subst hw
      obtain rfl := Option.some.inj (hself.symm.trans hx')
      exact absurd hop hne
    · exact ⟨x', other w' hw ▸ hx', .inl rfl⟩
  · intro c cl hn hc
    have hc' : co.claims.get? c = some cl := hc
    simp [hn] at hc'

/-! ## Custody -/

/-- The owner of a load that will not commit takes its registry over. -/
theorem serves_custody {d : Disposition} (hp : d.plain = true)
    (hw : co'.waiters = co.waiters) (hc : co'.claims = co.claims)
    (hres : co'.reservations = co.reservations.erase op)
    (hpend : co'.pendingDisposal = co.pendingDisposal.insert op (co.registry op))
    (hnw : co'.nextWaiter = co.nextWaiter) (hnc : co'.nextClaim = co.nextClaim)
    (hr : Registry co) (hj : Joined op co .away) :
    Serves op co co' (.disposing (co.registry op) d) := by
  have hreg : ∀ o w, w ∈ co'.registry o ↔ o ≠ op ∧ w ∈ co.registry o := by
    intro o w
    rw [registry, hres, Dict.get?_erase]
    split
    · simp_all
    · simp_all [registry]
  have hpen : ∀ o ws, co'.pendingDisposal.get? o = some ws →
      (o = op ∧ ws = co.registry op) ∨ co.pendingDisposal.get? o = some ws := by
    intro o ws ho
    rw [hpend, Dict.get?_insert] at ho
    split at ho
    · exact .inl ⟨‹_›, (Option.some.inj ho).symm⟩
    · exact .inr ho
  refine ⟨⟨?_, ?_, ?_, ?_, ?_, ?_, ?_, ?_⟩, ⟨(by simp), ?_, ?_, ?_, ?_, ?_, ?_, (by intros; contradiction), ?_, ?_, (by simp),
    (by simp)⟩, ⟨?_, ?_, ?_, ?_, ?_⟩⟩
  · intro o w hin
    rw [hw]
    exact hr.member o w ((hreg o w).mp hin).2
  · intro o
    rw [registry, hres, Dict.get?_erase]
    split
    · simp
    · exact hr.nodup o
  · intro o o' w hin hin'
    exact hr.disjoint o o' w ((hreg o w).mp hin).2 ((hreg o' w).mp hin').2
  · intro o o' ws w hin ho' hws
    obtain ⟨hne, hin⟩ := (hreg o w).mp hin
    rcases hpen o' ws ho' with ⟨rfl, rfl⟩ | ho'
    · exact hne (hr.disjoint o o' w hin hws)
    · exact hr.apart o o' ws w hin ho' hws
  · intro w x hx hd
    rcases hr.custody w x (hw ▸ hx) hd with ⟨o, hin⟩ | ⟨o, ws, ho, hin⟩
    · by_cases hop : o = op
      · subst hop
        exact .inr ⟨o, _, by rw [hpend, Dict.get?_insert_self], hin⟩
      · exact .inl ⟨o, (hreg o w).mpr ⟨hop, hin⟩⟩
    · have hop : o ≠ op := by
        rintro rfl
        have hnone := hj.pending
        simp [ho, Desk.custody?] at hnone
      exact .inr ⟨o, ws, by rw [hpend, Dict.get?_insert_ne _ _ hop, ho], hin⟩
  · intro w x hx
    exact hnw ▸ hr.oldWaiter w x (hw ▸ hx)
  · intro o ws w ho hin
    rw [hnw]
    rcases hpen o ws ho with ⟨rfl, rfl⟩ | ho
    · exact hr.old hin
    · exact hr.oldPending o ws w ho hin
  · intro c cl hcl
    exact hnc ▸ hr.oldClaim c cl (hc ▸ hcl)
  · intro w x hx hop hd
    cases hj.waiting w x (hw ▸ hx) hop hd
  · intro w x c hx hop hd
    rcases hj.shared w x c (hw ▸ hx) hop hd with hk | hk <;> cases hk
  · rw [hw, hc]
    exact hj.sharedClaim
  · rw [hw]
    exact hj.noGrant
  · intro w x hx hop hd
    cases hj.timedOut w x (hw ▸ hx) hop hd
  · intro c cl hcl hop
    rcases hj.claimed c cl (hc ▸ hcl) hop with hk | ⟨w, x, hk, -⟩ <;> cases hk
  · rw [hpend, Dict.get?_insert_self]
    rfl
  · intro ws d' hk
    obtain ⟨-, rfl⟩ : _ ∧ _ := by simpa using hk
    exact hp
  · intro w x hx
    exact ⟨x, hw ▸ hx, rfl, fun _ => rfl⟩
  · intro w x hx _
    exact ⟨x, hw ▸ hx, .inl rfl⟩
  · intro c cl hcl
    exact ⟨cl, hc ▸ hcl, rfl⟩
  · intro c cl hn hcl
    rw [hc, hn] at hcl
    cases hcl
  · intro o ho
    rw [hpend, Dict.get?_insert_ne _ _ ho]

/-! ## Disposing -/

/-- A waiter with `d`, unless it has a disposition already. -/
def Waiter.given (d : Disposition) (x : Waiter) : Waiter :=
  if x.disposition.isNone then { x with disposition := some d } else x

theorem Waiter.given_of_none {d : Disposition} {x : Waiter} (h : x.disposition = none) :
    Waiter.given d x = { x with disposition := some d } := by
  simp [Waiter.given, h]

theorem Waiter.given_of_some {d : Disposition} {x : Waiter} (h : x.disposition ≠ none) :
    Waiter.given d x = x := by
  simp [Waiter.given, h]

theorem Waiter.given_given (d : Disposition) (x : Waiter) :
    Waiter.given d (Waiter.given d x) = Waiter.given d x := by
  cases h : x.disposition with
  | none => rw [Waiter.given_of_none h, Waiter.given_of_some (by simp)]
  | some d' =>
    have hs : Waiter.given d x = x := Waiter.given_of_some (by simp [h])
    rw [hs, hs]

theorem get?_foldl_assign (d : Disposition) (ws : List WaiterId) (ts : Dict WaiterId Waiter)
    (w : WaiterId) :
    (ws.foldl (fun acc w => assign acc d w) ts).get? w =
      if w ∈ ws then (ts.get? w).map (Waiter.given d) else ts.get? w := by
  induction ws generalizing ts with
  | nil => simp
  | cons v ws ih =>
    have hassign : assign ts d v = ts.modify v (Waiter.given d) := rfl
    rw [List.foldl_cons, ih, hassign]
    by_cases hv : w = v
    · subst hv
      simp [Option.map_map, Function.comp_def, Waiter.given_given]
    · simp [Dict.get?_modify_ne _ _ hv, hv]

theorem registry_dispose (ws : List WaiterId) (d : Disposition) (o : OpId) :
    (co.dispose ws d op).registry o = co.registry o := rfl

theorem serves_dispose {ws : List WaiterId} {d : Disposition} (hr : Registry co)
    (hj : Joined op co (.disposing ws d)) : Serves op co (co.dispose ws d op) .away := by
  have hplain := hj.plain ws d rfl
  have hown : co.pendingDisposal.get? op = some ws := hj.pending
  have hget : ∀ w, (co.dispose ws d op).waiters.get? w = if w ∈ ws then
      (co.waiters.get? w).map (Waiter.given d) else co.waiters.get? w :=
    get?_foldl_assign d ws co.waiters
  -- a waiter after the section: unchanged, or in custody and given `d`
  have new : ∀ w x', (co.dispose ws d op).waiters.get? w = some x' →
      ∃ x, co.waiters.get? w = some x ∧ (x' = x ∧ (x.disposition = none → w ∉ ws) ∨
        x.disposition = none ∧ x' = { x with disposition := some d }) := by
    intro w x' hx'
    rw [hget] at hx'
    split at hx'
    · obtain ⟨x, hx, rfl⟩ := Option.map_eq_some_iff.mp hx'
      refine ⟨x, hx, ?_⟩
      cases hd : x.disposition with
      | none => exact .inr ⟨rfl, Waiter.given_of_none hd⟩
      | some _ => exact .inl ⟨Waiter.given_of_some (by simp [hd]), by simp⟩
    · exact ⟨x', hx', .inl ⟨rfl, fun _ => ‹_›⟩⟩
  have share {d' : Disposition} (h : some d' = some d) {P : Prop} (hn : d'.plain = false) : P := by
    obtain rfl := Option.some.inj h
    simp [hplain] at hn
  refine ⟨⟨?_, hr.nodup, hr.disjoint, ?_, ?_, ?_, ?_, hr.oldClaim⟩,
    ⟨(by simp), ?_, ?_, ?_, ?_, ?_, ?_, (by intros; contradiction), ?_, (by simp), (by simp), (by simp)⟩,
    ⟨?_, ?_, fun c cl hc => ⟨cl, hc, rfl⟩, ?_, ?_⟩⟩
  · intro o w hw
    have hout : w ∉ ws := hr.apart o op ws w hw hown
    rw [hget, if_neg hout]
    exact hr.member o w hw
  · intro o o' ws' w hw hp
    simp only [dispose, Dict.get?_erase] at hp
    split at hp
    · cases hp
    · exact hr.apart o o' ws' w hw hp
  · intro w x' hx' hd'
    obtain ⟨x, hx, ⟨rfl, hout⟩ | ⟨-, rfl⟩⟩ := new w x' hx'
    · rcases hr.custody w x' hx hd' with hreg | ⟨o, ws', ho, hin⟩
      · exact .inl hreg
      · have hne : o ≠ op := by
          rintro rfl
          obtain rfl := Option.some.inj (hown.symm.trans ho)
          exact hout hd' hin
        exact .inr ⟨o, ws', by simp [dispose, Dict.get?_erase_ne _ hne, ho], hin⟩
    · cases hd'
  · intro w x' hx'
    obtain ⟨x, hx, -⟩ := new w x' hx'
    exact hr.oldWaiter w x hx
  · intro o ws' w hp hw
    simp only [dispose, Dict.get?_erase] at hp
    split at hp
    · cases hp
    · exact hr.oldPending o ws' w hp hw
  · intro w x' hx' hop hd'
    obtain ⟨x, hx, ⟨rfl, -⟩ | ⟨-, rfl⟩⟩ := new w x' hx'
    · cases hj.waiting w x' hx hop hd'
    · cases hd'
  · intro w x' c hx' hop hd'
    obtain ⟨x, hx, ⟨rfl, -⟩ | ⟨-, rfl⟩⟩ := new w x' hx'
    · rcases hj.shared w x' c hx hop hd' with hk | hk <;> cases hk
    · exact share hd'.symm rfl
  · intro w x' c hx' hop hd'
    obtain ⟨x, hx, ⟨rfl, -⟩ | ⟨-, rfl⟩⟩ := new w x' hx'
    · exact hj.sharedClaim w x' c hx hop hd'
    · exact share hd'.symm rfl
  · intro w x' c hx' hop hd'
    obtain ⟨x, hx, ⟨rfl, -⟩ | ⟨-, rfl⟩⟩ := new w x' hx'
    · exact hj.noGrant w x' c hx hop hd'
    · exact share hd'.symm rfl
  · intro w x' hx' hop hd'
    obtain ⟨x, hx, ⟨rfl, -⟩ | ⟨-, rfl⟩⟩ := new w x' hx'
    · cases hj.timedOut w x' hx hop hd'
    · exact share hd'.symm rfl
  · intro c cl hc hop
    rcases hj.claimed c cl hc hop with hk | ⟨w, x, hk, -⟩ <;> cases hk
  · simp [dispose, Desk.custody?]
  · intro w x hx
    by_cases hw : w ∈ ws
    · refine ⟨Waiter.given d x, by simp [hget, hw, hx], ?_, Waiter.given_of_some⟩
      unfold Waiter.given
      split <;> rfl
    · exact ⟨x, by simp [hget, hw, hx], rfl, fun _ => rfl⟩
  · intro w x' hx' _
    obtain ⟨x, hx, ⟨rfl, -⟩ | ⟨hnone, rfl⟩⟩ := new w x' hx'
    · exact ⟨x', hx, .inl rfl⟩
    · exact ⟨x, hx, .inr ⟨hnone, rfl, .inl ⟨d, hplain, rfl⟩⟩⟩
  · intro c cl hn hc
    have hc' : co.claims.get? c = some cl := hc
    simp [hn] at hc'
  · intro o ho
    simp [dispose, Dict.get?_erase_ne _ ho]

/-- After a commit the joiners have their claims and `_dispose` only wakes
them. -/
theorem sameDesk_dispose_granted {c : ClaimId} {ws : List WaiterId} {d : Disposition}
    (hj : Joined op co (.granted c ws)) : SameDesk co (co.dispose ws d op) := by
  refine ⟨?_, fun _ => rfl, fun _ => rfl, ?_, rfl, rfl⟩
  · intro w
    rw [dispose, get?_foldl_assign]
    split
    · rename_i hw
      obtain ⟨x, hx, hd⟩ := hj.granted c ws w rfl hw
      simp [hx, Waiter.given_of_some hd]
    · rfl
  · intro o
    by_cases ho : o = op
    · subst ho
      rw [hj.pending]
      simp [dispose, Desk.custody?]
    · simp [dispose, Dict.get?_erase_ne _ ho]

theorem Joined.return_claim {c : ClaimId} {ws : List WaiterId}
    (hj : Joined op co (.granted c ws)) : Joined op co (.owns c) := by
  refine ⟨nofun, ?_, ?_, hj.sharedClaim, hj.noGrant, ?_, ?_, hj.held, hj.pending, nofun, nofun,
    nofun⟩
  · intro w x hx hop hd
    cases hj.waiting w x hx hop hd
  · intro w x c' hx hop hd
    rcases hj.shared w x c' hx hop hd with hk | hk <;> cases hk
  · intro w x hx hop hd
    cases hj.timedOut w x hx hop hd
  · intro c' cl hc hop
    rcases hj.claimed c' cl hc hop with hk | ⟨w, x, hk, -⟩
    · exact .inl hk
    · cases hk

/-! ## Committing -/

/-- What granting claims to `ws` does to waiters and claims. -/
structure GrantsAll (ws : List WaiterId) (co co' : Coordinator) : Prop where
  outside : ∀ w, w ∉ ws → co'.waiters.get? w = co.waiters.get? w
  inside : ∀ w ∈ ws, ∀ x, co.waiters.get? w = some x → ∃ c cl,
    co'.waiters.get? w = some { x with disposition := some (.outcome (.share c)) } ∧
    co'.claims.get? c = some cl ∧ cl.opId = x.opId
  kept : ∀ c cl, co.claims.get? c = some cl → co'.claims.get? c = some cl
  minted : ∀ c cl, co.claims.get? c = none → co'.claims.get? c = some cl → ∃ w ∈ ws, ∃ x,
    co.waiters.get? w = some x ∧ x.opId = cl.opId ∧
    co'.waiters.get? w = some { x with disposition := some (.outcome (.share c)) }
  old : ∀ c cl, co'.claims.get? c = some cl → c < co'.nextClaim

theorem grantsAll (m : ModelKey) {ws : List WaiterId} (hn : ws.Nodup) (co : Coordinator)
    (hold : ∀ c cl, co.claims.get? c = some cl → c < co.nextClaim)
    (hws : ∀ w ∈ ws, ∃ x, co.waiters.get? w = some x) :
    GrantsAll ws co (ws.foldl (grantWaiter m) co) := by
  induction ws generalizing co with
  | nil =>
    refine ⟨fun _ _ => rfl, nofun, fun _ _ h => h, ?_, hold⟩
    intro c cl hnone hc
    have hc' : co.claims.get? c = some cl := hc
    simp [hnone] at hc'
  | cons w ws ih =>
    obtain ⟨hw, hn⟩ := List.nodup_cons.mp hn
    obtain ⟨x, hx⟩ := hws w (List.mem_cons_self ..)
    obtain ⟨cl₀, hop₀, hcl⟩ := claims_grantClaim co m x.opId
    have hco : grantWaiter m co w = { co.grantClaim m x.opId with
        waiters := co.waiters.modify w fun x =>
          { x with disposition := some (.outcome (.share co.nextClaim)) } } := by
      simp [grantWaiter, hx]
    have hself : (grantWaiter m co w).waiters.get? w =
        some { x with disposition := some (.outcome (.share co.nextClaim)) } := by
      simp [hco, hx]
    have hother : ∀ v, v ≠ w → (grantWaiter m co w).waiters.get? v = co.waiters.get? v := by
      intro v hv
      rw [hco]
      exact Dict.get?_modify_ne _ _ hv
    have hclaims : (grantWaiter m co w).claims = co.claims.insert co.nextClaim cl₀ := by
      rw [hco]
      exact hcl
    have hnext : (grantWaiter m co w).nextClaim = co.nextClaim + 1 := by
      rw [hco]
      rfl
    have hkept : ∀ c cl, co.claims.get? c = some cl →
        (grantWaiter m co w).claims.get? c = some cl := by
      intro c cl hc
      have hne : c ≠ co.nextClaim := Nat.ne_of_lt (hold c cl hc)
      rw [hclaims, Dict.get?_insert_ne _ _ hne, hc]
    have hrec := ih hn (grantWaiter m co w) ?_ ?_
    · rw [List.foldl_cons]
      have notin : ∀ v ∈ ws, v ≠ w := fun v hv hvw => hw (hvw ▸ hv)
      refine ⟨?_, ?_, ?_, ?_, hrec.old⟩
      · intro v hv
        obtain ⟨hvw, hv⟩ := not_or.mp (fun h => hv (List.mem_cons.mpr h))
        rw [hrec.outside v hv, hother v hvw]
      · intro v hv y hy
        rcases List.mem_cons.mp hv with rfl | hv
        · obtain rfl := Option.some.inj (hx.symm.trans hy)
          exact ⟨co.nextClaim, cl₀, by rw [hrec.outside v hw, hself],
            hrec.kept _ _ (by rw [hclaims, Dict.get?_insert_self]), hop₀⟩
        · exact hrec.inside v hv y (by rw [hother v (notin v hv), hy])
      · intro c cl hc
        exact hrec.kept c cl (hkept c cl hc)
      · intro c cl hnone hc
        by_cases hcn : c = co.nextClaim
        · subst hcn
          have hnew := hrec.kept _ _ (by rw [hclaims, Dict.get?_insert_self])
          obtain rfl := Option.some.inj (hnew.symm.trans hc)
          exact ⟨w, List.mem_cons_self .., x, hx, hop₀.symm, by rw [hrec.outside w hw, hself]⟩
        · obtain ⟨v, hv, y, hy, hop, hy'⟩ := hrec.minted c cl
            (by rw [hclaims, Dict.get?_insert_ne _ _ hcn, hnone]) hc
          exact ⟨v, List.mem_cons_of_mem _ hv, y, by rw [← hother v (notin v hv), hy], hop, hy'⟩
    · intro c cl hc
      rw [hclaims, Dict.get?_insert] at hc
      rw [hnext]
      split at hc
      · exact ‹c = co.nextClaim› ▸ Nat.lt_succ_self _
      · exact Nat.lt_succ_of_lt (hold c cl hc)
    · intro v hv
      obtain ⟨y, hy⟩ := hws v (List.mem_cons_of_mem _ hv)
      exact ⟨y, by rw [hother v (fun hvw => hw (hvw ▸ hv)), hy]⟩

theorem serves_commitLoad {m : ModelKey} {child : Child} {realBytes : Bytes}
    (hr : Registry co) (hj : Joined op co .away) :
    Serves op co (co.commitLoad m op child realBytes (co.registry op))
      (.granted co.nextClaim (co.registry op)) := by
  have hmem := hr.member op
  obtain ⟨cl₀, hop₀, hcl⟩ := claims_grantClaim ((co.settle m child realBytes).touch m) m op
  have hbase : ∀ c, c ≠ co.nextClaim → (((co.settle m child realBytes).touch m).grantClaim m
      op).claims.get? c = co.claims.get? c := by
    intro c hc
    rw [hcl]
    exact Dict.get?_insert_ne _ _ hc
  have hbase₀ : (((co.settle m child realBytes).touch m).grantClaim m op).claims.get? co.nextClaim =
      some cl₀ := by
    rw [hcl]
    exact Dict.get?_insert_self _ _ _
  have hall : GrantsAll (co.registry op) (((co.settle m child realBytes).touch m).grantClaim m op)
      (co.commitLoad m op child realBytes (co.registry op)) := by
    have h := grantsAll m (hr.nodup op) (((co.settle m child realBytes).touch m).grantClaim m op) ?_ ?_
    · exact ⟨h.outside, h.inside, h.kept, h.minted, h.old⟩
    · intro c cl hc
      show c < co.nextClaim + 1
      by_cases hcn : c = co.nextClaim
      · exact hcn ▸ Nat.lt_succ_self _
      · rw [hbase c hcn] at hc
        exact Nat.lt_succ_of_lt (hr.oldClaim c cl hc)
    · intro w hw
      obtain ⟨x, hx, -⟩ := hmem w hw
      exact ⟨x, hx⟩
  have hs := sansClaims_commitLoad co m op child realBytes (co.registry op)
  have hreg : ∀ o w, w ∈ (co.commitLoad m op child realBytes (co.registry op)).registry o ↔
      o ≠ op ∧ w ∈ co.registry o := by
    intro o w
    rw [registry, reservations_commitLoad, Dict.get?_erase]
    split
    · simp_all
    · simp_all [registry]
  generalize hco' : co.commitLoad m op child realBytes (co.registry op) = co' at *
  have hpend : co'.pendingDisposal = co.pendingDisposal :=
    (congrArg Coordinator.pendingDisposal hs :)
  have hnw : co'.nextWaiter = co.nextWaiter := (congrArg Coordinator.nextWaiter hs :)
  have hkept : ∀ c cl, co.claims.get? c = some cl → co'.claims.get? c = some cl := by
    intro c cl hc
    have hne : c ≠ co.nextClaim := Nat.ne_of_lt (hr.oldClaim c cl hc)
    exact hall.kept c cl (by rw [hbase c hne, hc])
  -- where a waiter after the section comes from
  have new : ∀ w x', co'.waiters.get? w = some x' → (w ∉ co.registry op ∧
      co.waiters.get? w = some x') ∨ (w ∈ co.registry op ∧ ∃ x c cl, co.waiters.get? w = some x ∧
        x.disposition = none ∧ x' = { x with disposition := some (.outcome (.share c)) } ∧
        co'.claims.get? c = some cl ∧ cl.opId = x.opId) := by
    intro w x' hx'
    by_cases hw : w ∈ co.registry op
    · obtain ⟨x, hx, hd⟩ := hmem w hw
      obtain ⟨c, cl, hx'', hc, hop⟩ := hall.inside w hw x hx
      exact .inr ⟨hw, x, c, cl, hx, hd, Option.some.inj (hx'.symm.trans hx''), hc, hop⟩
    · exact .inl ⟨hw, by rw [hall.outside w hw] at hx'; exact hx'⟩
  have own : ∀ w x', co'.waiters.get? w = some x' → x'.opId = op →
      co.waiters.get? w = some x' := by
    intro w x' hx' hop
    rcases new w x' hx' with ⟨-, hx⟩ | ⟨-, x, c, cl, hx, hd, rfl, -⟩
    · exact hx
    · cases hj.waiting w x hx hop hd
  have new_claim : ∀ c cl, co'.claims.get? c = some cl → co.claims.get? c = none →
      (c = co.nextClaim ∧ cl = cl₀) ∨ ∃ w x, w ∈ co.registry op ∧ co.waiters.get? w = some x ∧
        x.disposition = none ∧ x.opId = cl.opId ∧
        co'.waiters.get? w = some { x with disposition := some (.outcome (.share c)) } := by
    intro c cl hc hnone
    by_cases hcn : c = co.nextClaim
    · subst hcn
      exact .inl ⟨rfl, Option.some.inj (hc.symm.trans (hall.kept _ _ hbase₀))⟩
    · obtain ⟨w, hw, x, hx, hop, hx'⟩ := hall.minted c cl (by rw [hbase c hcn, hnone]) hc
      obtain ⟨y, hy, hd⟩ := hmem w hw
      obtain rfl := Option.some.inj (hy.symm.trans hx)
      exact .inr ⟨w, y, hw, hy, hd, hop, hx'⟩
  refine ⟨⟨?_, ?_, ?_, ?_, ?_, ?_, ?_, hall.old⟩,
    ⟨(by simp), ?_, ?_, ?_, ?_, ?_, ?_, ?_, ?_, (by simp), ?_, (by simp)⟩, ⟨?_, ?_, ?_, ?_, ?_⟩⟩
  · intro o w hin
    obtain ⟨hne, hin⟩ := (hreg o w).mp hin
    have hout : w ∉ co.registry op := fun hw => hne (hr.disjoint o op w hin hw)
    rw [hall.outside w hout]
    exact hr.member o w hin
  · intro o
    by_cases ho : o = op
    · have hnil : co'.registry o = [] :=
        List.eq_nil_iff_forall_not_mem.mpr fun w hw => ((hreg o w).mp hw).1 ho
      simp [hnil]
    · rw [← hco', registry, reservations_commitLoad, Dict.get?_erase_ne _ ho]
      exact hr.nodup o
  · intro o o' w hin hin'
    exact hr.disjoint o o' w ((hreg o w).mp hin).2 ((hreg o' w).mp hin').2
  · intro o o' ws w hin hp
    exact hr.apart o o' ws w ((hreg o w).mp hin).2 (hpend ▸ hp)
  · intro w x hx hd
    rcases new w x hx with ⟨hout, hx⟩ | ⟨-, y, c, cl, -, -, rfl, -⟩
    · rcases hr.custody w x hx hd with ⟨o, hin⟩ | hp
      · exact .inl ⟨o, (hreg o w).mpr ⟨fun ho => hout (ho ▸ hin), hin⟩⟩
      · exact .inr (hpend ▸ hp)
    · cases hd
  · intro w x' hx'
    rw [hnw]
    rcases new w x' hx' with ⟨-, hx⟩ | ⟨-, x, c, cl, hx, -⟩ <;> exact hr.oldWaiter w _ hx
  · intro o ws w hp hw
    exact hnw ▸ hr.oldPending o ws w (hpend ▸ hp) hw
  · intro w x hx hop hd
    cases hj.waiting w x (own w x hx hop) hop hd
  · intro w x c hx hop hd
    rcases hj.shared w x c (own w x hx hop) hop hd with hk | hk <;> cases hk
  · intro w x c hx hop hd
    obtain ⟨cl, hc, hclu⟩ := hj.sharedClaim w x c (own w x hx hop) hop hd
    exact ⟨cl, hkept c cl hc, hclu⟩
  · intro w x c hx hop
    exact hj.noGrant w x c (own w x hx hop) hop
  · intro w x hx hop hd
    cases hj.timedOut w x (own w x hx hop) hop hd
  · intro c cl hc hop
    cases hold : co.claims.get? c with
    | some cl' =>
      obtain rfl := Option.some.inj ((hkept c cl' hold).symm.trans hc)
      rcases hj.claimed c cl' hold hop with hk | ⟨w, x, hk, -⟩ <;> cases hk
    | none =>
      rcases new_claim c cl hc hold with ⟨rfl, -⟩ | ⟨w, x, -, hx, hd, hxc, -⟩
      · exact .inl rfl
      · cases hj.waiting w x hx (hxc.trans hop) hd
  · intro c hk
    obtain rfl : co.nextClaim = c := by simpa [Desk.claim?] using hk
    exact ⟨cl₀, hall.kept _ _ hbase₀, hop₀⟩
  · rw [hpend, hj.pending]
    rfl
  · intro c ws w hk hw
    obtain ⟨-, rfl⟩ : _ ∧ _ := by simpa using hk
    obtain ⟨x, hx, -⟩ := hmem w hw
    obtain ⟨c', cl, hx', -⟩ := hall.inside w hw x hx
    exact ⟨_, hx', by simp⟩
  · intro w x hx
    by_cases hw : w ∈ co.registry op
    · obtain ⟨y, hy, hd⟩ := hmem w hw
      obtain rfl := Option.some.inj (hx.symm.trans hy)
      obtain ⟨c, cl, hx', -⟩ := hall.inside w hw x hx
      exact ⟨_, hx', rfl, fun hne => absurd hd hne⟩
    · exact ⟨x, by rw [hall.outside w hw]; exact hx, rfl, fun _ => rfl⟩
  · intro w x' hx' _
    rcases new w x' hx' with ⟨-, hx⟩ | ⟨-, x, c, cl, hx, hd, rfl, hc, hop⟩
    · exact ⟨x', hx, .inl rfl⟩
    · exact ⟨x, hx, .inr ⟨hd, rfl, .inr ⟨c, cl, rfl, hc, hop⟩⟩⟩
  · intro c cl hc
    exact ⟨cl, hkept c cl hc, rfl⟩
  · intro c cl hnone hc hne
    rcases new_claim c cl hc hnone with ⟨-, rfl⟩ | ⟨w, x, -, hx, hd, hop, hx'⟩
    · exact absurd hop₀ hne
    · exact ⟨w, x, _, hx, hd, hop, hx', rfl⟩
  · intro o _
    rw [hpend]

end Coordinator

end MlopsLite.HostAgent
