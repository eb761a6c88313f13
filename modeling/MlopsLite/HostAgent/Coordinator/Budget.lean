import MlopsLite.HostAgent.Coordinator.Ownership

/-!
# Coordinator — the budget bound

Invariant 1: accounted bytes stay within the usable capacity. A load may
measure more than it was admitted with, and its reservation then stands
above the bound until the commit section has checked it; outside that
window the bound holds, and a commit re-establishes it for the whole
total.
-/

namespace MlopsLite.HostAgent

/-- Between the section that reconciles a reservation to a measured size and
the section that commits or rolls back. -/
def Pc.inWindow : Pc → Bool
  | .commit _ _ child _ => child.pid.isSome
  | _ => false

@[simp] theorem Pc.inWindow_resume (k : Caller) (ok : Bool) : (k.resume ok).inWindow = false := by
  cases k with
  | direct => rfl
  | victims m est n rest => cases rest <;> rfl
  | drain j rest => cases rest <;> rfl

@[simp] theorem Pc.inWindow_afterFailure (m : ModelKey) (e : EntryId) (ws : List WaiterId)
    (child : Option Child) : (Pc.afterFailure m e ws child).inWindow = false := by
  cases child <;> rfl

namespace Coordinator

variable {gpu : Gpu} {op : OpId} {co co' : Coordinator} {pc pc' : Pc}

/-! ## Bytes promised -/

def residentBytes (co : Coordinator) : Bytes :=
  co.residents.total fun _ r => r.vramAccountedBytes

/-- The reservations of the operations that satisfy `p`. -/
def reservedBy (p : OpId → Bool) (co : Coordinator) : Bytes :=
  co.reservations.total fun o r => if p o then r.estBytes else 0

theorem accounted_eq : co.accounted = co.residentBytes + co.reservedBy fun _ => true := rfl

theorem reservedBy_le_all (p : OpId → Bool) : co.reservedBy p ≤ co.reservedBy fun _ => true := by
  refine Dict.total_le_total fun o r _ => ?_
  by_cases hp : p o <;> simp [hp]

/-- No section that neither admits nor measures promises more bytes. -/
structure Frugal (co co' : Coordinator) : Prop where
  residents : co'.residentBytes ≤ co.residentBytes
  reserved : ∀ p, co'.reservedBy p ≤ co.reservedBy p

theorem Frugal.refl : Frugal co co := ⟨le_rfl, fun _ => le_rfl⟩

theorem Frugal.of_eq (hr : co'.residentBytes = co.residentBytes)
    (hs : co'.reservations = co.reservations) : Frugal co co' :=
  ⟨hr.le, fun p => by rw [reservedBy, hs]; exact le_rfl⟩

theorem residentBytes_of_modify {m : ModelKey} {f : ResidentModel → ResidentModel}
    (hr : co'.residents = co.residents.modify m f)
    (hf : ∀ x, (f x).vramAccountedBytes = x.vramAccountedBytes) :
    co'.residentBytes = co.residentBytes := by
  rw [residentBytes, hr]
  exact Dict.total_modify_of_eq _ _ hf

theorem residentBytes_of_map {f : ModelKey → ResidentModel → ResidentModel}
    (hr : co'.residents = co.residents.map f)
    (hf : ∀ m x, (f m x).vramAccountedBytes = x.vramAccountedBytes) :
    co'.residentBytes = co.residentBytes := by
  rw [residentBytes, hr, Dict.total_map]
  exact Dict.total_congr fun m x _ => hf m x

theorem residentBytes_setState (co : Coordinator) (m : ModelKey) (st : ResidentState) :
    (co.setState m st).residentBytes = co.residentBytes :=
  residentBytes_of_modify (f := fun r => { r with state := st }) rfl fun _ => rfl

theorem frugal_dropEntry (co : Coordinator) (m : ModelKey) : Frugal co (co.dropEntry m) :=
  ⟨Dict.total_erase_le _ _ _, fun _ => le_rfl⟩

theorem frugal_takeCustody (co : Coordinator) (ws : List WaiterId) :
    Frugal co (co.takeCustody op ws) :=
  ⟨le_rfl, fun _ => Dict.total_erase_le _ _ _⟩

theorem frugal_grantClaim (co : Coordinator) (m : ModelKey) : Frugal co (co.grantClaim m op) :=
  .of_eq (residentBytes_of_modify (residents_grantClaim co m op) fun _ => rfl) rfl

theorem frugal_releaseClaim (co : Coordinator) (c : ClaimId) : Frugal co (co.releaseClaim c) := by
  cases hc : co.claims.get? c with
  | none =>
    rw [releaseClaim_of_none hc]
    exact .refl
  | some claim =>
    cases hr : claim.released with
    | true =>
      rw [releaseClaim_of_released hc hr]
      exact .refl
    | false =>
      exact .of_eq (residentBytes_of_modify (residents_releaseClaim hc hr) fun _ => rfl)
        (reservations_releaseClaim co c)

theorem frugal_join (co : Coordinator) (owner : OpId) : Frugal co (co.join owner op) :=
  ⟨le_rfl, fun p => by
    simp only [reservedBy, join]
    rw [Dict.total_modify_of_eq]
    intro r
    rfl⟩

theorem frugal_deregister (co : Coordinator) (w : WaiterId) : Frugal co (co.deregister op w) :=
  ⟨le_rfl, fun p => by
    simp only [reservedBy, deregister, Dict.total_map]
    exact le_rfl⟩

/-! ## Sections that admit or measure -/

/-- Recording a reservation adds its estimate. -/
theorem accounted_reserve {m : ModelKey} {est : Bytes} (hx : co.residents.get? m = none)
    (hr : co.reservations.get? op = none) :
    (co.reserve m est op).accounted = co.accounted + est := by
  have hres : (co.reserve m est op).residentBytes = co.residentBytes := by
    refine (Dict.total_insert _ _ hx).trans ?_
    exact add_zero _
  have hsv : (co.reserve m est op).reservedBy (fun _ => true) =
      co.reservedBy (fun _ => true) + est := by
    refine (Dict.total_insert _ _ hr).trans ?_
    simp [reservedBy]
  rw [accounted_eq, hres, hsv, ← add_assoc, accounted_eq]

/-- What the drift check reads is the total the commit leaves behind. -/
theorem accounted_commitLoad {m : ModelKey} {child : Child} {realBytes : Bytes} {x : ResidentModel}
    (hx : co.residents.get? m = some x) (hd : co.drift gpu m op realBytes = false)
    (ws : List WaiterId) :
    (co.commitLoad m op child realBytes ws).accounted ≤ gpu.usableCapacity := by
  obtain ⟨seq, hseq⟩ := residents_commitLoad co m op child realBytes ws
  have hres : (co.commitLoad m op child realBytes ws).residents.total
        (fun _ r => r.vramAccountedBytes) =
      realBytes + co.residents.total fun k r => if k = m then 0 else r.vramAccountedBytes := by
    rw [hseq, Dict.total_modify _ _ hx]
  have hsv : (co.commitLoad m op child realBytes ws).reservations.total (fun _ r => r.estBytes) =
      co.reservations.total fun o r => if o = op then 0 else r.estBytes := by
    rw [reservations_commitLoad, Dict.total_erase]
  have hcap := le_of_not_gt (of_decide_eq_false hd)
  rw [accounted, hres, hsv, add_comm realBytes]
  exact hcap

/-- Reconciling writes the operation's own reservation only. -/
theorem reservedBy_reconcile {child : Child} {realBytes : Bytes} {p : OpId → Bool}
    (hp : p op = false) : (co.reconcile op child realBytes).reservedBy p = co.reservedBy p := by
  unfold reconcile
  split
  · simp only [reservedBy]
    rw [Dict.total_modify_of_eq]
    intro r
    simp [hp]
  · rfl

theorem Quiet.inWindow (h : Quiet pc pc') : pc.inWindow = false ∧ pc'.inWindow = false := by
  cases h
  case jobPass => exact ⟨rfl, Pc.inWindow_resume _ _⟩
  all_goals exact ⟨rfl, rfl⟩

/-- Every section is frugal, or it admits, reconciles or commits. -/
theorem Section.frugal (h : Section gpu op co pc co' pc') :
    Frugal co co' ∨
    (∃ m est n, pc = .attempt m est n ∧ co.residents.get? m = none ∧
      co.fitsBudget gpu est = true ∧ co' = co.reserve m est op) ∨
    (∃ m e child realBytes, pc = .reconcile m e child realBytes ∧
      pc' = .commit m e child realBytes ∧
      co' = { co.reconcile op child realBytes with loadGate := true }) ∨
    ∃ m e child realBytes ws x, pc = .commit m e child realBytes ∧ co.residents.get? m = some x ∧
      co.drift gpu m op realBytes = false ∧ co' = co.commitLoad m op child realBytes ws := by
  cases h with
  | forget =>
    left
    unfold Coordinator.forget
    split
    · exact frugal_dropEntry _ _
    · exact .refl
  | release => exact .inl (frugal_releaseClaim _ _)
  | raiseBarrier _ =>
    exact .inl (.of_eq (residentBytes_of_map (residents_raiseBarrier co)
      fun _ x => by split <;> rfl) rfl)
  | endJob =>
    left
    unfold Coordinator.endJob
    split <;> exact .of_eq rfl rfl
  | share _ _ _ => exact .inl (frugal_grantClaim _ _)
  | join _ _ _ _ => exact .inl (frugal_join _ _)
  | reserve _ hx hf _ _ => exact .inr (.inl ⟨_, _, _, rfl, hx, hf, rfl⟩)
  | evictVictims _ _ _ _ =>
    exact .inl (.of_eq (residentBytes_of_map (residents_evictVictims co _ _)
      fun _ x => by split <;> rfl) rfl)
  | waiterTimeout _ => exact .inl (frugal_deregister _ _)
  | reconcile => exact .inr (.inr (.inl ⟨_, _, _, _, rfl, rfl, rfl⟩))
  | rollBack _ _ =>
    exact .inl ⟨(residentBytes_setState co _ _).le, fun _ => Dict.total_erase_le _ _ _⟩
  | commit _ _ _ hd hx => exact .inr (.inr (.inr ⟨_, _, _, _, _, _, rfl, hx, hd, rfl⟩))
  | rolledBack => exact .inl (frugal_dropEntry _ _)
  | failedOwn _ _ _ =>
    exact .inl ⟨Dict.total_erase_le _ _ _, fun _ => Dict.total_erase_le _ _ _⟩
  | failedStale _ _ => exact .inl (frugal_takeCustody _ _)
  | evictEnter hx =>
    left
    simp only [Coordinator.evictEnter, hx]
    split
    · exact .of_eq (residentBytes_setState co _ _) rfl
    · exact .refl
  | drained _ _ => exact .inl (.of_eq (residentBytes_setState co _ _) rfl)
  | drainFailed _ _ =>
    left
    split
    · exact .refl
    · exact .of_eq (residentBytes_setState co _ _) rfl
  | evicted => exact .inl (frugal_dropEntry _ _)
  | jobFailed =>
    exact .inl (.of_eq (residentBytes_of_map (residents_dropBarrier co)
      fun _ x => by split <;> rfl) rfl)
  | quiet | intentOpen | waiterServed | waiterRetry | clearIntent | acquireGate | loadRaised
  | loadUnmeasured | loaded | reservationLost | keyError | disposed | disposedGate | evictGone
  | drainWait | jobTakes => exact .inl (.of_eq rfl rfl)

/-! ## The invariant -/

/-- Everything promised, the operations inside their window left out. -/
def Sys.settledBytes (s : Sys) : Bytes :=
  s.shared.residentBytes + s.shared.reservedBy fun o => !(s.pc o).inWindow

theorem Sys.settledBytes_le_accounted (s : Sys) : s.settledBytes ≤ s.shared.accounted := by
  rw [accounted_eq, settledBytes]
  exact add_le_add le_rfl (reservedBy_le_all _)

theorem Sys.settledBytes_eq_accounted {s : Sys} (h : ∀ o, (s.pc o).inWindow = false) :
    s.settledBytes = s.shared.accounted := by
  simp [settledBytes, accounted_eq, h]

/-- Leaving the window an operation leaves its load. -/
theorem Section.leaves_window (h : Section gpu op co pc co' pc') (hw : pc.inWindow = true) :
    pc'.load? = none := by
  cases h with
  | quiet hq => simp [hq.inWindow.1] at hw
  | reservationLost | rollBack | keyError | commit => rfl
  | evictGone hpc _ => exact Pc.load?_resume _ _
  | forget | release | raiseBarrier | endJob | share | join | reserve | intentOpen | evictVictims
  | waiterTimeout | waiterServed | waiterRetry | clearIntent | acquireGate | loadRaised
  | loadUnmeasured | loaded | reconcile | rolledBack | failedOwn | failedStale | disposed
  | disposedGate | evictEnter | drained | drainFailed | drainWait | evicted | jobFailed
  | jobTakes => cases hw

theorem reservedBy_mono {p q : OpId → Bool}
    (h : ∀ o r, co.reservations.get? o = some r → p o = true → q o = true) :
    co.reservedBy p ≤ co.reservedBy q := by
  refine Dict.total_le_total fun o r hr => ?_
  by_cases hp : p o = true
  · simp [hp, h o r hr hp]
  · simp [hp]

/-- One section keeps the promised bytes within the capacity. -/
theorem settledBytes_step {s : Sys} (hw : s.settledBytes ≤ gpu.usableCapacity)
    (hsec : Section gpu op s.shared (s.pc op) co' pc') (hc : Custody op s.shared (s.pc op))
    (hc' : Custody op co' pc') :
    Sys.settledBytes ⟨co', Function.update s.pc op pc'⟩ ≤ gpu.usableCapacity := by
  rcases hsec.frugal with ⟨hres, hsv⟩ | ⟨m, est, n, hpc, hx, hfit, rfl⟩ |
    ⟨m, e, child, realBytes, hpc, rfl, rfl⟩ | ⟨m, e, child, realBytes, ws, x, hpc, hx, hd, rfl⟩
  · refine le_trans (add_le_add hres (le_trans (reservedBy_mono ?_) (hsv _))) hw
    intro o r hr hp
    by_cases ho : o = op
    · subst ho
      by_contra hin
      have hleft := hc'.unreserved (hsec.leaves_window (by simpa using hin))
      simp [hleft] at hr
    · simpa [Function.update_of_ne ho] using hp
  · refine le_trans (Sys.settledBytes_le_accounted _) ?_
    have hr : s.shared.reservations.get? op = none := hc.unreserved (by rw [hpc]; rfl)
    show (s.shared.reserve m est op).accounted ≤ _
    rw [accounted_reserve hx hr]
    exact of_decide_eq_true hfit
  · refine le_trans (add_le_add (le_of_eq ?_) ?_) hw
    · show (s.shared.reconcile op child realBytes).residentBytes = _
      unfold Coordinator.reconcile
      split <;> rfl
    · show (s.shared.reconcile op child realBytes).reservedBy _ ≤ _
      cases hpid : child.pid with
      | none =>
        simp only [Coordinator.reconcile, hpid]
        refine reservedBy_mono fun o _ _ hp => ?_
        by_cases ho : o = op
        · simp [ho, hpc, Pc.inWindow]
        · simpa [Function.update_of_ne ho] using hp
      | some pid =>
        rw [reservedBy_reconcile (by simp [Pc.inWindow, hpid])]
        refine reservedBy_mono fun o _ _ hp => ?_
        by_cases ho : o = op
        · simp [ho, hpc, Pc.inWindow]
        · simpa [Function.update_of_ne ho] using hp
  · exact le_trans (Sys.settledBytes_le_accounted _) (accounted_commitLoad hx hd ws)

theorem settledBytes_le {s : Sys} (h : Reachable gpu s) : s.settledBytes ≤ gpu.usableCapacity := by
  refine h.invariant (I := fun s => s.settledBytes ≤ gpu.usableCapacity) ?_ ?_
  · show (0 : Bytes) + 0 ≤ _
    simp
  · intro s a s' hr hw _ hn
    obtain ⟨op, choice⟩ := a
    obtain ⟨co', pc', ha, rfl⟩ := Interleaving.next_eq_some.mp hn
    have hsec := section_of_advance ha
    have hc := holds_custody hr
    exact settledBytes_step hw hsec (hc.thread op) (hsec.own_custody hc.global (hc.thread op))

/-- Invariant 1 in every run: with no operation inside its measurement window
the accounted bytes are within the capacity, and a commit leaves them so
whoever else is inside. -/
theorem accounted_le_usableCapacity {s : Sys} (h : Reachable gpu s) :
    ((∀ o, (s.pc o).inWindow = false) → s.shared.accounted ≤ gpu.usableCapacity) ∧
    ∀ choice s' m e child realBytes ws c, next gpu s (op, choice) = some s' →
      s.pc op = .commit m e child realBytes →
      s'.pc op = .dispose ws (.outcome (.grant c)) false →
      s'.shared.accounted ≤ gpu.usableCapacity := by
  constructor
  · intro hout
    exact Sys.settledBytes_eq_accounted hout ▸ settledBytes_le h
  · intro choice s' m e child realBytes ws c hn hpc hpc'
    obtain ⟨co', pc', ha, rfl⟩ := Interleaving.next_eq_some.mp hn
    have hsec := section_of_advance ha
    rw [hpc] at hsec
    simp only [Function.update_self] at hpc'
    cases hsec with
    | quiet hq => cases hq
    | reservationLost | rollBack | keyError => cases hpc'
    | commit _ _ _ hd hx => exact accounted_commitLoad hx hd _
    | evictGone hpc _ => rcases hpc with hpc | hpc <;> cases hpc

/-- Model `a` is admitted at 5 of 10 bytes and measures 7. -/
def loadOverEstimate : List Act :=
  [(0, .start (.admitServing "a" (5 : ℕ))), (0, .freeBytes 10 10), (0, .go),
   (0, .loadReturned (some 1) (some 7)), (0, .go)]

theorem loadOverEstimate_accounted : ∃ s s' : Sys, Reachable (.ofTotal 10) s ∧
    next (.ofTotal 10) s (0, .go) = some s' ∧ s.shared.accounted = 7 ∧
    s'.shared.accounted ≤ (Gpu.ofTotal 10).usableCapacity := by
  have hrun : ((Runs.run (next (.ofTotal 10)) Runs.anyStep Sys.init loadOverEstimate).bind
      fun s => (next (.ofTotal 10) s (0, .go)).map fun s' =>
        decide (s.shared.accounted = 7 ∧ s.pc 0 = .commit "a" 0 ⟨0, some 1⟩ 7 ∧
          s'.pc 0 = .dispose [] (.outcome (.grant 1)) false)) = some true := by
    decide +kernel
  obtain ⟨s, s', hs, hn, hp⟩ := Runs.exists_step hrun
  obtain ⟨h7, hpc, hpc'⟩ := of_decide_eq_true hp
  exact ⟨s, s', hs, hn, h7,
    (accounted_le_usableCapacity hs).2 _ _ _ _ _ _ _ _ hn hpc hpc'⟩

end Coordinator

end MlopsLite.HostAgent
