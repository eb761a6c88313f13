import MlopsLite.HostAgent.Coordinator.Waiters

/-!
# Coordinator — refusals for good

`MODEL_TOO_LARGE` tells a client to give up, `GPU_BUSY` to come back. Stage
1 and the commit re-check tell them apart by the usable capacity minus the
headroom, while admission itself takes the headroom from live-free only and
compares the budget with the whole capacity. Here the two are set against
what an empty, idle device of the same configuration admits.
-/

namespace MlopsLite.HostAgent

/-- Both bounds of stage 1, on a device with nothing resident, nothing
reserved and all of it free. -/
def Gpu.admitsAlone (gpu : Gpu) (size : Bytes) : Bool :=
  Coordinator.init.fitsBudget gpu size && Coordinator.init.fitsLive gpu gpu.totalBytes size

/-- `est_bytes > capacity - headroom`, the source's test of permanence. -/
def Gpu.cannotFit (gpu : Gpu) (size : Bytes) : Bool :=
  (gpu.usableCapacity : ℚ) - gpu.config.safetyHeadroomBytes < size

/-- The test of permanence and the two bounds agree about a size. -/
def Gpu.Agrees (gpu : Gpu) (size : Bytes) : Prop :=
  (size : ℚ) ≤ gpu.usableCapacity - gpu.config.safetyHeadroomBytes ↔
    size ≤ gpu.usableCapacity ∧ (size : ℚ) ≤ gpu.totalBytes - gpu.config.safetyHeadroomBytes

instance (gpu : Gpu) (size : Bytes) : Decidable (gpu.Agrees size) := by
  unfold Gpu.Agrees
  infer_instance

/-- The refusals that are about a size. -/
def Refusal.ofSize : Refusal → Bool
  | .needsTooMuch | .noEvictableCapacity | .measuredTooLarge | .contentionDuringLoad => true
  | _ => false

namespace Coordinator

variable {gpu : Gpu} {op : OpId} {co co' : Coordinator} {pc pc' : Pc} {size : Bytes} {r : Refusal}
  {w : WaiterId}

/-! ## The empty device -/

theorem admitsAlone_iff : gpu.admitsAlone size = true ↔
    size ≤ gpu.usableCapacity ∧ (size : ℚ) ≤ gpu.totalBytes - gpu.config.safetyHeadroomBytes := by
  have hacc : Coordinator.init.accounted = 0 := add_zero 0
  have hunm : Coordinator.init.unmaterialized = 0 := add_zero 0
  simp [Gpu.admitsAlone, fitsBudget, fitsLive, hacc, hunm]

theorem agrees_iff : gpu.Agrees size ↔ (gpu.cannotFit size = false ↔ gpu.admitsAlone size = true) := by
  rw [admitsAlone_iff, Gpu.Agrees, Gpu.cannotFit, decide_eq_false_iff_not, not_lt]

/-- Stage 1 with nothing there to evict, whatever live-free reads. -/
theorem stage1_init (m : ModelKey) (free free' : ℚ) :
    (Coordinator.init.stage1 gpu m size op free free').1 =
      if Coordinator.init.fitsBudget gpu size && Coordinator.init.fitsLive gpu free size
      then .load 0
      else .done (.refuse (if gpu.cannotFit size then .needsTooMuch else .noEvictableCapacity)) := by
  have hb : Coordinator.init.barred = false := rfl
  have hx : Coordinator.init.residents.get? m = none := rfl
  have hi : Coordinator.init.evictIntent.get? op = none := rfl
  have hv : Coordinator.init.selectVictims gpu m free' size = [] := rfl
  by_cases hf : (Coordinator.init.fitsBudget gpu size && Coordinator.init.fitsLive gpu free size)
  · simp [stage1, hb, hx, hi, hf]
    rfl
  · by_cases hc : gpu.cannotFit size
    · have hc' := hc
      simp only [Gpu.cannotFit, decide_eq_true_eq] at hc'
      simp [stage1, hb, hx, hf, hv, hc, hc']
    · have hc' := hc
      simp only [Gpu.cannotFit, decide_eq_true_eq] at hc'
      simp [stage1, hb, hx, hf, hv, hc, hc']

/-! ## Steps that judge a size -/

/-- Stage 1 of a pass refuses the estimate `size`. -/
def RefusesEstimate (size : Bytes) (r : Refusal) (t : Runs.Taken Sys Act) : Prop :=
  ∃ m n, t.src.pc t.act.1 = .attempt m size n ∧ t.dst.pc t.act.1 = .served (.refuse r)

/-- The commit re-check refuses the measured `size`. -/
def RefusesMeasure (size : Bytes) (r : Refusal) (t : Runs.Taken Sys Act) : Prop :=
  ∃ m e child gen ws, t.src.pc t.act.1 = .commit m e child size ∧
    t.dst.pc t.act.1 = .rollback m e gen child ws (.outcome (.refuse r))

/-- What a step answers about `size` is final exactly where it must be: a
measured size that an empty device admits is not given up, and an estimate
is given up when, and only when, an empty device refuses it too. -/
structure Permanent (gpu : Gpu) (size : Bytes) (t : Runs.Taken Sys Act) : Prop where
  estimate : ∀ r, RefusesEstimate size r t → r.ofSize = true →
    (r.code = .modelTooLarge ↔ gpu.admitsAlone size = false)
  measure : ∀ r, RefusesMeasure size r t → r.code = .modelTooLarge → gpu.admitsAlone size = false

/-- An estimate is refused for its size by the test of permanence. -/
theorem ofSize_stage1 {m : ModelKey} {free free' : ℚ}
    (h : (co.stage1 gpu m size op free free').1 = .done (.refuse r)) (hr : r.ofSize = true) :
    r.code = .modelTooLarge ↔ gpu.cannotFit size = true := by
  unfold stage1 at h
  split at h
  · cases h
    cases hr
  · split at h
    · split at h
      · cases h
      · split at h <;> cases h
      · cases h
    · split at h
      · split at h <;> cases h
      · split at h
        · split at h
          · rename_i hc
            cases h
            simpa [Refusal.code, Gpu.cannotFit] using hc
          · rename_i hc
            cases h
            simpa [Refusal.code, Gpu.cannotFit] using hc
        · cases h

theorem Plan.resume_eq_refuse {p : Plan} {m : ModelKey} {n : Nat}
    (h : p.resume m size n = .served (.refuse r)) : p = .done (.refuse r) := by
  cases p with
  | done o =>
    cases h
    rfl
  | evictThenRetry victims => cases victims <;> cases h
  | _ => cases h

theorem ofSize_attempt {choice : Choice} {m : ModelKey} {n : Nat}
    (h : advance gpu op choice co (.attempt m size n) = some (co', .served (.refuse r)))
    (hr : r.ofSize = true) : r.code = .modelTooLarge ↔ gpu.cannotFit size = true := by
  cases choice with
  | freeBytes free free' =>
    simp only [advance] at h
    split at h
    · cases h
      cases hr
    · simp only [Option.some.injEq, Prod.mk.injEq] at h
      exact ofSize_stage1 (Plan.resume_eq_refuse h.2) hr
  | expired =>
    simp only [advance] at h
    split at h <;> cases h <;> cases hr
  | _ =>
    simp only [advance] at h
    split at h <;> cases h
    cases hr

/-- A measured size is given up by the same test. -/
theorem Section.measured {m m' : ModelKey} {e e' : EntryId} {child child' : Child} {gen : Nat}
    {ws : List WaiterId} (h : Section gpu op co (.commit m e child size) co'
      (.rollback m' e' gen child' ws (.outcome (.refuse r)))) (hr : r.code = .modelTooLarge) :
    gpu.cannotFit size = true := by
  generalize hdst : Pc.rollback m' e' gen child' ws (.outcome (.refuse r)) = dst at h
  cases h with
  | quiet hq => cases hq
  | evictGone hpc _ => rcases hpc with hpc | hpc <;> cases hpc
  | reservationLost _ =>
    cases hdst
    cases hr
  | rollBack _ _ =>
    obtain ⟨-, -, -, -, -, hd⟩ : _ ∧ _ ∧ _ ∧ _ ∧ _ ∧ _ := by simpa using hdst
    unfold rollbackDisposition at hd
    split_ifs at hd with hbarred hstale hc
    · cases hd
      cases hr
    · exact decide_eq_true hc
    · cases hd
      cases hr
  | keyError | commit => cases hdst

/-- Where the two agree every step's answer is right. -/
theorem permanent_of_agrees {t : Runs.Taken Sys Act} (h : gpu.Agrees size)
    (hn : next gpu t.src t.act = some t.dst) : Permanent gpu size t := by
  rw [agrees_iff] at h
  constructor
  case estimate =>
    rintro r ⟨m, n, hpc, hpc'⟩ hr
    obtain ⟨src, ⟨op, choice⟩, dst⟩ := t
    obtain ⟨co', pc', ha, hdst⟩ := Interleaving.next_eq_some.mp hn
    dsimp only at hpc hpc' hdst ha
    subst hdst
    rw [hpc] at ha
    obtain rfl : pc' = _ := by simpa using hpc'
    rw [ofSize_attempt ha hr, ← Bool.not_eq_false, h, Bool.not_eq_true]
  case measure =>
    rintro r ⟨m, e, child, gen, ws, hpc, hpc'⟩ hr
    have hsec := (section_of_next hn).1
    rw [hpc, hpc'] at hsec
    have hc := hsec.measured hr
    by_contra halone
    rw [h.mpr (Bool.not_eq_false _ ▸ halone)] at hc
    cases hc

/-! ## A size they judge differently -/

/-- One call for `size`, in its first pass on an idle device. -/
def Sys.alone (size : Bytes) : Sys :=
  ⟨Coordinator.init, Function.update Sys.init.pc 0 (.attempt "a" size 1)⟩

theorem reachable_alone (gpu : Gpu) (size : Bytes) : Reachable gpu (Sys.alone size) :=
  .step (0, .start (.admitServing "a" size)) .init trivial rfl

/-- The pass ends in stage 1's answer, with nothing to evict. -/
theorem permanent_alone {free : ℚ} (hmax : 0 < gpu.config.maxAdmissionAttempts)
    (hfits : (Coordinator.init.fitsBudget gpu size &&
      Coordinator.init.fitsLive gpu free size) = false)
    (hp : ∀ t : Runs.Taken Sys Act, Reachable gpu t.src → next gpu t.src t.act = some t.dst →
      Permanent gpu size t) : gpu.cannotFit size = true ↔ gpu.admitsAlone size = false := by
  have hplan : (Coordinator.init.stage1 gpu "a" size 0 free free).1 =
      if Coordinator.init.fitsBudget gpu size && Coordinator.init.fitsLive gpu free size
      then .load 0
      else .done (.refuse (if gpu.cannotFit size then .needsTooMuch else .noEvictableCapacity)) :=
    stage1_init "a" free free
  rw [hfits, if_neg Bool.false_ne_true] at hplan
  have hstep : next gpu (Sys.alone size) (0, .freeBytes free free) =
      some ⟨(Coordinator.init.stage1 gpu "a" size 0 free free).2,
        Function.update (Sys.alone size).pc 0
          (.served (.refuse (if gpu.cannotFit size then .needsTooMuch else .noEvictableCapacity)))⟩ := by
    have hpass : ¬ gpu.config.maxAdmissionAttempts < 1 := by omega
    refine Interleaving.next_eq_some.mpr ⟨_, _, ?_, rfl⟩
    show advance gpu 0 (.freeBytes free free) Coordinator.init (.attempt "a" size 1) = _
    simp only [advance, if_neg hpass, hplan]
    rfl
  have hperm := (hp ⟨_, _, _⟩ (reachable_alone gpu size) hstep).estimate _ ⟨"a", 1, rfl, rfl⟩
  by_cases hc : gpu.cannotFit size = true
  · simpa [hc, Refusal.code, Refusal.ofSize] using hperm
  · simpa [hc, Refusal.code, Refusal.ofSize] using hperm

theorem agrees_of_permanent (hmax : 0 < gpu.config.maxAdmissionAttempts)
    (hp : ∀ t : Runs.Taken Sys Act, Reachable gpu t.src → next gpu t.src t.act = some t.dst →
      Permanent gpu size t) : gpu.Agrees size := by
  rw [agrees_iff]
  cases halone : gpu.admitsAlone size with
  | false =>
    -- all of the device free, and still refused
    have hiff := permanent_alone hmax halone hp
    simp [hiff, halone]
  | true =>
    by_contra hne
    have hc : gpu.cannotFit size = true := by simpa using hne
    -- the headroom is what separates the two, so nothing free is too little
    obtain ⟨hcap, -⟩ := admitsAlone_iff.mp halone
    have hlive : Coordinator.init.fitsLive gpu 0 size = false := by
      have hunm : Coordinator.init.unmaterialized = 0 := add_zero 0
      have hcap' : (size : ℚ) ≤ gpu.usableCapacity := by exact_mod_cast hcap
      have hlt : (gpu.usableCapacity : ℚ) - gpu.config.safetyHeadroomBytes < size :=
        of_decide_eq_true hc
      have hsize : (0 : ℚ) ≤ size := size.2
      refine decide_eq_false ?_
      rw [hunm, NNRat.cast_zero]
      linarith
    have hfits : (Coordinator.init.fitsBudget gpu size &&
        Coordinator.init.fitsLive gpu 0 size) = false := by rw [hlive, Bool.and_false]
    have hiff := permanent_alone hmax hfits hp
    rw [hiff, halone] at hc
    cases hc

/-! ## No attempts, no judgement -/

/-- A pass has its number, and without an attempt none is spent on a load. -/
def Unattempted : Pc → Prop
  | .attempt _ _ n => 0 < n
  | .gate .. | .load .. | .reconcile .. | .commit .. => False
  | _ => True

theorem unattempted_resume (k : Caller) (ok : Bool) : Unattempted (k.resume ok) := by
  cases k with
  | direct => trivial
  | victims m est n rest => cases rest <;> trivial
  | drain j rest => cases rest <;> trivial

theorem unattempted_afterFailure (m : ModelKey) (e : EntryId) (ws : List WaiterId)
    (child : Option Child) : Unattempted (.afterFailure m e ws child) := by
  cases child <;> trivial

theorem Quiet.unattempted (h : Quiet pc pc') : Unattempted pc' := by
  cases h with
  | admitServing => exact Nat.one_pos
  | transientOver => exact Nat.succ_pos _
  | jobPass => exact unattempted_resume _ _
  | _ => trivial

theorem Section.unattempted (h : Section gpu op co pc co' pc')
    (hpc : ∀ m est n, pc ≠ .attempt m est n) (hu : Unattempted pc) : Unattempted pc' := by
  cases h with
  | quiet hq => exact hq.unattempted
  | waiterRetry | clearIntent => exact Nat.succ_pos _
  | share | join | reserve | intentOpen | evictVictims => exact absurd rfl (hpc _ _ _)
  | acquireGate | loaded | reconcile => exact hu.elim
  | evictGone | drainFailed | evicted => exact unattempted_resume _ _
  | failedOwn | failedStale => exact unattempted_afterFailure _ _ _ _
  | _ => trivial

theorem unattempted_of_reachable (hmax : gpu.config.maxAdmissionAttempts = 0) {s : Sys}
    (h : Reachable gpu s) : ∀ o, Unattempted (s.pc o) := by
  refine h.invariant (I := fun s => ∀ o, Unattempted (s.pc o)) ?_ ?_
  · intro o
    trivial
  · intro s a s' _ ih _ hn o
    obtain ⟨op, choice⟩ := a
    obtain ⟨co', pc', ha, rfl⟩ := Interleaving.next_eq_some.mp hn
    by_cases ho : o = op
    · subst ho
      simp only [Function.update_self]
      by_cases hpc : ∃ m est n, s.pc o = .attempt m est n
      · obtain ⟨m, est, n, hpc⟩ := hpc
        rw [hpc] at ha
        have hpass : 0 < n := by simpa [hpc, Unattempted] using ih o
        simp only [advance, hmax, hpass, if_true, Option.some.injEq, Prod.mk.injEq] at ha
        obtain ⟨-, rfl⟩ := ha
        trivial
      · simp only [not_exists] at hpc
        exact (section_of_advance ha).unattempted hpc (ih o)
    · simpa [Function.update_of_ne ho] using ih o

theorem permanent_of_no_attempt (hmax : gpu.config.maxAdmissionAttempts = 0)
    {t : Runs.Taken Sys Act} (ht : Reachable gpu t.src) (hn : next gpu t.src t.act = some t.dst) :
    Permanent gpu size t := by
  have hu := unattempted_of_reachable hmax ht t.act.1
  constructor
  case estimate =>
    rintro r ⟨m, n, hpc, hpc'⟩ hr
    obtain ⟨src, ⟨op, choice⟩, dst⟩ := t
    obtain ⟨co', pc', ha, hdst⟩ := Interleaving.next_eq_some.mp hn
    dsimp only at hpc hpc' hdst ha hu
    subst hdst
    obtain rfl : pc' = _ := by simpa using hpc'
    rw [hpc] at ha hu
    simp only [advance, hmax, show 0 < n from hu, if_true, Option.some.injEq,
      Prod.mk.injEq] at ha
    obtain ⟨-, ha⟩ := ha
    cases ha
    cases hr
  case measure =>
    rintro r ⟨m, e, child, gen, ws, hpc, -⟩
    rw [hpc] at hu
    exact hu.elim

/-! ## Where a refusal comes from -/

/-- What a load owner is about to hand its joiners, and to return. -/
def handing? : Pc → Option Disposition
  | .rollback _ _ _ _ _ d | .rolledBack _ _ _ _ d | .dispose _ d _ => some d
  | _ => none

/-- The waiter has been handed the refusal. -/
def Refused (co : Coordinator) (w : WaiterId) (r : Refusal) : Prop :=
  (co.waiters.get? w).bind Waiter.disposition = some (.outcome (.refuse r))

theorem Refused.of_grantWaiters {m : ModelKey} {ws : List WaiterId}
    (h : Refused (ws.foldl (grantWaiter m) co) w r) : Refused co w r := by
  induction ws generalizing co with
  | nil => exact h
  | cons v ws ih =>
    have hrest := ih h
    unfold Refused grantWaiter at hrest
    split at hrest
    · simp only [Dict.get?_modify] at hrest
      split at hrest
      · cases hv : co.waiters.get? w with
        | none => simp [hv] at hrest
        | some x => simp [hv] at hrest
      · exact hrest
    · exact hrest

theorem Refused.of_dispose {ws : List WaiterId} {d : Disposition}
    (h : Refused (co.dispose ws d op) w r) :
    Refused co w r ∨ d = .outcome (.refuse r) := by
  unfold Refused dispose at h
  rw [get?_foldl_assign] at h
  split at h
  · cases hx : co.waiters.get? w with
    | none => simp [hx] at h
    | some x =>
      cases hd : x.disposition with
      | none =>
        simp only [hx, Option.map_some, Option.bind_some, Waiter.given_of_none hd,
          Option.some.injEq] at h
        exact .inr h
      | some d' =>
        left
        have hgiven : Waiter.given d x = x := Waiter.given_of_some (by simp [hd])
        simpa [Refused, hx, hgiven] using h
  · exact .inl h

theorem waiters_releaseClaim (co : Coordinator) (c : ClaimId) :
    (co.releaseClaim c).waiters = co.waiters := by
  unfold releaseClaim
  split
  · rfl
  · split
    · rfl
    · dsimp only
      split <;> rfl

theorem handing?_resume (k : Caller) (ok : Bool) : handing? (k.resume ok) = none := by
  cases k with
  | direct => rfl
  | victims m est n rest => cases rest <;> rfl
  | drain j rest => cases rest <;> rfl

theorem served_ne_resume {o : Outcome} (k : Caller) (ok : Bool) : k.resume ok ≠ .served o := by
  cases k with
  | direct => exact Pc.noConfusion
  | victims m est n rest => cases rest <;> exact Pc.noConfusion
  | drain j rest => cases rest <;> exact Pc.noConfusion

theorem Quiet.handing (h : Quiet pc pc') {d : Disposition} (hd : handing? pc' = some d)
    (hr : d = .outcome (.refuse r)) (hc : r.code = .modelTooLarge) : handing? pc = some d := by
  subst hr
  cases h with
  | rollbackUnload => exact hd
  | failedUnload =>
    cases hd
    cases hc
  | jobPass => rw [handing?_resume] at hd; cases hd
  | _ => cases hd

/-- A final refusal about to be handed on was so already, or this section's
commit re-check has just made it. -/
theorem Section.handing (h : Section gpu op co pc co' pc')
    (hd : handing? pc' = some (.outcome (.refuse r))) (hc : r.code = .modelTooLarge) :
    handing? pc = some (.outcome (.refuse r)) ∨ ∃ m e child realBytes gen ws,
      pc = .commit m e child realBytes ∧
        pc' = .rollback m e gen child ws (.outcome (.refuse r)) := by
  cases h with
  | quiet hq => exact .inl (hq.handing hd rfl hc)
  | evictVictims | evictGone | drainFailed | evicted =>
    rw [handing?_resume] at hd
    cases hd
  | reservationLost =>
    cases hd
    cases hc
  | rollBack =>
    right
    obtain hd := Option.some.inj hd
    exact ⟨_, _, _, _, _, _, rfl, by rw [hd]⟩
  | rolledBack => exact .inl hd
  | failedOwn | failedStale =>
    unfold Pc.afterFailure at hd
    split at hd
    · cases hd
    · cases hd
      cases hc
  | _ => cases hd

/-- A final refusal a waiter holds it held before, or its owner has just
handed it. -/
theorem Section.refused (h : Section gpu op co pc co' pc') (hw : Refused co' w r)
    (hc : r.code = .modelTooLarge) :
    Refused co w r ∨ handing? pc = some (.outcome (.refuse r)) := by
  cases h with
  | forget =>
    left
    unfold Coordinator.forget at hw
    split at hw <;> exact hw
  | release =>
    left
    rwa [Refused, waiters_releaseClaim] at hw
  | endJob =>
    left
    unfold Coordinator.endJob at hw
    split at hw <;> exact hw
  | join =>
    left
    simp only [Refused, Coordinator.join, Dict.get?_insert] at hw
    split at hw
    · cases hw
    · exact hw
  | waiterTimeout =>
    left
    simp only [Refused, Coordinator.deregister, Dict.get?_modify] at hw
    split at hw
    · cases hx : co.waiters.get? w with
      | none => simp [hx] at hw
      | some x =>
        simp only [hx, Option.map_some, Option.bind_some, Option.some.injEq,
          Disposition.outcome.injEq, Outcome.refuse.injEq] at hw
        subst hw
        cases hc
    · exact hw
  | reconcile =>
    left
    unfold Refused Coordinator.reconcile at hw
    split at hw <;> exact hw
  | @commit m₁ e child realBytes =>
    left
    have hrefused : Refused (((co.settle m₁ child realBytes).touch m₁).grantClaim m₁ op) w r :=
      Refused.of_grantWaiters hw
    exact hrefused
  | @disposed ws d =>
    rcases hw.of_dispose with hw | rfl
    · exact .inl hw
    · exact .inr rfl
  | @disposedGate ws d =>
    have hw : Refused (co.dispose ws d op) w r := hw
    rcases hw.of_dispose with hw | rfl
    · exact .inl hw
    · exact .inr rfl
  | evictEnter =>
    left
    unfold Refused Coordinator.evictEnter at hw
    split at hw
    · exact hw
    · split at hw <;> exact hw
  | drainFailed =>
    left
    split at hw <;> exact hw
  | _ => exact .inl hw

theorem waiterOutcome_eq_refuse {d : Disposition}
    (h : waiterOutcome d = .outcome (.refuse r)) : d = .outcome (.refuse r) := by
  unfold waiterOutcome at h
  split at h
  · split at h
    · cases h
    · exact h
  · exact h

theorem toOutcome_eq_refuse {d : Disposition} (h : d.toOutcome = .refuse r)
    (hc : r.code = .modelTooLarge) : d = .outcome (.refuse r) := by
  cases d with
  | outcome o => exact congrArg Disposition.outcome h
  | retry =>
    cases h
    cases hc

/-- A final refusal a call returns: its own stage 1's, its own load's, or
the one its waiter was handed. -/
theorem Section.served (h : Section gpu op co pc co' pc') (hs : pc' = .served (.refuse r))
    (hc : r.code = .modelTooLarge) :
    (∃ m est n, pc = .attempt m est n) ∨ handing? pc = some (.outcome (.refuse r)) ∨
      ∃ w, Refused co w r := by
  cases h with
  | quiet hq =>
    cases hq with
    | refuse => exact .inl ⟨_, _, _, rfl⟩
    | jobPass => exact absurd hs (served_ne_resume _ _)
    | _ => cases hs
  | waiterTimeout =>
    cases hs
    cases hc
  | @waiterServed m est n w d o hd ho =>
    cases hs
    exact .inr (.inr ⟨w, by rw [Refused, hd, waiterOutcome_eq_refuse ho]⟩)
  | disposed | disposedGate =>
    simp only [Pc.served.injEq] at hs
    exact .inr (.inl (congrArg some (toOutcome_eq_refuse hs hc)))
  | evictVictims | evictGone | drainFailed | evicted => exact absurd hs (served_ne_resume _ _)
  | failedOwn | failedStale =>
    unfold Pc.afterFailure at hs
    split at hs <;> cases hs
  | _ => cases hs

/-- Some step of the run refused a measured size for good. -/
def Measured (tr : List (Runs.Taken Sys Act)) (r : Refusal) : Prop :=
  ∃ t ∈ tr, ∃ size, RefusesMeasure size r t

/-- Every final refusal on its way to a call is of a measured size. -/
structure Sourced (tr : List (Runs.Taken Sys Act)) (s : Sys) : Prop where
  handing : ∀ o r, handing? (s.pc o) = some (.outcome (.refuse r)) → r.code = .modelTooLarge →
    Measured tr r
  waiter : ∀ w r, Refused s.shared w r → r.code = .modelTooLarge → Measured tr r
  served : ∀ o r, s.pc o = .served (.refuse r) → r.code = .modelTooLarge →
    (∃ t ∈ tr, t.act.1 = o ∧ ∃ size, RefusesEstimate size r t) ∨ Measured tr r

theorem Measured.mono {tr tr' : List (Runs.Taken Sys Act)} (h : Measured tr r) :
    Measured (tr ++ tr') r := by
  obtain ⟨t, ht, hr⟩ := h
  exact ⟨t, List.mem_append_left _ ht, hr⟩

theorem sourced_of_trace {tr : List (Runs.Taken Sys Act)} {s : Sys}
    (h : Runs.Trace (next gpu) Sys.init tr s) : Sourced tr s := by
  induction h with
  | nil =>
    constructor
    case handing =>
      intro o r hd
      cases hd
    case waiter =>
      intro w r hw
      cases hw
    case served =>
      intro o r hs
      cases hs
  | @snoc tr s s' a _ hn ih =>
    obtain ⟨hsec, hothers⟩ := section_of_next hn
    have hlast : (⟨s, a, s'⟩ : Runs.Taken Sys Act) ∈ tr ++ [⟨s, a, s'⟩] :=
      List.mem_append_right _ (List.mem_singleton.mpr rfl)
    constructor
    case handing =>
      intro o r hd hc
      by_cases ho : o = a.1
      · subst ho
        rcases hsec.handing hd hc with hd | ⟨m, e, child, realBytes, gen, ws, hpc, hpc'⟩
        · exact (ih.handing _ r hd hc).mono
        · exact ⟨_, hlast, realBytes, m, e, child, gen, ws, hpc, hpc'⟩
      · rw [hothers o ho] at hd
        exact (ih.handing o r hd hc).mono
    case waiter =>
      intro w r hw hc
      rcases hsec.refused hw hc with hw | hd
      · exact (ih.waiter w r hw hc).mono
      · exact (ih.handing _ r hd hc).mono
    case served =>
      intro o r hs hc
      by_cases ho : o = a.1
      · subst ho
        rcases hsec.served hs hc with ⟨m, est, n, hpc⟩ | hd | ⟨w, hw⟩
        · exact .inl ⟨_, hlast, rfl, est, m, n, hpc, hs⟩
        · exact .inr (ih.handing _ r hd hc).mono
        · exact .inr (ih.waiter w r hw hc).mono
      · rw [hothers o ho] at hs
        rcases ih.served o r hs hc with ⟨t, ht, hest⟩ | hm
        · exact .inl ⟨t, List.mem_append_left _ ht, hest⟩
        · exact .inr hm.mono

/-! ## Final means final -/

/-- In every run each answer about `size` is right exactly when the test of
permanence agrees with the two bounds about it, and then in any state
whatever. A call is given up only by such an answer, to its own estimate or
to a measured size. -/
theorem tooLarge_permanent (gpu : Gpu) (size : Bytes) :
    ((∀ t : Runs.Taken Sys Act, Reachable gpu t.src → next gpu t.src t.act = some t.dst →
        Permanent gpu size t) ↔ (0 < gpu.config.maxAdmissionAttempts → gpu.Agrees size)) ∧
      (gpu.Agrees size → ∀ t : Runs.Taken Sys Act, next gpu t.src t.act = some t.dst →
        Permanent gpu size t) ∧
      ∀ tr s, Runs.Trace (next gpu) Sys.init tr s → ∀ o r, s.pc o = .served (.refuse r) →
        r.code = .modelTooLarge →
          (∃ t ∈ tr, t.act.1 = o ∧ ∃ est, RefusesEstimate est r t) ∨
            ∃ t ∈ tr, ∃ realBytes, RefusesMeasure realBytes r t := by
  refine ⟨⟨fun hp hmax => agrees_of_permanent hmax hp, fun h t ht hn => ?_⟩,
    fun h t hn => permanent_of_agrees h hn, fun tr s h => (sourced_of_trace h).served⟩
  rcases Nat.eq_zero_or_pos gpu.config.maxAdmissionAttempts with hmax | hmax
  · exact permanent_of_no_attempt hmax ht hn
  · exact permanent_of_agrees (h hmax) hn

/-- The tunables' defaults, on a device of 8 GiB. -/
def eightGib : Gpu where
  config :=
    { safetyReserveBytes := 2 ^ 30, safetyHeadroomBytes := 2 ^ 29, maxAdmissionAttempts := 3,
      configuredBudgetBytes := none }
  totalBytes := 8 * 2 ^ 30

/-- A model of 6.75 GiB while another program has 2 GiB: given up, though an
empty device admits it. -/
theorem externalUse_givenUp : ¬ ∀ (gpu : Gpu) (size : Bytes) (t : Runs.Taken Sys Act),
    Reachable gpu t.src → next gpu t.src t.act = some t.dst → Permanent gpu size t := by
  intro hclaim
  have hrun : ((Runs.run (next eightGib) Runs.anyStep Sys.init
      [(0, .start (.admitServing "a" (27 * 2 ^ 28)))]).bind fun s =>
        (next eightGib s (0, .freeBytes (6 * 2 ^ 30) (6 * 2 ^ 30))).map fun s' =>
          decide (s.pc 0 = .attempt "a" (27 * 2 ^ 28) 1 ∧
            s'.pc 0 = .served (.refuse .needsTooMuch))) = some true := by
    decide +kernel
  obtain ⟨s, s', hs, hn, hp⟩ := Runs.exists_step hrun
  obtain ⟨hpc, hpc'⟩ := of_decide_eq_true hp
  have halone : eightGib.admitsAlone (27 * 2 ^ 28) = true := by decide +kernel
  have hfinal := ((hclaim _ _ ⟨s, _, s'⟩ hs hn).estimate _ ⟨"a", 1, hpc, hpc'⟩ rfl).mp rfl
  rw [halone] at hfinal
  cases hfinal

end Coordinator

end MlopsLite.HostAgent
