import MlopsLite.HostAgent.Coordinator.Effects

/-!
# Coordinator — exclusive jobs

`admit_job` raises the barrier, drains, and either owns the GPU or hands
the serving set back. While it does, and while a job owns the GPU, nothing
is admitted; so an owner finds the GPU empty and it stays so.
-/

namespace MlopsLite.HostAgent

/-- `evict` called by a job's drain. -/
def Caller.isDrain : Caller → Bool
  | .drain _ _ => true
  | _ => false

/-- Between the section that raises the barrier and the one that lowers it. -/
def Pc.inJob : Pc → Bool
  | .jobDrain _ | .jobClose _ _ => true
  | .evict _ k | .draining _ k | .evicting _ _ _ _ k | .evicted _ _ _ k => k.isDrain
  | _ => false

@[simp] theorem Pc.inJob_resume (k : Caller) (ok : Bool) : (k.resume ok).inJob = k.isDrain := by
  cases k with
  | direct => rfl
  | victims m est n rest => cases rest <;> rfl
  | drain j rest => cases rest <;> rfl

@[simp] theorem Pc.inJob_afterFailure (m : ModelKey) (e : EntryId) (ws : List WaiterId)
    (child : Option Child) : (Pc.afterFailure m e ws child).inJob = false := by
  cases child <;> rfl

/-- The two control points between which a load commits. -/
def Pc.commits : Pc → Pc → Bool
  | .commit _ _ _ _, .dispose _ _ _ => true
  | _, _ => false

namespace Coordinator

variable {gpu : Gpu} {op : OpId} {co co' : Coordinator} {pc pc' : Pc}

theorem Quiet.inJob (h : Quiet pc pc') : pc'.inJob = pc.inJob := by
  cases h
  case jobPass => exact Pc.inJob_resume _ _
  all_goals rfl

/-! ## Nothing is admitted behind the barrier -/

/-- No claim is minted, no reservation and no entry is recorded. -/
structure NoAdmission (co co' : Coordinator) : Prop where
  claims : ∀ c, co.claims.get? c = none → co'.claims.get? c = none
  reservations : ∀ o, co.reservations.get? o = none → co'.reservations.get? o = none
  residents : ∀ m, co.residents.get? m = none → co'.residents.get? m = none

theorem NoAdmission.of_residents (h : ∀ m, co.residents.get? m = none → co'.residents.get? m = none)
    (hc : co'.claims = co.claims) (hr : co'.reservations = co.reservations) :
    NoAdmission co co' :=
  ⟨fun c hn => by rw [hc, hn], fun o hn => by rw [hr, hn], h⟩

theorem NoAdmission.of_eq (hc : co'.claims = co.claims) (hr : co'.reservations = co.reservations)
    (hres : co'.residents = co.residents) : NoAdmission co co' :=
  .of_residents (fun m hn => by rw [hres, hn]) hc hr

theorem NoAdmission.refl : NoAdmission co co := .of_eq rfl rfl rfl

theorem NoAdmission.trans {co'' : Coordinator} (h : NoAdmission co co')
    (h' : NoAdmission co' co'') : NoAdmission co co'' :=
  ⟨fun c hn => h'.claims c (h.claims c hn), fun o hn => h'.reservations o (h.reservations o hn),
    fun m hn => h'.residents m (h.residents m hn)⟩

theorem noAdmission_setState (m : ModelKey) (st : ResidentState) :
    NoAdmission co (co.setState m st) := by
  refine .of_residents (fun m' hn => ?_) rfl rfl
  simp only [setState, Dict.get?_modify, hn]
  split <;> rfl

theorem noAdmission_dropEntry (m : ModelKey) : NoAdmission co (co.dropEntry m) := by
  refine .of_residents (fun m' hn => ?_) rfl rfl
  simp only [dropEntry, Dict.get?_erase, hn]
  split <;> rfl

theorem noAdmission_takeCustody (ws : List WaiterId) :
    NoAdmission co (co.takeCustody op ws) := by
  refine ⟨fun _ h => h, fun o hn => ?_, fun _ h => h⟩
  simp only [takeCustody, Dict.get?_erase, hn]
  split <;> rfl

theorem noAdmission_releaseClaim (c : ClaimId) : NoAdmission co (co.releaseClaim c) := by
  cases hc : co.claims.get? c with
  | none =>
    rw [releaseClaim_of_none hc]
    exact .refl
  | some claim =>
    cases hr : claim.released with
    | true =>
      rw [releaseClaim_of_released hc hr]
      exact .refl
    | false =>
      refine ⟨fun c' hn => ?_, fun o hn => ?_, fun m hn => ?_⟩
      · have hclaims : (co.releaseClaim c).claims =
            co.claims.modify c fun x => { x with released := true } := by
          simp [releaseClaim, hc, hr]
        rw [hclaims, Dict.get?_modify, hn]
        split <;> rfl
      · rw [reservations_releaseClaim, hn]
      · rw [residents_releaseClaim hc hr, Dict.get?_modify, hn]
        split <;> rfl

/-- Behind the barrier, and while a job owns the GPU, no section admits and
no load commits. -/
theorem Section.no_admission (h : Section gpu op co pc co' pc') (hb : co.barred = true) :
    NoAdmission co co' ∧ pc.commits pc' = false := by
  have barred {P : Prop} (hf : co.barred = false) : P := by simp [hb] at hf
  cases h with
  | quiet hq => exact ⟨.refl, by cases hq <;> rfl⟩
  | forget =>
    refine ⟨?_, rfl⟩
    unfold Coordinator.forget
    split
    · exact noAdmission_dropEntry _
    · exact .refl
  | release => exact ⟨noAdmission_releaseClaim _, rfl⟩
  | endJob =>
    refine ⟨?_, rfl⟩
    unfold Coordinator.endJob
    split <;> exact .of_eq rfl rfl rfl
  | raiseBarrier hf | share hf | join hf | reserve hf | evictVictims hf => exact barred hf
  | waiterTimeout _ =>
    exact ⟨⟨fun _ h => h, fun o hn => by simp [Coordinator.deregister, hn], fun _ h => h⟩, rfl⟩
  | reconcile =>
    refine ⟨?_, rfl⟩
    unfold Coordinator.reconcile
    split
    · refine ⟨fun _ h => h, fun o hn => ?_, fun _ h => h⟩
      simp only [Dict.get?_modify, hn]
      split <;> rfl
    · exact .of_eq rfl rfl rfl
  | rollBack _ _ =>
    exact ⟨(noAdmission_setState _ _).trans (noAdmission_takeCustody _), rfl⟩
  | commit _ hf _ _ _ => exact barred hf
  | rolledBack => exact ⟨noAdmission_dropEntry _, rfl⟩
  | failedOwn _ _ _ =>
    refine ⟨(noAdmission_takeCustody _).trans (noAdmission_dropEntry _), ?_⟩
    cases ‹Option Child› <;> rfl
  | failedStale _ _ => exact ⟨noAdmission_takeCustody _, rfl⟩
  | evictGone hpc _ => exact ⟨.refl, by rcases hpc with rfl | rfl <;> rfl⟩
  | evictEnter hx =>
    refine ⟨?_, rfl⟩
    simp only [Coordinator.evictEnter, hx]
    split
    · exact noAdmission_setState _ _
    · exact .refl
  | drained _ _ => exact ⟨noAdmission_setState _ _, rfl⟩
  | drainFailed _ _ =>
    rw [if_pos hb]
    exact ⟨.refl, rfl⟩
  | evicted => exact ⟨noAdmission_dropEntry _, rfl⟩
  | jobFailed =>
    refine ⟨.of_residents (fun m hn => ?_) rfl rfl, rfl⟩
    simp [residents_dropBarrier, hn]
  | reservationLost | keyError => exact ⟨.refl, rfl⟩
  | intentOpen | waiterServed | waiterRetry | clearIntent | acquireGate | loadRaised
  | loadUnmeasured | loaded | disposed | disposedGate | drainWait | jobTakes =>
    exact ⟨.of_eq rfl rfl rfl, rfl⟩

/-! ## The phases of the GPU -/

/-- What a section does to the barrier and the owner. -/
theorem Section.phase (h : Section gpu op co pc co' pc') :
    (pc'.inJob = pc.inJob ∧ co'.jobBarrier = co.jobBarrier ∧
      (co'.exclusiveJob = co.exclusiveJob ∨ ∃ j, co' = co.endJob j)) ∨
    (co.barred = false ∧ pc.inJob = false ∧ pc'.inJob = true ∧ co' = co.raiseBarrier) ∨
    (∃ j d, pc = .jobClose j d ∧ pc' = .finished false ∧ co' = co.dropBarrier) ∨
    ∃ j, pc = .jobClose j true ∧ pc' = .finished true ∧ co' = co.takeGpu j op ∧
      co.residents.isEmpty = true ∧ co.reservations.isEmpty = true := by
  cases h with
  | quiet hq => exact .inl ⟨hq.inJob, rfl, .inl rfl⟩
  | forget =>
    refine .inl ⟨rfl, ?_⟩
    unfold Coordinator.forget
    split <;> exact ⟨rfl, .inl rfl⟩
  | release =>
    obtain ⟨hb, hex⟩ := barrier_releaseClaim co ‹ClaimId›
    exact .inl ⟨rfl, hb, .inl hex⟩
  | raiseBarrier hb => exact .inr (.inl ⟨hb, rfl, rfl, rfl⟩)
  | endJob =>
    refine .inl ⟨rfl, ?_, .inr ⟨_, rfl⟩⟩
    unfold Coordinator.endJob
    split <;> rfl
  | evictVictims _ _ _ _ => exact .inl ⟨Pc.inJob_resume _ _, rfl, .inl rfl⟩
  | reconcile =>
    refine .inl ⟨rfl, ?_⟩
    unfold Coordinator.reconcile
    split <;> exact ⟨rfl, .inl rfl⟩
  | commit _ _ _ _ _ =>
    exact .inl ⟨rfl, (barrier_commitLoad co _ op _ _ _).1, .inl (barrier_commitLoad co _ op _ _ _).2⟩
  | failedOwn _ _ _ => exact .inl ⟨Pc.inJob_afterFailure _ _ _ _, rfl, .inl rfl⟩
  | failedStale _ _ => exact .inl ⟨Pc.inJob_afterFailure _ _ _ _, rfl, .inl rfl⟩
  | evictGone hpc _ =>
    refine .inl ⟨?_, rfl, .inl rfl⟩
    rcases hpc with rfl | rfl <;> exact Pc.inJob_resume _ _
  | evictEnter hx =>
    refine .inl ⟨rfl, ?_⟩
    simp only [Coordinator.evictEnter, hx]
    split <;> exact ⟨rfl, .inl rfl⟩
  | drainFailed _ _ =>
    refine .inl ⟨Pc.inJob_resume _ _, ?_⟩
    split <;> exact ⟨rfl, .inl rfl⟩
  | evicted => exact .inl ⟨Pc.inJob_resume _ _, rfl, .inl rfl⟩
  | jobFailed => exact .inr (.inr (.inl ⟨_, _, rfl, rfl, rfl⟩))
  | jobTakes hr hs => exact .inr (.inr (.inr ⟨_, rfl, rfl, rfl, hr, hs⟩))
  | share | join | reserve | intentOpen | waiterTimeout | waiterServed | waiterRetry
  | clearIntent | acquireGate | loadRaised | loadUnmeasured | loaded | reservationLost | rollBack
  | keyError | rolledBack | disposed | disposedGate | drained | drainWait =>
    exact .inl ⟨rfl, rfl, .inl rfl⟩

/-- An owner has the GPU to itself, and no one is on the way to it. -/
def OwnerAlone (co : Coordinator) : Prop :=
  co.exclusiveJob.isSome = true →
    co.residents.isEmpty = true ∧ co.reservations.isEmpty = true ∧ co.jobBarrier = false

/-- The barrier is up exactly while one `admit_job` stands behind it. -/
abbrev BarrierGuarded (s : Sys) : Prop :=
  Interleaving.Guarded (fun co : Coordinator => co.jobBarrier = true) (fun pc => pc.inJob = true) s

theorem Section.guards (h : Section gpu op co pc co' pc') :
    Interleaving.Guards (fun co : Coordinator => co.jobBarrier = true)
      (fun pc => pc.inJob = true) co pc co' pc' := by
  rcases h.phase with ⟨hin, hb, -⟩ | ⟨hb, -, hin, rfl⟩ | ⟨j, d, rfl, rfl, rfl⟩ |
    ⟨j, rfl, rfl, rfl, -⟩
  · exact .inl ⟨by simp [hin], by simp [hb]⟩
  · have hdown : co.jobBarrier = false := (Bool.or_eq_false_iff.mp hb).1
    exact .inr (.inl ⟨by simp [hdown], hin, rfl⟩)
  · exact .inr (.inr ⟨rfl, by simp [Pc.inJob], by simp [Coordinator.dropBarrier]⟩)
  · exact .inr (.inr ⟨rfl, by simp [Pc.inJob], by simp [Coordinator.takeGpu]⟩)

theorem Section.ownerAlone (h : Section gpu op co pc co' pc') (ho : OwnerAlone co) :
    OwnerAlone co' := by
  intro hsome
  have kept : co.exclusiveJob.isSome = true → co'.residents.isEmpty = true ∧
      co'.reservations.isEmpty = true := by
    intro hex
    obtain ⟨hres, hsv, -⟩ := ho hex
    obtain ⟨-, hsv', hres'⟩ := (h.no_admission (by simp [barred, hex])).1
    exact ⟨Dict.isEmpty_iff.mpr fun m => hres' m (Dict.isEmpty_iff.mp hres m),
      Dict.isEmpty_iff.mpr fun o => hsv' o (Dict.isEmpty_iff.mp hsv o)⟩
  rcases h.phase with ⟨-, hb, hex | ⟨j, rfl⟩⟩ | ⟨hb, -, -, rfl⟩ | ⟨j, d, -, -, rfl⟩ |
    ⟨j, -, -, rfl, hr, hs⟩
  · rw [hex] at hsome
    exact ⟨(kept hsome).1, (kept hsome).2, by rw [hb]; exact (ho hsome).2.2⟩
  · have hex : co.exclusiveJob.isSome = true := by
      unfold Coordinator.endJob at hsome
      split at hsome
      · cases hsome
      · exact hsome
    exact ⟨(kept hex).1, (kept hex).2, by rw [hb]; exact (ho hex).2.2⟩
  · have hnone : co.exclusiveJob.isSome = false := (Bool.or_eq_false_iff.mp hb).2
    have hex : co.exclusiveJob.isSome = true := hsome
    simp [hnone] at hex
  · exact ⟨(kept hsome).1, (kept hsome).2, rfl⟩
  · exact ⟨hr, hs, rfl⟩

/-! ## Every run -/

theorem holds_barrier {s : Sys} (h : Reachable gpu s) : BarrierGuarded s ∧ OwnerAlone s.shared := by
  refine h.invariant (I := fun s => BarrierGuarded s ∧ OwnerAlone s.shared) ?_ ?_
  · have out : ∀ o, (Sys.init.pc o).inJob = false := fun _ => rfl
    refine ⟨⟨fun o ho => ?_, fun hb => ?_, fun o _ ho => ?_⟩, fun hex => ?_⟩
    · simp [out] at ho
    · cases hb
    · simp [out] at ho
    · cases hex
  · intro s a s' _ hI _ hn
    obtain ⟨op, choice⟩ := a
    refine ⟨hI.1.next hn fun x k ha => (section_of_advance ha).guards, ?_⟩
    exact (section_of_next hn).1.ownerAlone hI.2

/-- How a step may change who owns the GPU: not at all, by `end_job`, or from
nobody to the job behind the barrier. A barrier is lowered by its own job. -/
structure Succession (op : OpId) (s s' : Sys) : Prop where
  owner : s'.shared.exclusiveJob = s.shared.exclusiveJob ∨
    (∃ j, s'.shared = s.shared.endJob j) ∨
    (s.shared.exclusiveJob = none ∧ (s.pc op).inJob = true ∧
      ∃ j, s'.shared.exclusiveJob = some ⟨j, op⟩)
  barrier : s.shared.jobBarrier = true → s'.shared.jobBarrier = true ∨ (s.pc op).inJob = true

theorem succession {s s' : Sys} {choice : Choice} (h : Reachable gpu s)
    (hn : next gpu s (op, choice) = some s') : Succession op s s' := by
  obtain ⟨hguard, halone⟩ := holds_barrier h
  rcases (section_of_next hn).1.phase with ⟨-, hb, hex | hend⟩ | ⟨hb, -, -, hraise⟩ |
    ⟨j, d, hpc, -, hdrop⟩ | ⟨j, hpc, -, htake, -, -⟩
  · exact ⟨.inl hex, fun hup => .inl (hb.trans hup)⟩
  · exact ⟨.inr (.inl hend), fun hup => .inl (hb.trans hup)⟩
  · exact ⟨.inl (by rw [hraise]; rfl), fun _ => .inl (by rw [hraise]; rfl)⟩
  · have hin : (s.pc op).inJob = true := by
      rw [hpc]
      rfl
    exact ⟨.inl (by rw [hdrop]; rfl), fun _ => .inr hin⟩
  · have hin : (s.pc op).inJob = true := by
      rw [hpc]
      rfl
    refine ⟨.inr (.inr ⟨?_, hin, j, by rw [htake]; rfl⟩), fun _ => .inr hin⟩
    -- an owner and a raised barrier exclude each other
    by_contra hne
    have hdown := (halone (Option.isSome_iff_ne_none.mpr hne)).2.2
    simp [hguard.up op hin] at hdown

/-- A step of a run ends neither the drain of `op` in failure nor the
ownership of a job. -/
structure Keeps (op : OpId) (t : Runs.Taken Sys Act) : Prop where
  drain : t.act.1 = op → ∀ j d, t.src.pc op = .jobClose j d → t.dst.pc op = .finished true
  owner : t.src.shared.exclusiveJob.isSome = true → t.dst.shared.exclusiveJob.isSome = true

theorem keeps_barred {t : Runs.Taken Sys Act} (hn : next gpu t.src t.act = some t.dst)
    (hk : Keeps op t)
    (hI : (t.src.pc op).inJob = true ∨ t.src.shared.exclusiveJob.isSome = true) :
    (t.dst.pc op).inJob = true ∨ t.dst.shared.exclusiveJob.isSome = true := by
  obtain ⟨hsec, hothers⟩ := section_of_next hn
  rcases hI with hin | hex
  · by_cases ho : op = t.act.1
    · subst ho
      rcases hsec.phase with ⟨hsame, -⟩ | ⟨-, hout, -⟩ | ⟨j, d, hpc, hfin, -⟩ | ⟨j, -, -, htake, -⟩
      · exact .inl (hsame.trans hin)
      · simp [hout] at hin
      · have hdone := hk.drain rfl j d hpc
        simp [hfin] at hdone
      · exact .inr (by rw [htake]; rfl)
    · exact .inl (by rw [hothers op ho, hin])
  · exact .inr (hk.owner hex)

/-- Exclusive-job safety in every run: an owner has the GPU to itself; one
`admit_job` at a time stands behind the barrier, and none while there is an
owner; no step overwrites an owner or takes over a barrier; and as long as a
job drains or owns the GPU, no step mints a claim, records a reservation or
commits a load. -/
theorem exclusive_job_safety {s : Sys} (h : Reachable gpu s) :
    (s.shared.exclusiveJob.isSome = true →
      s.shared.residents.isEmpty = true ∧ s.shared.reservations.isEmpty = true) ∧
    (∀ op op', (s.pc op).inJob = true → (s.pc op').inJob = true →
      op = op' ∧ s.shared.exclusiveJob = none) ∧
    (∀ op choice s', next gpu s (op, choice) = some s' → Succession op s s') ∧
    ∀ op tr s', (s.pc op).inJob = true → Runs.Trace (next gpu) s tr s' →
      (∀ t ∈ tr, Keeps op t) → ∀ t ∈ tr, t.src.shared.barred = true ∧
        NoAdmission t.src.shared t.dst.shared ∧
        (t.src.pc t.act.1).commits (t.dst.pc t.act.1) = false := by
  obtain ⟨hguard, halone⟩ := holds_barrier h
  refine ⟨?_, ?_, ?_, ?_⟩
  · intro hex
    exact ⟨(halone hex).1, (halone hex).2.1⟩
  · intro op op' hin hin'
    refine ⟨hguard.unique op op' hin hin', ?_⟩
    by_contra hne
    have hdown := (halone (Option.isSome_iff_ne_none.mpr hne)).2.2
    simp [hguard.up op hin] at hdown
  · intro op choice s' hn
    exact succession h hn
  · intro op tr s' hin htr hk t ht
    have hI := (htr.invariant
      (I := fun s => (s.pc op).inJob = true ∨ s.shared.exclusiveJob.isSome = true) (.inl hin)
      fun t ht _ hn hI => keeps_barred hn (hk t ht) hI).2 t ht
    obtain ⟨hr, hn⟩ := htr.step_of_mem ht
    have hbar : t.src.shared.barred = true := by
      rcases hI with hin' | hex
      · have hup := (holds_barrier (h.trans hr)).1.up op hin'
        simp [barred, hup]
      · simp [barred, hex]
    exact ⟨hbar, (section_of_next hn).1.no_admission hbar⟩

/-- A job finds one idle resident, drains and unloads it, and takes the GPU. -/
def jobAfterServing : List Act :=
  [(0, .start (.admitServing "a" (5 : ℕ))), (0, .freeBytes 10 10), (0, .go),
   (0, .loadReturned (some 1) (some (5 : ℕ))), (0, .go), (0, .go), (0, .go), (1, .start (.release 1)),
   (2, .start (.admitJob "train")), (2, .go), (2, .go), (2, .go), (2, .go), (2, .go), (2, .go),
   (2, .go)]

theorem jobAfterServing_owns_empty_gpu : ∃ s : Sys, Reachable (.ofTotal 10) s ∧
    s.shared.exclusiveJob = some ⟨"train", 2⟩ ∧
    s.shared.residents.isEmpty = true ∧ s.shared.reservations.isEmpty = true := by
  have hrun : (Runs.run (next (.ofTotal 10)) Runs.anyStep Sys.init jobAfterServing).map
      (fun s => decide (s.shared.exclusiveJob = some ⟨"train", 2⟩)) = some true := by
    decide +kernel
  obtain ⟨s, hs, hp⟩ := Runs.exists_reachable hrun
  have hex := of_decide_eq_true hp
  exact ⟨s, hs, hex, (exclusive_job_safety hs).1 (by simp [hex])⟩

end Coordinator

end MlopsLite.HostAgent
