import MlopsLite.HostAgent.Admission.Slot

/-!
# Admission — swap reservations

A transaction of `preempt_for` has the slot reserved, under its target and
after a rollback under the engine it evicted. The reservation is a bare
name: after a rollback the outer `finally` ends it a second time, under the
target, and whatever is reserved for that target by then goes with it.
-/

namespace MlopsLite.HostAgent

open Lifecycle

variable {α ρ : Type}

/-! ## The reservation a control point stands under -/

namespace Lifecycle

def LoadCaller.swaps? (e : EngineId) : LoadCaller → Option EngineId
  | .direct | .request => none
  | .preempt _ _ | .rollback _ _ => some e

def AcquireCaller.swaps? : AcquireCaller → Option EngineId
  | .load e c | .setChild e c => c.swaps? e
  | .job => none

def UnloadCaller.swaps? (e : EngineId) : UnloadCaller α → Option EngineId
  | .reap c | .cleanup c => c.swaps? e
  | .admission _ c => c.swaps?
  | .preempt target _ => some target
  | .direct | .idleReap => none

def TeardownCaller.swaps? (e : EngineId) : TeardownCaller α → Option EngineId
  | .unload _ c => c.swaps? e
  | .idleReap => none

def ReleaseCaller.swaps? : ReleaseCaller α → Option EngineId
  | .teardown e c => c.swaps? e
  | .job => none

def PreemptAt.swaps? (target : EngineId) : PreemptAt → Option EngineId
  | .beginSwap | .rolledBack => none
  | .endRollback h => some h
  | .holder | .probe _ | .retarget _ | .endSwap _ => some target

theorem PreemptAt.swaps?_of_decides {target : EngineId} {k : PreemptAt} (h : k.decides = true) :
    k.swaps? target = some target := by
  cases k <;> first | rfl | cases h

/-- The engine a thread's transaction has the slot reserved for: its target,
or the evicted holder after the retarget. -/
def Pc.swaps? : Pc α ρ → Option EngineId
  | .preempt target k _ => k.swaps? target
  | .load e _ c => c.swaps? e
  | .acquire _ c => c.swaps?
  | .unload e _ c => c.swaps? e
  | .teardown e _ c => c.swaps? e
  | .release _ c => c.swaps?
  | .idle | .request _ _ | .idleReap _ _ => none

section

variable (e : EngineId) (r : Ret)

@[simp] theorem Pc.swaps?_load (k : LoadAt) (c : LoadCaller) :
    (Pc.load e k c : Pc α ρ).swaps? = c.swaps? e := rfl

@[simp] theorem Pc.swaps?_teardown (k : TeardownAt) (c : TeardownCaller α) :
    (Pc.teardown e k c : Pc α ρ).swaps? = c.swaps? e := rfl

@[simp] theorem Pc.swaps?_unload (k : UnloadAt) (c : UnloadCaller α) :
    (Pc.unload e k c : Pc α ρ).swaps? = c.swaps? e := rfl

@[simp] theorem swaps?_requestResume : (requestResume e r : Pc α ρ).swaps? = none := by
  cases r <;> rfl

@[simp] theorem PreemptCaller.swaps?_resume (c : PreemptCaller) :
    (c.resume e r : Pc α ρ).swaps? = none := by
  cases c with
  | direct => rfl
  | request => exact swaps?_requestResume e r

@[simp] theorem LoadCaller.swaps?_resume (c : LoadCaller) :
    (c.resume e r : Pc α ρ).swaps? = c.swaps? e := by
  cases c with
  | direct => rfl
  | request => exact swaps?_requestResume e r
  | preempt evicted c => cases r <;> cases evicted <;> rfl
  | rollback target c => rfl

@[simp] theorem AcquireCaller.swaps?_resume (c : AcquireCaller) :
    (c.resume r : Pc α ρ).swaps? = c.swaps? := by
  cases c <;> cases r <;> rfl

@[simp] theorem UnloadCaller.swaps?_resume (c : UnloadCaller α) :
    (c.resume e r : Pc α ρ).swaps? = c.swaps? e := by
  cases c <;> cases r <;> rfl

@[simp] theorem TeardownCaller.swaps?_resume (c : TeardownCaller α) :
    (c.resume e r : Pc α ρ).swaps? = c.swaps? e := by
  cases c with
  | unload drained c =>
    cases drained with
    | true => rfl
    | false => exact UnloadCaller.swaps?_resume e r c
  | idleReap => rfl

@[simp] theorem ReleaseCaller.swaps?_resume (c : ReleaseCaller α) :
    (c.resume : Pc α ρ).swaps? = c.swaps? := by
  cases c with
  | teardown e c => exact TeardownCaller.swaps?_resume e .ok c
  | job => rfl

end

end Lifecycle

namespace Admission

variable {cfg : SlotConfig} {final : EngineId → Bytes} {s s' : Sys} {t : ThreadId}
  {x x' : Shared Admission} {pc pc' : Lifecycle.Pc AcquireAt Tenant}

/-! ## What a move does to the reservation -/

/-- The reservation, and the one its thread stands under, across a move. -/
inductive SwapStep (x x' : Admission) (pc pc' : Lifecycle.Pc AcquireAt Tenant) : Prop
  | keep (hx : x'.swapTarget = x.swapTarget) (hpc : pc'.swaps? = pc.swaps?)
  | begins (target : EngineId) (hx : x.swapTarget = none)
      (hx' : x'.swapTarget = some target) (hpc : pc'.swaps? = some target)
  | retargets (old new : EngineId) (hold : pc.swaps? = some old)
      (hx' : x' = x.retargetSwap old new) (hpc : pc'.swaps? = some new)
  | ends (target : EngineId) (hold : pc.swaps? = some target) (hx' : x' = x.endSwap target)
      (hpc : pc'.swaps? = none)
  | endsAgain (target : EngineId) (c : PreemptCaller) (hat : pc = .preempt target .rolledBack c)
      (hx' : x' = x.endSwap target) (hpc : pc'.swaps? = none)

theorem swapTarget_acquire (a : Admission) (d : Tenant) (free : Option ℚ) :
    (a.acquire cfg d free).1.swapTarget = a.swapTarget := by
  unfold acquire
  split
  · rfl
  · split
    · rfl
    · split <;> rfl

theorem swapTarget_setChild (a : Admission) (e : EngineId) (c : ChildRef) :
    (a.setChild e c).swapTarget = a.swapTarget := by
  unfold setChild
  split <;> rfl

theorem swapTarget_release (a : Admission) (d : Tenant) :
    (a.release d).swapTarget = a.swapTarget := by
  unfold release
  split <;> rfl

theorem swaps?_quiet {x : Host} (h : Quiet (surface cfg) t x pc pc') :
    pc'.swaps? = pc.swaps? := by
  cases h with
  | call c => cases c <;> rfl
  | busy => exact UnloadCaller.swaps?_resume ..
  | tearRaised => exact TeardownCaller.swaps?_resume ..
  | swapRefused => exact PreemptCaller.swaps?_resume ..
  | decide hk hk' => exact (PreemptAt.swaps?_of_decides hk').trans (PreemptAt.swaps?_of_decides hk).symm
  | swapLoad hk => exact (PreemptAt.swaps?_of_decides hk).symm
  | _ => rfl

theorem swapStep_of_move (h : Move (surface cfg) final t x pc x' pc') :
    SwapStep x.admission x'.admission pc pc' := by
  cases h with
  | exits | grows | flag | spawn | assign | clear | unwedge => exact .keep rfl rfl
  | quiet h => exact .keep rfl (swaps?_quiet h)
  | lock _ h => cases h <;> exact .keep rfl rfl
  | unlock h =>
    cases h with
    | unload => exact .keep rfl (UnloadCaller.swaps?_resume ..)
    | _ => exact .keep rfl rfl
  | unflag => exact .keep rfl (LoadCaller.swaps?_resume ..)
  | wedge => exact .keep rfl (TeardownCaller.swaps?_resume ..)
  | @acquire k c _ _ r ha =>
    cases k with
    | acquire d =>
      cases ha
      exact .keep (swapTarget_acquire ..) (AcquireCaller.swaps?_resume ..)
    | setChild e child =>
      cases ha
      exact .keep (swapTarget_setChild ..) (AcquireCaller.swaps?_resume .ok c)
  | @release k c _ _ _ ha =>
    cases ha
    exact .keep (swapTarget_release ..) (ReleaseCaller.swaps?_resume ..)
  | beginSwap ha =>
    obtain ⟨hnone, rfl⟩ := of_beginSwap ha
    exact .begins _ hnone rfl rfl
  | retarget => exact .retargets _ _ rfl rfl rfl
  | endRollback => exact .ends _ rfl rfl rfl
  | rolledBack => exact .endsAgain _ _ rfl rfl (PreemptCaller.swaps?_resume ..)
  | endSwap => exact .ends _ rfl rfl (PreemptCaller.swaps?_resume ..)

/-! ## Runs -/

/-- The outer `finally` after a rollback finds nothing reserved for its target. -/
def endsOwn : Lifecycle.Pc AcquireAt Tenant → Admission → Bool
  | .preempt target .rolledBack _, a => a.swapTarget ≠ some target
  | _, _ => true

def EndsOwn (s : Sys) (a : Act) : Prop := endsOwn (s.pc a.1) s.shared.admission = true

instance (s : Sys) (a : Act) : Decidable (EndsOwn s a) := inferInstanceAs (Decidable (_ = _))

/-- While a transaction is under way the slot is reserved for it, and no
other is. -/
structure Reserved (s : Sys) : Prop where
  up : ∀ t e, (s.pc t).swaps? = some e → s.shared.admission.swapTarget = some e
  one : ∀ t u e f, (s.pc t).swaps? = some e → (s.pc u).swaps? = some f → t = u

theorem Reserved.next (h : Reserved s) {a : Act} (hok : EndsOwn s a)
    (hn : next cfg final s a = some s') : Reserved s' := by
  obtain ⟨hm, hothers⟩ := move_of_next hn
  have hstep := swapStep_of_move hm
  -- a transaction of another thread was there before
  have hother : ∀ u e, u ≠ a.1 → (s'.pc u).swaps? = some e → (s.pc u).swaps? = some e := by
    intro u e hu he
    rwa [hothers u hu] at he
  cases hstep with
  | keep hx hpc =>
    have hsame : ∀ u e, (s'.pc u).swaps? = some e → (s.pc u).swaps? = some e := by
      intro u e he
      by_cases hu : u = a.1
      · subst hu
        rwa [hpc] at he
      · exact hother u e hu he
    exact ⟨fun u e he => hx.trans (h.up u e (hsame u e he)),
      fun u v e f he hf => h.one u v e f (hsame u e he) (hsame v f hf)⟩
  | begins target hx hx' hpc =>
    have honly : ∀ u e, (s'.pc u).swaps? = some e → u = a.1 := by
      intro u e he
      by_contra hu
      have hup := h.up u e (hother u e hu he)
      simp [hx] at hup
    refine ⟨fun u e he => ?_, fun u v e f he hf => (honly u e he).trans (honly v f hf).symm⟩
    rw [honly u e he, hpc] at he
    exact hx'.trans he
  | retargets old new hold hx' hpc =>
    have honly : ∀ u e, (s'.pc u).swaps? = some e → u = a.1 := by
      intro u e he
      by_contra hu
      exact hu (h.one u a.1 e old (hother u e hu he) hold)
    refine ⟨fun u e he => ?_, fun u v e f he hf => (honly u e he).trans (honly v f hf).symm⟩
    rw [honly u e he, hpc] at he
    rw [hx', retargetSwap, if_pos (h.up _ _ hold)]
    exact he
  | ends target hold hx' hpc =>
    have hnone : ∀ u e, (s'.pc u).swaps? ≠ some e := by
      intro u e he
      by_cases hu : u = a.1
      · subst hu
        simp [hpc] at he
      · exact hu (h.one u a.1 e target (hother u e hu he) hold)
    exact ⟨fun u e he => absurd he (hnone u e), fun u _ e _ he => absurd he (hnone u e)⟩
  | endsAgain target c hat hx' hpc =>
    have hfree : s.shared.admission.swapTarget ≠ some target := by
      have hok' : endsOwn (s.pc a.1) s.shared.admission = true := hok
      rw [hat] at hok'
      simpa [endsOwn] using hok'
    have hsame : ∀ u e, (s'.pc u).swaps? = some e → (s.pc u).swaps? = some e := by
      intro u e he
      by_cases hu : u = a.1
      · subst hu
        simp [hpc] at he
      · exact hother u e hu he
    refine ⟨fun u e he => ?_, fun u v e f he hf => h.one u v e f (hsame u e he) (hsame v f hf)⟩
    rw [hx', endSwap, if_neg hfree]
    exact h.up u e (hsame u e he)

theorem reserved_of_reachable (h : Runs.Reachable (next cfg final) EndsOwn Sys.init s) :
    Reserved s :=
  h.invariant ⟨nofun, nofun⟩ fun _ _ _ _ hI hok hn => hI.next hok hn

/-- A grant: the slot was free, and `d` has it now. -/
theorem reserved_of_granted (h : Move (surface cfg) final t x pc x' pc') {d : Tenant}
    (hold : x.admission.tenant ≠ some d) (hnew : x'.admission.tenant = some d) :
    x.admission.reservedFrom d = false := by
  have habsurd : ∀ {a : Admission}, a.tenant = x.admission.tenant → a.tenant = some d → False :=
    fun heq hd => hold (heq.symm.trans hd)
  cases h with
  | @acquire k c free _ _ ha =>
    cases k with
    | acquire d' =>
      cases ha
      rcases tenant_acquire cfg x.admission d' free with
        heq | ⟨-, hr, hd⟩
      · exact (habsurd heq hnew).elim
      · obtain rfl : d' = d := Option.some.inj (hd.symm.trans hnew)
        exact hr
    | setChild e child =>
      cases ha
      exact (habsurd (tenant_setChild e child) hnew).elim
  | @release k c _ _ _ ha =>
    cases ha
    have hrel : (x.admission.release k).tenant = some d := hnew
    rw [tenant_release] at hrel
    split at hrel
    · cases hrel
    · exact absurd hrel hold
  | beginSwap ha =>
    obtain ⟨-, rfl⟩ := of_beginSwap ha
    exact absurd hnew hold
  | retarget => exact (habsurd (tenant_retargetSwap _ _) hnew).elim
  | endRollback | rolledBack | endSwap => exact (habsurd (tenant_endSwap _) hnew).elim
  | _ => exact absurd hnew hold

/-- What a transaction is promised, in one state: the slot stays reserved for
it; a step grants the slot to its reserved engine only; and a step of
another thread, the end of another transaction among them, leaves the
reservation as it is. -/
structure SwapContinuity (cfg : SlotConfig) (final : EngineId → Bytes) (s : Sys) : Prop where
  up : ∀ t e, (s.pc t).swaps? = some e → s.shared.admission.swapTarget = some e
  granted : ∀ t e a s' d, (s.pc t).swaps? = some e → next cfg final s a = some s' →
    s.shared.admission.tenant ≠ some d → s'.shared.admission.tenant = some d → d = .engine e
  kept : ∀ t e a s', (s.pc t).swaps? = some e → next cfg final s a = some s' → EndsOwn s a →
    a.1 ≠ t → s'.shared.admission.swapTarget = s.shared.admission.swapTarget

theorem swap_continuity (h : Runs.Reachable (next cfg final) EndsOwn Sys.init s) :
    SwapContinuity cfg final s := by
  have hres := reserved_of_reachable h
  refine ⟨hres.up, ?_, ?_⟩
  · intro t e a s' d ht hn hold hnew
    have hfree := reserved_of_granted (move_of_next hn).1 hold hnew
    have hup := hres.up t e ht
    simp only [reservedFrom, hup, Option.any_some, decide_eq_false_iff_not, ne_eq,
      Decidable.not_not] at hfree
    exact hfree.symm
  · intro t e a s' ht hn hok hne
    have hup := hres.up t e ht
    have hup' := (hres.next hok hn).up t e (by rwa [(move_of_next hn).2 t hne.symm])
    exact hup'.trans hup.symm

/-- Thread 0 makes `llm` resident; thread 1 begins a swap to `asr`. -/
def beganSwap : List Act :=
  [(0, .call (.load "llm")), (0, .go), (0, .go), (0, .go), (0, .go), (0, .go), (0, .go),
    (0, .admission (some 8)), (0, .go), (0, .go), (0, .go), (0, .admission none), (0, .ready),
    (0, .go), (0, .go), (1, .call (.preempt "asr")), (1, .go)]

/-- The slot is reserved for a swap that has begun. -/
theorem begun_swap_reserves :
    ∃ s : Sys, (s.pc 1).swaps? = some "asr" ∧ SwapContinuity eightGb fourGb s := by
  have hrun : (Runs.run (next eightGb fourGb) EndsOwn Sys.init beganSwap).map
      (fun s => decide ((s.pc 1).swaps? = some "asr")) = some true := by decide +kernel
  obtain ⟨s, hs, hp⟩ := Runs.exists_reachable hrun
  exact ⟨s, of_decide_eq_true hp, swap_continuity hs⟩

/-- The swap evicts `llm`, `asr` cannot be spawned, and `llm` is reloaded.
Between the two ends of the rollback thread 2 begins its own swap to `asr`. -/
def secondSwapInRollback : List Act :=
  beganSwap ++
    ([(1, .go), (1, .go), (1, .go), (1, .go), (1, .go), (1, .go), (1, .exits 0), (1, .go), (1, .go),
      (1, .go), (1, .admission none), (1, .go),
      (1, .go), (1, .go), (1, .go), (1, .go), (1, .go), (1, .go), (1, .admission (some 8)),
      (1, .fails), (1, .go), (1, .go), (1, .go), (1, .go), (1, .admission none), (1, .go),
      (1, .go), (1, .go), (1, .go),
      (1, .go), (1, .go), (1, .go), (1, .go), (1, .go), (1, .go), (1, .admission (some 8)),
      (1, .go), (1, .go), (1, .go), (1, .admission none), (1, .ready), (1, .go), (1, .go), (1, .go),
      (2, .call (.preempt "asr")), (2, .go), (1, .go)] : List Act)

/-- The outer `finally` of the rollback drops the other transaction's
reservation. -/
theorem rollback_drops_other_reservation :
    ¬ ∀ s, Runs.Reachable (next eightGb fourGb) Runs.anyStep Sys.init s →
      ∀ t e, (s.pc t).swaps? = some e → s.shared.admission.swapTarget = some e := by
  have hrun : (Runs.run (next eightGb fourGb) Runs.anyStep Sys.init secondSwapInRollback).map
      (fun s => decide ((s.pc 2).swaps? = some "asr" ∧
        s.shared.admission.swapTarget = none)) = some true := by decide +kernel
  obtain ⟨s, hs, hp⟩ := Runs.exists_reachable hrun
  obtain ⟨hswap, hnone⟩ := of_decide_eq_true hp
  intro hall
  have hup := hall s hs 2 "asr" hswap
  simp [hnone] at hup

end Admission

end MlopsLite.HostAgent
