import MlopsLite.HostAgent.Lifecycle.Moves

/-!
# Engine runtimes — who holds a lock

A runtime lock's owner and depth are counted off the control point of its
owner. So two threads never hold one lock, and a load in progress is told
from its thread alone. A hard cut holds no lock; `Orderly` says when none
meets a load of its engine.
-/

namespace MlopsLite.HostAgent

namespace Lifecycle

variable {σ α ρ χ : Type}

/-! ## Locks counted off a control point -/

/-- One level of the lock of `e`. -/
def one (e : EngineId) : EngineId → Nat := Pi.single e 1

def PreemptCaller.holds (target : EngineId) : PreemptCaller → EngineId → Nat
  | .direct => 0
  | .request => one target

def LoadCaller.holds (e : EngineId) : LoadCaller → EngineId → Nat
  | .direct => 0
  | .request => one e
  | .preempt _ c => c.holds e
  | .rollback target c => c.holds target

def AcquireCaller.holds : AcquireCaller → EngineId → Nat
  | .load e c | .setChild e c => one e + c.holds e
  | .job => 0

def UnloadCaller.holds (e : EngineId) : UnloadCaller α → EngineId → Nat
  | .direct => 0
  | .reap c | .cleanup c => one e + c.holds e
  | .admission _ c => c.holds
  | .preempt target c => c.holds target
  | .idleReap => one e

def TeardownCaller.holds (e : EngineId) : TeardownCaller α → EngineId → Nat
  | .unload drained c => (if drained then one e else 0) + c.holds e
  | .idleReap => one e

def ReleaseCaller.holds : ReleaseCaller α → EngineId → Nat
  | .teardown e c => c.holds e
  | .job => 0

/-- How many levels of each lock a thread has taken. -/
def Pc.holds : Pc α ρ → EngineId → Nat
  | .idle => 0
  | .request e k => match k with
    | .lock _ => 0
    | _ => one e
  | .preempt target _ c => c.holds target
  | .load e k c => (if k.inside then one e else 0) + c.holds e
  | .acquire _ c => c.holds
  | .unload e k c => (match k with
    | .unlock _ => one e
    | _ => 0) + c.holds e
  | .teardown e _ c => c.holds e
  | .release _ c => c.holds
  | .idleReap e k => if k.inside then one e else 0

section

variable (e : EngineId) (r : Ret)

@[simp] theorem Pc.holds_preempt (k : PreemptAt) (c : PreemptCaller) :
    (Pc.preempt e k c : Pc α ρ).holds = c.holds e := rfl

@[simp] theorem Pc.holds_load (k : LoadAt) (c : LoadCaller) :
    (Pc.load e k c : Pc α ρ).holds = (if k.inside then one e else 0) + c.holds e := rfl

@[simp] theorem Pc.holds_acquire (k : α) (c : AcquireCaller) :
    (Pc.acquire k c : Pc α ρ).holds = c.holds := rfl

@[simp] theorem Pc.holds_teardown (k : TeardownAt) (c : TeardownCaller α) :
    (Pc.teardown e k c : Pc α ρ).holds = c.holds e := rfl

@[simp] theorem Pc.holds_release (k : ρ) (c : ReleaseCaller α) :
    (Pc.release k c : Pc α ρ).holds = c.holds := rfl

@[simp] theorem holds_requestResume : (requestResume e r : Pc α ρ).holds = one e := by
  cases r <;> rfl

@[simp] theorem PreemptCaller.holds_resume (c : PreemptCaller) :
    (c.resume e r : Pc α ρ).holds = c.holds e := by
  cases c with
  | direct => rfl
  | request => exact holds_requestResume e r

@[simp] theorem LoadCaller.holds_resume (c : LoadCaller) :
    (c.resume e r : Pc α ρ).holds = c.holds e := by
  cases c with
  | direct => rfl
  | request => exact holds_requestResume e r
  | preempt evicted c => cases r <;> cases evicted <;> rfl
  | rollback target c => rfl

@[simp] theorem AcquireCaller.holds_resume (c : AcquireCaller) :
    (c.resume r : Pc α ρ).holds = c.holds := by
  cases c <;> cases r <;>
    simp [AcquireCaller.resume, Pc.holds, AcquireCaller.holds, UnloadCaller.holds, LoadAt.inside]

@[simp] theorem UnloadCaller.holds_resume (c : UnloadCaller α) :
    (c.resume e r : Pc α ρ).holds = c.holds e := by
  cases c <;> cases r <;>
    simp [UnloadCaller.resume, Pc.holds, UnloadCaller.holds, LoadAt.inside, IdleAt.inside,
      LoadCaller.holds]

@[simp] theorem TeardownCaller.holds_resume (c : TeardownCaller α) :
    (c.resume e r : Pc α ρ).holds = c.holds e := by
  cases c with
  | unload drained c =>
    cases drained with
    | true => rfl
    | false => simp [TeardownCaller.resume, TeardownCaller.holds]
  | idleReap => rfl

@[simp] theorem ReleaseCaller.holds_resume (c : ReleaseCaller α) :
    (c.resume : Pc α ρ).holds = c.holds := by
  cases c with
  | teardown e c => simp [ReleaseCaller.resume, ReleaseCaller.holds]
  | job => rfl

end

/-! ## What a move does to the locks -/

/-- The locks, and the levels a thread has taken of them, from `h` to `h'`. -/
inductive LockStep (t : ThreadId) (x y : Host) (h h' : EngineId → Nat) : Prop
  | keep (ho : ∀ e, (y.runtimes e).owner = (x.runtimes e).owner ∧
      (y.runtimes e).depth = (x.runtimes e).depth) (hh : h' = h)
  | lock (e : EngineId) (hl : x.lockable e t = true) (hy : y = x.acquireLock e t)
      (hh : h' = one e + h)
  | unlock (e : EngineId) (hy : y = x.releaseLock e) (hh : h = one e + h')

theorem LockStep.refl {t : ThreadId} {x : Host} {h h' : EngineId → Nat} (hh : h' = h) :
    LockStep t x x h h' :=
  .keep (fun _ => ⟨rfl, rfl⟩) hh

/-- A write to one runtime that leaves its lock alone. -/
theorem Host.lock_setRuntime (x : Host) (e : EngineId) {f : Runtime → Runtime}
    (hf : ∀ r, (f r).owner = r.owner ∧ (f r).depth = r.depth) (e' : EngineId) :
    ((x.setRuntime e f).runtimes e').owner = (x.runtimes e').owner ∧
      ((x.setRuntime e f).runtimes e').depth = (x.runtimes e').depth := by
  by_cases he : e' = e
  · subst he
    simpa [Host.setRuntime] using hf _
  · simp [Host.setRuntime, he]

theorem Host.lock_setLoading (x : Host) (e : EngineId) (b : Bool) (e' : EngineId) :
    ((x.setLoading e b).runtimes e').owner = (x.runtimes e').owner ∧
      ((x.setLoading e b).runtimes e').depth = (x.runtimes e').depth :=
  x.lock_setRuntime e (f := fun r => { r with loading := b }) (fun _ => ⟨rfl, rfl⟩) e'

theorem Host.lock_setChild (x : Host) (e : EngineId) (c : Option ChildRef) (e' : EngineId) :
    ((x.setChild e c).runtimes e').owner = (x.runtimes e').owner ∧
      ((x.setChild e c).runtimes e').depth = (x.runtimes e').depth :=
  x.lock_setRuntime e (f := fun r => { r with child := c }) (fun _ => ⟨rfl, rfl⟩) e'

theorem Host.lock_setWedged (x : Host) (e : EngineId) (b : Bool) (e' : EngineId) :
    ((x.setWedged e b).runtimes e').owner = (x.runtimes e').owner ∧
      ((x.setWedged e b).runtimes e').depth = (x.runtimes e').depth :=
  x.lock_setRuntime e (f := fun r => { r with wedged := b }) (fun _ => ⟨rfl, rfl⟩) e'

variable {adm : AdmissionSurface σ α ρ χ} {final : EngineId → Bytes} {t : ThreadId}
  {x x' : Shared σ} {pc pc' : Pc α ρ}

theorem holds_enter (c : Call) : (c.enter adm).holds = 0 := by
  cases c <;> rfl

theorem Quiet.holds {x : Host} (h : Quiet adm t x pc pc') : pc'.holds = pc.holds := by
  cases h with
  | call c => exact holds_enter c
  | plain hk hk' =>
    simp [Pc.holds, LoadAt.inside_of_plain hk, LoadAt.inside_of_plain hk']
  | idlePlain hk hk' => simp [Pc.holds, hk, hk']
  | idleTear hk => simp [Pc.holds, TeardownCaller.holds, hk]
  | idleUnload hk => simp [Pc.holds, UnloadCaller.holds, hk]
  | busy =>
    rw [UnloadCaller.holds_resume]
    exact (zero_add _).symm
  | tearRaised | swapRefused => simp
  | _ => simp [Pc.holds, AcquireCaller.holds, UnloadCaller.holds, TeardownCaller.holds,
      LoadCaller.holds, LoadAt.inside]

theorem Locks.holds {e : EngineId} (h : Locks e pc pc') : pc'.holds = one e + pc.holds := by
  cases h with
  | idle => rfl
  | _ => simp [Pc.holds, TeardownCaller.holds, LoadAt.inside, LoadCaller.holds,
      PreemptCaller.holds]

theorem Unlocks.holds {e : EngineId} (h : Unlocks e pc pc') : pc.holds = one e + pc'.holds := by
  cases h with
  | load => simp [LoadAt.inside]
  | unload =>
    rw [UnloadCaller.holds_resume]
    rfl
  | idle => rfl
  | request => rfl

theorem Move.lockStep (h : Move adm final t x pc x' pc') :
    LockStep t x.host x'.host pc.holds pc'.holds := by
  cases h with
  | exits | grows => exact .keep (fun _ => ⟨rfl, rfl⟩) rfl
  | quiet h => exact .refl h.holds
  | lock hl h => exact .lock _ hl rfl h.holds
  | unlock h => exact .unlock _ rfl h.holds
  | flag => exact .keep (fun _ => Host.lock_setLoading ..) rfl
  | unflag =>
    refine .keep (fun _ => Host.lock_setLoading ..) ?_
    simp [LoadAt.inside]
  | spawn => exact .keep (fun _ => ⟨rfl, rfl⟩) rfl
  | assign => exact .keep (fun _ => Host.lock_setChild ..) rfl
  | wedge =>
    refine .keep (fun _ => Host.lock_setWedged ..) ?_
    simp
  | clear => exact .keep (fun _ => Host.lock_setChild ..) rfl
  | unwedge => exact .keep (fun _ => Host.lock_setWedged ..) rfl
  | @acquire k c _ _ r _ =>
    refine .refl ?_
    cases r with
    | goto k' => rfl
    | unload e k' => exact zero_add _
    | ret r => exact AcquireCaller.holds_resume r c
  | @release k c _ _ r _ =>
    refine .refl ?_
    cases r with
    | goto k' => rfl
    | done => exact ReleaseCaller.holds_resume c
  | beginSwap | endRollback => exact .refl rfl
  | retarget =>
    refine .refl ?_
    simp [LoadAt.inside, LoadCaller.holds]
  | rolledBack | endSwap =>
    refine .refl ?_
    simp

/-! ## Ownership -/

/-- The levels of the lock of `e` that `t` owns. -/
def Host.owned (x : Host) (t : ThreadId) (e : EngineId) : Nat :=
  if (x.runtimes e).owner = some t then (x.runtimes e).depth else 0

/-- A lock is free just when its depth is zero. -/
def LocksFree (x : Shared σ) : Prop :=
  ∀ e, (x.host.runtimes e).owner = none ↔ (x.host.runtimes e).depth = 0

def LocksOwned (t : ThreadId) (x : Shared σ) (pc : Pc α ρ) : Prop := x.host.owned t = pc.holds

theorem one_self (e : EngineId) : one e e = 1 := Pi.single_eq_same ..

theorem one_ne {e f : EngineId} (h : f ≠ e) : one e f = 0 := Pi.single_eq_of_ne h ..

theorem LockStep.owned {y : Host} {x : Host} {h h' : EngineId → Nat}
    (hs : LockStep t x y h h')
    (hfree : ∀ e, (x.runtimes e).owner = none ↔ (x.runtimes e).depth = 0)
    (hown : x.owned t = h) :
    (∀ e, (y.runtimes e).owner = none ↔ (y.runtimes e).depth = 0) ∧ y.owned t = h' ∧
      ∀ u, u ≠ t → y.owned u = x.owned u := by
  cases hs with
  | keep ho hh =>
    refine ⟨fun e => ?_, ?_, fun u _ => ?_⟩
    · rw [(ho e).1, (ho e).2]
      exact hfree e
    · rw [hh, ← hown]
      funext e
      simp [Host.owned, ho e]
    · funext e
      simp [Host.owned, ho e]
  | lock e hl hy hh =>
    subst hy hh hown
    have hl' : (x.runtimes e).owner = none ∨ (x.runtimes e).owner = some t := by
      simpa [Host.lockable] using hl
    refine ⟨fun f => ?_, ?_, fun u hu => ?_⟩
    · by_cases hf : f = e
      · subst hf
        simp [Host.acquireLock, Host.setRuntime]
      · simpa [Host.acquireLock, Host.setRuntime, hf] using hfree f
    · funext f
      by_cases hf : f = e
      · subst hf
        rcases hl' with ho | ho
        · simp [Host.owned, Host.acquireLock, Host.setRuntime, ho, (hfree f).mp ho, one_self]
        · simp [Host.owned, Host.acquireLock, Host.setRuntime, ho, one_self, Nat.add_comm]
      · simp [Host.owned, Host.acquireLock, Host.setRuntime, hf, one_ne hf]
    · funext f
      by_cases hf : f = e
      · subst hf
        rcases hl' with ho | ho <;>
          simp [Host.owned, Host.acquireLock, Host.setRuntime, ho, Ne.symm hu]
      · simp [Host.owned, Host.acquireLock, Host.setRuntime, hf]
  | unlock e hy hh =>
    subst hy
    have hpos : x.owned t e ≠ 0 := by simp [hown, hh, one_self]
    have ho : (x.runtimes e).owner = some t := by
      by_contra hne
      exact hpos (if_neg hne)
    have hd : (x.runtimes e).depth ≠ 0 := by simpa [Host.owned, ho] using hpos
    refine ⟨fun f => ?_, ?_, fun u hu => ?_⟩
    · by_cases hf : f = e
      · subst hf
        simp only [Host.releaseLock, Host.setRuntime, Function.update_self, ho]
        split <;> simp <;> omega
      · simpa [Host.releaseLock, Host.setRuntime, hf] using hfree f
    · funext f
      have hf' := congrFun (hown.trans hh) f
      by_cases hf : f = e
      · subst hf
        simp only [Host.owned, ho, if_true, Pi.add_apply, one_self] at hf'
        simp only [Host.owned, Host.releaseLock, Host.setRuntime, Function.update_self, ho]
        split <;> simp <;> omega
      · simp only [Pi.add_apply, one_ne hf, Nat.zero_add] at hf'
        simpa [Host.owned, Host.releaseLock, Host.setRuntime, hf] using hf'
    · funext f
      by_cases hf : f = e
      · subst hf
        simp only [Host.owned, Host.releaseLock, Host.setRuntime, Function.update_self, ho]
        split <;> simp [Ne.symm hu]
      · simp [Host.owned, Host.releaseLock, Host.setRuntime, hf]

/-! ## The system -/

abbrev Sys (σ α ρ : Type) := Interleaving.State ThreadId (Shared σ) (Pc α ρ)

abbrev next (adm : AdmissionSurface σ α ρ χ) (final : EngineId → Bytes) :
    Sys σ α ρ → ThreadId × Choice χ → Option (Sys σ α ρ) :=
  Interleaving.next (advance adm final)

/-- No call has begun, over an admission as constructed. -/
def Sys.init (a : σ) : Sys σ α ρ := ⟨⟨Host.init, a⟩, fun _ => .idle⟩

theorem move_of_next {s s' : Sys σ α ρ} {a : ThreadId × Choice χ}
    (h : next adm final s a = some s') :
    Move adm final a.1 s.shared (s.pc a.1) s'.shared (s'.pc a.1) ∧
      ∀ u, u ≠ a.1 → s'.pc u = s.pc u := by
  obtain ⟨t, ch⟩ := a
  obtain ⟨x, k, ha, rfl⟩ := Interleaving.next_eq_some.mp h
  refine ⟨by simpa using move_of_advance ha, ?_⟩
  intro u hu
  exact Function.update_of_ne hu ..

variable {ok : Sys σ α ρ → ThreadId × Choice χ → Prop} {a : σ} {s : Sys σ α ρ}

theorem holds_locksOwned (h : Runs.Reachable (next adm final) ok (.init a) s) :
    Interleaving.Holds LocksFree LocksOwned s := by
  refine Interleaving.threadwise (R := fun t x y => ∀ u, u ≠ t → y.host.owned u = x.host.owned u)
    ⟨fun _ => by simp [Sys.init, Host.init, Runtime.cold], fun _ => ?_⟩ ?_ ?_ h
  · funext e
    rfl
  · intro s t c x k _ hI _ ha
    exact (move_of_advance ha).lockStep.owned hI.global (hI.thread t)
  · intro t u x y k hR hu hL
    exact (hR u hu).trans hL

/-- A thread that has taken a lock is its owner. -/
theorem owner_of_holds (h : Runs.Reachable (next adm final) ok (.init a) s) {t : ThreadId}
    {e : EngineId} (hh : (s.pc t).holds e ≠ 0) : (s.shared.host.runtimes e).owner = some t := by
  have hown : s.shared.host.owned t = (s.pc t).holds := (holds_locksOwned h).thread t
  rw [← hown] at hh
  by_contra hne
  exact hh (if_neg hne)

/-! ## Loads in progress and hard cuts -/

def AcquireCaller.load? : AcquireCaller → Option EngineId
  | .load e _ | .setChild e _ => some e
  | .job => none

def UnloadCaller.load? (e : EngineId) : UnloadCaller α → Option EngineId
  | .reap _ | .cleanup _ => some e
  | .admission _ c => c.load?
  | _ => none

def TeardownCaller.load? (e : EngineId) : TeardownCaller α → Option EngineId
  | .unload _ c => c.load? e
  | .idleReap => none

def ReleaseCaller.load? : ReleaseCaller α → Option EngineId
  | .teardown e c => c.load? e
  | .job => none

/-- The engine whose `ensure_loaded` the thread is in, with its lock. -/
def Pc.load? : Pc α ρ → Option EngineId
  | .load e k _ => if k.inside then some e else none
  | .acquire _ c => c.load?
  | .unload e _ c => c.load? e
  | .teardown e _ c => c.load? e
  | .release _ c => c.load?
  | _ => none

/-- The engine the thread is tearing down. -/
def Pc.tears? : Pc α ρ → Option EngineId
  | .teardown e _ _ | .release _ (.teardown e _) => some e
  | _ => none

/-- The engine the thread is tearing down without its lock. -/
def Pc.cut? : Pc α ρ → Option EngineId
  | .teardown e _ (.unload false _) | .release _ (.teardown e (.unload false _)) => some e
  | _ => none

/-- About to read `_loading`, the wait for the lock being over. -/
def Pc.atFlag : Pc α ρ → Bool
  | .unload _ .flag _ => true
  | _ => false

section

variable (e : EngineId) (r : Ret)

@[simp] theorem Pc.load?_preempt (k : PreemptAt) (c : PreemptCaller) :
    (Pc.preempt e k c : Pc α ρ).load? = none := rfl

@[simp] theorem Pc.load?_load (k : LoadAt) (c : LoadCaller) :
    (Pc.load e k c : Pc α ρ).load? = if k.inside then some e else none := rfl

@[simp] theorem Pc.load?_acquire (k : α) (c : AcquireCaller) :
    (Pc.acquire k c : Pc α ρ).load? = c.load? := rfl

@[simp] theorem Pc.load?_unload (k : UnloadAt) (c : UnloadCaller α) :
    (Pc.unload e k c : Pc α ρ).load? = c.load? e := rfl

@[simp] theorem Pc.load?_teardown (k : TeardownAt) (c : TeardownCaller α) :
    (Pc.teardown e k c : Pc α ρ).load? = c.load? e := rfl

@[simp] theorem Pc.load?_release (k : ρ) (c : ReleaseCaller α) :
    (Pc.release k c : Pc α ρ).load? = c.load? := rfl

@[simp] theorem load?_requestResume : (requestResume e r : Pc α ρ).load? = none := by
  cases r <;> rfl

@[simp] theorem PreemptCaller.load?_resume (c : PreemptCaller) :
    (c.resume e r : Pc α ρ).load? = none := by
  cases c with
  | direct => rfl
  | request => exact load?_requestResume e r

@[simp] theorem LoadCaller.load?_resume (c : LoadCaller) :
    (c.resume e r : Pc α ρ).load? = none := by
  cases c with
  | direct => rfl
  | request => exact load?_requestResume e r
  | preempt evicted c => cases r <;> cases evicted <;> rfl
  | rollback target c => rfl

@[simp] theorem AcquireCaller.load?_resume (c : AcquireCaller) :
    (c.resume r : Pc α ρ).load? = c.load? := by
  cases c <;> cases r <;> rfl

@[simp] theorem UnloadCaller.load?_resume (c : UnloadCaller α) :
    (c.resume e r : Pc α ρ).load? = c.load? e := by
  cases c <;> cases r <;> rfl

@[simp] theorem TeardownCaller.load?_resume (c : TeardownCaller α) :
    (c.resume e r : Pc α ρ).load? = c.load? e := by
  cases c with
  | unload drained c =>
    cases drained with
    | true => rfl
    | false => simp [TeardownCaller.resume, TeardownCaller.load?]
  | idleReap => rfl

@[simp] theorem ReleaseCaller.load?_resume (c : ReleaseCaller α) :
    (c.resume : Pc α ρ).load? = c.load? := by
  cases c with
  | teardown e c => simp [ReleaseCaller.resume, ReleaseCaller.load?]
  | job => rfl

@[simp] theorem tears?_requestResume : (requestResume e r : Pc α ρ).tears? = none := by
  cases r <;> rfl

@[simp] theorem PreemptCaller.tears?_resume (c : PreemptCaller) :
    (c.resume e r : Pc α ρ).tears? = none := by
  cases c with
  | direct => rfl
  | request => exact tears?_requestResume e r

@[simp] theorem LoadCaller.tears?_resume (c : LoadCaller) :
    (c.resume e r : Pc α ρ).tears? = none := by
  cases c with
  | direct => rfl
  | request => exact tears?_requestResume e r
  | preempt evicted c => cases r <;> cases evicted <;> rfl
  | rollback target c => rfl

@[simp] theorem AcquireCaller.tears?_resume (c : AcquireCaller) :
    (c.resume r : Pc α ρ).tears? = none := by
  cases c <;> cases r <;> rfl

@[simp] theorem UnloadCaller.tears?_resume (c : UnloadCaller α) :
    (c.resume e r : Pc α ρ).tears? = none := by
  cases c <;> cases r <;> rfl

@[simp] theorem TeardownCaller.tears?_resume (c : TeardownCaller α) :
    (c.resume e r : Pc α ρ).tears? = none := by
  cases c with
  | unload drained c =>
    cases drained with
    | true => rfl
    | false => simp [TeardownCaller.resume]
  | idleReap => rfl

@[simp] theorem ReleaseCaller.tears?_resume (c : ReleaseCaller α) :
    (c.resume : Pc α ρ).tears? = none := by
  cases c with
  | teardown e c => simp [ReleaseCaller.resume]
  | job => rfl

end

theorem Pc.cut?_teardown (e : EngineId) (k k' : TeardownAt) (c : TeardownCaller α) :
    (Pc.teardown e k' c : Pc α ρ).cut? = (Pc.teardown e k c : Pc α ρ).cut? := by
  rcases c with ⟨_ | _, _⟩ | _ <;> rfl

theorem Pc.cut?_release (e : EngineId) (k : TeardownAt) (k' : ρ) (c : TeardownCaller α) :
    (Pc.release k' (.teardown e c)).cut? = (Pc.teardown e k c : Pc α ρ).cut? := by
  rcases c with ⟨_ | _, _⟩ | _ <;> rfl

theorem Pc.tears?_of_cut? {pc : Pc α ρ} {e : EngineId} (h : pc.cut? = some e) :
    pc.tears? = some e := by
  unfold Pc.cut? at h
  split at h <;> simp_all [Pc.tears?]

theorem Pc.cut?_of_tears? {pc : Pc α ρ} (h : pc.tears? = none) : pc.cut? = none := by
  cases hc : pc.cut? with
  | none => rfl
  | some e => simp [Pc.tears?_of_cut? hc] at h

/-- A load in progress holds its engine's lock. -/
theorem Pc.holds_of_load? {pc : Pc α ρ} {e : EngineId} (h : pc.load? = some e) :
    pc.holds e ≠ 0 := by
  have hacq : ∀ {c : AcquireCaller}, c.load? = some e → c.holds e ≠ 0 := by
    intro c hc
    cases c <;> simp_all [AcquireCaller.load?, AcquireCaller.holds, one_self]
  have hun : ∀ {f : EngineId} {c : UnloadCaller α}, c.load? f = some e → c.holds f e ≠ 0 := by
    intro f c hc
    cases c with
    | admission k c => exact hacq hc
    | _ => simp_all [UnloadCaller.load?, UnloadCaller.holds, one_self]
  have htear : ∀ {f : EngineId} {c : TeardownCaller α}, c.load? f = some e →
      c.holds f e ≠ 0 := by
    intro f c hc
    cases c with
    | unload drained c =>
      have := hun (c := c) hc
      simp only [TeardownCaller.holds, Pi.add_apply]
      omega
    | idleReap => cases hc
  cases pc with
  | load f k c =>
    simp only [Pc.load?, Option.ite_none_right_eq_some, Option.some.injEq] at h
    obtain ⟨hk, rfl⟩ := h
    simp [Pc.holds, hk, one_self]
  | acquire k c => exact hacq h
  | unload f k c =>
    have := hun (c := c) h
    simp only [Pc.holds, Pi.add_apply]
    omega
  | teardown f k c => exact htear h
  | release k c =>
    cases c with
    | teardown f c => exact htear h
    | job => cases h
  | idle | request | preempt | idleReap => cases h

/-- A teardown that is not a hard cut holds its engine's lock. -/
theorem Pc.holds_of_tears? {pc : Pc α ρ} {e : EngineId} (h : pc.tears? = some e)
    (hc : pc.cut? = none) : pc.holds e ≠ 0 := by
  have htear : ∀ {c : TeardownCaller α}, (∀ c', c ≠ .unload false c') → c.holds e e ≠ 0 := by
    intro c hne
    cases c with
    | unload drained c =>
      cases drained with
      | true => simp [TeardownCaller.holds, one_self]
      | false => exact absurd rfl (hne c)
    | idleReap => simp [TeardownCaller.holds, one_self]
  cases pc with
  | teardown f k c =>
    cases h
    refine htear fun c' hc' => ?_
    subst hc'
    cases hc
  | release k c =>
    cases c with
    | teardown f c =>
      cases h
      refine htear fun c' hc' => ?_
      subst hc'
      cases hc
    | job => cases h
  | _ => cases h

/-! ## Orderly runs -/

/-- A step that lets no hard cut meet a load of its engine: a hard cut that
reads `_loading` as `False` finds no load inside the lock, and a load that
takes the lock finds no hard cut under way. -/
structure Orderly (s : Sys σ α ρ) (a : ThreadId × Choice χ) : Prop where
  cut : ∀ e c, s.pc a.1 = .unload e .flag c → (s.shared.host.runtimes e).loading = false →
    ∀ u, (s.pc u).load? ≠ some e
  load : ∀ e c, s.pc a.1 = .load e .lock c → ∀ u, (s.pc u).cut? ≠ some e

/-- One thread alone, never at a hard cut. -/
def Solo (s : Sys σ α ρ) (a : ThreadId × Choice χ) : Prop :=
  a.1 = 0 ∧ (s.pc 0).atFlag = false ∧ (s.pc 0).cut? = none

instance (s : Sys σ α ρ) (a : ThreadId × Choice χ) : Decidable (Solo s a) :=
  inferInstanceAs (Decidable (_ ∧ _ ∧ _))

theorem orderly_of_solo (h : Runs.Reachable (next adm final) ok (.init a) s)
    (hsub : ∀ s b, ok s b → Solo s b) {b : ThreadId × Choice χ} (hb : ok s b) : Orderly s b := by
  obtain ⟨h0, hflag, hcut⟩ := hsub s b hb
  have hothers := Interleaving.others_of_solo (t := 0) (fun s b hb => (hsub s b hb).1) h
  refine ⟨fun e c hpc => ?_, fun e c _ u => ?_⟩
  · rw [h0] at hpc
    simp [hpc, Pc.atFlag] at hflag
  · by_cases hu : u = 0
    · simp [hu, hcut]
    · rw [hothers u hu]
      nofun

theorem Move.load? (h : Move adm final t x pc x' pc') {e : EngineId} (he : pc'.load? = some e) :
    pc.load? = some e ∨ ∃ c, pc = .load e .lock c := by
  cases h with
  | exits | grows => exact .inl he
  | quiet h =>
    cases h with
    | call c => cases c <;> cases he
    | plain hk hk' =>
      refine .inl ?_
      simpa [LoadAt.inside_of_plain hk, LoadAt.inside_of_plain hk'] using he
    | reapAlive | reapAbsent | reapedWedged | reaped | spawnFailed | setChild | childLost
    | startupFailed => exact .inl he
    | busy | tearRaised => exact .inl (by simpa using he)
    | swapRefused => simp at he
    | lockHeld | hardCut | tearReads | tearAbsent | tearWait | tearDead | tearAlive =>
      exact .inl he
    | idlePlain | idleTear | idleUnload | forward | decide | swapLoad | swapUnload => cases he
  | lock hl h =>
    cases h with
    | @load c =>
      cases he
      exact .inr ⟨c, rfl⟩
    | unload => exact .inl he
    | idle | request | preempt => cases he
  | unlock h =>
    cases h with
    | unload => exact .inl (by simpa using he)
    | load | idle | request => cases he
  | unflag | rolledBack | endSwap => simp at he
  | wedge => exact .inl (by simpa using he)
  | @acquire k c _ _ r _ =>
    cases r with
    | goto | unload => exact .inl he
    | ret r => exact .inl (by simpa [Admit.resume] using he)
  | @release k c _ _ r _ =>
    cases r with
    | goto => exact .inl he
    | done => exact .inl (by simpa [Drop.resume] using he)
  | flag | beginSwap | retarget | endRollback => cases he
  | spawn | assign | clear | unwedge => exact .inl he

/-- A teardown that begins is a drained one, or a hard cut that read the flag. -/
theorem Move.tears? (h : Move adm final t x pc x' pc') {e : EngineId} (he : pc'.tears? = some e) :
    pc.tears? = some e ∧ pc'.cut? = pc.cut? ∨ pc.tears? = none ∧ pc'.cut? = none ∨
      ∃ c, pc = .unload e .flag c ∧ (x.host.runtimes e).loading = false := by
  cases h with
  | exits | grows => exact .inl ⟨he, rfl⟩
  | quiet h =>
    cases h with
    | call c => cases c <;> cases he
    | @hardCut _ c hf =>
      cases he
      exact .inr (.inr ⟨c, rfl, hf⟩)
    | idleTear => exact .inr (.inl ⟨rfl, rfl⟩)
    | tearReads | tearAbsent | tearWait | tearDead | tearAlive =>
      exact .inl ⟨he, Pc.cut?_teardown ..⟩
    | busy | tearRaised | swapRefused => simp at he
    | _ => cases he
  | lock hl h =>
    cases h with
    | unload => exact .inr (.inl ⟨rfl, rfl⟩)
    | _ => cases he
  | unlock h =>
    cases h with
    | unload => simp at he
    | _ => cases he
  | clear => exact .inl ⟨he, Pc.cut?_teardown ..⟩
  | unwedge => exact .inl ⟨he, Pc.cut?_release ..⟩
  | unflag | wedge | rolledBack | endSwap => simp at he
  | @acquire k c _ _ r _ =>
    cases r with
    | goto | unload => cases he
    | ret r => simp [Admit.resume] at he
  | @release k c _ _ r _ =>
    cases r with
    | goto k' =>
      cases c with
      | teardown f c => exact .inl ⟨he, (Pc.cut?_release f .child k' c).trans (Pc.cut?_release f .child k c).symm⟩
      | job => cases he
    | done => simp [Drop.resume] at he
  | flag | spawn | assign | beginSwap | retarget | endRollback => cases he

/-- In an orderly run no hard cut of an engine meets a load of it. -/
theorem not_cut_of_load (h : Runs.Reachable (next adm final) Orderly (.init a) s) {t u : ThreadId}
    {e : EngineId} (hl : (s.pc t).load? = some e) : (s.pc u).cut? ≠ some e := by
  suffices hall : ∀ t u e, (s.pc t).load? = some e → (s.pc u).cut? ≠ some e from hall t u e hl
  clear hl
  refine h.invariant (I := fun s => ∀ t u e, (s.pc t).load? = some e → (s.pc u).cut? ≠ some e)
    (fun t u e ht => by cases ht) ?_
  intro s b s' _ hI hok hn t u e ht hu
  obtain ⟨hm, hothers⟩ := move_of_next hn
  -- where the load and the cut stood before the step
  have hbefore : (s.pc t).load? = some e ∨ t = b.1 ∧ ∃ c, s.pc t = .load e .lock c := by
    by_cases htb : t = b.1
    · subst htb
      rcases hm.load? ht with h | h
      · exact .inl h
      · exact .inr ⟨rfl, h⟩
    · exact .inl (hothers t htb ▸ ht)
  have hcut : (s.pc u).cut? = some e ∨ u = b.1 ∧ ∃ c, s.pc u = .unload e .flag c ∧
      (s.shared.host.runtimes e).loading = false := by
    by_cases hub : u = b.1
    · subst hub
      rcases hm.tears? (Pc.tears?_of_cut? hu) with ⟨-, h⟩ | ⟨-, h⟩ | h
      · exact .inl (h ▸ hu)
      · simp [h] at hu
      · exact .inr ⟨rfl, h⟩
    · exact .inl (hothers u hub ▸ hu)
  rcases hbefore with hload | ⟨rfl, c, hc⟩
  · rcases hcut with hcut | ⟨rfl, c, hc, hf⟩
    · exact hI t u e hload hcut
    · exact hok.cut e c hc hf t hload
  · rcases hcut with hcut | ⟨rfl, c', hc', -⟩
    · exact hok.load e c hc u hcut
    · simp [hc] at hc'

end Lifecycle

end MlopsLite.HostAgent
