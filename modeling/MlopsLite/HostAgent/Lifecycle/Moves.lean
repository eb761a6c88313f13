import MlopsLite.HostAgent.Lifecycle.Runtime

/-!
# Engine runtimes — what a step can do

`Move` lists every outcome of a step, guards included, grouped by what it
writes; `move_of_advance` says the list is complete.
-/

namespace MlopsLite.HostAgent

namespace Lifecycle

variable {σ α ρ χ : Type}

/-! ## Groups of control points -/

/-- The lock of the runtime is held. -/
def LoadAt.inside : LoadAt → Bool
  | .flag | .lock | .unflag _ => false
  | _ => true

/-- Inside the lock, and nothing is known there yet or any more. -/
def LoadAt.plain : LoadAt → Bool
  | .enter | .resident _ | .ready | .available | .reap _ | .waiting | .unlock _ => true
  | _ => false

/-- Reading `child`, before anything is torn down. -/
def TeardownAt.reads : TeardownAt → Bool
  | .resident _ | .child => true
  | _ => false

def IdleAt.inside : IdleAt → Bool
  | .lock => false
  | _ => true

/-- Deciding about the holder, the reservation being up. -/
def PreemptAt.decides : PreemptAt → Bool
  | .holder | .probe _ | .endSwap _ => true
  | _ => false

theorem LoadAt.inside_of_plain {k : LoadAt} (h : k.plain = true) : k.inside = true := by
  cases k <;> first | rfl | simp [LoadAt.plain] at h

/-! ## Moves -/

/-- Steps that only read. -/
inductive Quiet (adm : AdmissionSurface σ α ρ χ) (t : ThreadId) (x : Host) :
    Pc α ρ → Pc α ρ → Prop
  | call (c : Call) : Quiet adm t x .idle (c.enter adm)
  | plain {e k k' c} (hk : k.plain = true) (hk' : k'.plain = true) :
      Quiet adm t x (.load e k c) (.load e k' c)
  | reapAlive {e p c} : Quiet adm t x (.load e (.reap p) c) (.unload e .lock (.reap c))
  | reapAbsent {e p c} (h : x.probe e p = .absent) :
      Quiet adm t x (.load e (.reap p) c) (.acquire (adm.acquire (.engine e)) (.load e c))
  | reapedWedged {e c} : Quiet adm t x (.load e .reaped c) (.load e (.unlock .raised) c)
  | reaped {e c} (h : (x.runtimes e).wedged = false) :
      Quiet adm t x (.load e .reaped c) (.acquire (adm.acquire (.engine e)) (.load e c))
  | spawnFailed {e c} : Quiet adm t x (.load e .spawn c) (.unload e .lock (.cleanup c))
  | setChild {e c child} (h : (x.runtimes e).child = some child) :
      Quiet adm t x (.load e .setChild c) (.acquire (adm.setChild e child) (.setChild e c))
  | childLost {e c} (h : (x.runtimes e).child = none) :
      Quiet adm t x (.load e .setChild c) (.unload e .lock (.cleanup c))
  | startupFailed {e c} : Quiet adm t x (.load e .waiting c) (.unload e .lock (.cleanup c))
  | lockHeld {e c} (h : x.lockable e t = false) :
      Quiet adm t x (.unload e .lock c) (.unload e .flag c)
  | busy {e c} (h : (x.runtimes e).loading = true) :
      Quiet adm t x (.unload e .flag c) (c.resume e .busy)
  | hardCut {e c} (h : (x.runtimes e).loading = false) :
      Quiet adm t x (.unload e .flag c) (.teardown e (.resident .child) (.unload false c))
  | tearReads {e k k' c} (hk : k.reads = true) (hk' : k'.reads = true) :
      Quiet adm t x (.teardown e k c) (.teardown e k' c)
  | tearRaised {e k c} (hk : k.reads = true) :
      Quiet adm t x (.teardown e k c) (c.resume e .raised)
  | tearAbsent {e p c} (h : x.probe e p = .absent) :
      Quiet adm t x (.teardown e (.resident p) c) (.teardown e .clear c)
  | tearWait {e c child} (h : (x.runtimes e).child = some child) :
      Quiet adm t x (.teardown e .child c) (.teardown e (.wait child) c)
  | tearDead {e c child} (h : x.running child = false) :
      Quiet adm t x (.teardown e (.wait child) c) (.teardown e .clear c)
  | tearAlive {e c child} : Quiet adm t x (.teardown e (.wait child) c) (.teardown e .wedge c)
  | idlePlain {e k k'} (hk : k.inside = true) (hk' : k'.inside = true) :
      Quiet adm t x (.idleReap e k) (.idleReap e k')
  | idleTear {e k} (hk : k.inside = true) :
      Quiet adm t x (.idleReap e k) (.teardown e (.resident .child) .idleReap)
  | idleUnload {e k} (hk : k.inside = true) :
      Quiet adm t x (.idleReap e k) (.unload e .lock .idleReap)
  | forward {e} : Quiet adm t x (.request e .forward) (.request e .unlock)
  | swapRefused {target c} :
      Quiet adm t x (.preempt target .beginSwap c) (c.resume target .raised)
  | decide {target k k' c} (hk : k.decides = true) (hk' : k'.decides = true) :
      Quiet adm t x (.preempt target k c) (.preempt target k' c)
  | swapLoad {target k c} (hk : k.decides = true) :
      Quiet adm t x (.preempt target k c) (.load target .flag (.preempt none c))
  | swapUnload {target h c} :
      Quiet adm t x (.preempt target (.probe h) c) (.unload h .lock (.preempt target c))

/-- Steps that take the runtime lock of `e`. -/
inductive Locks (e : EngineId) : Pc α ρ → Pc α ρ → Prop
  | load {c} : Locks e (.load e .lock c) (.load e .enter c)
  | unload {c} : Locks e (.unload e .lock c) (.teardown e (.resident .child) (.unload true c))
  | idle : Locks e (.idleReap e .lock) (.idleReap e .child)
  | request {p} : Locks e (.request e (.lock p)) (.load e .flag .request)
  | preempt {p} : Locks e (.request e (.lock p)) (.preempt e .beginSwap .request)

/-- Steps that give it back. -/
inductive Unlocks (e : EngineId) : Pc α ρ → Pc α ρ → Prop
  | load {r c} : Unlocks e (.load e (.unlock r) c) (.load e (.unflag r) c)
  | unload {r c} : Unlocks e (.unload e (.unlock r) c) (c.resume e r)
  | idle : Unlocks e (.idleReap e .unlock) .idle
  | request : Unlocks e (.request e .unlock) .idle

/-- Where a thread goes on inside `acquire` or `set_child`. -/
def Admit.resume (c : AcquireCaller) : Admit α → Pc α ρ
  | .goto k => .acquire k c
  | .unload e k => .unload e .lock (.admission k c)
  | .ret r => c.resume r

def Drop.resume (c : ReleaseCaller α) : Drop ρ → Pc α ρ
  | .goto k => .release k c
  | .done => c.resume

inductive Move (adm : AdmissionSurface σ α ρ χ) (final : EngineId → Bytes) (t : ThreadId) :
    Shared σ → Pc α ρ → Shared σ → Pc α ρ → Prop
  | exits {x pc} (c : ChildRef) :
      Move adm final t x pc { x with host := x.host.exits c } pc
  | grows {x pc c p} {used : Bytes} (hp : x.host.processes.get? c = some p)
      (hle : p.used ≤ used) (hf : used ≤ final p.engine) :
      Move adm final t x pc { x with host := x.host.grows c used } pc
  | quiet {x pc pc'} (h : Quiet adm t x.host pc pc') : Move adm final t x pc x pc'
  | lock {x e pc pc'} (hl : x.host.lockable e t = true) (h : Locks e pc pc') :
      Move adm final t x pc { x with host := x.host.acquireLock e t } pc'
  | unlock {x e pc pc'} (h : Unlocks e pc pc') :
      Move adm final t x pc { x with host := x.host.releaseLock e } pc'
  | flag {x e c} : Move adm final t x (.load e .flag c)
      { x with host := x.host.setLoading e true } (.load e .lock c)
  | unflag {x e r c} : Move adm final t x (.load e (.unflag r) c)
      { x with host := x.host.setLoading e false } (c.resume e r)
  | spawn {x e c} : Move adm final t x (.load e .spawn c)
      { x with host := x.host.spawn e } (.load e (.assign x.host.nextChild) c)
  | assign {x e child c} : Move adm final t x (.load e (.assign child) c)
      { x with host := x.host.setChild e (some child) } (.load e .setChild c)
  | wedge {x e c} : Move adm final t x (.teardown e .wedge c)
      { x with host := x.host.setWedged e true } (c.resume e .busy)
  | clear {x e c} : Move adm final t x (.teardown e .clear c)
      { x with host := x.host.setChild e none } (.teardown e .unwedge c)
  | unwedge {x e c} : Move adm final t x (.teardown e .unwedge c)
      { x with host := x.host.setWedged e false }
      (.release (adm.release (.engine e)) (.teardown e c))
  | acquire {x k c ch a r} (h : adm.acquireStep t ch x.host x.admission k = some (a, r)) :
      Move adm final t x (.acquire k c) { x with admission := a } (r.resume c)
  | release {x k c ch a r} (h : adm.releaseStep t ch x.host x.admission k = some (a, r)) :
      Move adm final t x (.release k c) { x with admission := a } (r.resume c)
  | beginSwap {x target c a} (h : adm.beginSwap target x.admission = some a) :
      Move adm final t x (.preempt target .beginSwap c) { x with admission := a }
        (.preempt target .holder c)
  | retarget {x target h c} : Move adm final t x (.preempt target (.retarget h) c)
      { x with admission := adm.retargetSwap target h x.admission }
      (.load h .flag (.rollback target c))
  | endRollback {x target h c} : Move adm final t x (.preempt target (.endRollback h) c)
      { x with admission := adm.endSwap h x.admission } (.preempt target .rolledBack c)
  | rolledBack {x target c} : Move adm final t x (.preempt target .rolledBack c)
      { x with admission := adm.endSwap target x.admission } (c.resume target .raised)
  | endSwap {x target r c} : Move adm final t x (.preempt target (.endSwap r) c)
      { x with admission := adm.endSwap target x.admission } (c.resume target r)

/-! ## Completeness -/

variable {adm : AdmissionSurface σ α ρ χ} {final : EngineId → Bytes} {t : ThreadId}
  {x x' : Shared σ} {pc pc' : Pc α ρ}

theorem Move.ofHost {y : Option (Host × Pc α ρ)} (h : onHost x y = some (x', pc'))
    (hm : ∀ z, y = some (z, pc') → Move adm final t x pc { x with host := z } pc') :
    Move adm final t x pc x' pc' := by
  obtain ⟨⟨z, pc''⟩, hz, heq⟩ := Option.map_eq_some_iff.mp h
  simp only [Prod.mk.injEq] at heq
  obtain ⟨rfl, rfl⟩ := heq
  exact hm z hz

theorem move_of_load {z : Host} {e : EngineId} {k : LoadAt} {c : LoadCaller} {ch : Choice χ}
    (h : loadStep adm t x.host e c k ch = some (z, pc')) :
    Move adm final t x (.load e k c) { x with host := z } pc' := by
  cases k with
  | flag => cases ch <;> cases h; exact .flag
  | lock =>
    cases ch <;> simp only [loadStep, reduceCtorEq] at h
    split at h
    · rename_i hl
      cases h
      exact .lock hl .load
    · cases h
  | enter =>
    cases ch <;> cases h
    · split
      · exact .quiet (.plain rfl rfl)
      · exact .quiet (.plain rfl rfl)
    · exact .quiet (.plain rfl rfl)
  | resident p =>
    cases ch <;> cases h
    split <;> exact .quiet (.plain rfl rfl)
  | ready => cases ch <;> cases h <;> exact .quiet (.plain rfl rfl)
  | available => cases ch <;> cases h <;> exact .quiet (.plain rfl rfl)
  | reap p =>
    cases ch <;> cases h
    split
    · exact .quiet (.plain rfl rfl)
    · exact .quiet .reapAlive
    · rename_i hp
      exact .quiet (.reapAbsent hp)
    · exact .quiet (.plain rfl rfl)
  | reaped =>
    cases ch <;> cases h
    split
    · exact .quiet .reapedWedged
    · rename_i hw
      exact .quiet (.reaped (by simpa using hw))
  | spawn =>
    cases ch <;> cases h
    · exact .spawn
    · exact .quiet .spawnFailed
  | assign child => cases ch <;> cases h; exact .assign
  | setChild =>
    cases ch <;> cases h
    split
    · rename_i hc
      exact .quiet (.setChild hc)
    · rename_i hc
      exact .quiet (.childLost hc)
  | waiting =>
    cases ch <;> cases h
    · split
      · exact .quiet (.plain rfl rfl)
      · exact .quiet .startupFailed
    · exact .quiet (.plain rfl rfl)
    · exact .quiet .startupFailed
  | unlock r => cases ch <;> cases h; exact .unlock .load
  | unflag r => cases ch <;> cases h; exact .unflag

theorem move_of_unload {z : Host} {e : EngineId} {k : UnloadAt} {c : UnloadCaller α}
    {ch : Choice χ} (h : unloadStep t x.host e c k ch = some (z, pc')) :
    Move adm final t x (.unload e k c) { x with host := z } pc' := by
  cases k with
  | lock =>
    cases ch <;> simp only [unloadStep, reduceCtorEq] at h
    split at h
    · rename_i hl
      cases h
      exact .lock hl .unload
    · rename_i hl
      cases h
      exact .quiet (.lockHeld (by simpa using hl))
  | flag =>
    cases ch <;> cases h
    split
    · rename_i hf
      exact .quiet (.busy hf)
    · rename_i hf
      exact .quiet (.hardCut (by simpa using hf))
  | unlock r => cases ch <;> cases h; exact .unlock .unload

theorem move_of_teardown {z : Host} {e : EngineId} {k : TeardownAt} {c : TeardownCaller α}
    {ch : Choice χ} (h : teardownStep adm x.host e c k ch = some (z, pc')) :
    Move adm final t x (.teardown e k c) { x with host := z } pc' := by
  cases k with
  | resident p =>
    cases ch <;> cases h
    split
    · exact .quiet (.tearReads rfl rfl)
    · exact .quiet (.tearReads rfl rfl)
    · rename_i hp
      exact .quiet (.tearAbsent hp)
    · exact .quiet (.tearRaised rfl)
  | child =>
    cases ch <;> cases h
    split
    · rename_i hc
      exact .quiet (.tearWait hc)
    · exact .quiet (.tearRaised rfl)
  | wait child =>
    cases ch <;> cases h
    split
    · exact .quiet .tearAlive
    · rename_i hr
      exact .quiet (.tearDead (by simpa using hr))
  | wedge => cases ch <;> cases h; exact .wedge
  | clear => cases ch <;> cases h; exact .clear
  | unwedge => cases ch <;> cases h; exact .unwedge

theorem move_of_idle {z : Host} {e : EngineId} {k : IdleAt} {ch : Choice χ}
    (h : idleStep t x.host e k ch = some (z, pc')) :
    Move adm final t x (.idleReap e k) { x with host := z } pc' := by
  cases k with
  | lock =>
    cases ch <;> simp only [idleStep, reduceCtorEq] at h
    split at h
    · rename_i hl
      cases h
      exact .lock hl .idle
    · cases h
  | child =>
    cases ch <;> cases h
    split <;> exact .quiet (.idlePlain rfl rfl)
  | dead p =>
    cases ch <;> cases h
    split
    · exact .quiet (.idlePlain rfl rfl)
    · exact .quiet (.idlePlain rfl rfl)
    · exact .quiet (.idleTear rfl)
    · exact .quiet (.idlePlain rfl rfl)
  | resident p =>
    cases ch <;> cases h
    split <;> exact .quiet (.idlePlain rfl rfl)
  | expired =>
    cases ch <;> cases h
    · exact .quiet (.idleUnload rfl)
    · exact .quiet (.idlePlain rfl rfl)
  | unlock => cases ch <;> cases h; exact .unlock .idle

theorem move_of_request {z : Host} {e : EngineId} {k : RequestAt} {ch : Choice χ}
    (h : requestStep t x.host e k ch = some (z, pc')) :
    Move adm final t x (.request e k) { x with host := z } pc' := by
  cases k with
  | lock p =>
    cases ch <;> simp only [requestStep, reduceCtorEq] at h
    split at h
    · rename_i hl
      cases h
      split
      · exact .lock hl .preempt
      · exact .lock hl .request
    · cases h
  | forward => cases ch <;> cases h; exact .quiet .forward
  | unlock => cases ch <;> cases h; exact .unlock .request

theorem move_of_preempt {target : EngineId} {k : PreemptAt} {c : PreemptCaller} {ch : Choice χ}
    (h : preemptStep adm x target c k ch = some (x', pc')) :
    Move adm final t x (.preempt target k c) x' pc' := by
  cases k with
  | beginSwap =>
    cases ch <;> simp only [preemptStep, Option.some.injEq, reduceCtorEq] at h
    split at h
    · rename_i a ha
      cases h
      exact .beginSwap ha
    · cases h
      exact .quiet .swapRefused
  | holder =>
    cases ch <;> cases h
    split
    · exact .quiet (.swapLoad rfl)
    · exact .quiet (.decide rfl rfl)
    · split
      · exact .quiet (.swapLoad rfl)
      · exact .quiet (.decide rfl rfl)
  | probe h' =>
    cases ch <;> cases h
    · split
      · exact .quiet (.decide rfl rfl)
      · exact .quiet .swapUnload
    · exact .quiet (.decide rfl rfl)
  | retarget h' => cases ch <;> cases h; exact .retarget
  | endRollback h' => cases ch <;> cases h; exact .endRollback
  | rolledBack => cases ch <;> cases h; exact .rolledBack
  | endSwap r => cases ch <;> cases h; exact .endSwap

/-- Every step is a `Move`. -/
theorem move_of_advance {ch : Choice χ} (h : advance adm final t ch x pc = some (x', pc')) :
    Move adm final t x pc x' pc' := by
  cases ch with
  | exits c =>
    cases h
    exact .exits c
  | grows c used =>
    simp only [advance] at h
    split at h
    · rename_i hp
      cases h
      obtain ⟨p, hp, hd⟩ := (Option.any_eq_true ..).mp hp
      have hb := of_decide_eq_true hd
      exact .grows hp hb.1 hb.2
    · cases h
  | call | go | ready | fails | admission =>
    cases pc with
    | idle =>
      first
      | cases h; exact .quiet (.call _)
      | cases h
    | request e k => exact .ofHost h fun z hz => move_of_request hz
    | preempt target k c => exact move_of_preempt h
    | load e k c => exact .ofHost h fun z hz => move_of_load hz
    | unload e k c => exact .ofHost h fun z hz => move_of_unload hz
    | teardown e k c => exact .ofHost h fun z hz => move_of_teardown hz
    | idleReap e k => exact .ofHost h fun z hz => move_of_idle hz
    | acquire k c =>
      first
      | cases h
      | obtain ⟨⟨a, r⟩, ha, heq⟩ := Option.map_eq_some_iff.mp h
        cases heq
        cases r <;> exact .acquire ha
    | release k c =>
      first
      | cases h
      | obtain ⟨⟨a, r⟩, ha, heq⟩ := Option.map_eq_some_iff.mp h
        cases heq
        cases r <;> exact .release ha

end Lifecycle

end MlopsLite.HostAgent
