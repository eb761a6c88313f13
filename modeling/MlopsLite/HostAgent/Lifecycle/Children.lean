import MlopsLite.HostAgent.Lifecycle.Locks

/-!
# Engine runtimes — where a child is accounted

Over any admission that says which engines hold it (`Holding`): in an
orderly run the engine of every running process holds the admission, and a
teardown gives it back only when no process of its engine runs.
-/

namespace MlopsLite.HostAgent

namespace Lifecycle

variable {σ α ρ χ : Type}

/-- What an admission must keep for the engines to rely on it. `asks k e`:
the call at `k` asks for engine `e`; `drops k d`: it gives back what `d` has. -/
structure Holding (adm : AdmissionSurface σ α ρ χ) where
  held : σ → EngineId → Prop
  asks : α → EngineId → Prop
  drops : ρ → Tenant → Prop
  asks_acquire : ∀ e, asks (adm.acquire (.engine e)) e
  drops_release : ∀ d, drops (adm.release d) d
  keeps : ∀ {t ch x a k a' r}, adm.acquireStep t ch x a k = some (a', r) → ∀ e, held a e → held a' e
  asks_goto : ∀ {t ch x a k a' k' e}, adm.acquireStep t ch x a k = some (a', .goto k') →
    asks k e → asks k' e
  asks_unload : ∀ {t ch x a k a' f k' e}, adm.acquireStep t ch x a k = some (a', .unload f k') →
    asks k e → asks k' e
  granted : ∀ {t ch x a k a' e}, adm.acquireStep t ch x a k = some (a', .ret .ok) →
    asks k e → held a' e
  drops_goto : ∀ {t ch x a k a' k' d}, adm.releaseStep t ch x a k = some (a', .goto k') →
    drops k d → drops k' d
  own_only : ∀ {t ch x a k a' r d}, adm.releaseStep t ch x a k = some (a', r) → drops k d →
    ∀ e, d ≠ .engine e → held a e → held a' e
  beginSwap : ∀ {e a a'}, adm.beginSwap e a = some a' → ∀ f, held a f → held a' f
  endSwap : ∀ e a f, held a f → held (adm.endSwap e a) f
  retargetSwap : ∀ e e' a f, held a f → held (adm.retargetSwap e e' a) f

/-! ## Processes of an engine -/

namespace Host

/-- No process of `e` runs. -/
def NoLive (x : Host) (e : EngineId) : Prop :=
  ∀ c p, x.processes.get? c = some p → p.engine = e → p.alive = false

/-- No process of `e` runs but `c`. -/
def OnlyLive (x : Host) (e : EngineId) (c : ChildRef) : Prop :=
  ∀ c' p, x.processes.get? c' = some p → p.engine = e → p.alive = true → c' = c

/-- Every process of `e` that runs in `y` ran in `x`. -/
def NoBirth (x y : Host) (e : EngineId) : Prop :=
  ∀ c p', y.processes.get? c = some p' → p'.engine = e → p'.alive = true →
    ∃ p, x.processes.get? c = some p ∧ p.engine = e ∧ p.alive = true

theorem NoBirth.of_eq {x y : Host} (h : y.processes = x.processes) (e : EngineId) :
    x.NoBirth y e :=
  fun _ p' hp he ha => ⟨p', h ▸ hp, he, ha⟩

theorem NoLive.mono {x y : Host} {e : EngineId} (h : x.NoLive e) (hb : x.NoBirth y e) :
    y.NoLive e := by
  intro c p' hp he
  by_contra hne
  obtain ⟨p, hp', he', ha⟩ := hb c p' hp he (by simpa using hne)
  simp [h c p hp' he'] at ha

theorem OnlyLive.mono {x y : Host} {e : EngineId} {c : ChildRef} (h : x.OnlyLive e c)
    (hb : x.NoBirth y e) : y.OnlyLive e c := by
  intro c' p' hp he ha
  obtain ⟨p, hp', he', ha'⟩ := hb c' p' hp he ha
  exact h c' p hp' he' ha'

theorem noLive_of_dead {x : Host} {e : EngineId} {c : ChildRef} (h : x.OnlyLive e c)
    (hc : x.running c = false) : x.NoLive e := by
  intro c' p hp he
  by_contra hne
  have ha : p.alive = true := by simpa using hne
  obtain rfl := h c' p hp he ha
  simp [running, hp, ha] at hc

theorem noBirth_exits (x : Host) (c : ChildRef) (e : EngineId) : x.NoBirth (x.exits c) e := by
  intro c' p' hp he ha
  simp only [exits, Dict.get?_modify] at hp
  split at hp
  · obtain ⟨p, hp', rfl⟩ := Option.map_eq_some_iff.mp hp
    cases ha
  · exact ⟨p', hp, he, ha⟩

theorem noBirth_grows (x : Host) (c : ChildRef) (used : Bytes) (e : EngineId) :
    x.NoBirth (x.grows c used) e := by
  intro c' p' hp he ha
  simp only [grows, Dict.get?_modify] at hp
  split at hp
  · obtain ⟨p, hp', rfl⟩ := Option.map_eq_some_iff.mp hp
    exact ⟨p, hp', he, ha⟩
  · exact ⟨p', hp, he, ha⟩

theorem noBirth_spawn (x : Host) {e f : EngineId} (h : f ≠ e) : x.NoBirth (x.spawn e) f := by
  intro c p' hp he ha
  simp only [spawn, Dict.get?_insert] at hp
  split at hp
  · cases hp
    exact absurd he.symm h
  · exact ⟨p', hp, he, ha⟩

/-- A spawn into an engine without processes. -/
theorem onlyLive_spawn {x : Host} {e : EngineId} (h : x.NoLive e) :
    (x.spawn e).OnlyLive e x.nextChild := by
  intro c p hp he ha
  simp only [spawn, Dict.get?_insert] at hp
  split at hp
  · assumption
  · simp [h c p hp he] at ha

end Host

/-! ## Assertions -/

variable {adm : AdmissionSurface σ α ρ χ} (H : Holding adm)

/-- The engine of every running process holds the admission. -/
def LiveHeld (x : Shared σ) : Prop :=
  ∀ c p, x.host.processes.get? c = some p → p.alive = true → H.held x.admission p.engine

/-- A running process is its runtime's child, or is about to be assigned. -/
def Tracked (s : Sys σ α ρ) : Prop :=
  ∀ c p, s.shared.host.processes.get? c = some p → p.alive = true →
    (s.shared.host.runtimes p.engine).child = some c ∨
      ∃ t k, s.pc t = .load p.engine (.assign c) k

def AcquireCaller.Ok (x : Host) (k : α) : AcquireCaller → Prop
  | .load e _ => H.asks k e ∧ x.NoLive e
  | _ => True

def UnloadCaller.Ok (x : Host) : UnloadCaller α → Prop
  | .admission k c => c.Ok H x k
  | _ => True

/-- What the reap inside `ensure_loaded` takes from its answer. -/
def UnloadCaller.Answered (x : Host) (e : EngineId) (r : Ret) : UnloadCaller α → Prop
  | .reap _ => (r = .ok → x.NoLive e) ∧ (r = .busy → (x.runtimes e).wedged = true)
  | _ => True

def TeardownCaller.Ok (x : Host) : TeardownCaller α → Prop
  | .unload _ c => c.Ok H x
  | .idleReap => True

def ReleaseCaller.Ok (x : Host) (k : ρ) : ReleaseCaller α → Prop
  | .teardown e c => c.Ok H x ∧ x.NoLive e ∧ H.drops k (.engine e)
  | .job => ∃ j, H.drops k (.job j)

def PcOk (x : Shared σ) : Pc α ρ → Prop
  | .load e .reaped _ => (x.host.runtimes e).wedged = true ∨ x.host.NoLive e
  | .load e .spawn _ => x.host.NoLive e ∧ H.held x.admission e
  | .load e (.assign c) _ => x.host.OnlyLive e c ∧ H.held x.admission e
  | .acquire k c => c.Ok H x.host k
  | .unload e .flag c => c.Ok H x.host ∧ c.load? e ≠ some e
  | .unload e (.unlock r) c => c.Ok H x.host ∧ c.Answered x.host e r
  | .unload _ .lock c => c.Ok H x.host
  | .teardown e (.wait c) tc => tc.Ok H x.host ∧ x.host.OnlyLive e c
  | .teardown e .clear tc | .teardown e .unwedge tc => tc.Ok H x.host ∧ x.host.NoLive e
  | .teardown _ _ tc => tc.Ok H x.host
  | .release k c => c.Ok H x.host k
  | _ => True

/-- Nothing happened from `x` to `y` that a thread at `pc` relies on. -/
structure Calm (pc : Pc α ρ) (x y : Shared σ) : Prop where
  births : ∀ e, pc.load? = some e ∨ pc.tears? = some e → x.host.NoBirth y.host e
  held : ∀ e, pc.load? = some e → H.held x.admission e → H.held y.admission e
  wedged : ∀ e, pc.load? = some e → (x.host.runtimes e).wedged = true →
    (y.host.runtimes e).wedged = true

variable {H} {x y : Shared σ} {pc : Pc α ρ}

theorem AcquireCaller.Ok.mono {k : α} {c : AcquireCaller} (h : c.Ok H x.host k)
    (hb : ∀ e, c.load? = some e → x.host.NoBirth y.host e) : c.Ok H y.host k := by
  cases c with
  | load e c => exact ⟨h.1, h.2.mono (hb e rfl)⟩
  | setChild | job => trivial

theorem UnloadCaller.Ok.mono {f : EngineId} {c : UnloadCaller α} (h : c.Ok H x.host)
    (hb : ∀ e, c.load? f = some e → x.host.NoBirth y.host e) : c.Ok H y.host := by
  cases c with
  | admission k c => exact AcquireCaller.Ok.mono (c := c) h hb
  | _ => trivial

theorem TeardownCaller.Ok.mono {f : EngineId} {c : TeardownCaller α} (h : c.Ok H x.host)
    (hb : ∀ e, c.load? f = some e → x.host.NoBirth y.host e) : c.Ok H y.host := by
  cases c with
  | unload drained c => exact UnloadCaller.Ok.mono (c := c) h hb
  | idleReap => trivial

theorem PcOk.of_calm (h : PcOk H x pc) (hc : Calm H pc x y) : PcOk H y pc := by
  have hload : ∀ e, pc.load? = some e → x.host.NoBirth y.host e := fun e he =>
    hc.births e (.inl he)
  cases pc with
  | load e k c =>
    cases k with
    | reaped => exact h.imp (hc.wedged e rfl) fun hn => hn.mono (hload e rfl)
    | spawn => exact ⟨h.1.mono (hload e rfl), hc.held e rfl h.2⟩
    | assign child => exact ⟨h.1.mono (hload e rfl), hc.held e rfl h.2⟩
    | _ => trivial
  | acquire k c => exact AcquireCaller.Ok.mono (c := c) h hload
  | unload e k c =>
    cases k with
    | lock => exact UnloadCaller.Ok.mono (c := c) h hload
    | flag => exact ⟨h.1.mono hload, h.2⟩
    | unlock r =>
      refine ⟨h.1.mono hload, ?_⟩
      cases c with
      | reap c =>
        have ha : _ ∧ _ := h.2
        exact ⟨fun hr => (ha.1 hr).mono (hload e rfl), fun hr => hc.wedged e rfl (ha.2 hr)⟩
      | _ => trivial
  | teardown e k c =>
    have htear : x.host.NoBirth y.host e := hc.births e (.inr rfl)
    cases k with
    | wait child => exact ⟨h.1.mono hload, h.2.mono htear⟩
    | clear | unwedge => exact ⟨h.1.mono hload, h.2.mono htear⟩
    | resident | child | wedge => exact TeardownCaller.Ok.mono (c := c) h hload
  | release k c =>
    cases c with
    | teardown e c =>
      exact ⟨h.1.mono hload, h.2.1.mono (hc.births e (.inr rfl)), h.2.2⟩
    | job => exact h
  | idle | request | preempt | idleReap => trivial

/-! ## Returning -/

theorem pcOk_requestResume (e : EngineId) (r : Ret) : PcOk H x (requestResume e r) := by
  cases r <;> trivial

theorem PreemptCaller.pcOk_resume (c : PreemptCaller) (e : EngineId) (r : Ret) :
    PcOk H x (c.resume e r) := by
  cases c with
  | direct => trivial
  | request => exact pcOk_requestResume e r

theorem LoadCaller.pcOk_resume (c : LoadCaller) (e : EngineId) (r : Ret) :
    PcOk H x (c.resume e r) := by
  cases c with
  | direct => trivial
  | request => exact pcOk_requestResume e r
  | preempt evicted c => cases r <;> cases evicted <;> trivial
  | rollback target c => trivial

theorem AcquireCaller.pcOk_resume {c : AcquireCaller} {r : Ret}
    (h : ∀ e k, c = .load e k → r = .ok → x.host.NoLive e ∧ H.held x.admission e) :
    PcOk H x (c.resume r) := by
  cases c with
  | load e c =>
    cases r with
    | ok => exact h e c rfl rfl
    | _ => trivial
  | setChild e c => cases r <;> trivial
  | job => trivial

theorem UnloadCaller.pcOk_resume {c : UnloadCaller α} {e : EngineId} {r : Ret}
    (h : c.Ok H x.host) (ha : c.Answered x.host e r) : PcOk H x (c.resume e r) := by
  cases c with
  | reap c =>
    cases r with
    | ok => exact .inr (ha.1 rfl)
    | busy => exact .inl (ha.2 rfl)
    | raised => trivial
  | admission k c => exact h
  | preempt target c => cases r <;> trivial
  | direct | cleanup | idleReap => trivial

theorem UnloadCaller.answered_of_load? {c : UnloadCaller α} {e : EngineId}
    (h : c.load? e ≠ some e) (r : Ret) (x : Host) : c.Answered x e r := by
  cases c with
  | reap c => exact absurd rfl h
  | _ => trivial

/-- A teardown returns: its answer reaches the reap in `ensure_loaded`
through the lock's release only. -/
theorem TeardownCaller.pcOk_resume {c : TeardownCaller α} {e : EngineId} {r : Ret}
    (h : c.Ok H x.host) (hcut : ∀ c', c = .unload false c' → c'.load? e ≠ some e)
    (hr : r = .ok → x.host.NoLive e) (hw : r = .busy → (x.host.runtimes e).wedged = true) :
    PcOk H x (c.resume e r) := by
  cases c with
  | unload drained c =>
    cases drained with
    | true =>
      refine ⟨h, ?_⟩
      cases c with
      | reap c => exact ⟨hr, hw⟩
      | _ => trivial
    | false =>
      exact UnloadCaller.pcOk_resume h (UnloadCaller.answered_of_load? (hcut c rfl) r _)
  | idleReap => trivial

/-! ## What a move writes -/

variable {final : EngineId → Bytes} {t : ThreadId} {x' : Shared σ} {pc' : Pc α ρ}

/-- Only a spawn brings a process to life. -/
theorem Move.born (h : Move adm final t x pc x' pc') {c : ChildRef} {p' : Process}
    (hp : x'.host.processes.get? c = some p') (ha : p'.alive = true) :
    (∃ p, x.host.processes.get? c = some p ∧ p.engine = p'.engine ∧ p.alive = true) ∨
      ∃ k, pc = .load p'.engine .spawn k ∧ pc' = .load p'.engine (.assign c) k := by
  cases h with
  | exits c' => exact .inl (Host.noBirth_exits x.host c' _ c p' hp rfl ha)
  | grows => exact .inl (Host.noBirth_grows x.host _ _ _ c p' hp rfl ha)
  | @spawn e k =>
    by_cases he : p'.engine = e
    · simp only [Host.spawn, Dict.get?_insert] at hp
      split at hp
      · rename_i hc
        subst hc he
        exact .inr ⟨k, rfl, rfl⟩
      · exact .inl ⟨p', hp, rfl, ha⟩
    · exact .inl (Host.noBirth_spawn x.host he c p' hp rfl ha)
  | _ => exact .inl ⟨p', hp, rfl, ha⟩

theorem Move.noBirth (h : Move adm final t x pc x' pc') (e : EngineId) :
    x.host.NoBirth x'.host e ∨ ∃ c, pc = .load e .spawn c := by
  by_cases hpc : ∃ c, pc = .load e .spawn c
  · exact .inr hpc
  · refine .inl fun c p' hp he ha => ?_
    subst he
    rcases h.born hp ha with hold | ⟨k, hk, -⟩
    · exact hold
    · exact absurd ⟨k, hk⟩ hpc

/-- A hold is lost to the release of a teardown only. -/
theorem Move.held (h : Move adm final t x pc x' pc') (hok : PcOk H x pc) (e : EngineId)
    (hh : H.held x.admission e) :
    H.held x'.admission e ∨ ∃ k c, pc = .release k (.teardown e c) := by
  cases h with
  | acquire ha => exact .inl (H.keeps ha e hh)
  | @release k c _ _ _ ha =>
    cases c with
    | teardown f c =>
      by_cases he : e = f
      · subst he
        exact .inr ⟨k, c, rfl⟩
      · refine .inl (H.own_only ha hok.2.2 e ?_ hh)
        simpa using Ne.symm he
    | job =>
      obtain ⟨j, hj⟩ := hok
      exact .inl (H.own_only ha hj e (by simp) hh)
  | beginSwap ha => exact .inl (H.beginSwap ha e hh)
  | retarget => exact .inl (H.retargetSwap _ _ _ e hh)
  | endRollback | rolledBack | endSwap => exact .inl (H.endSwap _ _ e hh)
  | _ => exact .inl hh

theorem Host.runtimes_setRuntime (x : Host) (e : EngineId) (f : Runtime → Runtime)
    (e' : EngineId) : (x.setRuntime e f).runtimes e' =
      if e' = e then f (x.runtimes e') else x.runtimes e' := by
  by_cases he : e' = e
  · subst he
    simp [Host.setRuntime]
  · simp [Host.setRuntime, he]

theorem Move.wedged (h : Move adm final t x pc x' pc') (e : EngineId)
    (hw : (x.host.runtimes e).wedged = true) :
    (x'.host.runtimes e).wedged = true ∨ ∃ c, pc = .teardown e .unwedge c := by
  suffices hs : (x'.host.runtimes e).wedged = (x.host.runtimes e).wedged ∨
      (x'.host.runtimes e).wedged = true ∨ ∃ c, pc = .teardown e .unwedge c from
    hs.elim (fun heq => .inl (heq.trans hw)) id
  cases h with
  | lock | unlock | flag | unflag | assign | clear =>
    refine .inl ?_
    simp only [Host.acquireLock, Host.releaseLock, Host.setLoading, Host.setChild,
      Host.runtimes_setRuntime]
    split <;> rfl
  | @wedge f c =>
    by_cases he : e = f
    · subst he
      exact .inr (.inl (by simp [Host.setWedged, Host.setRuntime]))
    · exact .inl (by simp [Host.setWedged, Host.setRuntime, he])
  | @unwedge f c =>
    by_cases he : e = f
    · subst he
      exact .inr (.inr ⟨c, rfl⟩)
    · exact .inl (by simp [Host.setWedged, Host.setRuntime, he])
  | _ => exact .inl rfl

/-- Only a load assigns a child, and only a teardown forgets one. -/
theorem Move.child (h : Move adm final t x pc x' pc') (e : EngineId) :
    (x'.host.runtimes e).child = (x.host.runtimes e).child ∨
      (∃ c k, pc = .load e (.assign c) k ∧ (x'.host.runtimes e).child = some c) ∨
      ∃ c, pc = .teardown e .clear c ∧ (x'.host.runtimes e).child = none := by
  cases h with
  | lock | unlock | flag | unflag | wedge | unwedge =>
    refine .inl ?_
    simp only [Host.acquireLock, Host.releaseLock, Host.setLoading, Host.setWedged,
      Host.runtimes_setRuntime]
    split <;> rfl
  | @assign f child c =>
    by_cases he : e = f
    · subst he
      exact .inr (.inl ⟨child, c, rfl, by simp [Host.setChild, Host.setRuntime]⟩)
    · exact .inl (by simp [Host.setChild, Host.setRuntime, he])
  | @clear f c =>
    by_cases he : e = f
    · subst he
      exact .inr (.inr ⟨c, rfl, by simp [Host.setChild, Host.setRuntime]⟩)
    · exact .inl (by simp [Host.setChild, Host.setRuntime, he])
  | _ => exact .inl rfl

/-! ## Orderly runs -/

variable {a : σ} {s : Sys σ α ρ}

/-- Two threads do not work on one engine, when one of them loads it. -/
theorem alone_of_load (h : Runs.Reachable (next adm final) Orderly (.init a) s) {t u : ThreadId}
    {e : EngineId} (ht : (s.pc t).load? = some e)
    (hu : (s.pc u).load? = some e ∨ (s.pc u).tears? = some e) : t = u := by
  have hown := owner_of_holds h (Pc.holds_of_load? ht)
  suffices hh : (s.pc u).holds e ≠ 0 from
    Option.some.inj (hown.symm.trans (owner_of_holds h hh))
  rcases hu with hu | hu
  · exact Pc.holds_of_load? hu
  · cases hc : (s.pc u).cut? with
    | none => exact Pc.holds_of_tears? hu hc
    | some f =>
      have hf := Pc.tears?_of_cut? hc
      obtain rfl : f = e := Option.some.inj (hf.symm.trans hu)
      exact absurd hc (not_cut_of_load h ht)

/-- What one thread does is calm to every other. -/
theorem Move.calm (h : Runs.Reachable (next adm final) Orderly (.init a) s) {t u : ThreadId}
    (hm : Move adm final t s.shared (s.pc t) x' pc') (hok : PcOk H s.shared (s.pc t))
    (hu : u ≠ t) : Calm H (s.pc u) s.shared x' where
  births e he := by
    rcases hm.noBirth e with hb | ⟨c, hc⟩
    · exact hb
    · exact absurd (alone_of_load h (t := t) (by rw [hc]; rfl) he).symm hu
  held e he hh := by
    rcases hm.held hok e hh with hh | ⟨k, c, hc⟩
    · exact hh
    · exact absurd (alone_of_load h he (u := t) (.inr (by rw [hc]; rfl))) hu
  wedged e he hw := by
    rcases hm.wedged e hw with hw | ⟨c, hc⟩
    · exact hw
    · exact absurd (alone_of_load h he (u := t) (.inr (by rw [hc]; rfl))) hu

variable (H) in
structure Sound (s : Sys σ α ρ) : Prop where
  live : LiveHeld H s.shared
  thread : ∀ t, PcOk H s.shared (s.pc t)
  tracked : Tracked s

/-- A thread that works on an engine sees all of its processes through
`child`, unless it is about to assign one itself. -/
theorem Sound.child_of_live (hs : Sound H s)
    (h : Runs.Reachable (next adm final) Orderly (.init a) s) {t : ThreadId} {e : EngineId}
    (ht : (s.pc t).load? = some e ∨ (s.pc t).tears? = some e)
    (hne : ∀ c k, s.pc t ≠ .load e (.assign c) k) {c : ChildRef} {p : Process}
    (hp : s.shared.host.processes.get? c = some p) (he : p.engine = e) (ha : p.alive = true) :
    (s.shared.host.runtimes e).child = some c := by
  subst he
  rcases hs.tracked c p hp ha with hc | ⟨u, k, hu⟩
  · exact hc
  · have : u = t := alone_of_load h (t := u) (by rw [hu]; rfl) ht
    subst this
    exact absurd hu (hne c k)

theorem Sound.noLive_of_absent (hs : Sound H s)
    (h : Runs.Reachable (next adm final) Orderly (.init a) s) {t : ThreadId} {e : EngineId}
    (ht : (s.pc t).load? = some e ∨ (s.pc t).tears? = some e)
    (hne : ∀ c k, s.pc t ≠ .load e (.assign c) k) {p : Probe}
    (hp : s.shared.host.probe e p = .absent) : s.shared.host.NoLive e := by
  intro c q hq he
  by_contra hna
  have ha : q.alive = true := by simpa using hna
  have hc := hs.child_of_live h ht hne hq he ha
  have hrun : s.shared.host.running c = true := by simp [Host.running, hq, ha]
  cases p <;> simp [Host.probe, hc, hrun] at hp

theorem Sound.onlyLive_of_child (hs : Sound H s)
    (h : Runs.Reachable (next adm final) Orderly (.init a) s) {t : ThreadId} {e : EngineId}
    (ht : (s.pc t).load? = some e ∨ (s.pc t).tears? = some e)
    (hne : ∀ c k, s.pc t ≠ .load e (.assign c) k) {child : ChildRef}
    (hc : (s.shared.host.runtimes e).child = some child) : s.shared.host.OnlyLive e child := by
  intro c p hp he ha
  exact Option.some.inj ((hs.child_of_live h ht hne hp he ha).symm.trans hc)

/-! ## One step keeps it -/

theorem Holding.pcOk_enter (H : Holding adm) (x : Shared σ) (c : Call) :
    PcOk H x (c.enter adm) := by
  cases c with
  | releaseJob j => exact ⟨j, H.drops_release _⟩
  | _ => trivial

/-- A step that only reads establishes what its thread relies on next. -/
theorem Sound.quiet (hs : Sound H s) (h : Runs.Reachable (next adm final) Orderly (.init a) s)
    {t : ThreadId} (hq : Quiet adm t s.shared.host (s.pc t) pc') : PcOk H s.shared pc' := by
  have hok := hs.thread t
  have habsent := @Sound.noLive_of_absent _ _ _ _ _ H final a s hs h t
  have honly := @Sound.onlyLive_of_child _ _ _ _ _ H final a s hs h t
  have hcut : ∀ e, (s.pc t).load? = some e → (s.pc t).cut? ≠ some e := fun e => not_cut_of_load h
  have hhold := @owner_of_holds _ _ _ _ adm final Orderly a s h t
  generalize hpc : s.pc t = pc at *
  cases hq with
  | call c => exact H.pcOk_enter _ c
  | @plain _ _ k' _ _ hk' => cases k' <;> trivial
  | reapAlive | reapedWedged | spawnFailed | childLost | startupFailed => trivial
  | reapAbsent hp =>
    exact ⟨H.asks_acquire _, habsent (.inl rfl) (by simp) hp⟩
  | reaped hw =>
    refine ⟨H.asks_acquire _, ?_⟩
    rcases hok with hwedged | hnone
    · simp [hw] at hwedged
    · exact hnone
  | setChild => trivial
  | @lockHeld e c hl =>
    refine ⟨hok, fun hload => ?_⟩
    have hl? : (Pc.unload e .lock c : Pc α ρ).load? = some e := hload
    have hown := hhold (Pc.holds_of_load? hl?)
    simp [Host.lockable, hown] at hl
  | busy => exact UnloadCaller.pcOk_resume hok.1 (UnloadCaller.answered_of_load? hok.2 _ _)
  | hardCut => exact hok.1
  | @tearReads _ k k' c hk hk' =>
    have hcaller : c.Ok H s.shared.host := by
      cases k <;> first | exact hok | simp [TeardownAt.reads] at hk
    cases k' <;> first | exact hcaller | simp [TeardownAt.reads] at hk'
  | @tearRaised e k c hk =>
    have hcaller : c.Ok H s.shared.host := by
      cases k <;> first | exact hok | simp [TeardownAt.reads] at hk
    refine TeardownCaller.pcOk_resume hcaller ?_ (by simp) (by simp)
    rintro c' rfl hload
    exact hcut e hload rfl
  | tearAbsent hp => exact ⟨hok, habsent (.inr rfl) (by simp) hp⟩
  | tearWait hc => exact ⟨hok, honly (.inr rfl) (by simp) hc⟩
  | tearDead hr => exact ⟨hok.1, Host.noLive_of_dead hok.2 hr⟩
  | tearAlive => exact hok.1
  | idlePlain | idleTear | idleUnload | forward | decide | swapLoad | swapUnload => trivial
  | swapRefused => exact PreemptCaller.pcOk_resume ..

/-- A move establishes what its own thread relies on next. -/
theorem Sound.own (hs : Sound H s) (h : Runs.Reachable (next adm final) Orderly (.init a) s)
    {t : ThreadId} (hm : Move adm final t s.shared (s.pc t) x' pc') : PcOk H x' pc' := by
  have hok := hs.thread t
  have hquiet := @Sound.quiet _ _ _ _ _ H final pc' a s hs h t
  have hcut : ∀ e, (s.pc t).load? = some e → (s.pc t).cut? ≠ some e := fun e => not_cut_of_load h
  generalize hpc : s.pc t = pc at *
  generalize s.shared = x at *
  cases hm with
  | exits c =>
    exact hok.of_calm ⟨fun e _ => Host.noBirth_exits _ c e, fun _ _ => id, fun _ _ => id⟩
  | grows =>
    exact hok.of_calm ⟨fun e _ => Host.noBirth_grows _ _ _ e, fun _ _ => id, fun _ _ => id⟩
  | quiet hq => exact hquiet hq
  | lock _ hl =>
    cases hl with
    | unload => exact UnloadCaller.Ok.mono (f := default) hok fun _ _ => .of_eq rfl _
    | _ => trivial
  | unlock hu =>
    cases hu with
    | unload =>
      refine UnloadCaller.pcOk_resume ?_ ?_
      · exact UnloadCaller.Ok.mono (f := default) hok.1 fun _ _ => .of_eq rfl _
      · have ha := hok.2
        rename_i e r c
        cases c with
        | reap c =>
          refine ⟨fun hr => (ha.1 hr).mono (.of_eq rfl _), fun hr => ?_⟩
          simp only [Host.releaseLock, Host.runtimes_setRuntime, if_true]
          exact ha.2 hr
        | _ => trivial
    | _ => trivial
  | flag => trivial
  | unflag => exact LoadCaller.pcOk_resume ..
  | spawn => exact ⟨Host.onlyLive_spawn hok.1, hok.2⟩
  | assign => trivial
  | @wedge e c =>
    refine TeardownCaller.pcOk_resume ?_ ?_ (by simp) fun _ => ?_
    · exact TeardownCaller.Ok.mono (f := e) hok fun _ _ => .of_eq rfl _
    · rintro c' rfl hload
      exact hcut e hload rfl
    · simp [Host.setWedged, Host.runtimes_setRuntime]
  | @clear e c =>
    exact ⟨TeardownCaller.Ok.mono (f := e) hok.1 fun _ _ => .of_eq rfl _,
      hok.2.mono (.of_eq rfl _)⟩
  | @unwedge e c =>
    exact ⟨TeardownCaller.Ok.mono (f := e) hok.1 fun _ _ => .of_eq rfl _,
      hok.2.mono (.of_eq rfl _), H.drops_release _⟩
  | @acquire k c _ _ r ha =>
    cases r with
    | goto k' =>
      cases c with
      | load e c => exact ⟨H.asks_goto ha hok.1, hok.2⟩
      | _ => trivial
    | unload f k' =>
      cases c with
      | load e c => exact ⟨H.asks_unload ha hok.1, hok.2⟩
      | _ => trivial
    | ret r =>
      refine AcquireCaller.pcOk_resume ?_
      rintro e k rfl rfl
      exact ⟨hok.2, H.granted ha hok.1⟩
  | @release k c _ _ r ha =>
    cases r with
    | goto k' =>
      cases c with
      | teardown e c => exact ⟨hok.1, hok.2.1, H.drops_goto ha hok.2.2⟩
      | job =>
        obtain ⟨j, hj⟩ := hok
        exact ⟨j, H.drops_goto ha hj⟩
    | done =>
      cases c with
      | teardown e c =>
        refine TeardownCaller.pcOk_resume hok.1 ?_ (fun _ => hok.2.1) (by simp)
        rintro c' rfl hload
        exact hcut e hload rfl
      | job => trivial
  | beginSwap | retarget | endRollback => trivial
  | rolledBack | endSwap => exact PreemptCaller.pcOk_resume ..

/-- A thread about to assign a child assigns it. -/
theorem Move.of_assign {e : EngineId} {c : ChildRef} {k : LoadCaller}
    (h : Move adm final t x (.load e (.assign c) k) x' pc') :
    pc' = .load e (.assign c) k ∨ (x'.host.runtimes e).child = some c := by
  cases h with
  | exits | grows => exact .inl rfl
  | assign => exact .inr (by simp [Host.setChild, Host.runtimes_setRuntime])
  | quiet hq => cases hq with
    | plain hk => cases hk
  | lock _ hl => cases hl
  | unlock hu => cases hu

theorem Sound.next (hs : Sound H s) (h : Runs.Reachable (next adm final) Orderly (.init a) s)
    {b : ThreadId × Choice χ} {s' : Sys σ α ρ} (hn : Lifecycle.next adm final s b = some s') :
    Sound H s' := by
  obtain ⟨hm, hothers⟩ := move_of_next hn
  have hok := hs.thread b.1
  refine ⟨?_, ?_, ?_⟩
  · intro c p' hp ha
    have hheld : H.held s.shared.admission p'.engine ∧
        ∀ k c, s.pc b.1 ≠ .release k (.teardown p'.engine c) := by
      rcases hm.born hp ha with ⟨p, hp', he, ha'⟩ | ⟨k, hk, -⟩
      · refine ⟨he ▸ hs.live c p hp' ha', fun k tc hk => ?_⟩
        rw [hk] at hok
        simp [hok.2.1 c p hp' he] at ha'
      · rw [hk] at hok ⊢
        exact ⟨hok.2, nofun⟩
    rcases hm.held hok _ hheld.1 with hh | ⟨k, tc, hk⟩
    · exact hh
    · exact absurd hk (hheld.2 k tc)
  · intro u
    by_cases hu : u = b.1
    · subst hu
      exact hs.own h hm
    · rw [hothers u hu]
      exact (hs.thread u).of_calm (hm.calm h hok hu)
  · intro c p' hp ha
    rcases hm.born hp ha with ⟨p, hp', he, ha'⟩ | ⟨k, -, hk⟩
    · rw [← he]
      rcases hs.tracked c p hp' ha' with hc | ⟨u, k, hu⟩
      · rcases hm.child p.engine with heq | ⟨c', k, hk, hc'⟩ | ⟨tc, hk, -⟩
        · exact .inl (heq.trans hc)
        · rw [hk] at hok
          rw [hok.1 c p hp' rfl ha']
          exact .inl hc'
        · rw [hk] at hok
          simp [hok.2 c p hp' rfl] at ha'
      · by_cases hub : u = b.1
        · subst hub
          rw [hu] at hm
          rcases hm.of_assign with hpc | hc
          · exact .inr ⟨b.1, k, hpc⟩
          · exact .inl hc
        · exact .inr ⟨u, k, (hothers u hub).trans hu⟩
    · exact .inr ⟨b.1, k, hk⟩

theorem sound_of_reachable (H : Holding adm)
    (h : Runs.Reachable (next adm final) Orderly (.init a) s) : Sound H s := by
  refine h.invariant ⟨?_, fun _ => trivial, ?_⟩ fun s b s' hr hs _ hn => hs.next hr hn
  · intro c p hp
    cases hp
  · intro c p hp
    cases hp

/-! ## Results -/

/-- `e` has a running process, or a thread is inside `spawn()` for it. -/
def Occupies (s : Sys σ α ρ) (e : EngineId) : Prop :=
  (∃ c p, s.shared.host.processes.get? c = some p ∧ p.engine = e ∧ p.alive = true) ∨
    ∃ t k, s.pc t = .load e .spawn k ∨ ∃ c, s.pc t = .load e (.assign c) k

theorem held_of_occupies (H : Holding adm)
    (h : Runs.Reachable (next adm final) Orderly (.init a) s) {e : EngineId}
    (he : Occupies s e) : H.held s.shared.admission e := by
  have hs := sound_of_reachable H h
  rcases he with ⟨c, p, hp, rfl, ha⟩ | ⟨t, k, hk | ⟨c, hk⟩⟩
  · exact hs.live c p hp ha
  · have hok := hs.thread t
    rw [hk] at hok
    exact hok.2
  · have hok := hs.thread t
    rw [hk] at hok
    exact hok.2

end Lifecycle

end MlopsLite.HostAgent
