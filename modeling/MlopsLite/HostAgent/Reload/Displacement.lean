import MlopsLite.HostAgent.Reload.Runs

/-!
# Reload — what a reload displaces

Whatever the admission, the engines and the adapter answer: a reload that
refuses has stopped and started nothing, one that stops an engine had the
operator's confirmation and found no job, and one that fails after it has
stopped an engine starts what ran before, still under its reservation.
-/

namespace MlopsLite.HostAgent.Reload

variable {β : Type} {given preempt : Bool}

/-! ## Logs -/

/-- It stops or starts an engine, or binds another model. -/
@[simp] def Op.displaces : Op β → Bool
  | .unload _ | .ensureLoaded _ | .restoreBinding _ => true
  | _ => false

def Untouched (l : Log β) : Prop := ∀ ev ∈ l, ev.1.displaces = false

/-- The reservation of this reload, after a call of the admission. -/
@[simp] def reserve : Option EngineId → Event β → Option EngineId
  | _, ⟨.beginSwap e, true⟩ => some e
  | held, ⟨.endSwap e, _⟩ => if held = some e then none else held
  | held, ⟨.retargetSwap old new, _⟩ => if held = some old then some new else held
  | held, _ => held

def reservation (l : Log β) : Option EngineId := l.foldl reserve none

@[simp] theorem untouched_nil : Untouched ([] : Log β) := by simp [Untouched]

@[simp] theorem untouched_cons {ev : Event β} {l : Log β} :
    Untouched (ev :: l) ↔ ev.1.displaces = false ∧ Untouched l := by simp [Untouched]

@[simp] theorem untouched_append {l l' : Log β} :
    Untouched (l ++ l') ↔ Untouched l ∧ Untouched l' := by
  simp [Untouched, or_imp, forall_and]

theorem Untouched.not_unload {l : Log β} (hl : Untouched l) {h : EngineId}
    {s : Option UnloadStatus} : (⟨.unload h, s⟩ : Event β) ∉ l := by
  intro hmem
  simpa using hl _ hmem

@[simp] theorem reservation_append {l l' : Log β} :
    reservation (l ++ l') = l'.foldl reserve (reservation l) := List.foldl_append

theorem Quiet.untouched {l : Log β} (hl : Quiet l) : Untouched l := by
  rintro ⟨o, r⟩ hev
  have := hl _ hev
  cases o <;> simp_all

theorem reserve_quiet {held : Option EngineId} {ev : Event β} (hev : ev.1.quiet = true) :
    reserve held ev = held := by
  obtain ⟨o, r⟩ := ev
  cases o <;> simp_all

theorem Quiet.foldl_reserve {l : Log β} (hl : Quiet l) (held : Option EngineId) :
    l.foldl reserve held = held := by
  induction l with
  | nil => rfl
  | cons ev l ih =>
    rw [quiet_cons] at hl
    rw [List.foldl_cons, reserve_quiet hl.1]
    exact ih hl.2

/-! ## Discipline -/

/-- An engine is stopped with the operator's confirmation, first of all, where
no job has the slot and no batch drives it. One is loaded after any other has
stopped, and in the slot of another only while it is reserved for it. -/
def Lawful (given preempt : Bool) (p : Log β) : Event β → Prop
  | ⟨.unload h, _⟩ => preempt = true ∧ Untouched p ∧ ⟨.holder, some ⟨h, false⟩⟩ ∈ p ∧
      (given = true → ⟨.batchActive, some false⟩ ∈ p)
  | ⟨.ensureLoaded e, _⟩ => ∀ h s, ⟨.unload h, s⟩ ∈ p →
      (∃ s', s = some s' ∧ s'.done = true) ∧ (h ≠ "llm" → reservation p = some e)
  | _ => True

/-- The engine was stopped. -/
def Stopped (l : Log β) (h : EngineId) : Prop := ∃ s, ⟨.unload h, some s⟩ ∈ l ∧ s.done = true

@[simp] theorem stopped_nil {h : EngineId} : ¬ Stopped ([] : Log β) h := by simp [Stopped]

@[simp] theorem stopped_cons {l : Log β} {ev : Event β} {h : EngineId}
    (hev : ∀ e, ev.1 ≠ .unload e) : Stopped (ev :: l) h ↔ Stopped l h := by
  refine ⟨fun ⟨s, hmem, hs⟩ => ⟨s, ?_, hs⟩, fun ⟨s, hmem, hs⟩ => ⟨s, .tail _ hmem, hs⟩⟩
  cases hmem with
  | head => exact absurd rfl (hev h)
  | tail _ hmem => exact hmem

@[simp] theorem stopped_unload {l : Log β} {h h' : EngineId} {s : Option UnloadStatus} :
    Stopped (⟨.unload h', s⟩ :: l) h ↔ (h' = h ∧ s.any (·.done) = true) ∨ Stopped l h := by
  constructor
  · rintro ⟨s', hmem, hs⟩
    cases hmem with
    | head => exact .inl ⟨rfl, hs⟩
    | tail _ hmem => exact .inr ⟨s', hmem, hs⟩
  · rintro (⟨rfl, hs⟩ | ⟨s', hmem, hs⟩)
    · obtain ⟨s', rfl, hs⟩ := (Option.any_eq_true _ _).mp hs
      exact ⟨s', .head _, hs⟩
    · exact ⟨s', .tail _ hmem, hs⟩

@[simp] theorem stopped_append {l l' : Log β} {h : EngineId} :
    Stopped (l ++ l') h ↔ Stopped l h ∨ Stopped l' h := by
  simp [Stopped, or_and_right, exists_or]

theorem Untouched.not_stopped {l : Log β} {h : EngineId} (hl : Untouched l) : ¬ Stopped l h :=
  fun ⟨_, hmem, _⟩ => hl.not_unload hmem

structure Disciplined (given preempt : Bool) (l : Log β) (out : Except Err Result) : Prop where
  lawful : ∀ p ev t, l = p ++ ev :: t → Lawful given preempt p ev
  refused : ∀ e, out = .error e → e.refuses = true → Untouched l
  noop : ∀ r, out = .ok r → r.status = .noop → Untouched l
  restored : ∀ e h, out = .error e → Stopped l h → ∃ p r,
    (h = "llm" ∧ ∃ b, ⟨.snapshotBinding, b⟩ ∈ p ∧
      l = p ++ [⟨.restoreBinding b, ()⟩, ⟨.ensureLoaded "llm", r⟩]) ∨
    (h ≠ "llm" ∧ l = p ++ [⟨.retargetSwap "llm" h, ()⟩, ⟨.ensureLoaded h, r⟩, ⟨.endSwap h, ()⟩,
      ⟨.endSwap "llm", ()⟩])
  served : ∀ r, out = .ok r → r.status ≠ .noop →
    ∃ p t, l = p ++ ⟨.ensureLoaded "llm", some r.loadMs⟩ :: t ∧ Untouched t
  identified : ∀ r, out = .ok r → ∃ p, l = p ++ [⟨.boundIdentity, r.identity⟩]
  evicted : ∀ r h, out = .ok r → (r.evicted = some h ↔ h ≠ "llm" ∧ Stopped l h)
  released : reservation l = none

/-! ## Lawfulness -/

theorem lawful_quiet {p l : Log β} (hl : Quiet l) : Code.Guarded (Lawful given preempt) p l := by
  refine Code.guarded_of_forall fun ⟨o, r⟩ hev p => ?_
  have := hl _ hev
  cases o <;> simp_all [Lawful]

theorem lawful_unload {p q : Log β} {h : EngineId} {s : Option UnloadStatus} (hp : Untouched p)
    (hq : Checked given q h) (hpreempt : preempt = true) :
    Lawful given preempt (p ++ q) ⟨.unload h, s⟩ :=
  ⟨hpreempt, by simp [hp, hq.quiet.untouched], by simp [hq.holder],
    fun hg => by simp [hq.batch hg]⟩

theorem lawful_load {p : Log β} {e : EngineId} {r : Option ℚ} (hp : Untouched p) :
    Lawful given preempt p ⟨.ensureLoaded e, r⟩ :=
  fun _ _ hmem => absurd hmem hp.not_unload

/-- A load after the one engine that was stopped. -/
theorem lawful_load_after {p t : Log β} {h e : EngineId} {s : UnloadStatus} {r : Option ℚ}
    (hp : Untouched p) (hs : s.done = true) (ht : ∀ h s, ⟨.unload h, s⟩ ∉ t)
    (hres : h ≠ "llm" → reservation (p ++ ⟨.unload h, some s⟩ :: t) = some e) :
    Lawful given preempt (p ++ ⟨.unload h, some s⟩ :: t) ⟨.ensureLoaded e, r⟩ := by
  intro h' s' hmem
  simp only [List.mem_append, List.mem_cons, hp.not_unload, ht, or_false, false_or] at hmem
  cases hmem
  exact ⟨⟨s, rfl, hs⟩, hres⟩

theorem SwapRun.lawful {p l : Log β} {out : Except Err Swapped} (hrun : SwapRun given "llm" l out)
    (hp : Untouched p) (hres : reservation p = some "llm") (hpreempt : preempt = true) :
    Code.Guarded (Lawful given preempt) p l := by
  cases hrun with
  | refused hq => exact lawful_quiet hq
  | loaded hq | notLoaded hq =>
    exact Code.guarded_append.mpr
      ⟨lawful_quiet hq, lawful_load (by simp [hp, hq.untouched]), trivial⟩
  | kept hq =>
    exact Code.guarded_append.mpr ⟨lawful_quiet hq.quiet, lawful_unload hp hq hpreempt, trivial⟩
  | @swapped q h s ms hq hh hs =>
    have hpq : Untouched (p ++ q) := by simp [hp, hq.quiet.untouched]
    have hload : Lawful given preempt (p ++ q ++ [⟨.unload h, some s⟩])
        ⟨.ensureLoaded "llm", some ms⟩ :=
      lawful_load_after hpq hs (by simp) (by simp [hres, hq.quiet.foldl_reserve])
    exact Code.guarded_append.mpr
      ⟨lawful_quiet hq.quiet, lawful_unload hp hq hpreempt, hload, trivial⟩
  | @restored q h s r hq hh hs =>
    have hpq : Untouched (p ++ q) := by simp [hp, hq.quiet.untouched]
    have hload : Lawful given preempt (p ++ q ++ [⟨.unload h, some s⟩])
        ⟨.ensureLoaded "llm", none⟩ :=
      lawful_load_after hpq hs (by simp) (by simp [hres, hq.quiet.foldl_reserve])
    -- the reservation has passed to the evicted engine
    have hagain : Lawful given preempt (p ++ q ++ ⟨.unload h, some s⟩ ::
        [⟨.ensureLoaded "llm", none⟩, ⟨.retargetSwap "llm" h, ()⟩]) ⟨.ensureLoaded h, r⟩ :=
      lawful_load_after hpq hs (by simp) (by simp [hres, hq.quiet.foldl_reserve])
    refine Code.guarded_append.mpr ⟨lawful_quiet hq.quiet, lawful_unload hp hq hpreempt, hload,
      trivial, ?_, trivial, trivial⟩
    simpa using hagain

theorem PreemptRun.lawful {p l : Log β} {out : Except Err Swapped}
    (hrun : PreemptRun given "llm" l out) (hp : Quiet p) (hpreempt : preempt = true) :
    Code.Guarded (Lawful given preempt) p l := by
  cases hrun with
  | unknown => exact ⟨trivial, trivial⟩
  | reserved => exact ⟨trivial, trivial, trivial⟩
  | @ran l out hswap =>
    have hres : reservation (p ++ [⟨.registered "llm", true⟩, ⟨.beginSwap "llm", true⟩]) =
        some "llm" := by simp [reservation]
    have hl := hswap.lawful (by simp [hp.untouched]) hres hpreempt
    refine Code.guarded_append.mpr ⟨?_, trivial, trivial⟩
    exact ⟨trivial, trivial, by simpa using hl⟩

theorem ReloadRun.lawful {l : Log β} {out : Except Err Result}
    (hrun : ReloadRun given preempt l out) : Code.Guarded (Lawful given preempt) [] l := by
  cases hrun with
  | refused hq => exact lawful_quiet hq
  | noop hq => exact lawful_quiet (by simp [hq])
  | loaded hq =>
    exact Code.guarded_append.mpr ⟨lawful_quiet hq, lawful_load hq.untouched, trivial, trivial⟩
  | notLoaded hq =>
    exact Code.guarded_append.mpr ⟨lawful_quiet hq, lawful_load hq.untouched, trivial⟩
  | swapped hq hpreempt hswap =>
    refine Code.guarded_append.mpr ⟨?_, trivial, trivial⟩
    exact Code.guarded_append.mpr ⟨lawful_quiet hq, hswap.lawful hq hpreempt⟩
  | notSwapped hq hpreempt hswap =>
    exact Code.guarded_append.mpr ⟨lawful_quiet hq, hswap.lawful hq hpreempt⟩
  | kept hq hpreempt =>
    exact Code.guarded_append.mpr
      ⟨lawful_quiet hq.quiet, lawful_unload untouched_nil hq hpreempt, trivial⟩
  | reloaded hq hpreempt hs =>
    exact Code.guarded_append.mpr
      ⟨lawful_quiet hq.quiet, lawful_unload untouched_nil hq hpreempt,
        lawful_load_after hq.quiet.untouched hs (by simp) (by simp), trivial, trivial⟩
  | @restored q s b r hq hpreempt hs hb =>
    have hagain : Lawful given preempt (q ++ ⟨.unload "llm", some s⟩ ::
        [⟨.ensureLoaded "llm", none⟩, ⟨.restoreBinding b, ()⟩]) ⟨.ensureLoaded "llm", r⟩ :=
      lawful_load_after hq.quiet.untouched hs (by simp) (by simp)
    refine Code.guarded_append.mpr
      ⟨lawful_quiet hq.quiet, lawful_unload untouched_nil hq hpreempt,
        lawful_load_after hq.quiet.untouched hs (by simp) (by simp), trivial, ?_, trivial⟩
    simpa using hagain

/-! ## Refusals and restorations -/

theorem PreemptRun.refused {l : Log β} {e : Err} (hrun : PreemptRun given "llm" l (.error e))
    (he : e.refuses = true) : Untouched l := by
  cases hrun with
  | unknown | reserved => simp
  | ran hswap =>
    cases hswap with
    | refused hq => simp [hq.untouched]
    | notLoaded | restored => cases he
    | kept hq hh hs hkept => simp [hkept] at he

theorem PreemptRun.restored {l : Log β} {e : Err} {h : EngineId}
    (hrun : PreemptRun given "llm" l (.error e)) (hl : Stopped l h) :
    h ≠ "llm" ∧ ∃ p r, l = p ++ [⟨.retargetSwap "llm" h, ()⟩, ⟨.ensureLoaded h, r⟩,
      ⟨.endSwap h, ()⟩, ⟨.endSwap "llm", ()⟩] := by
  cases hrun with
  | unknown | reserved => simp at hl
  | ran hswap =>
    cases hswap with
    | refused hq | notLoaded hq => simp [hq.untouched.not_stopped] at hl
    | @kept q h' s e hq hh hs =>
      cases s with
      | none => simp [hq.quiet.untouched.not_stopped] at hl
      | some s => simp_all [hq.quiet.untouched.not_stopped]
    | @restored q h' s r hq hh hs =>
      obtain ⟨rfl, -⟩ : h' = h ∧ s.done = true := by
        simpa [hq.quiet.untouched.not_stopped] using hl
      refine ⟨hh, [⟨.registered "llm", true⟩, ⟨.beginSwap "llm", true⟩] ++ q ++
        [⟨.unload h', some s⟩, ⟨.ensureLoaded "llm", none⟩], r, by simp⟩

theorem PreemptRun.served {l : Log β} {s : Swapped} (hrun : PreemptRun given "llm" l (.ok s)) :
    ∃ p t, l = p ++ ⟨.ensureLoaded "llm", some s.loadMs⟩ :: t ∧ Untouched t := by
  cases hrun with
  | ran hswap =>
    cases hswap with
    | @loaded q ms hq =>
      exact ⟨[⟨.registered "llm", true⟩, ⟨.beginSwap "llm", true⟩] ++ q, [⟨.endSwap "llm", ()⟩],
        by simp, by simp⟩
    | @swapped q h s ms hq hh hs =>
      exact ⟨[⟨.registered "llm", true⟩, ⟨.beginSwap "llm", true⟩] ++ q ++ [⟨.unload h, some s⟩],
        [⟨.endSwap "llm", ()⟩], by simp, by simp⟩

theorem PreemptRun.evicted {l : Log β} {s : Swapped} {h : EngineId}
    (hrun : PreemptRun given "llm" l (.ok s)) :
    s.evicted = some h ↔ h ≠ "llm" ∧ Stopped l h := by
  cases hrun with
  | ran hswap =>
    cases hswap with
    | loaded hq => simp [hq.untouched.not_stopped]
    | @swapped q h' s ms hq hh hs =>
      constructor
      · intro heq
        obtain rfl : h' = h := by simpa using heq
        exact ⟨hh, by simp [hs]⟩
      · rintro ⟨-, hl⟩
        simpa [hq.quiet.untouched.not_stopped, hs] using hl

theorem PreemptRun.released {l : Log β} {out : Except Err Swapped}
    (hrun : PreemptRun given "llm" l out) : l.foldl reserve none = none := by
  cases hrun with
  | unknown | reserved => simp
  | ran hswap =>
    cases hswap with
    | refused hq | loaded hq | notLoaded hq => simp [hq.foldl_reserve]
    | kept hq | swapped hq => simp [hq.quiet.foldl_reserve]
    | restored hq hh => simp [hq.quiet.foldl_reserve]

/-! ## The reload -/

variable {l : Log β} {out : Except Err Result}

theorem ReloadRun.refused_untouched {e : Err} (hrun : ReloadRun given preempt l (.error e))
    (he : e.refuses = true) : Untouched l := by
  cases hrun with
  | refused hq => exact hq.untouched
  | notLoaded | restored => cases he
  | notSwapped hq _ hswap => simp [hq.untouched, hswap.refused he]
  | kept hq hpreempt hs hkept => simp [hkept] at he

theorem ReloadRun.noop_untouched {r : Result} (hrun : ReloadRun given preempt l (.ok r))
    (hr : r.status = .noop) : Untouched l := by
  cases hrun with
  | noop hq => simp [hq.untouched]
  | loaded | swapped | reloaded => cases hr

theorem ReloadRun.restored_prior {e : Err} {h : EngineId}
    (hrun : ReloadRun given preempt l (.error e)) (hl : Stopped l h) : ∃ p r,
    (h = "llm" ∧ ∃ b, ⟨.snapshotBinding, b⟩ ∈ p ∧
      l = p ++ [⟨.restoreBinding b, ()⟩, ⟨.ensureLoaded "llm", r⟩]) ∨
    (h ≠ "llm" ∧ l = p ++ [⟨.retargetSwap "llm" h, ()⟩, ⟨.ensureLoaded h, r⟩, ⟨.endSwap h, ()⟩,
      ⟨.endSwap "llm", ()⟩]) := by
  cases hrun with
  | refused hq => exact absurd hl hq.untouched.not_stopped
  | notLoaded hq => simp [hq.untouched.not_stopped] at hl
  | @notSwapped q l e hq _ hswap =>
    obtain ⟨hh, p, r, rfl⟩ :=
      hswap.restored (by simpa [hq.untouched.not_stopped] using hl)
    exact ⟨q ++ p, r, .inr ⟨hh, by simp⟩⟩
  | @kept q s e hq _ hs =>
    cases s with
    | none => simp [hq.quiet.untouched.not_stopped] at hl
    | some s => simp_all [hq.quiet.untouched.not_stopped]
  | @restored q s b r hq _ hs hb =>
    obtain ⟨rfl, -⟩ : "llm" = h ∧ s.done = true := by
      simpa [hq.quiet.untouched.not_stopped] using hl
    exact ⟨q ++ [⟨.unload "llm", some s⟩, ⟨.ensureLoaded "llm", none⟩], r,
      .inl ⟨rfl, b, by simp [hb], by simp⟩⟩

theorem ReloadRun.served {r : Result} (hrun : ReloadRun given preempt l (.ok r))
    (hr : r.status ≠ .noop) :
    ∃ p t, l = p ++ ⟨.ensureLoaded "llm", some r.loadMs⟩ :: t ∧ Untouched t := by
  cases hrun with
  | noop => exact absurd rfl hr
  | @loaded q ms i => exact ⟨q, [⟨.boundIdentity, i⟩], rfl, by simp⟩
  | @swapped q l s i hq _ hswap =>
    obtain ⟨p, t, rfl, ht⟩ := hswap.served
    exact ⟨q ++ p, t ++ [⟨.boundIdentity, i⟩], by simp, by simp [ht]⟩
  | @reloaded q s ms i =>
    exact ⟨q ++ [⟨.unload "llm", some s⟩], [⟨.boundIdentity, i⟩], by simp, by simp⟩

theorem ReloadRun.identified {r : Result} (hrun : ReloadRun given preempt l (.ok r)) :
    ∃ p, l = p ++ [⟨.boundIdentity, r.identity⟩] := by
  cases hrun with
  | @noop q => exact ⟨q, rfl⟩
  | @loaded q ms => exact ⟨q ++ [⟨.ensureLoaded "llm", some ms⟩], by simp⟩
  | @swapped q l => exact ⟨q ++ l, rfl⟩
  | @reloaded q s ms =>
    exact ⟨q ++ [⟨.unload "llm", some s⟩, ⟨.ensureLoaded "llm", some ms⟩], by simp⟩

theorem ReloadRun.evicted {r : Result} {h : EngineId} (hrun : ReloadRun given preempt l (.ok r)) :
    r.evicted = some h ↔ h ≠ "llm" ∧ Stopped l h := by
  cases hrun with
  | noop hq | loaded hq => simp [hq.untouched.not_stopped]
  | swapped hq _ hswap => simp [hq.untouched.not_stopped, hswap.evicted]
  | @reloaded q s ms i hq =>
    refine ⟨fun hnone => (nomatch hnone), fun ⟨hh, hl⟩ => ?_⟩
    obtain ⟨rfl, -⟩ : "llm" = h ∧ s.done = true := by
      simpa [hq.quiet.untouched.not_stopped] using hl
    exact absurd rfl hh

theorem ReloadRun.released (hrun : ReloadRun given preempt l out) : reservation l = none := by
  cases hrun with
  | refused hq | noop hq | loaded hq | notLoaded hq => simp [reservation, hq.foldl_reserve]
  | swapped hq _ hswap => simp [reservation, hq.foldl_reserve, hswap.released]
  | notSwapped hq _ hswap => simp [reservation, hq.foldl_reserve, hswap.released]
  | kept hq | reloaded hq | restored hq => simp [reservation, hq.quiet.foldl_reserve]

/-- The image model is evicted, the served model does not start, the image model
comes back. -/
def failedSwap : Log Unit :=
  [⟨.registered "llm", true⟩, ⟨.snapshotBinding, ()⟩, ⟨.rebind, true⟩,
    ⟨.available "llm", some true⟩, ⟨.holder, some ⟨"image", false⟩⟩,
    ⟨.registered "llm", true⟩, ⟨.beginSwap "llm", true⟩, ⟨.holder, some ⟨"image", false⟩⟩,
    ⟨.batchActive, some false⟩, ⟨.registered "image", true⟩, ⟨.enabled "llm", true⟩,
    ⟨.wedged "llm", false⟩, ⟨.available "llm", some true⟩, ⟨.unload "image", some .unloaded⟩,
    ⟨.ensureLoaded "llm", none⟩, ⟨.retargetSwap "llm" "image", ()⟩,
    ⟨.ensureLoaded "image", some 1⟩, ⟨.endSwap "image", ()⟩, ⟨.endSwap "llm", ()⟩]

end MlopsLite.HostAgent.Reload
