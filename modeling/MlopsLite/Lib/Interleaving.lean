import MlopsLite.Lib.Runs

/-!
# Interleaving — threads over one shared state

A thread stands at a control point; its next atomic section reads and
writes the shared state and moves it to its next control point. A run is
any interleaving of the sections of any number of threads.

`threadwise` is the proof rule: a global assertion `G` on the shared state
and, for each thread, a local assertion `L` on the shared state and its
control point. A section must establish its own thread's assertion and may
move the shared state only within a relation `R` under which the assertions
of the OTHER threads are stable.
-/

namespace Interleaving

variable {ι σ κ χ : Type} [DecidableEq ι]

/-- The shared state and the control point of every thread. -/
structure State (ι σ κ : Type) where
  shared : σ
  pc : ι → κ

/-- `advance t c x k`: thread `t`, standing at `k`, runs its next atomic
section on `x`; `c` settles what the section leaves open. -/
abbrev Program (ι σ κ χ : Type) := ι → χ → σ → κ → Option (σ × κ)

def next (advance : Program ι σ κ χ) (s : State ι σ κ) (a : ι × χ) : Option (State ι σ κ) :=
  (advance a.1 a.2 s.shared (s.pc a.1)).map fun r => ⟨r.1, Function.update s.pc a.1 r.2⟩

theorem next_eq_some {advance : Program ι σ κ χ} {s s' : State ι σ κ} {t : ι} {c : χ} :
    next advance s (t, c) = some s' ↔
      ∃ x k, advance t c s.shared (s.pc t) = some (x, k) ∧
        s' = ⟨x, Function.update s.pc t k⟩ := by
  simp only [next, Option.map_eq_some_iff, Prod.exists]
  constructor
  · rintro ⟨x, k, h, rfl⟩
    exact ⟨x, k, h, rfl⟩
  · rintro ⟨x, k, h, rfl⟩
    exact ⟨x, k, h, rfl⟩

/-- A step is one section of its thread; the others stay where they are. -/
theorem of_next {advance : Program ι σ κ χ} {s s' : State ι σ κ} {t : ι} {c : χ}
    (h : next advance s (t, c) = some s') :
    advance t c s.shared (s.pc t) = some (s'.shared, s'.pc t) ∧
      ∀ u, u ≠ t → s'.pc u = s.pc u := by
  obtain ⟨x, k, ha, rfl⟩ := next_eq_some.mp h
  refine ⟨?_, fun u hu => Function.update_of_ne hu ..⟩
  show advance t c s.shared (s.pc t) = some (x, Function.update s.pc t k t)
  rw [Function.update_self]
  exact ha

/-- What holds at every control point and choice holds at these. -/
@[elab_as_elim]
def pointwise {motive : κ → χ → Type} (k : κ) (c : χ) (h : ∀ k c, motive k c) : motive k c :=
  h k c

/-- Global and local assertions together. -/
structure Holds (G : σ → Prop) (L : ι → σ → κ → Prop) (s : State ι σ κ) : Prop where
  global : G s.shared
  thread : ∀ t, L t s.shared (s.pc t)

variable {advance : Program ι σ κ χ} {ok : State ι σ κ → ι × χ → Prop} {init : State ι σ κ}

/-- One section keeps the assertions. -/
theorem Holds.next {G : σ → Prop} {L : ι → σ → κ → Prop} {s s' : State ι σ κ} {t : ι} {c : χ}
    (h : Holds G L s) (hn : next advance s (t, c) = some s')
    (own : ∀ x k, advance t c s.shared (s.pc t) = some (x, k) → G x ∧ L t x k)
    (other : ∀ x k, advance t c s.shared (s.pc t) = some (x, k) →
      ∀ u, u ≠ t → L u s.shared (s.pc u) → L u x (s.pc u)) :
    Holds G L s' := by
  obtain ⟨x, k, ha, rfl⟩ := next_eq_some.mp hn
  obtain ⟨hG, hL⟩ := own x k ha
  refine ⟨hG, fun u => ?_⟩
  by_cases hu : u = t
  · subst hu
    simpa using hL
  · simpa [Function.update_of_ne hu] using other x k ha u hu (h.thread u)

/-- The rely–guarantee rule. -/
theorem threadwise {G : σ → Prop} {L : ι → σ → κ → Prop} {R : ι → σ → σ → Prop}
    (h0 : Holds G L init)
    (own : ∀ s t c x k, Runs.Reachable (next advance) ok init s → Holds G L s → ok s (t, c) →
      advance t c s.shared (s.pc t) = some (x, k) → G x ∧ L t x k ∧ R t s.shared x)
    (stable : ∀ t u x y k, R t x y → u ≠ t → L u x k → L u y k)
    {s : State ι σ κ} (h : Runs.Reachable (next advance) ok init s) : Holds G L s := by
  refine h.invariant h0 fun s a s' hr hI hok hn => ?_
  obtain ⟨t, c⟩ := a
  refine hI.next hn (fun x k ha => ?_) (fun x k ha u hu hL => ?_)
  · obtain ⟨hG, hL, -⟩ := own s t c x k hr hI hok ha
    exact ⟨hG, hL⟩
  · exact stable t u _ _ _ (own s t c x k hr hI hok ha).2.2 hu hL

/-- A thread that takes no step stays where it was. -/
theorem unmoved (moves : ι → Prop) (honly : ∀ s a, ok s a → moves a.1) {s : State ι σ κ}
    (h : Runs.Reachable (next advance) ok init s) : ∀ u, ¬ moves u → s.pc u = init.pc u := by
  refine h.invariant (I := fun s => ∀ u, ¬ moves u → s.pc u = init.pc u) (fun _ _ => rfl) ?_
  intro s a s' _ ih hok hn u hu
  obtain ⟨x, k, -, rfl⟩ := next_eq_some.mp hn
  rw [← ih u hu]
  have hne : u ≠ a.1 := fun heq => hu (heq ▸ honly s a hok)
  exact Function.update_of_ne hne ..

/-- In a run of one thread every other stays where it was. -/
theorem others_of_solo {t : ι} (hsolo : ∀ s a, ok s a → a.1 = t) {s : State ι σ κ}
    (h : Runs.Reachable (next advance) ok init s) : ∀ u, u ≠ t → s.pc u = init.pc u :=
  unmoved (· = t) hsolo h

/-! ## History variables -/

section

variable {η : Type}

/-- Carry a history beside the shared state; sections write it and never
read it. -/
def withHistory (advance : Program ι σ κ χ) (record : ι → σ → κ → η → σ → κ → η) :
    Program ι (σ × η) κ χ :=
  fun t c s k => (advance t c s.1 k).map fun r => ((r.1, record t s.1 k s.2 r.1 r.2), r.2)

omit [DecidableEq ι] in
theorem withHistory_eq_some {record : ι → σ → κ → η → σ → κ → η} {t : ι} {c : χ} {s : σ × η}
    {x' : σ} {h' : η} {k k' : κ} :
    withHistory advance record t c s k = some ((x', h'), k') ↔
      advance t c s.1 k = some (x', k') ∧ h' = record t s.1 k s.2 x' k' := by
  simp only [withHistory, Option.map_eq_some_iff, Prod.exists, Prod.mk.injEq]
  constructor
  · rintro ⟨x, k₁, ha, ⟨rfl, rfl⟩, rfl⟩
    exact ⟨ha, rfl⟩
  · rintro ⟨ha, rfl⟩
    exact ⟨x', k', ha, ⟨rfl, rfl⟩, rfl⟩

def State.forget (s : State ι (σ × η) κ) : State ι σ κ := ⟨s.shared.1, s.pc⟩

/-- Without its history a run is one of the program itself. -/
theorem forget_reachable_of {record : ι → σ → κ → η → σ → κ → η}
    {ok : State ι (σ × η) κ → ι × χ → Prop} {ok' : State ι σ κ → ι × χ → Prop}
    {init s : State ι (σ × η) κ} (hok : ∀ s a, ok s a → ok' s.forget a)
    (h : Runs.Reachable (next (withHistory advance record)) ok init s) :
    Runs.Reachable (next advance) ok' init.forget s.forget := by
  induction h with
  | init => exact .init
  | step a _ hs hn ih =>
    obtain ⟨t, c⟩ := a
    obtain ⟨⟨x, h⟩, k, ha, rfl⟩ := next_eq_some.mp hn
    have hadv := (withHistory_eq_some.mp ha).1
    exact .step (t, c) ih (hok _ _ hs) (next_eq_some.mpr ⟨x, k, hadv, rfl⟩)

theorem forget_reachable {record : ι → σ → κ → η → σ → κ → η}
    {ok : State ι (σ × η) κ → ι × χ → Prop} {init s : State ι (σ × η) κ}
    (h : Runs.Reachable (next (withHistory advance record)) ok init s) :
    Runs.Reachable (next advance) Runs.anyStep init.forget s.forget :=
  forget_reachable_of (fun _ _ _ => trivial) h

end

/-! ## One thread inside -/

/-- The flag is up exactly while a thread stands inside, and then one only. -/
structure Guarded (flag : σ → Prop) (inside : κ → Prop) (s : State ι σ κ) : Prop where
  up : ∀ t, inside (s.pc t) → flag s.shared
  held : flag s.shared → ∃ t, inside (s.pc t)
  unique : ∀ t u, inside (s.pc t) → inside (s.pc u) → t = u

/-- How a section may treat the flag: leave it and its thread where they
are, go inside and raise it from down, or come outside and lower it. -/
def Guards (flag : σ → Prop) (inside : κ → Prop) (x : σ) (k : κ) (x' : σ) (k' : κ) : Prop :=
  ((inside k' ↔ inside k) ∧ (flag x' ↔ flag x)) ∨
  (¬ flag x ∧ inside k' ∧ flag x') ∨
  (inside k ∧ ¬ inside k' ∧ ¬ flag x')

theorem Guarded.next {flag : σ → Prop} {inside : κ → Prop} {s s' : State ι σ κ} {t : ι} {c : χ}
    (h : Guarded flag inside s) (hn : next advance s (t, c) = some s')
    (hg : ∀ x k, advance t c s.shared (s.pc t) = some (x, k) →
      Guards flag inside s.shared (s.pc t) x k) : Guarded flag inside s' := by
  obtain ⟨x, k, ha, rfl⟩ := next_eq_some.mp hn
  have self : Function.update s.pc t k t = k := Function.update_self ..
  have other : ∀ u, u ≠ t → Function.update s.pc t k u = s.pc u := fun u hu =>
    Function.update_of_ne hu ..
  rcases hg x k ha with ⟨hk, hf⟩ | ⟨hdown, hk, hf⟩ | ⟨hin, hk, hf⟩
  · have same : ∀ u, inside (Function.update s.pc t k u) ↔ inside (s.pc u) := by
      intro u
      by_cases hu : u = t
      · rw [hu, self, hk]
      · rw [other u hu]
    refine ⟨?_, ?_, ?_⟩
    · intro u hu
      exact hf.mpr (h.up u ((same u).mp hu))
    · intro hx
      obtain ⟨u, hu⟩ := h.held (hf.mp hx)
      exact ⟨u, (same u).mpr hu⟩
    · intro u v hu hv
      exact h.unique u v ((same u).mp hu) ((same v).mp hv)
  · have alone : ∀ u, inside (Function.update s.pc t k u) → u = t := by
      intro u hu
      by_contra hne
      rw [other u hne] at hu
      exact hdown (h.up u hu)
    have hself : inside (Function.update s.pc t k t) := by rwa [self]
    refine ⟨fun _ _ => hf, fun _ => ⟨t, hself⟩, ?_⟩
    intro u v hu hv
    rw [alone u hu, alone v hv]
  · have none : ∀ u, ¬ inside (Function.update s.pc t k u) := by
      intro u hu
      by_cases hut : u = t
      · rw [hut, self] at hu
        exact hk hu
      · rw [other u hut] at hu
        exact hut (h.unique u t hu hin)
    exact ⟨fun u hu => absurd hu (none u), fun hx => absurd hx hf,
      fun u _ hu _ => absurd hu (none u)⟩

end Interleaving
