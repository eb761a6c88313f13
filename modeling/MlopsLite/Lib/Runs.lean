import Mathlib

/-!
# Runs — reachable states of a partial step function

`next s a` is the state after action `a`, or `none` when `a` is not
enabled. `Reachable next ok init` holds of the states reached by the runs
whose steps all satisfy the side condition `ok`; a run without a side
condition takes `ok := anyStep`.
-/

namespace Runs

variable {σ α : Type}

/-- The side condition that every step meets. -/
def anyStep (_ : σ) (_ : α) : Prop := True

inductive Reachable (next : σ → α → Option σ) (ok : σ → α → Prop) (init : σ) : σ → Prop
  | init : Reachable next ok init init
  | step {s s' : σ} (a : α) : Reachable next ok init s → ok s a → next s a = some s' →
      Reachable next ok init s'

section

variable {next : σ → α → Option σ} {ok ok' : σ → α → Prop} {init : σ}

/-- The induction rule. A step may use that its source is reachable, so an
invariant proved earlier is at hand in the next one. -/
theorem Reachable.invariant {I : σ → Prop} (h0 : I init)
    (hs : ∀ s a s', Reachable next ok init s → I s → ok s a → next s a = some s' → I s')
    {s : σ} (h : Reachable next ok init s) : I s := by
  induction h with
  | init => exact h0
  | step a hr hok hn ih => exact hs _ a _ hr ih hok hn

/-- A weaker side condition reaches more. -/
theorem Reachable.mono (hsub : ∀ s a, ok s a → ok' s a) {s : σ}
    (h : Reachable next ok init s) : Reachable next ok' init s := by
  induction h with
  | init => exact .init
  | step a _ hok hn ih => exact .step a ih (hsub _ _ hok) hn

/-- Where a side condition implies another in the states it reaches. -/
theorem Reachable.imp (hsub : ∀ s a, Reachable next ok init s → ok s a → ok' s a) {s : σ}
    (h : Reachable next ok init s) : Reachable next ok' init s := by
  induction h with
  | init => exact .init
  | step a hr hok hn ih => exact .step a ih (hsub _ _ hr hok) hn

theorem Reachable.any {s : σ} (h : Reachable next ok init s) :
    Reachable next anyStep init s :=
  h.mono fun _ _ _ => trivial

end

/-! ## The steps of a run -/

/-- One step as taken: where from, by which action, where to. -/
structure Taken (σ α : Type) where
  src : σ
  act : α
  dst : σ

/-- The steps of a run in order, and the state it ends in. -/
inductive Trace (next : σ → α → Option σ) (init : σ) : List (Taken σ α) → σ → Prop
  | nil : Trace next init [] init
  | snoc {tr : List (Taken σ α)} {s s' : σ} (a : α) : Trace next init tr s → next s a = some s' →
      Trace next init (tr ++ [⟨s, a, s'⟩]) s'

section

variable {next : σ → α → Option σ} {init : σ} {tr : List (Taken σ α)} {s : σ}

theorem Trace.reachable (h : Trace next init tr s) : Reachable next anyStep init s := by
  induction h with
  | nil => exact .init
  | snoc a _ hn ih => exact .step a ih trivial hn

/-- Each step of a run starts in a reachable state. -/
theorem Trace.step_of_mem (h : Trace next init tr s) {t : Taken σ α} (ht : t ∈ tr) :
    Reachable next anyStep init t.src ∧ next t.src t.act = some t.dst := by
  induction h with
  | nil => cases ht
  | snoc a hr hn ih =>
    rcases List.mem_append.mp ht with ht | ht
    · exact ih ht
    · obtain rfl := List.mem_singleton.mp ht
      exact ⟨hr.reachable, hn⟩

theorem Reachable.trans {ok : σ → α → Prop} {s₁ s₂ : σ} (h : Reachable next ok init s₁)
    (h' : Reachable next ok s₁ s₂) : Reachable next ok init s₂ := by
  induction h' with
  | init => exact h
  | step a _ hok hn ih => exact .step a ih hok hn

/-- What holds at the start of a run and is kept by its steps holds wherever
a step of it begins. -/
theorem Trace.invariant {I : σ → Prop} (h : Trace next init tr s) (h0 : I init)
    (hs : ∀ t ∈ tr, Reachable next anyStep init t.src → next t.src t.act = some t.dst →
      I t.src → I t.dst) : I s ∧ ∀ t ∈ tr, I t.src := by
  induction h with
  | nil => exact ⟨h0, nofun⟩
  | snoc a hr hn ih =>
    obtain ⟨hI, hmem⟩ := ih fun t ht => hs t (List.mem_append_left _ ht)
    have hlast := hs _ (List.mem_append_right _ (List.mem_singleton.mpr rfl)) hr.reachable hn hI
    refine ⟨hlast, fun t ht => ?_⟩
    rcases List.mem_append.mp ht with ht | ht
    · exact hmem t ht
    · obtain rfl := List.mem_singleton.mp ht
      exact hI

/-- Where a step keeps `I` exactly if it meets a condition, every state of a run has `I`
exactly if every step meets it. -/
theorem Trace.forall_iff {I : σ → Prop} {ok : σ → α → Prop} (h : Trace next init tr s)
    (h0 : I init) (hs : ∀ s a s', Reachable next anyStep init s → I s → next s a = some s' →
      (I s' ↔ ok s a)) :
    (∀ t ∈ tr, I t.dst) ↔ ∀ t ∈ tr, ok t.src t.act := by
  have hboth : ((∀ t ∈ tr, I t.dst) ↔ ∀ t ∈ tr, ok t.src t.act) ∧ ((∀ t ∈ tr, I t.dst) → I s) := by
    induction h with
    | nil => exact ⟨by simp, fun _ => h0⟩
    | snoc a hr hn ih =>
      obtain ⟨hiff, hlast⟩ := ih
      simp only [List.forall_mem_append, List.forall_mem_singleton]
      refine ⟨?_, And.right⟩
      constructor
      · rintro ⟨hall, hI⟩
        exact ⟨hiff.mp hall, (hs _ a _ hr.reachable (hlast hall) hn).mp hI⟩
      · rintro ⟨hall, hok⟩
        have hall := hiff.mpr hall
        exact ⟨hall, (hs _ a _ hr.reachable (hlast hall) hn).mpr hok⟩
  exact hboth.1

end

/-! ## Running a list of actions -/

/-- Run a list of actions, each of which must be enabled and pass `ok`. -/
def run (next : σ → α → Option σ) (ok : σ → α → Prop) [∀ s a, Decidable (ok s a)] :
    σ → List α → Option σ
  | s, [] => some s
  | s, a :: as => if ok s a then (next s a).bind fun s' => run next ok s' as else none

instance (s : σ) (a : α) : Decidable (anyStep s a) := inferInstanceAs (Decidable True)

variable {next : σ → α → Option σ} {ok : σ → α → Prop} [∀ s a, Decidable (ok s a)] {init : σ}

theorem Reachable.run {s s' : σ} (h : Reachable next ok init s) {as : List α}
    (hr : run next ok s as = some s') : Reachable next ok init s' := by
  induction as generalizing s with
  | nil =>
    cases hr
    exact h
  | cons a as ih =>
    simp only [Runs.run] at hr
    split at hr
    · rename_i hok
      obtain ⟨s₁, hn, hr'⟩ := Option.bind_eq_some_iff.mp hr
      exact ih (h.step a hok hn) hr'
    · cases hr

/-- The steps a run of actions takes. -/
theorem Trace.run {s s' : σ} {tr : List (Taken σ α)} (h : Trace next init tr s) {as : List α}
    (hr : run next ok s as = some s') :
    ∃ tr', Trace next init (tr ++ tr') s' ∧ tr'.map Taken.act = as := by
  induction as generalizing s tr with
  | nil =>
    cases hr
    exact ⟨[], by simpa using h, rfl⟩
  | cons a as ih =>
    simp only [Runs.run] at hr
    split at hr
    · obtain ⟨s₁, hn, hr'⟩ := Option.bind_eq_some_iff.mp hr
      obtain ⟨tr', htr, hact⟩ := ih (h.snoc a hn) hr'
      refine ⟨⟨s, a, s₁⟩ :: tr', ?_, ?_⟩
      · simpa using htr
      · simp [hact]
    · cases hr

/-- A run of actions that can be computed is a run. -/
theorem exists_trace {as : List α} (h : (run next ok init as).isSome = true) :
    ∃ tr s, Trace next init tr s ∧ tr.map Taken.act = as := by
  obtain ⟨s, hs⟩ := Option.isSome_iff_exists.mp h
  obtain ⟨tr, htr, hact⟩ := Trace.nil.run hs
  exact ⟨tr, s, by simpa using htr, hact⟩

/-- A computed run reaches a state with a property that can be computed there. -/
theorem exists_reachable {as : List α} {p : σ → Bool}
    (h : (run next ok init as).map p = some true) :
    ∃ s, Reachable next ok init s ∧ p s = true := by
  obtain ⟨s, hs, hp⟩ := Option.map_eq_some_iff.mp h
  exact ⟨s, Reachable.init.run hs, hp⟩

/-- A computed run and one step more. -/
theorem exists_step {as : List α} {a : α} {p : σ → σ → Bool}
    (h : ((run next ok init as).bind fun s => (next s a).map fun s' => p s s') = some true) :
    ∃ s s', Reachable next ok init s ∧ next s a = some s' ∧ p s s' = true := by
  obtain ⟨s, hs, hp⟩ := Option.bind_eq_some_iff.mp h
  obtain ⟨s', hn, hp⟩ := Option.map_eq_some_iff.mp hp
  exact ⟨s, s', Reachable.init.run hs, hn, hp⟩

end Runs
