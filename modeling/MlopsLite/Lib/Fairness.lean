import MlopsLite.Lib.Interleaving

/-!
# Fairness — infinite runs of interleaved threads

A behaviour is an infinite run; at each instant one thread takes a section,
or nothing happens. A section that leaves its thread at the same control
point is a wait. A thread is treated fairly if it moves on again and again
whenever it can move on again and again: then one whose moves descend in a
well-founded order comes to a stop, and where it stops it can no longer
move.
-/

namespace Interleaving

variable {ι σ κ χ : Type} [DecidableEq ι]

structure Behaviour (advance : Program ι σ κ χ) (init : State ι σ κ) where
  state : ℕ → State ι σ κ
  act : ℕ → Option (ι × χ)
  start : state 0 = init
  step : ∀ i a, act i = some a → next advance (state i) a = some (state (i + 1))
  stay : ∀ i, act i = none → state (i + 1) = state i

/-- Thread `u` has a section that takes it to another control point. -/
def CanMove (advance : Program ι σ κ χ) (u : ι) (s : State ι σ κ) : Prop :=
  ∃ c x k, advance u c s.shared (s.pc u) = some (x, k) ∧ k ≠ s.pc u

namespace Behaviour

variable {advance : Program ι σ κ χ} {init : State ι σ κ} (b : Behaviour advance init) {u : ι}

/-- Thread `u` moves on at instant `i`. -/
def Moves (u : ι) (i : ℕ) : Prop := (b.state (i + 1)).pc u ≠ (b.state i).pc u

/-- Able to move on again and again, it does. -/
def Fair (u : ι) : Prop :=
  (∀ i, ∃ j ≥ i, CanMove advance u (b.state j)) → ∀ i, ∃ j ≥ i, b.Moves u j

theorem reachable (i : ℕ) : Runs.Reachable (next advance) Runs.anyStep init (b.state i) := by
  induction i with
  | zero =>
    rw [b.start]
    exact .init
  | succ i ih =>
    cases ha : b.act i with
    | none =>
      rw [b.stay i ha]
      exact ih
    | some a => exact .step a ih trivial (b.step i a ha)

/-- What moves a thread on is a section of its own. -/
theorem section_of_moves {i : ℕ} (h : b.Moves u i) :
    ∃ c, advance u c (b.state i).shared ((b.state i).pc u) =
      some ((b.state (i + 1)).shared, (b.state (i + 1)).pc u) := by
  cases ha : b.act i with
  | none => exact absurd (by rw [b.stay i ha]) h
  | some a =>
    obtain ⟨t, c⟩ := a
    obtain ⟨hsection, hothers⟩ := of_next (b.step i _ ha)
    by_cases hu : u = t
    · subst hu
      exact ⟨c, hsection⟩
    · exact absurd (hothers u hu) h

/-- A thread whose moves descend comes to a stop, unable to move. -/
theorem Fair.settles {W : Type} [Preorder W] [WellFoundedLT W] {b : Behaviour advance init}
    (hfair : b.Fair u) (rank : κ → W) {i : ℕ}
    (hrank : ∀ j ≥ i, b.Moves u j →
      rank ((b.state (j + 1)).pc u) < rank ((b.state j).pc u)) :
    ∃ j ≥ i, ∀ k ≥ j, (b.state k).pc u = (b.state j).pc u ∧ ¬ CanMove advance u (b.state k) := by
  -- the instant where the rank is least
  obtain ⟨w, ⟨j, hj, rfl⟩, hmin⟩ := WellFounded.has_min (wellFounded_lt (α := W))
    {w | ∃ j ≥ i, rank ((b.state j).pc u) = w} ⟨_, i, le_rfl, rfl⟩
  have hstays : ∀ k ≥ j, (b.state k).pc u = (b.state j).pc u := by
    intro k hk
    induction k, hk using Nat.le_induction with
    | base => rfl
    | succ k hk ih =>
      by_contra hne
      have hmoves : b.Moves u k := fun heq => hne (heq.trans ih)
      have hlt := hrank k (hj.trans hk) hmoves
      rw [ih] at hlt
      exact hmin _ ⟨k + 1, by omega, rfl⟩ hlt
  have hstops : ∃ n, ∀ k ≥ n, ¬ CanMove advance u (b.state k) := by
    by_contra hable
    push Not at hable
    obtain ⟨k, hk, hmoves⟩ := hfair hable j
    exact hmoves ((hstays (k + 1) (by omega)).trans (hstays k hk).symm)
  obtain ⟨n, hn⟩ := hstops
  refine ⟨max j n, by omega, fun k hk => ⟨?_, hn k (by omega)⟩⟩
  rw [hstays k (by omega), hstays (max j n) (by omega)]

/-- While a guarded flag stays up its holder stays inside. -/
theorem holder_stays {flag : σ → Prop} {inside : κ → Prop} {i : ℕ}
    (hg : ∀ j, Guarded flag inside (b.state j))
    (hsections : ∀ t c x k y l, advance t c x k = some (y, l) → Guards flag inside x k y l)
    (hup : ∀ j ≥ i, flag (b.state j).shared) :
    ∃ t, ∀ j ≥ i, inside ((b.state j).pc t) := by
  obtain ⟨t, ht⟩ := (hg i).held (hup i le_rfl)
  refine ⟨t, fun j hj => ?_⟩
  induction j, hj using Nat.le_induction with
  | base => exact ht
  | succ j hj ih =>
    by_cases hmoves : b.Moves t j
    · obtain ⟨c, hc⟩ := b.section_of_moves hmoves
      rcases hsections t c _ _ _ _ hc with ⟨hsame, -⟩ | ⟨hdown, -⟩ | ⟨-, -, hdown⟩
      · exact hsame.mpr ih
      · exact absurd (hup j hj) hdown
      · exact absurd (hup (j + 1) (by omega)) hdown
    · rwa [not_not.mp hmoves]

end Behaviour

end Interleaving
