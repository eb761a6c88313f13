import Mathlib

/-!
# Slots — generation tokens

Each key has a slot that holds at most one entry. Entries have fresh ids;
vacating a slot raises its generation. An operation that saw entry `e` in a
slot of generation `g` keeps the pair as a token: as long as the generation
has not moved, the slot still holds `e`, and once it has moved, `e` is gone
for good, whatever has been put there since.
-/

structure Slots (κ : Type) where
  cur : κ → Option Nat
  gen : κ → Nat
  fresh : Nat

namespace Slots

variable {κ : Type} {s s' : Slots κ} {k k' : κ} {e g : Nat}

/-- Every id in a slot is one already given out, and in that slot only. -/
structure WellFormed (s : Slots κ) : Prop where
  old : ∀ k e, s.cur k = some e → e < s.fresh
  inj : ∀ k k' e, s.cur k = some e → s.cur k' = some e → k = k'

/-- `e` was in the slot of `k`, and never in another, at generation `g`. -/
structure Token (s : Slots κ) (k : κ) (e g : Nat) : Prop where
  old : e < s.fresh
  le : g ≤ s.gen k
  current : s.cur k = some e ↔ s.gen k = g
  home : ∀ k', s.cur k' = some e → k' = k

/-- Reading a full slot gives a token. -/
theorem WellFormed.token (h : s.WellFormed) (he : s.cur k = some e) : s.Token k e (s.gen k) :=
  ⟨h.old k e he, Nat.le_refl _, by simp [he], fun k' he' => h.inj k' k e he' he⟩

/-- An entry whose token is stale is in no slot. -/
theorem Token.gone (h : s.Token k e g) (hg : s.gen k ≠ g) (k' : κ) : s.cur k' ≠ some e := by
  intro he
  obtain rfl := h.home k' he
  exact hg (h.current.mp he)

/-- What is in the slot is the token's entry exactly when the generation is
the token's. -/
theorem Token.owns_iff (h : s.Token k e g) {e' : Nat} (he : s.cur k = some e') :
    e' = e ↔ s.gen k = g := by
  rw [← h.current, he]
  simp

variable [DecidableEq κ]

/-! ## Steps -/

/-- Put the next fresh entry into a slot. -/
def fill (s : Slots κ) (k : κ) : Slots κ :=
  { s with cur := Function.update s.cur k (some s.fresh), fresh := s.fresh + 1 }

/-- Empty a slot and raise its generation, whether or not it held anything. -/
def vacate (s : Slots κ) (k : κ) : Slots κ :=
  { s with cur := Function.update s.cur k none, gen := Function.update s.gen k (s.gen k + 1) }

inductive Step (s : Slots κ) : Slots κ → Prop
  | stay : Step s s
  | fill (k : κ) (h : s.cur k = none) : Step s (s.fill k)
  | vacate (k : κ) : Step s (s.vacate k)

/-! ## Every step keeps ids and tokens -/

theorem WellFormed.fill (h : s.WellFormed) (k : κ) : (s.fill k).WellFormed := by
  have old : ∀ k' e, (s.fill k).cur k' = some e → k' = k ∧ e = s.fresh ∨ e < s.fresh := by
    intro k' e he
    by_cases hk : k' = k
    · subst hk
      have : s.fresh = e := by simpa [Slots.fill] using he
      exact .inl ⟨rfl, this.symm⟩
    · exact .inr (h.old k' e (by simpa [Slots.fill, hk] using he))
  refine ⟨?_, ?_⟩
  · intro k' e he
    show e < s.fresh + 1
    rcases old k' e he with ⟨-, rfl⟩ | hlt <;> omega
  · intro k₁ k₂ e h₁ h₂
    rcases old k₁ e h₁ with ⟨rfl, rfl⟩ | hlt₁
    · rcases old k₂ _ h₂ with ⟨rfl, -⟩ | hlt₂
      · rfl
      · omega
    · rcases old k₂ e h₂ with ⟨rfl, rfl⟩ | hlt₂
      · omega
      · have ne : ∀ k', (s.fill k).cur k' = some e → s.cur k' = some e := by
          intro k' he
          by_cases hk : k' = k
          · subst hk
            have : s.fresh = e := by simpa [Slots.fill] using he
            omega
          · simpa [Slots.fill, hk] using he
        exact h.inj k₁ k₂ e (ne k₁ h₁) (ne k₂ h₂)

theorem WellFormed.vacate (h : s.WellFormed) (k : κ) : (s.vacate k).WellFormed := by
  have sub : ∀ k' e, (s.vacate k).cur k' = some e → s.cur k' = some e := by
    intro k' e he
    by_cases hk : k' = k
    · subst hk
      simp [Slots.vacate] at he
    · simpa [Slots.vacate, hk] using he
  refine ⟨fun k' e he => h.old k' e (sub k' e he), ?_⟩
  intro k₁ k₂ e h₁ h₂
  exact h.inj k₁ k₂ e (sub k₁ e h₁) (sub k₂ e h₂)

theorem Step.wellFormed (hs : Step s s') (h : s.WellFormed) : s'.WellFormed := by
  cases hs with
  | stay => exact h
  | fill k _ => exact h.fill k
  | vacate k => exact h.vacate k

theorem Step.fresh_le (hs : Step s s') : s.fresh ≤ s'.fresh := by
  cases hs with
  | stay => exact Nat.le_refl _
  | fill k _ => exact Nat.le_succ _
  | vacate k => exact Nat.le_refl _

/-- Filling a slot gives a token for the new entry. -/
theorem WellFormed.token_fill (h : s.WellFormed) (k : κ) :
    (s.fill k).Token k s.fresh (s.gen k) := by
  refine ⟨?_, Nat.le_refl _, ?_, ?_⟩
  · show s.fresh < s.fresh + 1
    omega
  · simp [Slots.fill]
  · intro k' he
    by_contra hk
    exact Nat.lt_irrefl _ (h.old k' s.fresh (by simpa [Slots.fill, hk] using he))

theorem Step.gen_le (hs : Step s s') (k : κ) : s.gen k ≤ s'.gen k := by
  cases hs with
  | stay => exact Nat.le_refl _
  | fill => exact Nat.le_refl _
  | vacate k' =>
    by_cases hk : k = k'
    · simp [Slots.vacate, hk]
    · simp [Slots.vacate, hk]

/-- Old entries do not come back into a slot. -/
theorem Step.back (hs : Step s s') (he : s'.cur k = some e) (hold : e < s.fresh) :
    s.cur k = some e := by
  cases hs with
  | stay => exact he
  | fill k' _ =>
    by_cases hk : k = k'
    · subst hk
      have hfresh : s.fresh = e := by simpa [Slots.fill] using he
      omega
    · simpa [Slots.fill, hk] using he
  | vacate k' =>
    by_cases hk : k = k'
    · simp [Slots.vacate, hk] at he
    · simpa [Slots.vacate, hk] using he

/-- No step of any operation spoils a token. -/
theorem Token.step (h : s.Token k e g) (hs : Step s s') : s'.Token k e g := by
  obtain ⟨hold, hle, hcur, hhome⟩ := h
  cases hs with
  | stay => exact ⟨hold, hle, hcur, hhome⟩
  | fill k' hk' =>
    refine ⟨?_, hle, ?_, ?_⟩
    · show e < s.fresh + 1
      omega
    · by_cases hk : k = k'
      · subst hk
        have hne : s.gen k ≠ g := by
          intro hg
          simp [hk'] at hcur
          exact hcur hg
        have hfresh : s.fresh ≠ e := by omega
        simp [fill, hfresh, hne]
      · simpa [fill, hk] using hcur
    · intro k'' he
      by_cases hk : k'' = k'
      · subst hk
        have hfresh : s.fresh = e := by simpa [fill] using he
        omega
      · exact hhome k'' (by simpa [fill, hk] using he)
  | vacate k' =>
    have hhome' : ∀ k'', (s.vacate k').cur k'' = some e → k'' = k := by
      intro k'' he
      by_cases hk : k'' = k'
      · subst hk
        simp [vacate] at he
      · exact hhome k'' (by simpa [vacate, hk] using he)
    by_cases hk : k = k'
    · subst hk
      refine ⟨hold, ?_, ?_, hhome'⟩
      · show g ≤ Function.update s.gen k (s.gen k + 1) k
        simp
        omega
      · simp [vacate]
        omega
    · exact ⟨hold, by simpa [vacate, hk] using hle, by simpa [vacate, hk] using hcur, hhome'⟩

end Slots
