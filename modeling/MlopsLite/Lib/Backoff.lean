import Mathlib

/-!
# Backoff — doubling delays with a cap

`delay` is `min(cap, base * 2 ** k)` with a float base: the power is an int,
and turning it into a float raises from `2 ** 1024` on, before the cap is taken.
Up to there the float product is the exact one, or an infinity that is above
any finite cap.
-/

namespace Backoff

/-- The settings: finite floats, and no base below zero. -/
structure Pace where
  base : ℚ
  cap : ℚ
  base_nonneg : 0 ≤ base

/-- `float(2 ** k)`; `none` is the `OverflowError`. -/
def floatPow (k : ℕ) : Option ℚ := if k < 1024 then some (2 ^ k) else none

def delay (base cap : ℚ) (k : ℕ) : Option ℚ := (floatPow k).map fun power => min cap (base * power)

/-- Up to a number of failures the delays do not raise, do not go down and keep
to the cap. -/
def Paced (backoff : ℕ → Option ℚ) (cap : ℚ) (n : ℕ) : Prop :=
  ∃ d, backoff n = some d ∧ d ≤ cap ∧ ∀ m ≤ n, ∃ d', backoff m = some d' ∧ d' ≤ d

variable {p : Pace} {backoff exponent : ℕ → ℕ} {n k : ℕ} {base cap : ℚ}

theorem delay_of_lt (base cap : ℚ) (h : k < 1024) :
    delay base cap k = some (min cap (base * 2 ^ k)) := by
  rw [delay, floatPow, if_pos h]
  rfl

theorem delay_of_le (base cap : ℚ) (h : 1024 ≤ k) : delay base cap k = none := by
  rw [delay, floatPow, if_neg (by omega)]
  rfl

/-- Delays whose exponents do not go down are fine while the exponent is small. -/
theorem paced_iff (p : Pace) (hmono : Monotone exponent) :
    Paced (fun n => delay p.base p.cap (exponent n)) p.cap n ↔ exponent n < 1024 := by
  constructor
  · rintro ⟨d, hd, -⟩
    by_contra hover
    have hd : delay p.base p.cap (exponent n) = some d := hd
    rw [delay_of_le _ _ (by omega)] at hd
    cases hd
  · intro hlt
    refine ⟨_, delay_of_lt _ _ hlt, min_le_left _ _, fun m hm => ?_⟩
    have hle : exponent m ≤ exponent n := hmono hm
    refine ⟨_, delay_of_lt _ _ (by omega), min_le_min_left _ ?_⟩
    exact mul_le_mul_of_nonneg_left (pow_le_pow_right₀ one_le_two hle) p.base_nonneg

end Backoff
