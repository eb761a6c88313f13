import Mathlib

/-!
# Rounding — to a number of decimals

`roundHalfEven` takes the nearest integer, a tie to the even one;
`roundTo d` does it at `d` decimals. Both in exact arithmetic.
-/

namespace Rounding

/-- The nearest integer, ties to even. -/
def roundHalfEven (x : ℚ) : ℤ :=
  if Int.fract x < 1 / 2 then ⌊x⌋
  else if 1 / 2 < Int.fract x then ⌊x⌋ + 1
  else if ⌊x⌋ % 2 = 0 then ⌊x⌋ else ⌊x⌋ + 1

/-- `round(x, d)`. -/
def roundTo (d : ℕ) (x : ℚ) : ℚ := roundHalfEven (x * 10 ^ d) / 10 ^ d

theorem floor_le_roundHalfEven (x : ℚ) : ⌊x⌋ ≤ roundHalfEven x := by
  unfold roundHalfEven
  split_ifs <;> omega

@[simp] theorem roundHalfEven_intCast (n : ℤ) : roundHalfEven n = n := by
  simp [roundHalfEven]

theorem roundTo_nonneg {d : ℕ} {x : ℚ} (h : 0 ≤ x) : 0 ≤ roundTo d x := by
  have hscaled : 0 ≤ x * 10 ^ d := by positivity
  have hfloor : (0 : ℤ) ≤ ⌊x * 10 ^ d⌋ := Int.floor_nonneg.mpr hscaled
  have hround : (0 : ℤ) ≤ roundHalfEven (x * 10 ^ d) := hfloor.trans (floor_le_roundHalfEven _)
  exact div_nonneg (by exact_mod_cast hround) (by positivity)

end Rounding
