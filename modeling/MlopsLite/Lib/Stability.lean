import Mathlib

/-!
# Stability — the index of two distributions over bins

`term ε c r` is what a bin with the shares `c` and `r` adds to the population
stability index, the shares kept off zero by `ε`. No bin adds less than zero. A bin
that is left empty adds about its share times the logarithm of that share over `ε`;
`single` is the index where everything moves into the first of two bins.
-/

namespace Stability

noncomputable def term (ε c r : ℝ) : ℝ := (c - r) * Real.log ((c + ε) / (r + ε))

/-- The index where the current sample is all in the first of two bins and the
reference has a share of `s` in the second. -/
noncomputable def single (ε s : ℝ) : ℝ := term ε 1 (1 - s) + term ε 0 s

variable {ε δ c r s t a b threshold : ℝ}

@[simp] theorem term_self (ε r : ℝ) : term ε r r = 0 := by
  rw [term, sub_self, zero_mul]

/-- Difference and logarithm have one sign. -/
theorem term_nonneg (hε : 0 < ε) (hc : 0 ≤ c) (hr : 0 ≤ r) : 0 ≤ term ε c r := by
  have hcε : 0 < c + ε := by linarith
  have hrε : 0 < r + ε := by linarith
  rcases le_total r c with h | h
  · have hone : 1 ≤ (c + ε) / (r + ε) := (one_le_div hrε).mpr (by linarith)
    exact mul_nonneg (sub_nonneg.mpr h) (Real.log_nonneg hone)
  · have hone : (c + ε) / (r + ε) ≤ 1 := (div_le_one hrε).mpr (by linarith)
    exact mul_nonneg_of_nonpos_of_nonpos (sub_nonpos.mpr h)
      (Real.log_nonpos (div_nonneg hcε.le hrε.le) hone)

/-- A bin that is left empty. -/
theorem term_zero (hε : 0 < ε) (hr : 0 ≤ r) : term ε 0 r = r * Real.log ((r + ε) / ε) := by
  have hrε : 0 < r + ε := by linarith
  rw [term, zero_add, ← inv_div, Real.log_inv]
  ring

/-- It adds at least what a tangent does. -/
theorem le_term_zero (hε : 0 < ε) (hδ : 0 < δ) (hr : 0 ≤ r) :
    r * Real.log (δ / ε) - δ ≤ term ε 0 r := by
  rw [term_zero hε hr]
  rcases hr.eq_or_lt with rfl | hpos
  · simp only [zero_mul]
    linarith
  · have hlog : 1 - δ / r ≤ Real.log (r / δ) := by
      have h := Real.one_sub_inv_le_log_of_pos (div_pos hpos hδ)
      rwa [inv_div] at h
    have hmono : Real.log (r / ε) ≤ Real.log ((r + ε) / ε) :=
      Real.log_le_log (div_pos hpos hε) (by gcongr; linarith)
    have hsplit : Real.log (r / ε) = Real.log (r / δ) + Real.log (δ / ε) := by
      rw [← Real.log_mul (div_pos hpos hδ).ne' (div_pos hδ hε).ne', div_mul_div_cancel₀ hδ.ne']
    calc r * Real.log (δ / ε) - δ = r * (1 - δ / r + Real.log (δ / ε)) - r := by
          field_simp
          ring
      _ ≤ r * Real.log ((r + ε) / ε) := by
          have hle : 1 - δ / r + Real.log (δ / ε) ≤ Real.log ((r + ε) / ε) := by linarith
          have hmul := mul_le_mul_of_nonneg_left hle hr
          linarith

/-! ## Two bins -/

theorem single_eq (hε : 0 < ε) (hs : 0 ≤ s) : single ε s =
    s * (Real.log ((1 + ε) / (1 - s + ε)) + Real.log ((s + ε) / ε)) := by
  rw [single, term_zero hε hs, term]
  ring

theorem single_strictMonoOn (hε : 0 < ε) : StrictMonoOn (single ε) (Set.Icc 0 1) := by
  intro s hs t ht hst
  have htpos : 0 < t := hs.1.trans_lt hst
  have hleft : Real.log ((1 + ε) / (1 - s + ε)) ≤ Real.log ((1 + ε) / (1 - t + ε)) := by
    have hs' : 0 < 1 - s + ε := by linarith [hs.2]
    have ht' : 0 < 1 - t + ε := by linarith [ht.2]
    exact Real.log_le_log (div_pos (by linarith) hs')
      (div_le_div_of_nonneg_left (by linarith) ht' (by linarith))
  have hright : Real.log ((s + ε) / ε) ≤ Real.log ((t + ε) / ε) :=
    Real.log_le_log (div_pos (by linarith [hs.1]) hε) (by gcongr)
  have hpos : 0 < Real.log ((1 + ε) / (1 - t + ε)) + Real.log ((t + ε) / ε) := by
    have hone : 1 ≤ (1 + ε) / (1 - t + ε) :=
      (one_le_div (by linarith [ht.2])).mpr (by linarith)
    have hmore : 1 < (t + ε) / ε := (one_lt_div hε).mpr (by linarith)
    exact add_pos_of_nonneg_of_pos (Real.log_nonneg hone) (Real.log_pos hmore)
  rw [single_eq hε hs.1, single_eq hε htpos.le]
  calc s * (Real.log ((1 + ε) / (1 - s + ε)) + Real.log ((s + ε) / ε))
      ≤ s * (Real.log ((1 + ε) / (1 - t + ε)) + Real.log ((t + ε) / ε)) :=
        mul_le_mul_of_nonneg_left (add_le_add hleft hright) hs.1
    _ < t * (Real.log ((1 + ε) / (1 - t + ε)) + Real.log ((t + ε) / ε)) :=
        mul_lt_mul_of_pos_right hst hpos

theorem single_continuousOn (hε : 0 < ε) : ContinuousOn (single ε) (Set.Icc 0 1) := by
  have hsame : Set.EqOn (single ε)
      (fun s => s * (Real.log ((1 + ε) / (1 - s + ε)) + Real.log ((s + ε) / ε))) (Set.Icc 0 1) :=
    fun s hs => single_eq hε hs.1
  refine ContinuousOn.congr ?_ hsame
  refine continuousOn_id.mul (ContinuousOn.add ?_ ?_)
  · refine ContinuousOn.log (continuousOn_const.div (by fun_prop) fun s hs => ?_) fun s hs => ?_
    · linarith [hs.2]
    · have hpos : 0 < 1 - s + ε := by linarith [hs.2]
      exact (div_pos (by linarith) hpos).ne'
  · refine ContinuousOn.log (by fun_prop) fun s hs => ?_
    exact (div_pos (by linarith [hs.1]) hε).ne'

/-- Between a share that stays below a threshold and one that reaches it there is
the least one that does. -/
theorem exists_cut (hε : 0 < ε) (ha : 0 ≤ a) (hb : b ≤ 1) (hab : a ≤ b)
    (hlow : single ε a < threshold) (hhigh : threshold < single ε b) :
    ∃ s₀, a < s₀ ∧ s₀ < b ∧ ∀ s ∈ Set.Icc (0 : ℝ) 1, threshold ≤ single ε s ↔ s₀ ≤ s := by
  have hsub : Set.Icc a b ⊆ Set.Icc 0 1 := Set.Icc_subset_Icc ha hb
  obtain ⟨s₀, hs₀, hvalue⟩ := intermediate_value_Icc hab ((single_continuousOn hε).mono hsub)
    ⟨hlow.le, hhigh.le⟩
  have hmono := single_strictMonoOn hε
  refine ⟨s₀, ?_, ?_, fun s hs => ?_⟩
  · refine lt_of_le_of_ne hs₀.1 fun h => ?_
    rw [h, hvalue] at hlow
    exact lt_irrefl _ hlow
  · refine lt_of_le_of_ne hs₀.2 fun h => ?_
    rw [← h, hvalue] at hhigh
    exact lt_irrefl _ hhigh
  · rw [← hvalue, hmono.le_iff_le (hsub hs₀) hs]

end Stability
