import Mathlib

/-!
# Midranks — ranks with ties

`score x y` is what `x` gets against `y`: one if it is higher, half if they
tie. `wins` adds that up over two lists. The rank of a value, tied values
sharing the mean of their places, is its score against the whole list and a
half; the ranks of one part of a list are therefore its wins over the other
part and a number that depends on the lengths alone.
-/

namespace Midranks

variable {σ : Type} [LinearOrder σ]

def score (x y : σ) : ℚ := if y < x then 1 else if y = x then 1 / 2 else 0

def wins (l r : List σ) : ℚ := (l.map fun x => (r.map (score x)).sum).sum

/-- The place of a value in the order, from 1, the mean one where it ties. -/
def midrank (l : List σ) (x : σ) : ℚ :=
  (l.countP fun y => decide (y < x)) + ((l.countP fun y => decide (y = x)) + 1) / 2

variable {l l' r r' : List σ} {x y : σ}

theorem score_add_score (x y : σ) : score x y + score y x = 1 := by
  rcases lt_trichotomy x y with h | h | h
  · simp [score, h, h.not_gt, h.ne']
  · subst h
    norm_num [score]
  · simp [score, h, h.not_gt, h.ne']

theorem score_nonneg (x y : σ) : 0 ≤ score x y := by
  unfold score
  split
  · norm_num
  · split <;> norm_num

/-- A map that turns the order around turns the score around. -/
theorem score_anti {f : σ → σ} (hf : StrictAnti f) (x y : σ) : score (f x) (f y) = score y x := by
  rcases lt_trichotomy x y with h | h | h
  · simp [score, h, hf h]
  · subst h
    simp [score]
  · simp [score, h.not_gt, (hf h).not_gt, h.ne', (hf h).ne']

theorem midrank_eq (l : List σ) (x : σ) : midrank l x = (l.map (score x)).sum + 1 / 2 := by
  induction l with
  | nil => norm_num [midrank]
  | cons y l ih =>
    have hstep : midrank (y :: l) x = score x y + midrank l x := by
      rw [midrank, midrank, List.countP_cons, List.countP_cons, score]
      rcases lt_trichotomy y x with h | h | h
      · simp [h, h.ne]
        ring
      · simp [h]
        ring
      · simp [h.not_gt, h.ne']
    rw [hstep, ih, List.map_cons, List.sum_cons]
    ring

theorem midrank_perm (h : l.Perm l') (x : σ) : midrank l x = midrank l' x := by
  rw [midrank, midrank, h.countP_eq, h.countP_eq]

/-- Behind what is lower. -/
theorem midrank_append_of_lt (h : ∀ y ∈ l, y < x) : midrank (l ++ r) x = l.length + midrank r x := by
  have hless : (l.countP fun y => decide (y < x)) = l.length :=
    List.countP_eq_length.mpr fun y hy => decide_eq_true (h y hy)
  have hequal : (l.countP fun y => decide (y = x)) = 0 :=
    List.countP_eq_zero.mpr fun y hy => by simpa using (h y hy).ne
  rw [midrank, midrank, List.countP_append, List.countP_append, hless, hequal]
  push_cast
  ring

/-- Tied at the front. -/
theorem midrank_append_of_eq (hl : ∀ y ∈ l, y = x) (hr : ∀ y ∈ r, x < y) :
    midrank (l ++ r) x = (l.length + 1) / 2 := by
  have hless : ((l ++ r).countP fun y => decide (y < x)) = 0 := by
    refine List.countP_eq_zero.mpr fun y hy => ?_
    rcases List.mem_append.mp hy with hy | hy
    · simpa using (hl y hy).ge
    · simpa using (hr y hy).le
  have hequal : (l.countP fun y => decide (y = x)) = l.length :=
    List.countP_eq_length.mpr fun y hy => decide_eq_true (hl y hy)
  have hnone : (r.countP fun y => decide (y = x)) = 0 :=
    List.countP_eq_zero.mpr fun y hy => by simpa using (hr y hy).ne'
  rw [midrank, hless, List.countP_append, hequal, hnone]
  simp

/-! ## Wins -/

@[simp] theorem wins_nil_left (r : List σ) : wins [] r = 0 := rfl

theorem wins_cons_left (x : σ) (l r : List σ) :
    wins (x :: l) r = (r.map (score x)).sum + wins l r := rfl

theorem wins_cons_right (y : σ) (l r : List σ) :
    wins l (y :: r) = (l.map fun x => score x y).sum + wins l r := by
  rw [wins, wins, ← List.sum_map_add]
  rfl

theorem wins_perm (hl : l.Perm l') (hr : r.Perm r') : wins l r = wins l' r' := by
  have hinner : ∀ x : σ, (r.map (score x)).sum = (r'.map (score x)).sum := fun x =>
    (hr.map (score x)).sum_eq
  rw [wins, wins, (hl.map fun x => (r.map (score x)).sum).sum_eq]
  simp only [hinner]

theorem wins_append_right (l r r' : List σ) : wins l (r ++ r') = wins l r + wins l r' := by
  rw [wins, wins, wins, ← List.sum_map_add]
  simp only [List.map_append, List.sum_append]

theorem wins_add_wins (l r : List σ) : wins l r + wins r l = l.length * r.length := by
  induction l with
  | nil =>
    have hzero : ∀ r : List σ, wins r [] = 0 := fun r => by
      simp [wins]
    simp [hzero]
  | cons x l ih =>
    have hpair : (r.map (score x)).sum + (r.map fun y => score y x).sum = r.length := by
      rw [← List.sum_map_add]
      simp only [score_add_score]
      simp
    rw [wins_cons_left, wins_cons_right, List.length_cons]
    push_cast
    linear_combination hpair + ih

theorem wins_self (l : List σ) : wins l l = l.length ^ 2 / 2 := by
  have h := wins_add_wins l l
  linear_combination h / 2

theorem wins_nonneg (l r : List σ) : 0 ≤ wins l r := by
  refine List.sum_nonneg fun s hs => ?_
  obtain ⟨x, -, rfl⟩ := List.mem_map.mp hs
  refine List.sum_nonneg fun s hs => ?_
  obtain ⟨y, -, rfl⟩ := List.mem_map.mp hs
  exact score_nonneg x y

theorem wins_le (l r : List σ) : wins l r ≤ l.length * r.length := by
  have h := wins_add_wins l r
  have hnonneg := wins_nonneg r l
  linarith

theorem wins_anti {f : σ → σ} (hf : StrictAnti f) (l r : List σ) :
    wins (l.map f) (r.map f) = l.length * r.length - wins l r := by
  have hflip : wins (l.map f) (r.map f) = wins r l := by
    induction l with
    | nil => simp [wins]
    | cons x l ih =>
      rw [List.map_cons, wins_cons_left, wins_cons_right, ih, List.map_map]
      congr 2
      exact List.map_congr_left fun y _ => score_anti hf x y
  have h := wins_add_wins l r
  rw [hflip]
  linarith

/-- The pairs that are higher, and half the pairs that tie. -/
theorem wins_eq_count (l r : List σ) : wins l r =
    ((l.product r).countP fun p => decide (p.2 < p.1)) +
      ((l.product r).countP fun p => decide (p.2 = p.1)) / 2 := by
  induction l with
  | nil =>
    have hnil : ([] : List σ).product r = [] := rfl
    simp [hnil]
  | cons x l ih =>
    have hrow : (r.map (score x)).sum = (r.countP fun y => decide (y < x)) +
        (r.countP fun y => decide (y = x)) / 2 := by
      have h := midrank_eq r x
      rw [midrank] at h
      linarith
    have hproduct : (x :: l).product r = r.map (Prod.mk x) ++ l.product r := rfl
    have hmap : ∀ p : σ × σ → Bool, (r.map (Prod.mk x)).countP p = r.countP fun y => p (x, y) :=
      fun p => List.countP_map ..
    rw [wins_cons_left, hrow, ih, hproduct, List.countP_append, List.countP_append, hmap, hmap]
    push_cast
    ring

/-- The ranks of one part of a list. -/
theorem sum_midrank (h : l.Perm (r ++ r')) :
    (r.map (midrank l)).sum = r.length * (r.length + 1) / 2 + wins r r' := by
  have hrank : ∀ x, midrank l x = ((r ++ r').map (score x)).sum + 1 / 2 := fun x => by
    rw [midrank_eq, (h.map (score x)).sum_eq]
  have hsum : (r.map (midrank l)).sum = wins r (r ++ r') + r.length / 2 := by
    rw [List.map_congr_left fun x _ => hrank x, List.sum_map_add, ← wins]
    simp
    ring
  rw [hsum, wins_append_right, wins_self]
  ring

end Midranks
