import MlopsLite.Lib.Rounding

/-!
# Floats — numbers with the special values

A `Number` is not-a-number, an infinity or a finite number. Finite arithmetic is
exact; the special cases are the ones of IEEE 754, so a comparison with `nan`
is false.
-/

inductive Number
  | nan
  | inf (negative : Bool)
  | fin (q : ℚ)
  deriving DecidableEq, Repr

namespace Number

instance : Inhabited Number := ⟨.nan⟩

instance : Neg Number where
  neg
    | .nan => .nan
    | .inf s => .inf !s
    | .fin q => .fin (-q)

instance : Add Number where
  add
    | .nan, _ => .nan
    | _, .nan => .nan
    | .inf s, .inf t => if s = t then .inf s else .nan
    | .inf s, .fin _ => .inf s
    | .fin _, .inf t => .inf t
    | .fin a, .fin b => .fin (a + b)

instance : Sub Number := ⟨fun a b => a + -b⟩

/-- An infinity times a number of the given sign. -/
def infTimes (s : Bool) (q : ℚ) : Number :=
  if q = 0 then .nan else .inf (s ^^ decide (q < 0))

instance : Mul Number where
  mul
    | .nan, _ => .nan
    | _, .nan => .nan
    | .inf s, .inf t => .inf (s ^^ t)
    | .inf s, .fin q => infTimes s q
    | .fin q, .inf t => infTimes t q
    | .fin a, .fin b => .fin (a * b)

def abs : Number → Number
  | .nan => .nan
  | .inf _ => .inf false
  | .fin q => .fin |q|

/-- `<`. -/
def lt : Number → Number → Bool
  | .nan, _ => false
  | _, .nan => false
  | .inf s, .inf t => s && !t
  | .inf s, .fin _ => s
  | .fin _, .inf t => !t
  | .fin a, .fin b => decide (a < b)

/-- `<=`. -/
def le : Number → Number → Bool
  | .nan, _ => false
  | _, .nan => false
  | .inf s, .inf t => s || !t
  | .inf s, .fin _ => s
  | .fin _, .inf t => !t
  | .fin a, .fin b => decide (a ≤ b)

/-- `==`; no `nan` is equal to anything. -/
def eq : Number → Number → Bool
  | .nan, _ => false
  | x, y => decide (x = y)

/-- `round(x, d)`; an infinity or `nan` is returned as it is. -/
def round (d : ℕ) : Number → Number
  | .fin q => .fin (Rounding.roundTo d q)
  | x => x

/-! ## A number and a margin that is not negative -/

theorem margin_nonneg {t : Number} (x : Number) (h : t.lt (fin 0) = false) :
    (t * x.abs).lt (fin 0) = false := by
  cases t with
  | nan => rfl
  | inf s =>
    have hs : s = false := h
    subst hs
    cases x with
    | nan => rfl
    | inf _ => rfl
    | fin x =>
      show (infTimes false |x|).lt (fin 0) = false
      by_cases h0 : |x| = 0
      · rw [infTimes, if_pos h0]
        rfl
      · simp [infTimes, h0, not_lt.mpr (abs_nonneg x), lt]
  | fin q =>
    have hq : 0 ≤ q := by simpa [lt] using h
    cases x with
    | nan => rfl
    | inf _ =>
      show (infTimes false q).lt (fin 0) = false
      by_cases h0 : q = 0
      · rw [infTimes, if_pos h0]
        rfl
      · simp [infTimes, h0, not_lt.mpr hq, lt]
    | fin x =>
      show decide (q * |x| < 0) = false
      simpa using mul_nonneg hq (abs_nonneg x)

theorem not_lt_sub (x : Number) {m : Number} (h : m.lt (fin 0) = false) :
    x.lt (x - m) = false := by
  cases m with
  | nan => cases x <;> rfl
  | inf s =>
    have hs : s = false := h
    subst hs
    cases x with
    | inf s => cases s <;> rfl
    | nan | fin _ => rfl
  | fin q =>
    cases x with
    | nan => rfl
    | inf s => cases s <;> rfl
    | fin x =>
      have hq : 0 ≤ q := by simpa [lt] using h
      show decide (x < x + -q) = false
      simpa using hq

theorem not_add_lt (x : Number) {m : Number} (h : m.lt (fin 0) = false) :
    (x + m).lt x = false := by
  cases m with
  | nan => cases x <;> rfl
  | inf s =>
    have hs : s = false := h
    subst hs
    cases x with
    | inf s => cases s <;> rfl
    | nan | fin _ => rfl
  | fin q =>
    cases x with
    | nan => rfl
    | inf s => cases s <;> rfl
    | fin x =>
      have hq : 0 ≤ q := by simpa [lt] using h
      show decide (x + q < x) = false
      simpa using hq

/-! ## Numbers that are not `nan` -/

variable {x y : Number}

theorem lt_of_nan (h : x = nan ∨ y = nan) : x.lt y = false := by
  rcases h with rfl | rfl
  · rfl
  · cases x <;> rfl

theorem le_of_nan (h : x = nan ∨ y = nan) : x.le y = false := by
  rcases h with rfl | rfl
  · rfl
  · cases x <;> rfl

theorem le_eq_not_lt (hx : x ≠ nan) (hy : y ≠ nan) : x.le y = !y.lt x := by
  cases x with
  | nan => exact absurd rfl hx
  | inf s =>
    cases y with
    | nan => exact absurd rfl hy
    | inf t => cases s <;> cases t <;> rfl
    | fin q => cases s <;> rfl
  | fin q =>
    cases y with
    | nan => exact absurd rfl hy
    | inf t => cases t <;> rfl
    | fin r => exact (decide_eq_decide.mpr not_lt.symm).trans (decide_not ..)

/-- Of two different numbers one is lower. -/
theorem lt_or_lt (hx : x ≠ nan) (hy : y ≠ nan) (hne : x ≠ y) : x.lt y = !y.lt x := by
  cases x with
  | nan => exact absurd rfl hx
  | inf s =>
    cases y with
    | nan => exact absurd rfl hy
    | inf t => cases s <;> cases t <;> first | rfl | exact absurd rfl hne
    | fin q => cases s <;> rfl
  | fin q =>
    cases y with
    | nan => exact absurd rfl hy
    | inf t => cases t <;> rfl
    | fin r =>
      have hqr : q ≠ r := fun h => hne (h ▸ rfl)
      show decide (q < r) = !decide (r < q)
      rcases lt_or_gt_of_ne hqr with h | h
      · simp [h, h.le]
      · simp [h, h.le]

theorem lt_trans {z : Number} (h : x.lt y = true) (h' : y.lt z = true) : x.lt z = true := by
  cases x with
  | nan => cases h
  | inf s =>
    cases y with
    | nan => cases h
    | inf t => cases z <;> cases s <;> cases t <;> simp_all [lt]
    | fin q => cases z <;> cases s <;> simp_all [lt]
  | fin q =>
    cases y with
    | nan => cases h
    | inf t => cases z <;> cases t <;> simp_all [lt]
    | fin r =>
      cases z with
      | nan => cases h'
      | inf t => exact h'
      | fin u =>
        have hqr : q < r := of_decide_eq_true h
        have hru : r < u := of_decide_eq_true h'
        exact decide_eq_true (hqr.trans hru)

@[simp] theorem lt_self (x : Number) : x.lt x = false := by
  cases x with
  | nan => rfl
  | inf s => cases s <;> rfl
  | fin q => simp [lt]

theorem not_lt_trans {z : Number} (hx : x ≠ nan) (hy : y ≠ nan) (h : x.lt y = false)
    (h' : y.lt z = false) : x.lt z = false := by
  by_cases hxy : x = y
  · rw [hxy, h']
  · have hyx : y.lt x = true := by rw [lt_or_lt hy hx (Ne.symm hxy), h]; rfl
    refine Bool.eq_false_iff.mpr fun hxz => ?_
    rw [lt_trans hyx hxz] at h'
    cases h'

theorem eq_iff (hx : x ≠ nan) : x.eq y = true ↔ x = y := by
  cases x with
  | nan => exact absurd rfl hx
  | inf s => exact decide_eq_true_iff
  | fin q => exact decide_eq_true_iff

/-! ## Bounds on finite numbers -/

theorem fin_le_mono {p q : ℚ} {t : Number} (h : p ≤ q) (hq : (fin q).le t = true) :
    (fin p).le t = true := by
  cases t with
  | nan => cases hq
  | inf s => exact hq
  | fin r => exact decide_eq_true (h.trans (of_decide_eq_true hq))

theorem le_fin_mono {p q : ℚ} {t : Number} (h : p ≤ q) (hp : t.le (fin p) = true) :
    t.le (fin q) = true := by
  cases t with
  | nan => cases hp
  | inf s => exact hp
  | fin r => exact decide_eq_true ((of_decide_eq_true hp).trans h)

/-- The greatest of some numbers, or 0, is under a bound exactly if all of them are. -/
theorem fin_max_le_iff (xs : List ℚ) (t : Number) :
    (fin (xs.max?.getD 0)).le t = true ↔
      (xs = [] → (fin 0).le t = true) ∧ ∀ x ∈ xs, (fin x).le t = true := by
  cases hmax : xs.max? with
  | none => simp [List.max?_eq_none_iff.mp hmax]
  | some m =>
    obtain ⟨hmem, habove⟩ := List.max?_eq_some_iff.mp hmax
    rw [Option.getD_some]
    constructor
    · intro hm
      refine ⟨fun hnil => ?_, fun x hx => fin_le_mono (habove x hx) hm⟩
      rw [hnil] at hmem
      cases hmem
    · intro h
      exact h.2 m hmem

end Number
