import MlopsLite.Lib.Floats
import MlopsLite.Lib.JsonTokens

/-!
# Doubles — the numbers of a JSON text as binary64

`decimal` is what a text says, `nearest` the double next to it, a tie to the even
one; what is too large is an infinity. Zero has no sign.
-/

namespace Doubles

open JsonTokens (isNumber afterMinus)

/-- `2 ^ e`. -/
def pow2 : ℤ → ℚ
  | .ofNat n => 2 ^ n
  | .negSucc n => 1 / 2 ^ (n + 1)

/-- The exponent of the largest power of two up to a positive number. -/
def log2 (a : ℚ) : ℤ :=
  if 1 ≤ a then (Nat.log2 ⌊a⌋.toNat : ℤ) else -(Nat.log2 (⌈1 / a⌉.toNat - 1) + 1 : ℤ)

/-- The double next to a number: 53 binary digits, fewer below `2 ^ -1022`. -/
def nearest (q : ℚ) : Number :=
  if q = 0 then .fin 0
  else
    let unit := pow2 (max (log2 |q|) (-1022) - 52)
    let a := Rounding.roundHalfEven (|q| / unit) * unit
    if 2 ^ 1024 ≤ a then .inf (q < 0) else .fin (if q < 0 then -a else a)

/-- A double has it exactly. -/
def Exact (q : ℚ) : Prop := nearest q = .fin q

instance (q : ℚ) : Decidable (Exact q) := inferInstanceAs (Decidable (_ = _))

theorem exact_half : Exact (1 / 2) := by decide +kernel

/-- The number of a JSON number's text. -/
def decimal (s : List Char) : ℚ :=
  let plain := afterMinus s
  let mantissa := plain.takeWhile fun c => c ≠ 'e' ∧ c ≠ 'E'
  let exponent := (Texts.int? ((plain.dropWhile fun c => c ≠ 'e' ∧ c ≠ 'E').drop 1)).getD 0
  let whole := mantissa.takeWhile (· ≠ '.')
  let fraction := (mantissa.dropWhile (· ≠ '.')).drop 1
  let a := Nat.ofDigitChars 10 (whole ++ fraction) 0 * (10 : ℚ) ^ (exponent - fraction.length)
  if s.head? = some '-' then -a else a

/-- What `JSON.parse` makes of a word. -/
def read (s : List Char) : Option Number :=
  if isNumber s then some (nearest (decimal s)) else none

/-! ## Integers -/

theorem digits_append {ds rest : List Char} (hds : ∀ c ∈ ds, Texts.isDigit c = true)
    (hne : ds ≠ []) (hrest : ∀ c ∈ rest.head?, Texts.isDigit c = false) :
    JsonTokens.afterDigits (ds ++ rest) = some rest := by
  obtain ⟨d, ds, rfl⟩ := List.exists_cons_of_ne_nil hne
  have hdrop : rest.dropWhile Texts.isDigit = rest := by
    cases rest with
    | nil => rfl
    | cons c rest => exact List.dropWhile_cons_of_neg (by simp [hrest c (by simp)])
  rw [JsonTokens.afterDigits, List.cons_append, List.head?_cons]
  simp only [Option.any_some, hds d List.mem_cons_self, if_true]
  rw [← List.cons_append, List.dropWhile_append_of_pos hds, hdrop]

theorem head?_toDigits {n : ℕ} (hn : 0 < n) : (Nat.toDigits 10 n).head? ≠ some '0' := by
  induction n using Nat.strong_induction_on with
  | _ n ih =>
    by_cases hlt : n < 10
    · rw [Nat.toDigits_of_lt_base hlt]
      have hsmall : ∀ m < 10, 0 < m → [m.digitChar].head? ≠ some '0' := by decide
      exact hsmall n hlt hn
    · rw [Nat.toDigits_of_base_le (by omega) (by omega), List.head?_append_of_ne_nil]
      · exact ih (n / 10) (by omega) (by omega)
      · exact Nat.toDigits_ne_nil

/-- The digits of a number are JSON's whole part. -/
theorem afterInt_toDigits (n : ℕ) : JsonTokens.afterInt (Nat.toDigits 10 n) = some [] := by
  have hall : ∀ c ∈ Nat.toDigits 10 n, Texts.isDigit c = true :=
    fun c hc => Texts.isDigit_of_mem_toDigits hc
  rcases Nat.eq_zero_or_pos n with rfl | hpos
  · rw [Nat.toDigits_zero]
    rfl
  · have hhead := head?_toDigits hpos
    have hdigits : JsonTokens.afterDigits (Nat.toDigits 10 n ++ []) = some [] :=
      digits_append hall Nat.toDigits_ne_nil (by simp)
    rw [List.append_nil] at hdigits
    rw [JsonTokens.afterInt]
    · exact hdigits
    · intro s heq
      rw [heq] at hhead
      exact hhead rfl

theorem afterMinus_of_digits {s : List Char} (h : ∀ c ∈ s, Texts.isDigit c = true) :
    afterMinus s = s := by
  rw [afterMinus]
  intro t heq
  exact absurd (h '-' (by rw [heq]; exact List.mem_cons_self)) (by decide)

theorem isNumber_ofInt (z : ℤ) : isNumber (Texts.ofInt z) = true := by
  have hatom : ∀ n, (Nat.toDigits 10 n).all JsonTokens.atomChar = true := by
    intro n
    rw [List.all_eq_true]
    intro c hc
    simp [JsonTokens.atomChar, Texts.isDigit_of_mem_toDigits hc]
  cases z with
  | ofNat n =>
    have hminus := afterMinus_of_digits (s := Nat.toDigits 10 n)
      fun c hc => Texts.isDigit_of_mem_toDigits hc
    rw [isNumber, Texts.ofInt, hatom, hminus, afterInt_toDigits]
    rfl
  | negSucc n =>
    rw [isNumber, Texts.ofInt, List.all_cons, hatom, afterMinus, afterInt_toDigits]
    rfl

theorem decimal_ofInt (z : ℤ) : decimal (Texts.ofInt z) = z := by
  have hkept : ∀ (n : ℕ) (p : Char → Bool), (∀ c, Texts.isDigit c = true → p c = true) →
      (Nat.toDigits 10 n).takeWhile p = Nat.toDigits 10 n ∧
        (Nat.toDigits 10 n).dropWhile p = [] := by
    intro n p hp
    have hall : ∀ c ∈ Nat.toDigits 10 n, p c = true :=
      fun c hc => hp c (Texts.isDigit_of_mem_toDigits hc)
    exact ⟨List.takeWhile_eq_self_iff.mpr hall, List.dropWhile_eq_nil_iff.mpr hall⟩
  have hexponent : ∀ c, Texts.isDigit c = true → decide (c ≠ 'e' ∧ c ≠ 'E') = true := by
    intro c hc
    refine decide_eq_true ⟨?_, ?_⟩
    all_goals
      rintro rfl
      exact absurd hc (by decide)
  have hpoint : ∀ c, Texts.isDigit c = true → decide (c ≠ '.') = true := by
    intro c hc
    refine decide_eq_true ?_
    rintro rfl
    exact absurd hc (by decide)
  have hdigits : ∀ n : ℕ, afterMinus (Nat.toDigits 10 n) = Nat.toDigits 10 n :=
    fun n => afterMinus_of_digits fun c hc => Texts.isDigit_of_mem_toDigits hc
  have hnone : (Texts.int? []).getD 0 = 0 := rfl
  cases z with
  | ofNat n =>
    have hhead : (Nat.toDigits 10 n).head? ≠ some '-' := by
      intro h
      exact absurd (Texts.isDigit_of_mem_toDigits (List.mem_of_head? h)) (by decide)
    obtain ⟨htake, hdrop⟩ := hkept n _ hexponent
    obtain ⟨htake', hdrop'⟩ := hkept n _ hpoint
    simp only [decimal, Texts.ofInt, hdigits, htake, hdrop, htake', hdrop', if_neg hhead,
      List.drop_nil, List.append_nil, hnone, List.length_nil, Nat.ofDigitChars_ten_toDigits]
    simp
  | negSucc n =>
    obtain ⟨htake, hdrop⟩ := hkept (n + 1) _ hexponent
    obtain ⟨htake', hdrop'⟩ := hkept (n + 1) _ hpoint
    simp only [decimal, Texts.ofInt, afterMinus, htake, hdrop, htake', hdrop', List.head?_cons,
      if_true, List.drop_nil, List.append_nil, hnone, List.length_nil,
      Nat.ofDigitChars_ten_toDigits]
    simp [Int.negSucc_eq]

/-- An integer is read as the double next to it. -/
theorem read_ofInt (z : ℤ) : read (Texts.ofInt z) = some (nearest z) := by
  rw [read, if_pos (isNumber_ofInt z), decimal_ofInt]

example : nearest 9007199254740993 = .fin 9007199254740992 := by decide +kernel

example : read "-12.5e1".toList = some (.fin (-125)) := by decide +kernel

end Doubles
