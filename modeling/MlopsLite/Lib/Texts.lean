import Mathlib

/-!
# Texts — lists of characters

Runs of what is not a separator, and a text without the separators around it,
for any kind of element; the white space of `str.strip` and `str.split`.
-/

namespace Texts

variable {α : Type} (sep : α → Bool)

/-- Without the separators at both ends. -/
def strip (s : List α) : List α := ((s.dropWhile sep).reverse.dropWhile sep).reverse

/-- The runs between separators. -/
def split (s : List α) : List (List α) := (s.splitOnP sep).filter fun run => !run.isEmpty

variable {sep}

theorem strip_eq_self {s : List α} (hhead : ∀ c ∈ s.head?, sep c = false)
    (hlast : ∀ c ∈ s.getLast?, sep c = false) : strip sep s = s := by
  have hleft : s.dropWhile sep = s := by
    cases s with
    | nil => rfl
    | cons c s => simp [hhead c (by simp)]
  rw [strip, hleft]
  have hright : s.reverse.dropWhile sep = s.reverse := by
    cases hs : s.reverse with
    | nil => rfl
    | cons c r =>
      have hc : c ∈ s.getLast? := by
        rw [← List.head?_reverse, hs]
        rfl
      simp [hlast c hc]
  rw [hright, List.reverse_reverse]

theorem strip_append_of_all {s t : List α} (hhead : ∀ c ∈ s.head?, sep c = false)
    (hlast : ∀ c ∈ s.getLast?, sep c = false) (hs : s ≠ []) (ht : ∀ c ∈ t, sep c = true) :
    strip sep (s ++ t) = s := by
  obtain ⟨c, s', rfl⟩ := List.exists_cons_of_ne_nil hs
  have hleft : ((c :: s') ++ t).dropWhile sep = (c :: s') ++ t := by
    simp [hhead c (by simp)]
  have hright : ((c :: s') ++ t).reverse.dropWhile sep = (c :: s').reverse.dropWhile sep := by
    rw [List.reverse_append, List.dropWhile_append]
    have hall : t.reverse.dropWhile sep = [] := by
      rw [List.dropWhile_eq_nil_iff]
      intro c hc
      exact ht c (List.mem_reverse.mp hc)
    simp [hall]
  have hself := strip_eq_self hhead hlast
  have hkept : (c :: s').dropWhile sep = c :: s' := by
    simp [hhead c (by simp)]
  rw [strip, hleft, hright, ← hkept]
  rw [hkept]
  rw [strip, hkept] at hself
  exact hself

/-- A separator in front of what is not one stays. -/
theorem strip_append_cons {s t : List α} {c : α} (hhead : ∀ d ∈ s.head?, sep d = false)
    (hc : sep c = false) : ∃ t', strip sep (s ++ c :: t) = s ++ c :: t' := by
  have hleft : (s ++ c :: t).dropWhile sep = s ++ c :: t := by
    cases s with
    | nil => simp [hc]
    | cons d s => simp [hhead d (by simp)]
  refine ⟨(t.reverse.dropWhile sep).reverse, ?_⟩
  rw [strip, hleft, List.reverse_append, List.reverse_cons, List.append_assoc,
    List.dropWhile_append]
  split
  · rename_i hall
    have hnil : t.reverse.dropWhile sep = [] := by simpa using hall
    simp [hnil, hc]
  · simp

theorem strip_parts (sep : α → Bool) (s : List α) : ∃ before after,
    (∀ c ∈ before, sep c = true) ∧ (∀ c ∈ after, sep c = true) ∧
      s = before ++ strip sep s ++ after := by
  refine ⟨s.takeWhile sep, ((s.dropWhile sep).reverse.takeWhile sep).reverse, ?_, ?_, ?_⟩
  · intro c hc
    exact List.mem_takeWhile_imp hc
  · intro c hc
    exact List.mem_takeWhile_imp (List.mem_reverse.mp hc)
  · rw [strip, List.append_assoc, ← List.reverse_append, List.takeWhile_append_dropWhile,
      List.reverse_reverse, List.takeWhile_append_dropWhile]

theorem takeWhile_append_cons {p : α → Bool} {s t : List α} {c : α} (hs : ∀ d ∈ s, p d = true)
    (hc : p c = false) : (s ++ c :: t).takeWhile p = s := by
  rw [List.takeWhile_append_of_pos hs, List.takeWhile_cons_of_neg (by simp [hc]), List.append_nil]

/-- `str.isspace` of a character. -/
def isSpace (c : Char) : Bool :=
  let n := c.toNat
  decide (9 ≤ n ∧ n ≤ 13) || decide (28 ≤ n ∧ n ≤ 32) || decide (n = 0x85) || decide (n = 0xa0) ||
    decide (n = 0x1680) || decide (0x2000 ≤ n ∧ n ≤ 0x200a) || decide (n = 0x2028) ||
    decide (n = 0x2029) || decide (n = 0x202f) || decide (n = 0x205f) || decide (n = 0x3000)

/-! ## Numerals -/

def isDigit (c : Char) : Bool := decide ('0' ≤ c ∧ c ≤ '9')

/-- Digits, with single underscores between them. -/
def isNumeral (s : List Char) : Bool :=
  s.head?.any isDigit && s.getLast?.any isDigit && (s.all fun c => isDigit c || decide (c = '_')) &&
    (s.zip s.tail).all fun p => !(decide (p.1 = '_') && decide (p.2 = '_'))

def numeral? (s : List Char) : Option ℕ :=
  if isNumeral s then some (Nat.ofDigitChars 10 (s.filter fun c => c ≠ '_') 0) else none

/-- `int(s)`, over the ASCII digits. -/
def int? (s : List Char) : Option ℤ :=
  match strip isSpace s with
  | '-' :: ds => (numeral? ds).map fun n => -(n : ℤ)
  | '+' :: ds => (numeral? ds).map fun n => (n : ℤ)
  | ds => (numeral? ds).map fun n => (n : ℤ)

/-- `str(n)`. -/
def ofInt : ℤ → List Char
  | .ofNat n => Nat.toDigits 10 n
  | .negSucc n => '-' :: Nat.toDigits 10 (n + 1)

theorem isDigit_of_mem_toDigits {n : ℕ} {c : Char} (h : c ∈ Nat.toDigits 10 n) :
    isDigit c = true := by
  have hdigit := Nat.isDigit_of_mem_toDigits (by omega) (by omega) h
  have hbounds : 48 ≤ c.val ∧ c.val ≤ 57 := by simpa [Char.isDigit] using hdigit
  exact decide_eq_true hbounds

theorem isSpace_of_bounds {c low high : Char} (hlow : low ≤ c) (hhigh : c ≤ high)
    (h : 32 < low.toNat) (h' : high.toNat < 0x85) : isSpace c = false := by
  have hlow' : low.toNat ≤ c.toNat := hlow
  have hhigh' : c.toNat ≤ high.toNat := hhigh
  simp only [isSpace, Bool.or_eq_false_iff, decide_eq_false_iff_not]
  omega

theorem isSpace_of_isDigit {c : Char} (h : isDigit c = true) : isSpace c = false :=
  isSpace_of_bounds (of_decide_eq_true h).1 (of_decide_eq_true h).2 (by decide) (by decide)

theorem isNumeral_of_digits {s : List Char} (hne : s ≠ []) (hall : ∀ c ∈ s, isDigit c = true) :
    isNumeral s = true := by
  simp only [isNumeral, Bool.and_eq_true]
  refine ⟨⟨⟨?_, ?_⟩, ?_⟩, ?_⟩
  · rw [List.head?_eq_some_head hne]
    exact hall _ (List.head_mem hne)
  · rw [List.getLast?_eq_some_getLast hne]
    exact hall _ (List.getLast_mem hne)
  · rw [List.all_eq_true]
    intro c hc
    simp [hall c hc]
  · rw [List.all_eq_true]
    rintro ⟨c, d⟩ hc
    have hplain : c ≠ '_' := by
      rintro rfl
      exact absurd (hall _ (List.of_mem_zip hc).1) (by decide)
    simp [hplain]

theorem numeral?_toDigits (n : ℕ) : numeral? (Nat.toDigits 10 n) = some n := by
  have hall : ∀ c ∈ Nat.toDigits 10 n, isDigit c = true := fun c hc => isDigit_of_mem_toDigits hc
  have hfilter : (Nat.toDigits 10 n).filter (fun c => c ≠ '_') = Nat.toDigits 10 n := by
    rw [List.filter_eq_self]
    rintro c hc
    have hplain : c ≠ '_' := by
      rintro rfl
      exact absurd (hall _ hc) (by decide)
    exact decide_eq_true hplain
  rw [numeral?, if_pos (isNumeral_of_digits Nat.toDigits_ne_nil hall), hfilter,
    Nat.ofDigitChars_ten_toDigits]

theorem strip_digits {s : List Char} (hall : ∀ c ∈ s, isDigit c = true) : strip isSpace s = s :=
  strip_eq_self (fun c hc => isSpace_of_isDigit (hall c (List.mem_of_head? hc)))
    fun c hc => isSpace_of_isDigit (hall c (List.mem_of_getLast? hc))

/-- A text of digits alone is read as it stands. -/
theorem int?_digits {s : List Char} (hall : ∀ c ∈ s, isDigit c = true) :
    int? s = (numeral? s).map fun n => (n : ℤ) := by
  rw [int?, strip_digits hall]
  split
  · exact absurd (hall '-' (by simp)) (by decide)
  · exact absurd (hall '+' (by simp)) (by decide)
  · rfl

/-- A number is read back from its text. -/
theorem int?_ofInt (n : ℤ) : int? (ofInt n) = some n := by
  cases n with
  | ofNat n =>
    rw [ofInt, int?_digits fun c hc => isDigit_of_mem_toDigits hc, numeral?_toDigits]
    rfl
  | negSucc n =>
    have hne : Nat.toDigits 10 (n + 1) ≠ [] := Nat.toDigits_ne_nil
    have hstrip : strip isSpace ('-' :: Nat.toDigits 10 (n + 1)) =
        '-' :: Nat.toDigits 10 (n + 1) := by
      refine strip_eq_self (fun c hc => ?_) fun c hc => ?_
      · obtain rfl : '-' = c := by simpa using hc
        decide
      · rw [List.getLast?_cons_of_ne_nil hne] at hc
        exact isSpace_of_isDigit (isDigit_of_mem_toDigits (List.mem_of_getLast? hc))
    rw [int?, ofInt, hstrip]
    show (numeral? (Nat.toDigits 10 (n + 1))).map (fun k => -(k : ℤ)) = _
    rw [numeral?_toDigits]
    rfl

end Texts
