import Mathlib

/-!
# Base64 — bytes as text

The standard alphabet with padding. The reader takes four characters at a
time; a group with padding is the last one, and the bits it leaves over are
not looked at.
-/

namespace Base64

abbrev Byte := Fin 256

/-- A value of six bits as a character. -/
def digit (v : Fin 64) : Char :=
  if v.val < 26 then Char.ofNat (65 + v.val)
  else if v.val < 52 then Char.ofNat (97 + (v.val - 26))
  else if v.val < 62 then Char.ofNat (48 + (v.val - 52))
  else if v.val = 62 then '+'
  else '/'

def value (c : Char) : Option (Fin 64) :=
  (List.finRange 64).find? fun v => digit v = c

@[simp] theorem value_digit (v : Fin 64) : value (digit v) = some v := by
  revert v
  decide

theorem value_pad : value '=' = none := by decide

theorem digit_ne_pad (v : Fin 64) : digit v ≠ '=' := by
  intro heq
  have hsome := value_digit v
  rw [heq, value_pad] at hsome
  cases hsome

/-! ## Groups -/

/-- The four values of three bytes; bytes that are not there are 0. -/
def first (a : Byte) : Fin 64 := ⟨a.val / 4, by omega⟩

def second (a b : Byte) : Fin 64 := ⟨a.val % 4 * 16 + b.val / 16, by omega⟩

def third (b c : Byte) : Fin 64 := ⟨b.val % 16 * 4 + c.val / 64, by omega⟩

def fourth (c : Byte) : Fin 64 := ⟨c.val % 64, by omega⟩

/-- The three bytes of four values. -/
def byte₁ (v w : Fin 64) : Byte := ⟨v.val * 4 + w.val / 16, by omega⟩

def byte₂ (v w : Fin 64) : Byte := ⟨v.val % 16 * 16 + w.val / 4, by omega⟩

def byte₃ (v w : Fin 64) : Byte := ⟨v.val % 4 * 64 + w.val, by omega⟩

@[simp] theorem byte₁_first (a b : Byte) : byte₁ (first a) (second a b) = a := by
  ext
  show a.val / 4 * 4 + (a.val % 4 * 16 + b.val / 16) / 16 = a.val
  omega

@[simp] theorem byte₂_second (a b c : Byte) : byte₂ (second a b) (third b c) = b := by
  ext
  show (a.val % 4 * 16 + b.val / 16) % 16 * 16 + (b.val % 16 * 4 + c.val / 64) / 4 = b.val
  omega

@[simp] theorem byte₃_third (b c : Byte) : byte₃ (third b c) (fourth c) = c := by
  ext
  show (b.val % 16 * 4 + c.val / 64) % 4 * 64 + c.val % 64 = c.val
  omega

/-! ## Texts -/

def zero : Byte := ⟨0, by omega⟩

def encode : List Byte → List Char
  | [] => []
  | [a] => [digit (first a), digit (second a zero), '=', '=']
  | [a, b] => [digit (first a), digit (second a b), digit (third b zero), '=']
  | a :: b :: c :: rest =>
      digit (first a) :: digit (second a b) :: digit (third b c) :: digit (fourth c) :: encode rest

/-- A group with padding. -/
def lastGroup (c₁ c₂ c₃ : Char) : Option (List Byte) := do
  let v₁ ← value c₁
  let v₂ ← value c₂
  if c₃ = '=' then some [byte₁ v₁ v₂]
  else do
    let v₃ ← value c₃
    some [byte₁ v₁ v₂, byte₂ v₂ v₃]

def fullGroup (c₁ c₂ c₃ c₄ : Char) : Option (List Byte) := do
  let v₁ ← value c₁
  let v₂ ← value c₂
  let v₃ ← value c₃
  let v₄ ← value c₄
  some [byte₁ v₁ v₂, byte₂ v₂ v₃, byte₃ v₃ v₄]

def decode : List Char → Option (List Byte)
  | [] => some []
  | c₁ :: c₂ :: c₃ :: c₄ :: rest =>
      if c₄ = '=' ∧ rest = [] then lastGroup c₁ c₂ c₃
      else do
        let bytes ← fullGroup c₁ c₂ c₃ c₄
        let others ← decode rest
        some (bytes ++ others)
  | _ => none

/-- What was written is read back. -/
theorem decode_encode (bytes : List Byte) : decode (encode bytes) = some bytes := by
  induction bytes using encode.induct with
  | case1 => rfl
  | case2 a => simp [encode, decode, lastGroup]
  | case3 a b =>
    have hpad : digit (third b zero) ≠ '=' := digit_ne_pad _
    simp [encode, decode, lastGroup, hpad]
  | case4 a b c rest ih =>
    have hpad : digit (fourth c) ≠ '=' := digit_ne_pad _
    simp [encode, decode, fullGroup, hpad, ih]

theorem encode_eq_nil {bytes : List Byte} : encode bytes = [] ↔ bytes = [] := by
  constructor
  · intro h
    have hread := decode_encode bytes
    rw [h] at hread
    exact (Option.some.inj hread).symm
  · rintro rfl
    rfl

example : encode [77, 97] = "TWE=".toList := by decide

end Base64
