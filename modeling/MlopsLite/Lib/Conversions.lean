import MlopsLite.Lib.Floats
import MlopsLite.Lib.Json
import MlopsLite.Lib.Texts

/-!
# Conversions — what a decoded value can be read as

`float`, `int` and `dict` of a JSON value, and which values a dict takes as a
key. A number is a finite rational, an infinity or not-a-number; a finite one
at or beyond `floatLimit` is an integer, which no float holds.
-/

instance : Zero Number := ⟨.fin 0⟩

namespace Conversions

abbrev Value := Json Number

/-- Why a conversion stops. -/
inductive Fault
  | attribute
  | type
  | value
  | overflow
  deriving DecidableEq, Repr

/-- How texts are read as numbers: which characters `isdigit` counts as digits,
which of them have a decimal value, and `int` and `float` of a text, `none`
where they raise. -/
structure Numerals where
  digit : Char → Bool
  decimal : Char → Bool
  int : List Char → Option ℤ
  float : List Char → Option Number
  int_isSome : ∀ s, s ≠ [] → s.all digit = true →
    ((int s).isSome ↔ s.all decimal = true ∧ s.length ≤ 4300)

/-- The first integers that round to no float. -/
def floatLimit : ℚ := 2 ^ 1024 - 2 ^ 970

/-- `int(x)` of a number: toward zero. -/
def truncate (x : ℚ) : ℤ := if 0 ≤ x then ⌊x⌋ else ⌈x⌉

/-- What has a hash. -/
def hashable : Value → Bool
  | .arr _ | .obj _ => false
  | _ => true

def isText : Value → Bool
  | .str _ => true
  | _ => false

def isObject : Value → Bool
  | .obj _ => true
  | _ => false

section

variable (numerals : Numerals)

/-- `float(value)`. -/
def float : Value → Except Fault Number
  | .bool b => .ok (.fin (if b then 1 else 0))
  | .num (.fin q) => if |q| < floatLimit then .ok (.fin q) else .error .overflow
  | .num x => .ok x
  | .str s =>
    match numerals.float s.toList with
    | some x => .ok x
    | none => .error .value
  | .null | .arr _ | .obj _ => .error .type

/-- `int(value)`. -/
def int : Value → Except Fault ℤ
  | .bool b => .ok (if b then 1 else 0)
  | .num (.fin q) => .ok (truncate q)
  | .num (.inf _) => .error .overflow
  | .num .nan => .error .value
  | .str s =>
    match numerals.int s.toList with
    | some n => .ok n
    | none => .error .value
  | .null | .arr _ | .obj _ => .error .type

end

/-- A number that a float holds. -/
def IsFloat (x : Number) : Prop := ∀ q, x = .fin q → |q| < floatLimit

section

variable {numerals : Numerals}

/-- A float is read as itself. -/
theorem float_num {x : Number} (h : IsFloat x) : float numerals (.num x) = .ok x := by
  cases x with
  | nan => rfl
  | inf s => rfl
  | fin q => rw [float, if_pos (h q rfl)]

theorem truncate_intCast (n : ℤ) : truncate n = n := by
  rw [truncate, Int.floor_intCast, Int.ceil_intCast, ite_self]

/-- An integer is read as itself. -/
theorem int_num (n : ℤ) : int numerals (.num (.fin n)) = .ok n := by
  rw [int, truncate_intCast]

end

/-! ## Dicts -/

/-- The pairs of a dict in order; the last pair of a key counts. -/
abbrev Fields := List (Value × Value)

def isKey (name : String) : Value → Bool
  | .str s => s = name
  | _ => false

/-- `fields.get(name)`. -/
def Fields.get (fields : Fields) (name : String) : Option Value :=
  (fields.reverse.find? fun p => isKey name p.1).map Prod.snd

/-- `fields.get(name)` with nothing as `None`. -/
def Fields.read (fields : Fields) (name : String) : Value := (fields.get name).getD .null

/-- The object's members as a dict. -/
def ofMembers (members : List (String × Value)) : Fields := members.map fun m => (.str m.1, m.2)

/-- An element of what `dict` is given: two things, the first one a key. -/
def pair : Value → Except Fault (Value × Value)
  | .arr [key, value] => if hashable key then .ok (key, value) else .error .type
  | .obj [(a, _), (b, _)] => .ok (.str a, .str b)
  | .str s =>
    match s.toList with
    | [a, b] => .ok (.str a.toString, .str b.toString)
    | _ => .error .value
  | .arr _ | .obj _ => .error .value
  | .null | .bool _ | .num _ => .error .type

/-- `dict(value)`. -/
def dict : Value → Except Fault Fields
  | .obj members => .ok (ofMembers members)
  | .arr items => items.mapM pair
  | .str s => if s = "" then .ok [] else .error .value
  | .null | .bool _ | .num _ => .error .type

/-! ## Which values they take -/

/-- The conversion takes the value. -/
def takes {α : Type} : Except Fault α → Bool
  | .ok _ => true
  | .error _ => false

variable {α : Type} {x : Except Fault α}

theorem takes_iff : takes x = true ↔ ∃ a, x = .ok a := by
  cases x <;> simp [takes]

theorem takes_eq_false_iff : takes x = false ↔ ∃ f, x = .error f := by
  cases x <;> simp [takes]

/-- The numerals of the ASCII digits. -/
def ascii : Numerals where
  digit := Texts.isDigit
  decimal := Texts.isDigit
  int s := if s.length ≤ 4300 then Texts.int? s else none
  float s := (Texts.int? s).map fun n => .fin n
  int_isSome s hne hall := by
    rw [Texts.int?_digits (List.all_eq_true.mp hall), Texts.numeral?,
      if_pos (Texts.isNumeral_of_digits hne (List.all_eq_true.mp hall))]
    by_cases hlength : s.length ≤ 4300
    · simp [hlength, hall]
    · simp [hlength]

end Conversions
