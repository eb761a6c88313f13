import Mathlib

/-!
# Json — values

JSON values over a type of numbers. An object is the list of its members in
order; a reader of a dict drops a repeated key before it gets here.
-/

inductive Json (ν : Type) where
  | null
  | bool (b : Bool)
  | num (n : ν)
  | str (s : String)
  | arr (items : List (Json ν))
  | obj (members : List (String × Json ν))

namespace Json

variable {ν : Type} [Zero ν] [DecidableEq ν]

/-- The truth value of a decoded value. -/
def truthy : Json ν → Bool
  | .null => false
  | .bool b => b
  | .num n => n ≠ 0
  | .str s => s ≠ ""
  | .arr items => !items.isEmpty
  | .obj members => !members.isEmpty

/-! ### Inside a value -/

mutual

/-- All the numbers in a value. -/
def all (p : ν → Bool) : Json ν → Bool
  | .null | .bool _ | .str _ => true
  | .num n => p n
  | .arr items => allItems p items
  | .obj members => allMembers p members

def allItems (p : ν → Bool) : List (Json ν) → Bool
  | [] => true
  | v :: items => all p v && allItems p items

def allMembers (p : ν → Bool) : List (String × Json ν) → Bool
  | [] => true
  | m :: members => all p m.2 && allMembers p members

end

section

variable {ν : Type} {p : ν → Bool}

@[simp] theorem all_num {n : ν} : all p (.num n) = p n := by
  rw [all]

@[simp] theorem all_str {s : String} : all p (.str s) = true := by
  rw [all]

@[simp] theorem all_obj {members : List (String × Json ν)} :
    all p (.obj members) = members.all fun m => all p m.2 := by
  rw [all]
  induction members with
  | nil => rfl
  | cons m members ih => rw [allMembers, ih, List.all_cons]

@[simp] theorem all_arr {items : List (Json ν)} : all p (.arr items) = items.all (all p) := by
  rw [all]
  induction items with
  | nil => rfl
  | cons v items ih => rw [allItems, ih, List.all_cons]

end

/-- A step into a value. -/
inductive Step
  | name (key : String)
  | index (i : ℕ)

/-- What is found at the end of a path. -/
def find (value : Json ν) : List Step → Option (Json ν)
  | [] => some value
  | step :: path =>
    match step, value with
    | .name key, .obj members => (members.lookup key).bind fun v => find v path
    | .index i, .arr items => items[i]?.bind fun v => find v path
    | _, _ => none

/-- Why a reader of a decoded value stops. -/
inductive Misread
  | noAttribute
  | notIterable
  | unhashable
  deriving DecidableEq, Repr

/-- `value.get(key)`: only an object has it. -/
def get (value : Json ν) (key : String) : Except Misread (Option (Json ν)) :=
  match value with
  | .obj members => .ok (members.lookup key)
  | _ => .error .noAttribute

/-- What `for item in value` runs through: an object gives its names. -/
def iter : Json ν → Except Misread (List (Json ν))
  | .arr items => .ok items
  | .obj members => .ok (members.map fun m => .str m.1)
  | .str s => .ok (s.toList.map fun c => .str c.toString)
  | _ => .error .notIterable

/-- `value or default`, an absent value being `None`. -/
def orElse (value : Option (Json ν)) (default : Json ν) : Json ν :=
  match value with
  | some v => if v.truthy then v else default
  | none => default

end Json
