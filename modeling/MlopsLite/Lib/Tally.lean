import MlopsLite.Lib.Dict

/-!
# Tally — how often each key came

A tally adds one under each key of a list. It has the keys of the list, the
number of times each came, and in all the length of the list.
-/

namespace Tally

variable {κ : Type} [DecidableEq κ]

def add (d : Dict κ ℕ) (k : κ) : Dict κ ℕ := d.insert k ((d.get? k).getD 0 + 1)

def of (keys : List κ) : Dict κ ℕ := keys.foldl add .empty

theorem get?_foldl_add (keys : List κ) (d : Dict κ ℕ) (k : κ) :
    (keys.foldl add d).get? k =
      if k ∈ keys then some ((d.get? k).getD 0 + keys.count k) else d.get? k := by
  induction keys generalizing d with
  | nil => simp
  | cons a rest ih =>
    rw [List.foldl_cons, ih, add, Dict.get?_insert]
    by_cases hk : k = a
    · subst hk
      by_cases hrest : k ∈ rest
      · simp [hrest, add_assoc, add_comm 1]
      · simp [hrest, List.count_eq_zero_of_not_mem hrest]
    · by_cases hrest : k ∈ rest <;> simp [hrest, hk, List.count_cons_of_ne (Ne.symm hk)]

theorem get?_of (keys : List κ) (k : κ) :
    (of keys).get? k = if k ∈ keys then some (keys.count k) else none := by
  rw [of, get?_foldl_add, Dict.get?_empty, Option.getD_none, Nat.zero_add]

theorem mem_values_of {keys : List κ} {n : ℕ} :
    n ∈ (of keys).values ↔ ∃ k ∈ keys, keys.count k = n := by
  rw [Dict.mem_values]
  constructor
  · rintro ⟨k, hk⟩
    rw [get?_of] at hk
    split_ifs at hk with hmem
    exact ⟨k, hmem, Option.some.inj hk⟩
  · rintro ⟨k, hmem, rfl⟩
    exact ⟨k, by rw [get?_of, if_pos hmem]⟩

theorem total_add (d : Dict κ ℕ) (k : κ) :
    (add d k).total (fun _ n => n) = d.total (fun _ n => n) + 1 := by
  cases hk : d.get? k with
  | none => rw [add, hk, Dict.total_insert _ _ hk, Option.getD_none, Nat.zero_add]
  | some n =>
    rw [add, hk, Dict.insert_of_some _ hk]
    have hsum := Dict.total_modify_add (fun _ => (some n).getD 0 + 1) (fun _ n => n) hk
    rw [Option.getD_some] at hsum ⊢
    omega

theorem sum_values_of (keys : List κ) : (of keys).values.sum = keys.length := by
  have hfold (rest : List κ) (d : Dict κ ℕ) :
      (rest.foldl add d).total (fun _ n => n) = d.total (fun _ n => n) + rest.length := by
    induction rest generalizing d with
    | nil => rfl
    | cons k rest ih =>
      rw [List.foldl_cons, ih, total_add, List.length_cons]
      omega
  exact (hfold keys .empty).trans (Nat.zero_add _)

end Tally
