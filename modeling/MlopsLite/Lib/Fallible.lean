import Mathlib

/-!
# Fallible — steps that return or raise

When a step, a chain of steps and a step for each element of a list return.
-/

namespace Fallible

variable {ε α β : Type}

/-- The step returns. -/
def Returns (x : Except ε α) : Prop := ∃ a, x = .ok a

variable {x : Except ε α} {a : α} {e : ε}

theorem returns_ok : Returns (.ok a : Except ε α) := ⟨a, rfl⟩

@[simp] theorem returns_pure : Returns (pure a : Except ε α) := ⟨a, rfl⟩

theorem not_returns_error : ¬ Returns (.error e : Except ε α) := by
  rintro ⟨a, h⟩
  cases h

theorem bind_eq_ok {f : α → Except ε β} {b : β} :
    x >>= f = .ok b ↔ ∃ a, x = .ok a ∧ f a = .ok b := by
  cases x with
  | error e => simp [bind, Except.bind]
  | ok a => simp [bind, Except.bind]

theorem returns_bind {f : α → Except ε β} :
    Returns (x >>= f) ↔ ∃ a, x = .ok a ∧ Returns (f a) := by
  simp only [Returns, bind_eq_ok]
  rw [exists_comm]
  simp only [exists_and_left]

theorem map_eq_ok {f : α → β} {b : β} : x.map f = .ok b ↔ ∃ a, x = .ok a ∧ f a = b := by
  cases x with
  | error e => simp [Except.map]
  | ok a => simp [Except.map]

theorem returns_map {f : α → β} : Returns (x.map f) ↔ Returns x := by
  cases x with
  | error e => simp [Returns, Except.map]
  | ok a => simp [Returns, Except.map]

theorem returns_mapError {δ : Type} {f : ε → δ} : Returns (x.mapError f) ↔ Returns x := by
  cases x with
  | error e => simp [Returns, Except.mapError]
  | ok a => simp [Returns, Except.mapError]

/-! ## A step for each element -/

variable {f : α → Except ε β} {xs : List α} {ys : List β}

theorem mapM_cons_eq_ok {a : α} {b : β} :
    (a :: xs).mapM f = .ok (b :: ys) ↔ f a = .ok b ∧ xs.mapM f = .ok ys := by
  rw [List.mapM_cons]
  constructor
  · intro h
    obtain ⟨b', hb, hrest⟩ := bind_eq_ok.mp h
    obtain ⟨ys', hys, hcons⟩ := bind_eq_ok.mp hrest
    cases hcons
    exact ⟨hb, hys⟩
  · rintro ⟨hb, hys⟩
    rw [hb, hys]
    rfl

theorem mapM_cons_ne_nil {a : α} : (a :: xs).mapM f ≠ .ok [] := by
  rw [List.mapM_cons]
  intro h
  obtain ⟨b', -, hrest⟩ := bind_eq_ok.mp h
  obtain ⟨ys', -, hcons⟩ := bind_eq_ok.mp hrest
  cases hcons

/-- All of them return exactly if each one does. -/
theorem returns_mapM : Returns (xs.mapM f) ↔ ∀ a ∈ xs, Returns (f a) := by
  induction xs with
  | nil => simp [returns_ok, pure, Except.pure]
  | cons a xs ih =>
    rw [List.forall_mem_cons, ← ih]
    constructor
    · rintro ⟨ys, h⟩
      cases ys with
      | nil => exact absurd h mapM_cons_ne_nil
      | cons b ys =>
        obtain ⟨hb, hys⟩ := mapM_cons_eq_ok.mp h
        exact ⟨⟨b, hb⟩, ⟨ys, hys⟩⟩
    · rintro ⟨⟨b, hb⟩, ⟨ys, hys⟩⟩
      exact ⟨b :: ys, mapM_cons_eq_ok.mpr ⟨hb, hys⟩⟩

/-- Lists are made of the elements, and all are empty. -/
theorem flatten_mapM_eq_nil {f : α → Except ε (List β)} {found : List (List β)}
    (h : xs.mapM f = .ok found) : found.flatten = [] ↔ ∀ a ∈ xs, f a = .ok [] := by
  induction xs generalizing found with
  | nil =>
    cases h
    simp
  | cons a xs ih =>
    cases found with
    | nil => exact absurd h mapM_cons_ne_nil
    | cons b found =>
      obtain ⟨hb, hrest⟩ := mapM_cons_eq_ok.mp h
      simp [hb, ih hrest]

end Fallible
