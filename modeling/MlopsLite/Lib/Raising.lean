import Mathlib

/-!
# Raising — programs that change a state and may raise

A program takes a state to a result and a state: what it changed before it
raised stays changed. `within` is a `with` block, whose exit is told what the
body raised, `ensure` a `finally` and `rescue` an `except`.
-/

/-- A program over the states `σ`. -/
def Raising (σ ε α : Type) : Type := σ → Except ε α × σ

namespace Raising

variable {σ ε α β : Type}

instance : Monad (Raising σ ε) where
  pure a := fun s => (.ok a, s)
  bind x f := fun s =>
    match x s with
    | (.ok a, s') => f a s'
    | (.error e, s') => (.error e, s')

def raise (e : ε) : Raising σ ε α := fun s => (.error e, s)

def read : Raising σ ε σ := fun s => (.ok s, s)

def modify (f : σ → σ) : Raising σ ε Unit := fun s => (.ok (), f s)

/-- What a program raised. -/
def raised : Except ε α → Option ε
  | .ok _ => none
  | .error e => some e

/-- `with`: the exit runs whatever the body came to, and what it raises goes instead. -/
def within (body : Raising σ ε α) (exit : Option ε → Raising σ ε Unit) : Raising σ ε α := fun s =>
  match body s with
  | (result, s') =>
    match exit (raised result) s' with
    | (.ok _, s'') => (result, s'')
    | (.error e, s'') => (.error e, s'')

/-- `try: ... finally: ...`. -/
def ensure (body : Raising σ ε α) (last : Raising σ ε Unit) : Raising σ ε α :=
  within body fun _ => last

/-- `try: ... except: ...`, for what the handler catches. -/
def rescue (body : Raising σ ε α) (catches : ε → Bool) (handler : ε → Raising σ ε α) :
    Raising σ ε α := fun s =>
  match body s with
  | (.ok a, s') => (.ok a, s')
  | (.error e, s') => if catches e then handler e s' else (.error e, s')

variable {x : Raising σ ε α} {f : α → Raising σ ε β} {s s' : σ} {a : α} {e : ε}

@[simp] theorem pure_apply : (pure a : Raising σ ε α) s = (.ok a, s) := rfl

@[simp] theorem raise_apply : (raise e : Raising σ ε α) s = (.error e, s) := rfl

@[simp] theorem read_apply : (read : Raising σ ε σ) s = (.ok s, s) := rfl

@[simp] theorem modify_apply {g : σ → σ} : (modify g : Raising σ ε Unit) s = (.ok (), g s) := rfl

@[simp] theorem bind_apply : (x >>= f) s =
    match x s with
    | (.ok a, s') => f a s'
    | (.error e, s') => (.error e, s') := rfl

/-- The state that a `with` leaves is the one its exit leaves. -/
theorem within_snd {exit : Option ε → Raising σ ε Unit} :
    (within x exit s).2 = (exit (raised (x s).1) (x s).2).2 := by
  unfold within
  cases hx : x s with
  | mk result s' =>
    dsimp only
    cases hexit : exit (raised result) s' with
    | mk done s'' => cases done <;> rfl

/-- What the exit raises goes instead. -/
theorem raised_within {exit : Option ε → Raising σ ε Unit} :
    raised (within x exit s).1 =
      (raised (exit (raised (x s).1) (x s).2).1).or (raised (x s).1) := by
  unfold within
  cases hx : x s with
  | mk result s' =>
    dsimp only
    cases hexit : exit (raised result) s' with
    | mk done s'' => cases done <;> rfl

/-- What only returns leaves the state as it is. -/
theorem bind_pure_snd {b : β} : ((x >>= fun _ => pure b) s).2 = (x s).2 := by
  rw [bind_apply]
  cases hx : x s with
  | mk result s' => cases result <;> rfl

theorem ensure_snd {last : Raising σ ε Unit} : (ensure x last s).2 = (last (x s).2).2 := within_snd

theorem raised_ensure {last : Raising σ ε Unit} :
    raised (ensure x last s).1 = (raised (last (x s).2).1).or (raised (x s).1) := raised_within

/-- What is not caught, or not raised, goes through an `except`. -/
theorem rescue_of_not_caught {catches : ε → Bool} {handler : ε → Raising σ ε α}
    (h : ∀ e, raised (x s).1 = some e → catches e = false) : rescue x catches handler s = x s := by
  unfold rescue
  cases hx : x s with
  | mk result s' =>
    cases result with
    | ok a => rfl
    | error e =>
      rw [hx] at h
      simp [h e rfl]

theorem rescue_of_caught {catches : ε → Bool} {handler : ε → Raising σ ε α}
    (h : raised (x s).1 = some e) (hc : catches e = true) :
    rescue x catches handler s = handler e (x s).2 := by
  unfold rescue
  cases hx : x s with
  | mk result s' =>
    cases result with
    | ok a =>
      rw [hx] at h
      cases h
    | error e' =>
      rw [hx] at h
      cases h
      simp [hc]

end Raising
