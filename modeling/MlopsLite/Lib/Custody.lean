import Mathlib

/-!
# Custody — tokens that pass between threads and places

A ledger says who has each token: a thread, or a place the threads share, or
nobody yet. A thread's control point says what it has in hand. The two agree
(`Exact`) through every run whose steps pass tokens only between the thread
that steps and the places.
-/

namespace Custody

variable {ι τ π : Type} [DecidableEq τ]

inductive Holder (ι π : Type)
  | thread (t : ι)
  | place (p : π)
  deriving DecidableEq

abbrev Ledger (ι τ π : Type) := τ → Option (Holder ι π)

def give (l : Ledger ι τ π) (k : τ) (h : Option (Holder ι π)) : Ledger ι τ π :=
  Function.update l k h

/-- What `t` has in hand is what the ledger says it has. -/
def Exact (l : Ledger ι τ π) (t : ι) (hand : List τ) : Prop :=
  ∀ k, k ∈ hand ↔ l k = some (.thread t)

/-- The other threads keep what they have. -/
def Passes (t : ι) (l l' : Ledger ι τ π) : Prop :=
  ∀ u, u ≠ t → ∀ k, l' k = some (.thread u) ↔ l k = some (.thread u)

variable {l l' l'' : Ledger ι τ π} {t u : ι} {k : τ} {hand hand' : List τ} {h : Option (Holder ι π)}

@[simp] theorem give_self : give l k h k = h := Function.update_self ..

theorem give_apply {j : τ} : give l k h j = if j = k then h else l j := Function.update_apply ..

theorem give_of_ne {j : τ} (hne : j ≠ k) : give l k h j = l j := Function.update_of_ne hne ..

omit [DecidableEq τ] in
theorem Passes.refl : Passes t l l := fun _ _ _ => Iff.rfl

omit [DecidableEq τ] in
theorem Passes.trans (h : Passes t l l') (h' : Passes t l' l'') : Passes t l l'' :=
  fun u hu k => (h' u hu k).trans (h u hu k)

/-- A token no other thread has, given to no other thread. -/
theorem Passes.give (hl : ∀ u, u ≠ t → l k ≠ some (.thread u))
    (hh : ∀ u, u ≠ t → h ≠ some (.thread u)) : Passes t l (give l k h) := by
  intro u hu j
  by_cases hj : j = k
  · subst hj
    rw [give_self]
    exact iff_of_false (hh u hu) (hl u hu)
  · rw [give_of_ne hj]

omit [DecidableEq τ] in
theorem Exact.passes (h : Exact l u hand) (hp : Passes t l l') (hu : u ≠ t) : Exact l' u hand :=
  fun k => (h k).trans (hp u hu k).symm

omit [DecidableEq τ] in
theorem Exact.unique (h : Exact l t hand) (h' : Exact l u hand') (hk : k ∈ hand) (hk' : k ∈ hand') :
    t = u := by
  have heq := ((h k).mp hk).symm.trans ((h' k).mp hk')
  simpa using heq

omit [DecidableEq τ] in
/-- Of what is in one's hand nobody else has anything. -/
theorem Exact.not_other (h : Exact l t hand) (hk : k ∈ hand) : ∀ u, u ≠ t → l k ≠ some (.thread u) := by
  intro u hu heq
  rw [(h k).mp hk] at heq
  simp only [Option.some_inj, Holder.thread.injEq] at heq
  exact hu heq.symm

theorem Exact.take (h : Exact l t hand) : Exact (Custody.give l k (some (.thread t))) t (k :: hand) := by
  intro j
  by_cases hj : j = k
  · simp [hj]
  · rw [give_of_ne hj, ← h j]
    simp [hj]

theorem Exact.drop (h' : Exact l t (k :: hand)) (hk : k ∉ hand) (hh : h ≠ some (.thread t)) :
    Exact (Custody.give l k h) t hand := by
  intro j
  by_cases hj : j = k
  · subst hj
    rw [give_self]
    exact iff_of_false hk hh
  · rw [give_of_ne hj, ← h' j]
    simp [hj]

omit [DecidableEq τ] in
theorem Exact.of_mem_iff (h : Exact l t hand) (hm : ∀ k, k ∈ hand' ↔ k ∈ hand) :
    Exact l t hand' := fun k => (hm k).trans (h k)

end Custody
