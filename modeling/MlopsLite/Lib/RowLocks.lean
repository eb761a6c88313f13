import MlopsLite.Lib.Interleaving

/-!
# RowLocks — rows locked until a transaction ends

A lock table gives a row, or a key about to be inserted, to one transaction
at most. A transaction takes locks one at a time, each when it is free, and
drops them all at its end. So the table can be read off the control points
(`Exact`), and two transactions never hold one row.
-/

namespace RowLocks

variable {ι κ σ π χ : Type} [DecidableEq ι] [DecidableEq κ]

abbrev Table (κ ι : Type) := κ → Option ι

/-- Nobody holds the row, or `t` itself does. -/
def free (l : Table κ ι) (k : κ) (t : ι) : Bool := l k = none || l k = some t

def take (l : Table κ ι) (k : κ) (t : ι) : Table κ ι := Function.update l k (some t)

def drop (l : Table κ ι) (t : ι) : Table κ ι := fun k => if l k = some t then none else l k

/-- How a step of `t` may change the table and the rows it holds. -/
inductive Moves (t : ι) (l l' : Table κ ι) (h h' : κ → Prop) : Prop
  | keep (hl : l' = l) (hh : ∀ k, h' k ↔ h k)
  | take (k : κ) (hf : free l k t = true) (hl : l' = take l k t) (hh : ∀ j, h' j ↔ j = k ∨ h j)
  | drop (hl : l' = drop l t) (hh : ∀ k, ¬ h' k)

/-- A row is locked by the thread whose control point holds it. -/
def Exact (locks : σ → Table κ ι) (holds : π → κ → Prop) (s : Interleaving.State ι σ π) : Prop :=
  ∀ t k, locks s.shared k = some t ↔ holds (s.pc t) k

omit [DecidableEq ι] [DecidableEq κ] in
theorem Exact.unique {locks : σ → Table κ ι} {holds : π → κ → Prop}
    {s : Interleaving.State ι σ π} (h : Exact locks holds s) {t u : ι} {k : κ}
    (ht : holds (s.pc t) k) (hu : holds (s.pc u) k) : t = u :=
  Option.some.inj (((h t k).mpr ht).symm.trans ((h u k).mpr hu))

theorem Exact.next {locks : σ → Table κ ι} {holds : π → κ → Prop}
    {s s' : Interleaving.State ι σ π} {t : ι} (h : Exact locks holds s)
    (hothers : ∀ u, u ≠ t → s'.pc u = s.pc u)
    (hm : Moves t (locks s.shared) (locks s'.shared) (holds (s.pc t)) (holds (s'.pc t))) :
    Exact locks holds s' := by
  intro u k
  cases hm with
  | keep hl hh =>
    rw [hl]
    by_cases hu : u = t
    · subst hu
      exact (h u k).trans (hh k).symm
    · rw [hothers u hu]
      exact h u k
  | take j hf hl hh =>
    have hfree : locks s.shared j = none ∨ locks s.shared j = some t := by
      simpa [free] using hf
    rw [hl, RowLocks.take]
    by_cases hk : k = j
    · subst hk
      rw [Function.update_self]
      by_cases hu : u = t
      · subst hu
        simp [hh]
      · rw [hothers u hu, ← h u k]
        rcases hfree with hfree | hfree <;> simp [hfree, Ne.symm hu]
    · rw [Function.update_of_ne hk]
      by_cases hu : u = t
      · subst hu
        simp [h u k, hh, hk]
      · rw [hothers u hu]
        exact h u k
  | drop hl hh =>
    rw [hl, RowLocks.drop]
    by_cases hu : u = t
    · subst hu
      simp only [iff_false, hh]
      split
      · nofun
      · assumption
    · rw [hothers u hu, ← h u k]
      split
      · rename_i hlk
        simp [hlk, Ne.symm hu]
      · rfl

end RowLocks
