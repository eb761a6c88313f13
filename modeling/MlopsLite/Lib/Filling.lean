import Mathlib.Data.Set.Basic
import Mathlib.Logic.Function.Basic
import Mathlib.Logic.Relation

/-!
# Filling — writers that fill empty cells

An offer is a value for a cell. It is taken if the cell is empty and the cells that it
needs are there. A cell keeps what it has, so where no two offers differ a store that
takes no offer any more is decided by the store at the beginning: not by the order of
the offers, and not by how often they were made. A value may be dead; who looks for it
takes its cell for empty.
-/

namespace Filling

variable {κ V : Type}

abbrev Store (κ V : Type) := κ → Option V

structure Offer (κ V : Type) where
  cell : κ
  value : V
  needs : List κ

/-- What the first has, the second has. -/
def Below (s t : Store κ V) : Prop := ∀ c v, s c = some v → t c = some v

theorem Below.refl (s : Store κ V) : Below s s := fun _ _ h => h

theorem Below.trans {s t u : Store κ V} (h : Below s t) (h' : Below t u) : Below s u :=
  fun c v hc => h' c v (h c v hc)

theorem Below.antisymm {s t : Store κ V} (h : Below s t) (h' : Below t s) : s = t := by
  funext c
  cases hs : s c with
  | some v => exact (h c v hs).symm
  | none =>
    cases ht : t c with
    | none => rfl
    | some v => rw [h' c v ht] at hs; cases hs

section

variable (live : V → Prop)

/-- The cell holds a live value. -/
def There (s : Store κ V) (c : κ) : Prop := ∃ v, s c = some v ∧ live v

/-- What an offer needs is there. -/
def Met (s : Store κ V) (o : Offer κ V) : Prop := ∀ n ∈ o.needs, There live s n

/-- What an offer needs is there, or is offered. -/
def Available (offers : Set (Offer κ V)) (s₀ : Store κ V) (o : Offer κ V) : Prop :=
  ∀ n ∈ o.needs, There live s₀ n ∨ ∃ o' ∈ offers, o'.cell = n

/-- No offer is left to take. -/
def Complete (offers : Set (Offer κ V)) (s : Store κ V) : Prop :=
  ∀ o ∈ offers, Met live s o → s o.cell ≠ none

/-- Two offers for an empty cell are the same, and none of their cells is dead. -/
structure Clear (offers : Set (Offer κ V)) (s₀ : Store κ V) : Prop where
  agree : ∀ o ∈ offers, ∀ o' ∈ offers, Available live offers s₀ o → Available live offers s₀ o' →
    o.cell = o'.cell → s₀ o.cell = none → o.value = o'.value
  old : ∀ o ∈ offers, Available live offers s₀ o → ∀ v, s₀ o.cell = some v → live v
  new : ∀ o ∈ offers, Available live offers s₀ o → s₀ o.cell = none → live o.value

variable [DecidableEq κ]

/-- One offer is taken. -/
inductive Fills (offers : Set (Offer κ V)) (s : Store κ V) : Store κ V → Prop
  | fill {o : Offer κ V} (ho : o ∈ offers) (hempty : s o.cell = none) (hmet : Met live s o) :
      Fills offers s (Function.update s o.cell (some o.value))

/-- Some offers are taken, one behind the other. -/
abbrev Grows (offers : Set (Offer κ V)) : Store κ V → Store κ V → Prop :=
  Relation.ReflTransGen (Fills live offers)

end

variable {live : V → Prop} {offers offers' : Set (Offer κ V)} {s₀ s t : Store κ V}
  {o : Offer κ V} {c : κ} {v : V}

theorem Met.below (h : Below s t) (hmet : Met live s o) : Met live t o := by
  intro n hn
  obtain ⟨v, hv, hlive⟩ := hmet n hn
  exact ⟨v, h n v hv, hlive⟩

variable [DecidableEq κ]

/-! ## What a store keeps -/

theorem Fills.below (h : Fills live offers s t) : Below s t := by
  obtain ⟨-, hempty, -⟩ := h
  intro c v hc
  rw [Function.update_of_ne]
  · exact hc
  · rintro rfl
    rw [hc] at hempty
    cases hempty

theorem Grows.below (h : Grows live offers s t) : Below s t := by
  induction h with
  | refl => exact .refl s
  | tail _ hstep ih => exact ih.trans hstep.below

theorem Fills.mono (hsub : offers ⊆ offers') (h : Fills live offers s t) :
    Fills live offers' s t := by
  obtain ⟨ho, hempty, hmet⟩ := h
  exact .fill (hsub ho) hempty hmet

theorem Grows.mono (hsub : offers ⊆ offers') (h : Grows live offers s t) :
    Grows live offers' s t := by
  induction h with
  | refl => exact .refl
  | tail _ hstep ih => exact ih.tail (hstep.mono hsub)

/-- A cell that is not offered stays as it is. -/
theorem Grows.frame (hc : ∀ o ∈ offers, o.cell ≠ c) (h : Grows live offers s t) : t c = s c := by
  induction h with
  | refl => rfl
  | tail _ hstep ih =>
    obtain ⟨ho, -, -⟩ := hstep
    rw [Function.update_of_ne (hc _ ho).symm, ih]

/-! ## Where a value comes from -/

/-- What a cell has it had before, or it was empty and an offer was taken. -/
theorem Grows.origin (h : Grows live offers s₀ s) (hv : s c = some v) :
    s₀ c = some v ∨ s₀ c = none ∧
      ∃ o ∈ offers, o.cell = c ∧ o.value = v ∧ Available live offers s₀ o := by
  induction h generalizing c v with
  | refl => exact .inl hv
  | @tail s t hgrows hstep ih =>
    obtain ⟨ho, hempty, hmet⟩ := hstep
    rename_i o
    by_cases hcell : c = o.cell
    · subst hcell
      rw [Function.update_self, Option.some.injEq] at hv
      refine .inr ⟨?_, o, ho, rfl, hv, fun n hn => ?_⟩
      · by_contra hsome
        obtain ⟨w, hw⟩ := Option.ne_none_iff_exists'.mp hsome
        rw [Grows.below hgrows _ _ hw] at hempty
        cases hempty
      · obtain ⟨w, hw, hlive⟩ := hmet n hn
        rcases ih hw with hold | ⟨-, o', ho', hcell, -, -⟩
        · exact .inl ⟨w, hold, hlive⟩
        · exact .inr ⟨o', ho', hcell⟩
    · rw [Function.update_of_ne hcell] at hv
      exact ih hv

theorem Grows.available (h : Grows live offers s₀ s) (hmet : Met live s o) :
    Available live offers s₀ o := by
  intro n hn
  obtain ⟨v, hv, hlive⟩ := hmet n hn
  rcases h.origin hv with hold | ⟨-, o', ho', hcell, -, -⟩
  · exact .inl ⟨v, hold, hlive⟩
  · exact .inr ⟨o', ho', hcell⟩

/-- The cells that are offered stay live. -/
theorem Clear.alive (hclear : Clear live offers s₀) (h : Grows live offers s₀ s) (ho : o ∈ offers)
    (havailable : Available live offers s₀ o) (hv : s o.cell = some v) : live v := by
  rcases h.origin hv with hold | ⟨hempty, o', ho', hcell, rfl, havailable'⟩
  · exact hclear.old o ho havailable v hold
  · exact hclear.new o' ho' havailable' (hcell ▸ hempty)

/-! ## One end -/

/-- A store that takes no offer any more has all that another one has. -/
theorem Clear.below (hclear : Clear live offers s₀) (hs : Grows live offers s₀ s)
    (ht : Grows live offers s₀ t) (hcomplete : Complete live offers t) : Below s t := by
  induction hs with
  | refl => exact ht.below
  | @tail s s' hgrows hstep ih =>
    obtain ⟨ho, hempty, hmet⟩ := hstep
    rename_i o
    intro c v hv
    by_cases hcell : c = o.cell
    · subst hcell
      rw [Function.update_self, Option.some.injEq] at hv
      obtain ⟨w, hw⟩ := Option.ne_none_iff_exists'.mp (hcomplete o ho (hmet.below ih))
      have havailable := Grows.available hgrows hmet
      rcases ht.origin hw with hold | ⟨hnone, o', ho', hcell, rfl, havailable'⟩
      · rw [Grows.below hgrows _ _ hold] at hempty
        cases hempty
      · rw [hw, ← hv, hclear.agree o' ho' o ho havailable' havailable hcell (hcell ▸ hnone)]
    · rw [Function.update_of_ne hcell] at hv
      exact ih c v hv

/-- Two such stores are one. -/
theorem Clear.unique (hclear : Clear live offers s₀) (hs : Grows live offers s₀ s)
    (hcomplete : Complete live offers s) (ht : Grows live offers s₀ t)
    (hcomplete' : Complete live offers t) : s = t :=
  (hclear.below hs ht hcomplete').antisymm (hclear.below ht hs hcomplete)

theorem Complete.not_fills (hcomplete : Complete live offers s) : ¬ Fills live offers s t := by
  rintro ⟨ho, hempty, hmet⟩
  exact hcomplete _ ho hmet hempty

theorem Complete.eq_of_grows (hcomplete : Complete live offers s) (h : Grows live offers s t) :
    t = s := by
  cases Relation.ReflTransGen.cases_head h with
  | inl heq => exact heq.symm
  | inr hstep =>
    obtain ⟨u, hu, -⟩ := hstep
    exact absurd hu hcomplete.not_fills

end Filling
