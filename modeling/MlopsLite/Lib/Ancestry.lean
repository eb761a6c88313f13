import Mathlib.Data.List.Chain
import Mathlib.Data.Set.Card
import Mathlib.Logic.Relation

/-!
# Ancestry — parents, ancestors and levels

An element has at most one parent. A level of it is 0 where there is no parent (or on a
cycle, which has to be cut somewhere), else one more than the parent's. Without a cycle
a level can only be the number of ancestors.
-/

namespace Ancestry

open Relation

variable {ι : Type}

/-- `b` is the parent of `a`. -/
def Up (par : ι → Option ι) (a b : ι) : Prop := par a = some b

/-- Nothing is above itself. -/
def Acyclic (r : ι → ι → Prop) : Prop := ∀ a, ¬ TransGen r a a

/-- What is above `a`. -/
def ancestors (r : ι → ι → Prop) (a : ι) : Set ι := {x | TransGen r a x}

/-- A level is 0 or one more than the parent's. -/
def Layered (par : ι → Option ι) (level : ι → Option ℕ) : Prop :=
  ∀ a n, level a = some n →
    n = 0 ∧ (par a = none ∨ TransGen (Up par) a a) ∨
      ∃ p m, par a = some p ∧ level p = some m ∧ n = m + 1

variable {par : ι → Option ι} {level level' : ι → Option ℕ} {r s : ι → ι → Prop} {a p q : ι} {n : ℕ}

theorem Acyclic.mono (h : Acyclic s) (hrs : ∀ a b, r a b → s a b) : Acyclic r :=
  fun a ha => h a (TransGen.mono hrs _ _ ha)

/-! ## Ancestors -/

theorem not_mem_ancestors (hr : Acyclic r) (a : ι) : a ∉ ancestors r a := hr a

theorem ancestors_of_root (h : par a = none) : ancestors (Up par) a = ∅ := by
  refine Set.eq_empty_of_forall_notMem fun x hx => ?_
  obtain ⟨b, hb, -⟩ := TransGen.head'_iff.mp hx
  rw [Up, h] at hb
  cases hb

theorem ancestors_of_parent (h : par a = some p) :
    ancestors (Up par) a = insert p (ancestors (Up par) p) := by
  ext x
  rw [Set.mem_insert_iff]
  constructor
  · intro hx
    obtain ⟨b, hb, hbx⟩ := TransGen.head'_iff.mp hx
    obtain rfl : p = b := Option.some.inj (h.symm.trans hb)
    exact (reflTransGen_iff_eq_or_transGen.mp hbx)
  · rintro (rfl | hx)
    · exact TransGen.single h
    · exact TransGen.head h hx

theorem insert_ancestors_subset (h : r a p) : insert p (ancestors r p) ⊆ ancestors r a := by
  intro x hx
  rcases Set.mem_insert_iff.mp hx with rfl | hx
  · exact TransGen.single h
  · exact TransGen.head h hx

/-- Where a parent has all the ancestors but itself, there is nothing else to have. -/
theorem ancestors_eq_insert (hr : Acyclic r) (hfin : (ancestors r a).Finite) (h : r a p)
    (hcard : (ancestors r a).ncard = (ancestors r p).ncard + 1) :
    ancestors r a = insert p (ancestors r p) := by
  have hsub := insert_ancestors_subset h
  refine (Set.eq_of_subset_of_ncard_le hsub ?_ hfin).symm
  have hfin' : (ancestors r p).Finite := hfin.subset ((Set.subset_insert _ _).trans hsub)
  rw [Set.ncard_insert_of_notMem (not_mem_ancestors hr p) hfin', hcard]

/-- Two parents that are each one level below are one. -/
theorem parent_unique (hr : Acyclic r) (hfin : (ancestors r a).Finite) (hp : r a p) (hq : r a q)
    (hcp : (ancestors r a).ncard = (ancestors r p).ncard + 1)
    (hcq : (ancestors r a).ncard = (ancestors r q).ncard + 1) : p = q := by
  by_contra hne
  have hqp : TransGen r p q := by
    have hmem : q ∈ insert p (ancestors r p) :=
      ancestors_eq_insert hr hfin hp hcp ▸ TransGen.single hq
    exact (Set.mem_insert_iff.mp hmem).resolve_left (Ne.symm hne)
  have hpq : TransGen r q p := by
    have hmem : p ∈ insert q (ancestors r q) :=
      ancestors_eq_insert hr hfin hq hcq ▸ TransGen.single hp
    exact (Set.mem_insert_iff.mp hmem).resolve_left hne
  exact hr p (hqp.trans hpq)

/-! ## Levels -/

/-- A new level, where there was none, of an element whose parent has its own. -/
theorem Layered.extend [DecidableEq ι] (h : Layered par level) (hnew : level a = none)
    (hset : ∀ x, level' x = if x = a then some n else level x)
    (hn : n = 0 ∧ (par a = none ∨ TransGen (Up par) a a) ∨
      ∃ p m, par a = some p ∧ level p = some m ∧ n = m + 1) : Layered par level' := by
  have hkeep : ∀ p m, level p = some m → level' p = some m := by
    intro p m hm
    rw [hset, if_neg, hm]
    rintro rfl
    rw [hnew] at hm
    cases hm
  intro x k hk
  rw [hset] at hk
  split at hk
  next hx =>
    cases hx
    cases hk
    refine hn.imp id ?_
    rintro ⟨p, m, hp, hm, hnm⟩
    exact ⟨p, m, hp, hkeep p m hm, hnm⟩
  next =>
    refine (h x k hk).imp id ?_
    rintro ⟨p, m, hp, hm, hnm⟩
    exact ⟨p, m, hp, hkeep p m hm, hnm⟩

theorem Layered.eq_ncard (h : Layered par level) (hr : Acyclic (Up par)) (ha : level a = some n) :
    (ancestors (Up par) a).Finite ∧ (ancestors (Up par) a).ncard = n := by
  induction n generalizing a with
  | zero =>
    rcases h a 0 ha with ⟨-, hroot | hcycle⟩ | ⟨p, m, -, -, hm⟩
    · rw [ancestors_of_root hroot]
      exact ⟨Set.finite_empty, Set.ncard_empty _⟩
    · exact absurd hcycle (hr a)
    · omega
  | succ n ih =>
    rcases h a (n + 1) ha with ⟨hn, -⟩ | ⟨p, m, hp, hm, hnm⟩
    · omega
    · obtain rfl : n = m := by omega
      obtain ⟨hfin, hcard⟩ := ih hm
      rw [ancestors_of_parent hp]
      exact ⟨hfin.insert p, by rw [Set.ncard_insert_of_notMem (not_mem_ancestors hr p) hfin, hcard]⟩

/-- A chain that climbs does not come back. -/
theorem Acyclic.nodup (hr : Acyclic r) {l : List ι} (hl : l.IsChain r) : l.Nodup := by
  have hchain : l.IsChain (TransGen r) := hl.imp fun _ _ => TransGen.single
  refine (List.isChain_iff_pairwise.mp hchain).imp ?_
  rintro x _ hxy rfl
  exact hr x hxy

end Ancestry
