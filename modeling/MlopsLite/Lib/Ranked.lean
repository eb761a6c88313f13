import Mathlib

/-!
# Ranked — keys in the order of their ranks

Some keys have an integer rank. `rankedBy` lists them by rank; when no rank
is given twice, that list is the only one that is sorted and has exactly
these keys (`IsRanked.unique`). What appending, removing and renumbering do
to it is then read off the ranks alone.
-/

namespace Ranked

variable {κ : Type} {pos pos' : κ → Option ℤ} {l l' : List κ}

def Before (pos : κ → Option ℤ) (a b : κ) : Prop :=
  ∃ p q, pos a = some p ∧ pos b = some q ∧ p < q

/-- No rank is given twice. -/
def Distinct (pos : κ → Option ℤ) : Prop := ∀ a b p, pos a = some p → pos b = some p → a = b

structure IsRanked (pos : κ → Option ℤ) (l : List κ) : Prop where
  sorted : l.Pairwise (Before pos)
  mem : ∀ k, k ∈ l ↔ (pos k).isSome = true

def rankedBy (keys : List κ) (pos : κ → Option ℤ) : List κ :=
  (keys.filter fun k => (pos k).isSome).insertionSort fun a b => (pos a).getD 0 ≤ (pos b).getD 0

theorem Before.ne {a b : κ} (h : Before pos a b) : a ≠ b := by
  rintro rfl
  obtain ⟨p, q, hp, hq, hlt⟩ := h
  cases hp.symm.trans hq
  exact absurd hlt (lt_irrefl p)

theorem Before.asymm {a b : κ} (h : Before pos a b) : ¬ Before pos b a := by
  rintro ⟨q', p', hq', hp', hlt'⟩
  obtain ⟨p, q, hp, hq, hlt⟩ := h
  cases hp.symm.trans hp'
  cases hq.symm.trans hq'
  exact absurd hlt (not_lt_of_gt hlt')

theorem IsRanked.nodup (h : IsRanked pos l) : l.Nodup :=
  h.sorted.imp fun hab => hab.ne

theorem IsRanked.get (h : IsRanked pos l) {a : κ} (ha : a ∈ l) : ∃ p, pos a = some p :=
  Option.isSome_iff_exists.mp ((h.mem a).mp ha)

/-- Two sorted lists of the same keys are one. -/
theorem IsRanked.unique (h : IsRanked pos l) (h' : IsRanked pos l') : l = l' := by
  have hperm : l.Perm l' := by
    refine (List.perm_ext_iff_of_nodup h.nodup h'.nodup).mpr fun a => ?_
    rw [h.mem, h'.mem]
  refine hperm.eq_of_pairwise ?_ h.sorted h'.sorted
  intro a b _ _ hab hba
  exact (hab.asymm hba).elim

theorem IsRanked.congr (h : IsRanked pos l) (heq : ∀ k, pos' k = pos k) : IsRanked pos' l := by
  have hpos : pos' = pos := funext heq
  rwa [hpos]

theorem IsRanked.distinct (h : IsRanked pos l) : Distinct pos := by
  intro a b p ha hb
  by_contra hne
  have hmem : a ∈ l ∧ b ∈ l := by simp [h.mem, ha, hb]
  have hord : Before pos a b ∨ Before pos b a := by
    have hsym : l.Pairwise fun x y => Before pos x y ∨ Before pos y x :=
      h.sorted.imp fun hxy => .inl hxy
    have : Std.Symm fun x y => Before pos x y ∨ Before pos y x := ⟨fun _ _ => Or.symm⟩
    exact hsym.forall hmem.1 hmem.2 hne
  rcases hord with ⟨q, q', hq, hq', hlt⟩ | ⟨q, q', hq, hq', hlt⟩
  · cases ha.symm.trans hq
    cases hb.symm.trans hq'
    exact absurd hlt (lt_irrefl p)
  · cases hb.symm.trans hq
    cases ha.symm.trans hq'
    exact absurd hlt (lt_irrefl p)

theorem mem_rankedBy {keys : List κ} {k : κ} :
    k ∈ rankedBy keys pos ↔ k ∈ keys ∧ (pos k).isSome = true := by
  rw [rankedBy, (List.perm_insertionSort ..).mem_iff, List.mem_filter]

theorem nodup_rankedBy {keys : List κ} (h : keys.Nodup) : (rankedBy keys pos).Nodup :=
  (List.perm_insertionSort ..).nodup_iff.mpr (h.filter _)

theorem isRanked_rankedBy {keys : List κ} (hnodup : keys.Nodup)
    (hkeys : ∀ k, (pos k).isSome = true → k ∈ keys) (hd : Distinct pos) :
    IsRanked pos (rankedBy keys pos) := by
  have hmem : ∀ k, k ∈ rankedBy keys pos ↔ (pos k).isSome = true := by
    intro k
    rw [mem_rankedBy]
    exact ⟨And.right, fun hk => ⟨hkeys k hk, hk⟩⟩
  have hsorted : (rankedBy keys pos).Pairwise fun a b => (pos a).getD 0 ≤ (pos b).getD 0 := by
    have : Std.Total fun a b => (pos a).getD 0 ≤ (pos b).getD 0 := ⟨fun _ _ => le_total ..⟩
    have : IsTrans κ fun a b => (pos a).getD 0 ≤ (pos b).getD 0 := ⟨fun _ _ _ => le_trans⟩
    exact List.pairwise_insertionSort _ _
  have hnd : (rankedBy keys pos).Pairwise fun a b => a ≠ b :=
    nodup_rankedBy hnodup
  refine ⟨?_, hmem⟩
  refine (hsorted.and hnd).imp_of_mem ?_
  intro a b ha hb ⟨hle, hne⟩
  obtain ⟨p, hp⟩ := Option.isSome_iff_exists.mp ((hmem a).mp ha)
  obtain ⟨q, hq⟩ := Option.isSome_iff_exists.mp ((hmem b).mp hb)
  refine ⟨p, q, hp, hq, lt_of_le_of_ne ?_ ?_⟩
  · simpa [hp, hq] using hle
  · rintro rfl
    exact hne (hd a b p hp hq)

/-! ## Operations -/

/-- A new key with a higher rank than all goes to the end. -/
theorem IsRanked.append (h : IsRanked pos l) {k : κ} {p : ℤ} (hnew : pos k = none)
    (hk : pos' k = some p) (hrest : ∀ a, a ≠ k → pos' a = pos a)
    (hlast : ∀ a q, pos a = some q → q < p) : IsRanked pos' (l ++ [k]) := by
  have hnot : k ∉ l := by simp [h.mem, hnew]
  have hkeep : ∀ a ∈ l, pos' a = pos a := fun a ha => hrest a fun heq => hnot (heq ▸ ha)
  constructor
  · rw [List.pairwise_append]
    refine ⟨h.sorted.imp_of_mem fun ha hb hab => ?_, List.pairwise_singleton .., ?_⟩
    · simpa only [Before, hkeep _ ha, hkeep _ hb] using hab
    · intro a ha b hb
      obtain rfl := List.mem_singleton.mp hb
      obtain ⟨q, hq⟩ := h.get ha
      exact ⟨q, p, (hkeep a ha).trans hq, hk, hlast a q hq⟩
  · intro a
    by_cases ha : a = k
    · subst ha
      simp [hk]
    · simp [ha, h.mem, hrest a ha]

/-- A key that loses its rank leaves the others in order. -/
theorem IsRanked.erase [DecidableEq κ] (h : IsRanked pos l) {k : κ} (hk : pos' k = none)
    (hrest : ∀ a, a ≠ k → pos' a = pos a) : IsRanked pos' (l.erase k) := by
  have hne : ∀ a, a ∈ l.erase k ↔ a ≠ k ∧ a ∈ l := fun a => h.nodup.mem_erase_iff
  constructor
  · refine (h.sorted.sublist List.erase_sublist).imp_of_mem fun ha hb hab => ?_
    simpa only [Before, hrest _ ((hne _).mp ha).1, hrest _ ((hne _).mp hb).1] using hab
  · intro a
    rw [hne]
    by_cases ha : a = k
    · subst ha
      simp [hk]
    · simp [ha, h.mem, hrest a ha]

/-- The keys of a list stand one after another, from `n` on. -/
def Numbered [DecidableEq κ] (pos : κ → Option ℤ) (n : ℤ) (l : List κ) : Prop :=
  ∀ a ∈ l, pos a = some (n + l.idxOf a)

theorem Numbered.sorted [DecidableEq κ] {n : ℤ} (h : Numbered pos n l) (hnodup : l.Nodup) :
    l.Pairwise (Before pos) := by
  rw [List.pairwise_iff_getElem]
  intro i j hi hj hij
  refine ⟨_, _, h _ (List.getElem_mem hi), h _ (List.getElem_mem hj), ?_⟩
  rw [hnodup.idxOf_getElem i hi, hnodup.idxOf_getElem j hj]
  omega

/-- Positive distinct ranks below `m` leave room for fewer than `m` keys. -/
theorem length_le_of_sorted {m : ℤ} (hs : l.Pairwise (Before pos)) (lo : ℤ) (hlo : lo ≤ m)
    (hb : ∀ a ∈ l, ∃ p, pos a = some p ∧ lo ≤ p ∧ p < m) : lo + l.length ≤ m := by
  induction l generalizing lo with
  | nil => simpa using hlo
  | cons a l ih =>
    obtain ⟨p, hp, hge, hlt⟩ := hb a List.mem_cons_self
    obtain ⟨hhead, htail⟩ := List.pairwise_cons.mp hs
    have hrest := ih htail (lo + 1) (by omega) fun b hbl => by
      obtain ⟨q, hq, -, hqm⟩ := hb b (List.mem_cons_of_mem a hbl)
      obtain ⟨p', q', hp', hq', hlt'⟩ := hhead b hbl
      cases hp.symm.trans hp'
      cases hq.symm.trans hq'
      exact ⟨q, hq, by omega, hqm⟩
    simp only [List.length_cons]
    push_cast
    omega

end Ranked
