import Mathlib

/-!
# Newest — a buffer of the newest n

`overflow n l` is what a buffer of `n` places has no room for. An element is
outranked when `n` others are newer; `le_card_newer` is the reason a buffer may
drop what is outranked in a history although other elements are dropped at the
same time.
-/

namespace Newest

variable {α τ : Type} [LinearOrder τ] (time : α → τ)

/-- Newest first; ties stay in the order they came. -/
def sorted (l : List α) : List α := l.insertionSort fun a b => time b ≤ time a

def overflow (n : ℕ) (l : List α) : List α := (sorted time l).drop n

variable {time} {n : ℕ} {l : List α} {a : α}

theorem sorted_perm : (sorted time l).Perm l := List.perm_insertionSort ..

theorem sorted_pairwise : (sorted time l).Pairwise fun a b => time b ≤ time a :=
  have : IsTrans α fun a b => time b ≤ time a := ⟨fun _ _ _ hab hbc => hbc.trans hab⟩
  have : Std.Total fun a b : α => time b ≤ time a := ⟨fun a b => le_total (time b) (time a)⟩
  List.pairwise_insertionSort ..

theorem mem_of_mem_overflow (h : a ∈ overflow time n l) : a ∈ l :=
  sorted_perm.mem_iff.mp (List.mem_of_mem_drop h)

/-- The rest fits. -/
theorem length_filter_le [BEq α] [LawfulBEq α] :
    (l.filter fun a => a ∉ overflow time n l).length ≤ n := by
  have hsorted : (sorted time l).Perm l := sorted_perm
  have hperm := hsorted.filter fun a => a ∉ overflow time n l
  have hdrop : ((sorted time l).drop n).filter (fun a => a ∉ overflow time n l) = [] := by
    rw [List.filter_eq_nil_iff]
    intro a ha hout
    exact of_decide_eq_true hout ha
  rw [← hperm.length_eq]
  conv_lhs => rw [← List.take_append_drop n (sorted time l)]
  rw [List.filter_append, hdrop, List.append_nil]
  exact (List.length_filter_le ..).trans (List.length_take_le ..)

/-- With times all different, what has no room has `n` newer ones before it. -/
theorem le_length_newer (hnodup : (l.map time).Nodup) (h : a ∈ overflow time n l) :
    n ≤ (l.filter fun b => time a < time b).length := by
  have hsorted : (sorted time l).Pairwise fun a b => time b ≤ time a := sorted_pairwise
  have hdistinct : ((sorted time l).map time).Nodup :=
    (sorted_perm.map time).nodup_iff.mpr hnodup
  rw [← List.take_append_drop n (sorted time l)] at hsorted hdistinct
  rw [List.map_append] at hdistinct
  have hnewer : ∀ b ∈ (sorted time l).take n, time a < time b := by
    intro b hb
    have hle := (List.pairwise_append.mp hsorted).2.2 b hb a h
    have hne : time b ≠ time a := fun heq =>
      (List.disjoint_of_nodup_append hdistinct) (List.mem_map_of_mem hb)
        (heq ▸ List.mem_map_of_mem h)
    exact lt_of_le_of_ne hle hne.symm
  have hlength : ((sorted time l).take n).length = n := by
    rw [List.length_take, min_eq_left]
    by_contra hshort
    have hnil : overflow time n l = [] := List.drop_eq_nil_of_le (not_le.mp hshort).le
    rw [hnil] at h
    cases h
  calc n = ((sorted time l).take n).length := hlength.symm
    _ = (((sorted time l).take n).filter fun b => time a < time b).length := by
      rw [List.filter_eq_self.mpr fun b hb => decide_eq_true (hnewer b hb)]
    _ ≤ ((sorted time l).filter fun b => time a < time b).length :=
      ((List.take_sublist ..).filter _).length_le
    _ = (l.filter fun b => time a < time b).length := (sorted_perm.filter _).length_eq

/-! ## What is left of a history -/

/-- `n` of these are newer. -/
def Outranked (time : α → τ) (n : ℕ) (s : Finset α) (a : α) : Prop :=
  n ≤ (s.filter fun b => time a < time b).card

theorem Outranked.mono {s s' : Finset α} (h : Outranked time n s a) (hsub : s ⊆ s') :
    Outranked time n s' a :=
  le_trans h (Finset.card_le_card (Finset.filter_subset_filter _ hsub))

/-- Where all that is missing from a history is old or outranked in it, what is
outranked in the history and not old is outranked by what is left. -/
theorem Outranked.left {all left : Finset α} {old : α → Prop}
    (hold : ∀ a b, time a ≤ time b → old b → old a)
    (hgone : ∀ b ∈ all, b ∉ left → old b ∨ Outranked time n all b)
    (h : Outranked time n all a) (hfresh : ¬ old a) : Outranked time n left a := by
  classical
  set missing := all.filter fun b => time a < time b ∧ b ∉ left with hmissing
  rcases missing.eq_empty_or_nonempty with hempty | hne
  · refine le_trans h (Finset.card_le_card fun b hb => ?_)
    obtain ⟨hb, hlt⟩ := Finset.mem_filter.mp hb
    refine Finset.mem_filter.mpr ⟨?_, hlt⟩
    by_contra hout
    have : b ∈ missing := Finset.mem_filter.mpr ⟨hb, hlt, hout⟩
    rw [hempty] at this
    cases this
  · -- the newest one missing: nothing newer than it is missing
    obtain ⟨b, hb, hmax⟩ := missing.exists_max_image time hne
    obtain ⟨hball, hlt, hout⟩ := Finset.mem_filter.mp hb
    have houtranked : Outranked time n all b :=
      (hgone b hball hout).resolve_left fun hb' => hfresh (hold a b hlt.le hb')
    refine le_trans houtranked (Finset.card_le_card fun d hd => ?_)
    obtain ⟨hd, hbd⟩ := Finset.mem_filter.mp hd
    refine Finset.mem_filter.mpr ⟨?_, hlt.trans hbd⟩
    by_contra hdout
    have hle := hmax d (Finset.mem_filter.mpr ⟨hd, hlt.trans hbd, hdout⟩)
    exact absurd hbd (not_lt.mpr hle)

/-! ## A limit before a choice -/

section

variable {β : Type} (f : α → Option β)

/-- How much a choice leaves of a list that all of it is chosen from. -/
theorem length_filterMap_eq_iff (l : List α) :
    (l.filterMap f).length = l.length ↔ ∀ a ∈ l, (f a).isSome = true := by
  induction l with
  | nil => simp
  | cons a rest ih =>
    have hrest := List.length_filterMap_le f rest
    cases hf : f a with
    | none =>
      rw [List.filterMap_cons_none hf]
      constructor
      · intro heq
        rw [List.length_cons] at heq
        omega
      · intro h
        have ha := h a List.mem_cons_self
        rw [hf] at ha
        cases ha
    | some b =>
      rw [List.filterMap_cons_some hf, List.length_cons, List.length_cons, Nat.add_right_cancel_iff,
        ih]
      simp [hf]

/-- To choose among the first `n` gives the first `n` chosen exactly if all of them are
chosen, or nothing behind them is. -/
theorem take_filterMap_perm_iff (l : List α) (n : ℕ) :
    ((l.take n).filterMap f).Perm ((l.filterMap f).take n) ↔
      (∀ a ∈ l.take n, (f a).isSome = true) ∨ ∀ a ∈ l.drop n, f a = none := by
  have hsplit : l.filterMap f = (l.take n).filterMap f ++ (l.drop n).filterMap f := by
    rw [← List.filterMap_append, List.take_append_drop]
  have hshort : ((l.take n).filterMap f).length ≤ (l.take n).length := List.length_filterMap_le ..
  have htake : (l.take n).length ≤ n := List.length_take_le ..
  rw [hsplit, List.take_append, List.take_of_length_le (hshort.trans htake),
    ← length_filterMap_eq_iff, ← List.filterMap_eq_nil_iff]
  constructor
  · intro hperm
    have hlength := hperm.length_eq
    rw [List.length_append, List.length_take] at hlength
    by_cases hnil : (l.drop n).filterMap f = []
    · exact .inr hnil
    · have hpos := List.length_pos_iff.mpr hnil
      left
      omega
  · rintro (hall | hnil)
    · by_cases hn : l.length ≤ n
      · rw [List.drop_eq_nil_of_le hn]
        simp
      · have hfull : (l.take n).length = n := by
          rw [List.length_take]
          omega
        rw [hall, hfull, Nat.sub_self, List.take_zero, List.append_nil]
    · rw [hnil, List.take_nil, List.append_nil]

end

end Newest
