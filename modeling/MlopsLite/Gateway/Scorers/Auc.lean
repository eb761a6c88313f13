import MlopsLite.Gateway.Scorers.WordErrorRate
import MlopsLite.Lib.Midranks

/-!
# Scorers — the ranking AUC

`auc` (`gateway/app/evaluation.py`): the rows in the order of their scores, the
mean rank for every group of ties, and the rank sum of the positives. It is the
share of the pairs of a positive and a negative that are in the right order,
ties counting half.
-/

namespace MlopsLite.Gateway.Scorers

open Midranks (midrank wins)

/-! ## The code -/

def withLabel (label : ℤ) (scores : List ℚ) (labels : List ℤ) : List ℚ :=
  ((scores.zip labels).filter fun row => row.2 = label).map Prod.fst

/-- `sorted(range(len(scores)), key=lambda i: scores[i])`. -/
def order (scores : List ℚ) : List ℕ :=
  (List.range scores.length).insertionSort fun i j => scores.getD i 0 ≤ scores.getD j 0

/-- The loop over the order, from its place `i` on. -/
def assign (scores : List ℚ) (i : ℕ) (rest : List ℕ) (ranks : List ℚ) : List ℚ :=
  match rest with
  | [] => ranks
  | o :: rest =>
    let tied := fun t => decide (scores.getD t 0 = scores.getD o 0)
    let j := i + (rest.takeWhile tied).length
    let avg : ℚ := ((i : ℚ) + j) / 2 + 1
    assign scores (j + 1) (rest.dropWhile tied)
      ((o :: rest.takeWhile tied).foldl (fun ranks t => ranks.set t avg) ranks)
termination_by rest.length
decreasing_by exact Nat.lt_succ_of_le (List.dropWhile_sublist _).length_le

def auc (scores : List ℚ) (labels : List ℤ) : Except EvalError ℚ :=
  let pos := withLabel 1 scores labels
  let neg := withLabel 0 scores labels
  if pos.isEmpty || neg.isEmpty then .error .oneClass
  else
    let ranks := assign scores 0 (order scores) (List.replicate scores.length 0)
    let rankPos := (((List.range scores.length).filter fun i => labels.getD i 0 = 1).map
      fun i => ranks.getD i 0).sum
    .ok ((rankPos - pos.length * (pos.length + 1) / 2) / (pos.length * neg.length))

/-! ## The ranks -/

variable {scores : List ℚ} {labels : List ℤ} {ranks : List ℚ} {rest : List ℕ} {i o t : ℕ} {v : ℚ}

theorem foldl_set (h : ∀ t ∈ rest, t < ranks.length) :
    (rest.foldl (fun ranks t => ranks.set t v) ranks).length = ranks.length ∧
      (rest.foldl (fun ranks t => ranks.set t v) ranks).getD t 0 =
        if t ∈ rest then v else ranks.getD t 0 := by
  induction rest generalizing ranks with
  | nil => simp
  | cons o rest ih =>
    have hset : ∀ t ∈ rest, t < (ranks.set o v).length := fun t ht => by
      rw [List.length_set]
      exact h t (List.mem_cons_of_mem _ ht)
    obtain ⟨hlength, hvalue⟩ := ih hset
    rw [List.length_set] at hlength
    refine ⟨hlength, ?_⟩
    rw [List.foldl_cons, hvalue]
    by_cases hrest : t ∈ rest
    · rw [if_pos hrest, if_pos (List.mem_cons_of_mem _ hrest)]
    · rw [if_neg hrest]
      by_cases hto : t = o
      · subst hto
        rw [if_pos List.mem_cons_self, List.getD_eq_getElem?_getD,
          List.getElem?_set_self (h t List.mem_cons_self)]
        rfl
      · rw [if_neg (by simp [hto, hrest]), List.getD_eq_getElem?_getD,
          List.getElem?_set_ne (Ne.symm hto), ← List.getD_eq_getElem?_getD]

/-- What comes after a group of ties is higher. -/
theorem lt_of_mem_dropWhile
    (hsorted : (o :: rest).Pairwise fun i j => scores.getD i 0 ≤ scores.getD j 0)
    (ht : t ∈ rest.dropWhile fun t => decide (scores.getD t 0 = scores.getD o 0)) :
    scores.getD o 0 < scores.getD t 0 := by
  obtain ⟨hhead, hrest⟩ := List.pairwise_cons.mp hsorted
  induction rest with
  | nil => cases ht
  | cons u rest ih =>
    obtain ⟨hu, hrest⟩ := List.pairwise_cons.mp hrest
    by_cases htie : scores.getD u 0 = scores.getD o 0
    · rw [List.dropWhile_cons, if_pos (decide_eq_true htie)] at ht
      have hhead' : ∀ t ∈ rest, scores.getD o 0 ≤ scores.getD t 0 := fun t ht =>
        hhead t (List.mem_cons_of_mem _ ht)
      exact ih (List.pairwise_cons.mpr ⟨hhead', hrest⟩) ht hhead' hrest
    · rw [List.dropWhile_cons, if_neg (by simpa using htie)] at ht
      have hlt : scores.getD o 0 < scores.getD u 0 :=
        lt_of_le_of_ne (hhead u List.mem_cons_self) (Ne.symm htie)
      rcases List.mem_cons.mp ht with rfl | ht
      · exact hlt
      · exact hlt.trans_le (hu t ht)

/-- The loop gives every row it passes its rank. -/
theorem assign_getD (hnodup : rest.Nodup)
    (hsorted : rest.Pairwise fun i j => scores.getD i 0 ≤ scores.getD j 0)
    (hbound : ∀ t ∈ rest, t < ranks.length) :
    (assign scores i rest ranks).getD t 0 =
      if t ∈ rest then i + midrank (rest.map fun u => scores.getD u 0) (scores.getD t 0)
      else ranks.getD t 0 := by
  fun_induction assign scores i rest ranks with
  | case1 i ranks => simp
  | case2 i ranks o rest tied j avg ih =>
    set ties := rest.takeWhile tied with hties
    set left := rest.dropWhile tied with hleft
    have hsplit : o :: rest = (o :: ties) ++ left := by
      rw [List.cons_append, List.takeWhile_append_dropWhile]
    have htied : ∀ u ∈ o :: ties, scores.getD u 0 = scores.getD o 0 := fun u hu => by
      rcases List.mem_cons.mp hu with rfl | hu
      · rfl
      · have hu : tied u = true := List.mem_takeWhile_imp hu
        exact of_decide_eq_true hu
    have hhigher : ∀ u ∈ left, scores.getD o 0 < scores.getD u 0 := fun u hu =>
      lt_of_mem_dropWhile hsorted hu
    have hj : j = i + ties.length := rfl
    rw [hsplit] at hnodup hsorted hbound ⊢
    obtain ⟨hset, hvalue⟩ := foldl_set (t := t) (v := avg)
      fun u hu => hbound u (List.mem_append_left _ hu)
    rw [ih (List.nodup_append.mp hnodup).2.1 (List.pairwise_append.mp hsorted).2.1
      fun u hu => hset ▸ hbound u (List.mem_append_right _ hu), hvalue, List.map_append]
    by_cases hmem : t ∈ left
    · have hless : ∀ x ∈ (o :: ties).map (fun u => scores.getD u 0), x < scores.getD t 0 := by
        intro x hx
        obtain ⟨u, hu, rfl⟩ := List.mem_map.mp hx
        rw [htied u hu]
        exact hhigher t hmem
      rw [if_pos hmem, if_pos (List.mem_append_right _ hmem), Midranks.midrank_append_of_lt hless,
        List.length_map, List.length_cons, hj]
      push_cast
      ring
    · rw [if_neg hmem]
      by_cases hgroup : t ∈ o :: ties
      · have hequal : ∀ x ∈ (o :: ties).map (fun u => scores.getD u 0), x = scores.getD t 0 := by
          intro x hx
          obtain ⟨u, hu, rfl⟩ := List.mem_map.mp hx
          rw [htied u hu, htied t hgroup]
        have hmore : ∀ x ∈ left.map (fun u => scores.getD u 0), scores.getD t 0 < x := by
          intro x hx
          obtain ⟨u, hu, rfl⟩ := List.mem_map.mp hx
          rw [htied t hgroup]
          exact hhigher u hu
        rw [if_pos hgroup, if_pos (List.mem_append_left _ hgroup),
          Midranks.midrank_append_of_eq hequal hmore, List.length_map, List.length_cons]
        simp only [avg, hj]
        push_cast
        ring
      · rw [if_neg hgroup, if_neg (by simp only [List.mem_append, not_or]; exact ⟨hgroup, hmem⟩)]

theorem order_perm (scores : List ℚ) : (order scores).Perm (List.range scores.length) :=
  List.perm_insertionSort ..

theorem order_pairwise (scores : List ℚ) :
    (order scores).Pairwise fun i j => scores.getD i 0 ≤ scores.getD j 0 :=
  have : IsTrans ℕ fun i j => scores.getD i 0 ≤ scores.getD j 0 := ⟨fun _ _ _ h h' => h.trans h'⟩
  have : Std.Total fun i j : ℕ => scores.getD i 0 ≤ scores.getD j 0 :=
    ⟨fun i j => le_total (scores.getD i 0) (scores.getD j 0)⟩
  List.pairwise_insertionSort ..

theorem map_range_getD (scores : List ℚ) :
    (List.range scores.length).map (fun i => scores.getD i 0) = scores := by
  refine List.ext_getElem (by simp) fun i hi hi' => ?_
  simp [hi']

theorem ranks_getD (ht : t < scores.length) :
    (assign scores 0 (order scores) (List.replicate scores.length 0)).getD t 0 =
      midrank scores (scores.getD t 0) := by
  have hperm := order_perm scores
  have hmem : t ∈ order scores := hperm.mem_iff.mpr (List.mem_range.mpr ht)
  have hscores : ((order scores).map fun i => scores.getD i 0).Perm scores := by
    have hmap := hperm.map fun i => scores.getD i 0
    rwa [map_range_getD] at hmap
  rw [assign_getD (hperm.nodup_iff.mpr List.nodup_range) (order_pairwise scores)
    (fun u hu => by simpa using hperm.mem_iff.mp hu), if_pos hmem, Midranks.midrank_perm hscores]
  simp

/-! ## The statistic -/

theorem zip_eq_map (hlen : scores.length = labels.length) : scores.zip labels =
    (List.range scores.length).map fun i => (scores.getD i 0, labels.getD i 0) := by
  refine List.ext_getElem (by simp [hlen]) fun i hi hi' => ?_
  have hscores : i < scores.length := by simpa using hi'
  have hlabels : i < labels.length := hlen ▸ hscores
  simp [hscores, hlabels]

theorem map_filter_range (hlen : scores.length = labels.length) (label : ℤ) :
    ((List.range scores.length).filter fun i => labels.getD i 0 = label).map
      (fun i => scores.getD i 0) = withLabel label scores labels := by
  rw [withLabel, zip_eq_map hlen, List.filter_map, List.map_map]
  rfl

theorem withLabel_perm (hlen : scores.length = labels.length)
    (h01 : ∀ y ∈ labels, y = 0 ∨ y = 1) :
    scores.Perm (withLabel 1 scores labels ++ withLabel 0 scores labels) := by
  have hrows : ((scores.zip labels).filter fun row => row.2 = 0) =
      (scores.zip labels).filter fun row => !decide (row.2 = 1) := by
    refine List.filter_congr fun row hrow => ?_
    rcases h01 row.2 (List.of_mem_zip hrow).2 with h | h <;> simp [h]
  have hsplit := (List.filter_append_perm (fun row : ℚ × ℤ => decide (row.2 = 1))
    (scores.zip labels)).map Prod.fst
  rw [List.map_append, List.map_fst_zip hlen.le] at hsplit
  rw [withLabel, withLabel, hrows]
  exact hsplit.symm

theorem withLabel_ne_nil (hlen : scores.length = labels.length) {label : ℤ} (h : label ∈ labels) :
    withLabel label scores labels ≠ [] := by
  have hsnd : label ∈ (scores.zip labels).map Prod.snd := by
    rwa [List.map_snd_zip hlen.ge]
  obtain ⟨row, hrow, rfl⟩ := List.mem_map.mp hsnd
  refine List.ne_nil_of_mem (a := row.1) (List.mem_map_of_mem ?_)
  exact List.mem_filter.mpr ⟨hrow, decide_eq_true rfl⟩

/-- The rank sum is the wins of the positives, and so is what is made of it. -/
theorem auc_eq_wins (hlen : scores.length = labels.length) (h01 : ∀ y ∈ labels, y = 0 ∨ y = 1)
    (hpos : 1 ∈ labels) (hneg : 0 ∈ labels) : auc scores labels =
      .ok (wins (withLabel 1 scores labels) (withLabel 0 scores labels) /
        ((withLabel 1 scores labels).length * (withLabel 0 scores labels).length)) := by
  have hone := withLabel_ne_nil hlen hpos
  have hzero := withLabel_ne_nil hlen hneg
  have hranks : ((List.range scores.length).filter fun i => labels.getD i 0 = 1).map
      (fun i => (assign scores 0 (order scores) (List.replicate scores.length 0)).getD i 0) =
        (withLabel 1 scores labels).map (midrank scores) := by
    rw [← map_filter_range hlen, List.map_map]
    refine List.map_congr_left fun i hi => ?_
    exact ranks_getD (List.mem_range.mp (List.mem_of_mem_filter hi))
  have hsum := Midranks.sum_midrank (withLabel_perm hlen h01)
  rw [auc]
  dsimp only
  rw [if_neg (by simp [hone, hzero]), hranks, hsum]
  congr 2
  ring

theorem withLabel_map (f : ℚ → ℚ) (label : ℤ) :
    withLabel label (scores.map f) labels = (withLabel label scores labels).map f := by
  rw [withLabel, withLabel, List.zip_map_left, List.filter_map, List.map_map, List.map_map]
  rfl

/-- The AUC is the share of the pairs of a positive and a negative in which the
positive is higher, ties counting half. -/
theorem auc_mannWhitney (hlen : scores.length = labels.length)
    (h01 : ∀ y ∈ labels, y = 0 ∨ y = 1) (hpos : 1 ∈ labels) (hneg : 0 ∈ labels) :
    let pos := withLabel 1 scores labels
    let neg := withLabel 0 scores labels
    ∃ v : ℚ, auc scores labels = .ok v ∧
      v = (((pos.product neg).countP fun p => decide (p.2 < p.1)) +
        ((pos.product neg).countP fun p => decide (p.2 = p.1)) / 2) / (pos.length * neg.length) ∧
      0 ≤ v ∧ v ≤ 1 ∧
      (∀ scores' labels', scores'.length = labels'.length →
        (scores'.zip labels').Perm (scores.zip labels) → auc scores' labels' = .ok v) ∧
      auc (scores.map fun s => -s) labels = .ok (1 - v) := by
  intro pos neg
  have hpairs : (0 : ℚ) < pos.length * neg.length := by
    have hone := List.length_pos_of_ne_nil (withLabel_ne_nil hlen hpos)
    have hzero := List.length_pos_of_ne_nil (withLabel_ne_nil hlen hneg)
    exact mul_pos (Nat.cast_pos.mpr hone) (Nat.cast_pos.mpr hzero)
  refine ⟨_, auc_eq_wins hlen h01 hpos hneg, ?_, ?_, ?_, ?_, ?_⟩
  · rw [Midranks.wins_eq_count]
  · exact div_nonneg (Midranks.wins_nonneg _ _) hpairs.le
  · exact (div_le_one hpairs).mpr (Midranks.wins_le _ _)
  · intro scores' labels' hlen' hperm
    have hlabels : labels'.Perm labels := by
      have hsnd := hperm.map Prod.snd
      rwa [List.map_snd_zip hlen'.ge, List.map_snd_zip hlen.ge] at hsnd
    have hwith : ∀ label, (withLabel label scores' labels').Perm (withLabel label scores labels) :=
      fun label => (hperm.filter _).map Prod.fst
    rw [auc_eq_wins hlen' (fun y hy => h01 y (hlabels.mem_iff.mp hy)) (hlabels.mem_iff.mpr hpos)
      (hlabels.mem_iff.mpr hneg), Midranks.wins_perm (hwith 1) (hwith 0), (hwith 1).length_eq,
      (hwith 0).length_eq]
  · have hanti : StrictAnti fun s : ℚ => -s := fun _ _ h => neg_lt_neg h
    rw [auc_eq_wins (by simpa using hlen) h01 hpos hneg, withLabel_map, withLabel_map,
      Midranks.wins_anti hanti, List.length_map, List.length_map, sub_div, div_self hpairs.ne']

theorem auc_mannWhitney_tied : ∃ v, auc [1, 1, 2] [0, 1, 1] = .ok v := by
  obtain ⟨v, hv, -⟩ := @auc_mannWhitney [1, 1, 2] [0, 1, 1] rfl (by decide) (by decide) (by decide)
  exact ⟨v, hv⟩

end MlopsLite.Gateway.Scorers
