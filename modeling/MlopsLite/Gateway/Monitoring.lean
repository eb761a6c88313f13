import MlopsLite.Lib.Stability

/-!
# Monitoring — drift by the stability index

`psi` (`gateway/app/monitoring.py`): the reference's deciles as the edges of the
bins, the shares of both samples, and the index. A bin holds what is at most its
edge, so the first one takes in all that is below the reference; what the
reference has above its first decile is what such a shift leaves empty. Logarithms
are exact.
-/

namespace MlopsLite.Gateway.Monitoring

open Stability (term single)

/-! ## The code -/

/-- `int(round(q / bins * n))`: a nearest integer. Which one at a tie is up to the
float product. -/
structure Places where
  place : ℕ → ℕ → ℕ
  near : ∀ q n, |(place q n : ℚ) - q * n / 10| ≤ 1 / 2

def refSorted (ref : List ℚ) : List ℚ := ref.insertionSort (· ≤ ·)

variable (p : Places) (ref cur : List ℚ)

/-- The place of a decile in the sorted reference. -/
def index (q : ℕ) : ℕ := min (ref.length - 1) (p.place q ref.length)

def decile (q : ℕ) : ℚ := (refSorted ref).getD (index p ref q) 0

def edges : List ℚ :=
  (((List.range 9).map fun q => decile p ref (q + 1)).dedup).insertionSort (· ≤ ·)

def bucket (edges : List ℚ) (x : ℚ) : ℕ := edges.findIdx fun e => decide (x ≤ e)

def counts (edges data : List ℚ) : List ℕ :=
  data.foldl (fun counts x => counts.modify (bucket edges x) (· + 1))
    (List.replicate (edges.length + 1) 0)

def dist (edges data : List ℚ) : List ℚ :=
  (counts edges data).map fun (c : ℕ) => (c : ℚ) / (if data.length = 0 then 1 else data.length : ℕ)

noncomputable def eps : ℝ := 1 / 1000000

noncomputable def psi : ℝ :=
  if ref.length < 2 then 0
  else (((dist (edges p ref) ref).zip (dist (edges p ref) cur)).map fun s =>
    term eps s.2 s.1).sum

/-- `DEFAULT_THRESHOLD`. -/
noncomputable def threshold : ℝ := 0.25

/-! ## What it is for -/

def Above : Prop := ∀ x ∈ cur, ∀ y ∈ ref, y < x

def Below : Prop := ∀ x ∈ cur, ∀ y ∈ ref, x < y

/-- The index finds a disjoint shift, is not negative, and 0 for equal shares. -/
structure Sound : Prop where
  detects : 2 ≤ ref.length → cur ≠ [] → Above ref cur ∨ Below ref cur → threshold ≤ psi p ref cur
  nonneg : 0 ≤ psi p ref cur
  same : dist (edges p ref) ref = dist (edges p ref) cur → psi p ref cur = 0

/-- How much of the reference is above its first decile. -/
def shareAbove : ℚ := (ref.countP fun x => decide (decile p ref 1 < x)) / ref.length

/-- The least such share whose loss reaches the threshold in two bins. -/
noncomputable def cut : ℝ := sInf {s | s ∈ Set.Icc 0 1 ∧ threshold ≤ single eps s}

variable {p ref cur} {x : ℚ} {q q' b : ℕ} {es data : List ℚ}

/-! ## The cut -/

theorem eps_pos : 0 < eps := by norm_num [eps]

theorem single_low : single eps (1 / 41) < threshold := by
  have hexp : (1 + eps) / (1 - 1 / 41 + eps) * ((1 / 41 + eps) / eps) < Real.exp (41 / 4) := by
    have hsplit : Real.exp (41 / 4) = Real.exp 1 ^ 10 * Real.exp (1 / 4) := by
      rw [← Real.exp_nat_mul, ← Real.exp_add]
      norm_num
    have hten : (2.7182818283 : ℝ) ^ 10 ≤ Real.exp 1 ^ 10 :=
      pow_le_pow_left₀ (by norm_num) Real.exp_one_gt_d9.le 10
    have hquarter : (1 : ℝ) / 4 + 1 ≤ Real.exp (1 / 4) := Real.add_one_le_exp _
    rw [hsplit]
    calc (1 + eps) / (1 - 1 / 41 + eps) * ((1 / 41 + eps) / eps)
        < (2.7182818283 : ℝ) ^ 10 * (1 / 4 + 1) := by norm_num [eps]
      _ ≤ Real.exp 1 ^ 10 * Real.exp (1 / 4) := by gcongr
  have hpos : 0 < (1 + eps) / (1 - 1 / 41 + eps) * ((1 / 41 + eps) / eps) := by norm_num [eps]
  have hlog := (Real.log_lt_iff_lt_exp hpos).mpr hexp
  rw [Real.log_mul (by norm_num [eps]) (by norm_num [eps])] at hlog
  rw [Stability.single_eq eps_pos (by norm_num), threshold]
  linarith

theorem single_high : threshold < single eps (1 / 40) := by
  have hexp : Real.exp 10 < (1 + eps) / (1 - 1 / 40 + eps) * ((1 / 40 + eps) / eps) := by
    have hsplit : Real.exp 10 = Real.exp 1 ^ 10 := by
      rw [← Real.exp_nat_mul]
      norm_num
    have hten : Real.exp 1 ^ 10 ≤ (2.7182818286 : ℝ) ^ 10 :=
      pow_le_pow_left₀ (Real.exp_pos 1).le Real.exp_one_lt_d9.le 10
    rw [hsplit]
    exact hten.trans_lt (by norm_num [eps])
  have hpos : 0 < (1 + eps) / (1 - 1 / 40 + eps) * ((1 / 40 + eps) / eps) := by norm_num [eps]
  have hlog := (Real.lt_log_iff_exp_lt hpos).mpr hexp
  rw [Real.log_mul (by norm_num [eps]) (by norm_num [eps])] at hlog
  rw [Stability.single_eq eps_pos (by norm_num), threshold]
  linarith

theorem cut_spec : 1 / 41 < cut ∧ cut < 1 / 40 ∧
    ∀ s ∈ Set.Icc (0 : ℝ) 1, threshold ≤ single eps s ↔ cut ≤ s := by
  obtain ⟨s₀, hlow, hhigh, hcut⟩ := Stability.exists_cut eps_pos (by norm_num) (by norm_num)
    (by norm_num) single_low single_high
  have hset : {s | s ∈ Set.Icc (0 : ℝ) 1 ∧ threshold ≤ single eps s} = Set.Icc s₀ 1 := by
    ext s
    constructor
    · rintro ⟨hs, hle⟩
      exact ⟨(hcut s hs).mp hle, hs.2⟩
    · rintro ⟨hle, hone⟩
      have hs : s ∈ Set.Icc (0 : ℝ) 1 := ⟨by linarith, hone⟩
      exact ⟨hs, (hcut s hs).mpr hle⟩
  have heq : cut = s₀ := by
    rw [cut, hset]
    exact csInf_Icc (by linarith)
  rw [heq]
  exact ⟨hlow, hhigh, hcut⟩

/-- A bin with a tenth of the reference that takes the whole current sample. -/
theorem one_bin {r : ℝ} (hr : 0 ≤ r) (hle : r ≤ 1 / 10) : threshold ≤ term eps 1 r := by
  have hexp : Real.exp 1 ≤ (1 + eps) / (r + eps) := by
    have hpos : 0 < r + eps := by linarith [eps_pos]
    rw [le_div_iff₀ hpos]
    have hmul : Real.exp 1 * (r + eps) ≤ 3 * (1 / 10 + eps) :=
      mul_le_mul (Real.exp_one_lt_d9.le.trans (by norm_num)) (by linarith) hpos.le (by norm_num)
    exact hmul.trans (by norm_num [eps])
  have hlog : 1 ≤ Real.log ((1 + eps) / (r + eps)) :=
    (Real.le_log_iff_exp_le ((Real.exp_pos 1).trans_le hexp)).mpr hexp
  have hmul : (9 : ℝ) / 10 * 1 ≤ (1 - r) * Real.log ((1 + eps) / (r + eps)) :=
    mul_le_mul (by linarith) hlog zero_le_one (by linarith)
  rw [term, threshold]
  linarith

theorem six_le_log : 6 ≤ Real.log (1 / 1000 / eps) := by
  have hexp : Real.exp 6 ≤ 1 / 1000 / eps := by
    have hsplit : Real.exp 6 = Real.exp 1 ^ 6 := by
      rw [← Real.exp_nat_mul]
      norm_num
    have hsix : Real.exp 1 ^ 6 ≤ (2.7182818286 : ℝ) ^ 6 :=
      pow_le_pow_left₀ (Real.exp_pos 1).le Real.exp_one_lt_d9.le 6
    rw [hsplit]
    exact hsix.trans (by norm_num [eps])
  exact (Real.le_log_iff_exp_le ((Real.exp_pos 6).trans_le hexp)).mpr hexp

/-! ## Shares -/

/-- The share of a sample in a bin. -/
def share (es data : List ℚ) (b : ℕ) : ℚ :=
  (data.countP fun x => decide (bucket es x = b)) / (if data.length = 0 then 1 else data.length : ℕ)

theorem bucket_le (es : List ℚ) (x : ℚ) : bucket es x ≤ es.length := List.findIdx_le_length

theorem foldl_modify (es data : List ℚ) (init : List ℕ) :
    (data.foldl (fun counts x => counts.modify (bucket es x) (· + 1)) init).length = init.length ∧
      ∀ b < init.length,
        (data.foldl (fun counts x => counts.modify (bucket es x) (· + 1)) init).getD b 0 =
          init.getD b 0 + data.countP fun x => decide (bucket es x = b) := by
  induction data generalizing init with
  | nil => exact ⟨rfl, fun _ _ => rfl⟩
  | cons x data ih =>
    obtain ⟨hlength, hvalue⟩ := ih (init.modify (bucket es x) (· + 1))
    rw [List.length_modify] at hlength hvalue
    refine ⟨hlength, fun b hb => ?_⟩
    rw [List.foldl_cons, hvalue b hb, List.countP_cons, List.getD_eq_getElem?_getD,
      List.getElem?_modify, List.getD_eq_getElem?_getD, List.getElem?_eq_getElem hb]
    by_cases heq : bucket es x = b
    · simp [heq]
      omega
    · simp [heq]

theorem dist_eq (es data : List ℚ) : dist es data =
    (List.range (es.length + 1)).map (share es data) := by
  obtain ⟨hlength, hvalue⟩ := foldl_modify es data (List.replicate (es.length + 1) 0)
  rw [List.length_replicate] at hlength hvalue
  have hcounts : counts es data = (List.range (es.length + 1)).map fun b =>
      data.countP fun x => decide (bucket es x = b) := by
    refine List.ext_getElem (by rw [counts, hlength]; simp) fun b hb hb' => ?_
    have hlt : b < es.length + 1 := by simpa using hb'
    have h := hvalue b hlt
    rw [List.getD_eq_getElem?_getD, List.getElem?_eq_getElem (by rwa [hlength])] at h
    simpa [counts] using h
  rw [dist, hcounts, List.map_map]
  rfl

theorem psi_eq (h : 2 ≤ ref.length) : psi p ref cur =
    ∑ b ∈ Finset.range ((edges p ref).length + 1),
      term eps (share (edges p ref) cur b) (share (edges p ref) ref b) := by
  rw [psi, if_neg (not_lt.mpr h), dist_eq, dist_eq, List.zip_map', List.map_map]
  rfl

theorem share_nonneg (es data : List ℚ) (b : ℕ) : (0 : ℝ) ≤ share es data b := by
  have h : 0 ≤ share es data b := div_nonneg (Nat.cast_nonneg _) (Nat.cast_nonneg _)
  exact_mod_cast h

/-- Every value is in one of the bins. -/
theorem sum_countP {k : ℕ} {f : ℚ → ℕ} (hf : ∀ x, f x < k) (data : List ℚ) :
    ∑ b ∈ Finset.range k, (data.countP fun x => decide (f x = b)) = data.length := by
  induction data with
  | nil => simp
  | cons x data ih =>
    have hone : ∑ b ∈ Finset.range k, (if f x = b then 1 else 0) = 1 := by
      rw [Finset.sum_ite_eq, if_pos (Finset.mem_range.mpr (hf x))]
    simp only [List.countP_cons, decide_eq_true_eq]
    rw [Finset.sum_add_distrib, ih, hone, List.length_cons]

theorem share_eq (hdata : data ≠ []) (es : List ℚ) (b : ℕ) :
    share es data b = (data.countP fun x => decide (bucket es x = b)) / data.length := by
  have hlength : data.length ≠ 0 := fun h => hdata (List.length_eq_zero_iff.mp h)
  rw [share, if_neg hlength]

theorem sum_share (hdata : data ≠ []) (es : List ℚ) :
    ∑ b ∈ Finset.range (es.length + 1), share es data b = 1 := by
  have hlength : (data.length : ℚ) ≠ 0 := fun h =>
    hdata (List.length_eq_zero_iff.mp (Nat.cast_eq_zero.mp h))
  have hsum := sum_countP (fun x => Nat.lt_succ_of_le (bucket_le es x)) data
  simp only [share_eq hdata]
  rw [← Finset.sum_div, ← Nat.cast_sum, hsum, div_self hlength]

/-- A sample that is all in one bin. -/
theorem share_all (hdata : data ≠ []) (h : ∀ x ∈ data, bucket es x = b) (b' : ℕ) :
    share es data b' = if b' = b then 1 else 0 := by
  have hlength : (data.length : ℚ) ≠ 0 := fun h =>
    hdata (List.length_eq_zero_iff.mp (Nat.cast_eq_zero.mp h))
  rw [share_eq hdata]
  by_cases heq : b' = b
  · have hall : (data.countP fun x => decide (bucket es x = b')) = data.length :=
      List.countP_eq_length.mpr fun x hx => decide_eq_true ((h x hx).trans heq.symm)
    rw [if_pos heq, hall, div_self hlength]
  · have hnone : (data.countP fun x => decide (bucket es x = b')) = 0 :=
      List.countP_eq_zero.mpr fun x hx => by simpa [h x hx] using Ne.symm heq
    rw [if_neg heq, hnone, Nat.cast_zero, zero_div]

/-! ## Edges -/

theorem refSorted_perm : (refSorted ref).Perm ref := List.perm_insertionSort ..

theorem refSorted_pairwise : (refSorted ref).Pairwise (· ≤ ·) := List.pairwise_insertionSort ..

theorem index_lt (href : ref ≠ []) (q : ℕ) : index p ref q < (refSorted ref).length := by
  have hpos := List.length_pos_of_ne_nil href
  rw [refSorted_perm.length_eq, index]
  omega

theorem decile_eq (href : ref ≠ []) (q : ℕ) :
    decile p ref q = (refSorted ref).get ⟨index p ref q, index_lt href q⟩ := by
  rw [decile, List.getD_eq_getElem?_getD, List.getElem?_eq_getElem (index_lt href q)]
  rfl

theorem decile_mem (href : ref ≠ []) (q : ℕ) : decile p ref q ∈ ref := by
  rw [decile_eq href]
  exact refSorted_perm.mem_iff.mp (List.get_mem _ _)

/-- Nearest integers do not pass each other. -/
theorem index_mono (href : ref ≠ []) (h : q < q') : index p ref q ≤ index p ref q' := by
  have hpos : (1 : ℚ) ≤ ref.length := by
    exact_mod_cast List.length_pos_of_ne_nil href
  have hq := abs_le.mp (p.near q ref.length)
  have hq' := abs_le.mp (p.near q' ref.length)
  have hstep : (q : ℚ) + 1 ≤ q' := by exact_mod_cast h
  have hgap : (q : ℚ) * ref.length / 10 < q' * ref.length / 10 := by
    have hmul := mul_le_mul_of_nonneg_right hstep (zero_le_one.trans hpos)
    linarith
  have hlt : (p.place q ref.length : ℚ) < p.place q' ref.length + 1 := by
    linarith [hq.2, hq'.1]
  have hle : p.place q ref.length < p.place q' ref.length + 1 := by exact_mod_cast hlt
  rw [index, index]
  omega

theorem decile_mono (href : ref ≠ []) (h : q ≤ q') : decile p ref q ≤ decile p ref q' := by
  rcases h.eq_or_lt with rfl | hlt
  · exact le_rfl
  · rw [decile_eq href, decile_eq href]
    exact refSorted_pairwise.rel_get_of_le (index_mono href hlt)

theorem mem_edges {e : ℚ} : e ∈ edges p ref ↔ ∃ q, 1 ≤ q ∧ q ≤ 9 ∧ decile p ref q = e := by
  rw [edges, List.mem_insertionSort, List.mem_dedup, List.mem_map]
  constructor
  · rintro ⟨q, hq, rfl⟩
    have hlt := List.mem_range.mp hq
    exact ⟨q + 1, by omega, by omega, rfl⟩
  · rintro ⟨q, hone, hnine, rfl⟩
    exact ⟨q - 1, List.mem_range.mpr (by omega), by rw [Nat.sub_add_cancel hone]⟩

theorem edges_length_le : (edges p ref).length ≤ 9 := by
  rw [edges, List.length_insertionSort]
  exact (List.dedup_sublist _).length_le.trans (by simp)

theorem edges_pairwise (p : Places) (ref : List ℚ) : (edges p ref).Pairwise (· ≤ ·) := List.pairwise_insertionSort ..

theorem edges_nodup (p : Places) (ref : List ℚ) : (edges p ref).Nodup :=
  (List.perm_insertionSort _ _).nodup_iff.mpr (List.nodup_dedup _)

theorem edges_ne_nil (p : Places) (ref : List ℚ) : edges p ref ≠ [] :=
  List.ne_nil_of_mem (mem_edges.mpr ⟨1, le_rfl, by omega, rfl⟩)

/-- The first bin is what is at most the first decile. -/
theorem bucket_eq_zero (href : ref ≠ []) : bucket (edges p ref) x = 0 ↔ x ≤ decile p ref 1 := by
  obtain ⟨e, es, hes⟩ := List.exists_cons_of_ne_nil (edges_ne_nil p ref)
  have hfirst : e = decile p ref 1 := by
    have hmem : decile p ref 1 ∈ e :: es := hes ▸ mem_edges.mpr ⟨1, le_rfl, by omega, rfl⟩
    obtain ⟨q, hone, -, hq⟩ := mem_edges.mp (hes ▸ List.mem_cons_self : e ∈ edges p ref)
    refine le_antisymm ?_ (hq ▸ decile_mono href hone)
    rcases List.mem_cons.mp hmem with h | h
    · exact h.ge
    · exact (List.pairwise_cons.mp (hes ▸ edges_pairwise p ref)).1 _ h
  rw [bucket, hes, List.findIdx_cons, hfirst]
  by_cases h : x ≤ decile p ref 1
  · simp [h]
  · simp [h]

/-- The last bin is what is above the last one. -/
theorem bucket_eq_length (href : ref ≠ []) :
    bucket (edges p ref) x = (edges p ref).length ↔ decile p ref 9 < x := by
  rw [bucket, List.findIdx_eq_length]
  constructor
  · intro h
    have hlast := h _ (mem_edges.mpr ⟨9, by omega, le_rfl, rfl⟩)
    simpa using hlast
  · intro h e he
    obtain ⟨q, -, hnine, rfl⟩ := mem_edges.mp he
    simpa using (decile_mono href hnine).trans_lt h

/-! ## How much lies beyond an edge -/

theorem countP_refSorted (ref : List ℚ) (f : ℚ → Bool) : ref.countP f = (refSorted ref).countP f :=
  refSorted_perm.countP_eq f |>.symm

/-- What is above the last decile comes after its place. -/
theorem countP_above_le (href : ref ≠ []) :
    (ref.countP fun x => decide (decile p ref 9 < x)) + index p ref 9 + 1 ≤ ref.length := by
  have hindex := index_lt (p := p) href 9
  have hlength : (refSorted ref).length = ref.length := refSorted_perm.length_eq
  have hsplit := List.take_append_drop (index p ref 9 + 1) (refSorted ref)
  have hnone : ((refSorted ref).take (index p ref 9 + 1)).countP
      (fun x => decide (decile p ref 9 < x)) = 0 := by
    refine List.countP_eq_zero.mpr fun x hx => ?_
    obtain ⟨i, hi, rfl⟩ := List.mem_iff_getElem.mp hx
    have hi' : i ≤ index p ref 9 ∧ i < (refSorted ref).length := by
      rw [List.length_take] at hi
      omega
    have hle : (⟨i, hi'.2⟩ : Fin _) ≤ ⟨index p ref 9, hindex⟩ := hi'.1
    rw [List.getElem_take, decile_eq href]
    simpa using refSorted_pairwise.rel_get_of_le hle
  have hcount := countP_refSorted ref fun x => decide (decile p ref 9 < x)
  rw [← hsplit, List.countP_append, hnone, Nat.zero_add] at hcount
  have hdrop := List.countP_le_length (p := fun x => decide (decile p ref 9 < x))
    (l := (refSorted ref).drop (index p ref 9 + 1))
  rw [List.length_drop] at hdrop
  omega

/-- What is not before the last decile is above the first, if that is lower. -/
theorem le_countP_above (href : ref ≠ []) (h : decile p ref 1 < decile p ref 9) :
    ref.length ≤ (ref.countP fun x => decide (decile p ref 1 < x)) + index p ref 9 := by
  have hlength : (refSorted ref).length = ref.length := refSorted_perm.length_eq
  have hsplit := List.take_append_drop (index p ref 9) (refSorted ref)
  have hall : ((refSorted ref).drop (index p ref 9)).countP
      (fun x => decide (decile p ref 1 < x)) = ((refSorted ref).drop (index p ref 9)).length := by
    refine List.countP_eq_length.mpr fun x hx => decide_eq_true ?_
    obtain ⟨i, hi, rfl⟩ := List.mem_iff_getElem.mp hx
    rw [List.getElem_drop]
    refine h.trans_le ?_
    rw [decile_eq href]
    exact refSorted_pairwise.rel_get_of_le (Nat.le_add_right _ _)
  have hcount := countP_refSorted ref fun x => decide (decile p ref 1 < x)
  rw [← hsplit, List.countP_append, hall, List.length_drop] at hcount
  omega

theorem index_nine (href : ref ≠ []) : (index p ref 9 : ℚ) + 1 ≤ ref.length ∧
    (index p ref 9 : ℚ) ≤ 9 * ref.length / 10 + 1 / 2 ∧
      ((index p ref 9 : ℚ) + 1 = ref.length ∨ 9 * (ref.length : ℚ) / 10 - 1 / 2 ≤ index p ref 9) := by
  have hpos := List.length_pos_of_ne_nil href
  have hnear := abs_le.mp (p.near 9 ref.length)
  push_cast at hnear
  have hle : index p ref 9 ≤ p.place 9 ref.length := min_le_right _ _
  have hsucc : index p ref 9 + 1 ≤ ref.length := by
    rw [index]
    omega
  have hle' : (index p ref 9 : ℚ) ≤ p.place 9 ref.length := by exact_mod_cast hle
  refine ⟨by exact_mod_cast hsucc, by linarith [hnear.2], ?_⟩
  rcases min_choice (ref.length - 1) (p.place 9 ref.length) with h | h
  · left
    have heq : index p ref 9 + 1 = ref.length := by
      rw [index, h]
      omega
    exact_mod_cast heq
  · right
    rw [index, h]
    linarith [hnear.1]

/-! ## The two shifts -/

theorem share_last_le (href : ref ≠ []) :
    share (edges p ref) ref (edges p ref).length ≤ 1 / 10 := by
  have hpos : (0 : ℚ) < ref.length := by exact_mod_cast List.length_pos_of_ne_nil href
  have hcount : (ref.countP fun x => decide (bucket (edges p ref) x = (edges p ref).length)) =
      ref.countP fun x => decide (decile p ref 9 < x) :=
    List.countP_congr fun x _ => by simp only [bucket_eq_length href]
  have hle : ((ref.countP fun x => decide (decile p ref 9 < x) : ℕ) : ℚ) + index p ref 9 + 1 ≤
      ref.length := by exact_mod_cast countP_above_le href
  obtain ⟨-, -, hindex⟩ := index_nine (p := p) href
  rw [share_eq href, hcount, div_le_iff₀ hpos]
  rcases hindex with h | h <;> linarith

theorem shareAbove_eq (href : ref ≠ []) : shareAbove p ref = 1 - share (edges p ref) ref 0 := by
  have hlength : (ref.length : ℚ) ≠ 0 := fun h =>
    href (List.length_eq_zero_iff.mp (Nat.cast_eq_zero.mp h))
  have hcount : (ref.countP fun x => decide (bucket (edges p ref) x = 0)) =
      ref.countP fun x => decide (x ≤ decile p ref 1) :=
    List.countP_congr fun x _ => by simp only [bucket_eq_zero href]
  have hsplit := List.length_eq_countP_add_countP (fun x => decide (decile p ref 1 < x)) (l := ref)
  have hsplit' : (ref.length : ℚ) = (ref.countP fun x => decide (decile p ref 1 < x) : ℕ) +
      (ref.countP fun x => decide (x ≤ decile p ref 1) : ℕ) := by
    rw [← Nat.cast_add]
    congr 1
    simpa using hsplit
  rw [shareAbove, share_eq href, hcount, eq_sub_iff_add_eq, ← add_div, ← hsplit', div_self hlength]

theorem shareAbove_mem (href : ref ≠ []) : (shareAbove p ref : ℝ) ∈ Set.Icc (0 : ℝ) 1 := by
  have hpos : (0 : ℚ) < ref.length := by exact_mod_cast List.length_pos_of_ne_nil href
  have hle : ((ref.countP fun x => decide (decile p ref 1 < x) : ℕ) : ℚ) ≤ ref.length := by
    exact_mod_cast List.countP_le_length
  have hnonneg : 0 ≤ shareAbove p ref := div_nonneg (Nat.cast_nonneg _) hpos.le
  have hone : shareAbove p ref ≤ 1 := (div_le_one hpos).mpr hle
  exact ⟨by exact_mod_cast hnonneg, by exact_mod_cast hone⟩

/-- A reference with two edges has a fifteenth of it above the first one. -/
theorem le_shareAbove (href : ref ≠ []) (h : decile p ref 1 < decile p ref 9) :
    1 / 15 ≤ shareAbove p ref := by
  have hpos : (0 : ℚ) < ref.length := by exact_mod_cast List.length_pos_of_ne_nil href
  have hle : (ref.length : ℚ) ≤ (ref.countP fun x => decide (decile p ref 1 < x) : ℕ) +
      index p ref 9 := by exact_mod_cast le_countP_above href h
  obtain ⟨hlast, hindex, -⟩ := index_nine (p := p) href
  rw [shareAbove, le_div_iff₀ hpos]
  rcases le_or_gt (ref.length : ℚ) 15 with hfew | hmany <;> linarith

theorem psi_nonneg : 0 ≤ psi p ref cur := by
  rcases Nat.lt_or_ge ref.length 2 with h | h
  · rw [psi, if_pos h]
  · rw [psi_eq h]
    exact Finset.sum_nonneg fun b _ =>
      Stability.term_nonneg eps_pos (share_nonneg _ _ _) (share_nonneg _ _ _)

theorem psi_same (h : dist (edges p ref) ref = dist (edges p ref) cur) : psi p ref cur = 0 := by
  unfold psi
  split
  · rfl
  · rw [← h]
    refine List.sum_eq_zero fun x hx => ?_
    obtain ⟨s, hs, rfl⟩ := List.mem_map.mp hx
    obtain ⟨i, hi, rfl⟩ := List.mem_iff_getElem.mp hs
    rw [List.getElem_zip]
    exact Stability.term_self _ _

/-- What is above the reference is all in the last bin, with at most a tenth of it. -/
theorem detects_above (h : 2 ≤ ref.length) (hcur : cur ≠ []) (habove : Above ref cur) :
    threshold ≤ psi p ref cur := by
  have href : ref ≠ [] := List.ne_nil_of_length_pos (by omega)
  have hall : ∀ x ∈ cur, bucket (edges p ref) x = (edges p ref).length := fun x hx =>
    (bucket_eq_length href).mpr (habove x hx _ (decile_mem href 9))
  have hshare := share_all hcur hall (edges p ref).length
  rw [if_pos rfl] at hshare
  have hlast : (share (edges p ref) ref (edges p ref).length : ℝ) ≤ 1 / 10 := by
    have hle := (Rat.cast_le (K := ℝ)).mpr (share_last_le (p := p) href)
    push_cast at hle
    exact hle
  have hbin : threshold ≤ term eps (share (edges p ref) cur (edges p ref).length)
      (share (edges p ref) ref (edges p ref).length) := by
    rw [hshare, Rat.cast_one]
    exact one_bin (share_nonneg _ _ _) hlast
  have hterms : ∀ b ∈ Finset.range ((edges p ref).length + 1),
      0 ≤ term eps (share (edges p ref) cur b) (share (edges p ref) ref b) := fun b _ =>
    Stability.term_nonneg eps_pos (share_nonneg _ _ _) (share_nonneg _ _ _)
  have hone := Finset.single_le_sum hterms (Finset.self_mem_range_succ _)
  rw [psi_eq h]
  exact hbin.trans hone

/-- What is below the reference is all in the first bin. -/
theorem psi_below (h : 2 ≤ ref.length) (hcur : cur ≠ []) (hbelow : Below ref cur) :
    psi p ref cur = term eps 1 (1 - shareAbove p ref) +
      ∑ b ∈ Finset.range (edges p ref).length, term eps 0 (share (edges p ref) ref (b + 1)) := by
  have href : ref ≠ [] := List.ne_nil_of_length_pos (by omega)
  have hall : ∀ x ∈ cur, bucket (edges p ref) x = 0 := fun x hx =>
    (bucket_eq_zero href).mpr (hbelow x hx _ (decile_mem href 1)).le
  have hfirst : (share (edges p ref) ref 0 : ℝ) = 1 - shareAbove p ref := by
    rw [shareAbove_eq href]
    push_cast
    ring
  have hzero : share (edges p ref) cur 0 = 1 := by
    rw [share_all hcur hall, if_pos rfl]
  have hrest : ∀ b, share (edges p ref) cur (b + 1) = 0 := fun b => by
    rw [share_all hcur hall, if_neg (Nat.succ_ne_zero b)]
  rw [psi_eq h, Finset.sum_range_succ', add_comm, ← hfirst]
  simp only [hzero, hrest, Rat.cast_one, Rat.cast_zero]

theorem sum_share_rest (href : ref ≠ []) :
    ∑ b ∈ Finset.range (edges p ref).length, (share (edges p ref) ref (b + 1) : ℝ) =
      shareAbove p ref := by
  have hsum := sum_share href (edges p ref)
  rw [Finset.sum_range_succ', ← eq_sub_iff_add_eq, ← shareAbove_eq href] at hsum
  exact_mod_cast hsum

/-- With two edges enough is left empty. -/
theorem detects_below_of_lt (h : 2 ≤ ref.length) (hcur : cur ≠ []) (hbelow : Below ref cur)
    (hlt : decile p ref 1 < decile p ref 9) : threshold ≤ psi p ref cur := by
  have href : ref ≠ [] := List.ne_nil_of_length_pos (by omega)
  have hfirst : 0 ≤ term eps 1 (1 - shareAbove p ref) :=
    Stability.term_nonneg eps_pos zero_le_one (sub_nonneg.mpr (shareAbove_mem href).2)
  have hrest : ∀ b ∈ Finset.range (edges p ref).length,
      (share (edges p ref) ref (b + 1) : ℝ) * Real.log (1 / 1000 / eps) - 1 / 1000 ≤
        term eps 0 (share (edges p ref) ref (b + 1)) := fun b _ =>
    Stability.le_term_zero eps_pos (by norm_num) (share_nonneg _ _ _)
  have hsum := Finset.sum_le_sum hrest
  rw [Finset.sum_sub_distrib, ← Finset.sum_mul, sum_share_rest href, Finset.sum_const,
    Finset.card_range, nsmul_eq_mul] at hsum
  have hedges : ((edges p ref).length : ℝ) ≤ 9 := by exact_mod_cast edges_length_le
  have hshare : (1 : ℝ) / 15 ≤ shareAbove p ref := by
    have hle := (Rat.cast_le (K := ℝ)).mpr (le_shareAbove href hlt)
    push_cast at hle
    exact hle
  have hmul : (1 : ℝ) / 15 * 6 ≤ shareAbove p ref * Real.log (1 / 1000 / eps) :=
    mul_le_mul hshare six_le_log (by norm_num) (by linarith)
  rw [psi_below h hcur hbelow, threshold]
  linarith

/-- With one edge there are two bins. -/
theorem psi_below_of_eq (h : 2 ≤ ref.length) (hcur : cur ≠ []) (hbelow : Below ref cur)
    (heq : decile p ref 1 = decile p ref 9) : psi p ref cur = single eps (shareAbove p ref) := by
  have href : ref ≠ [] := List.ne_nil_of_length_pos (by omega)
  have hone : (edges p ref).length = 1 := by
    have hsame : ∀ e ∈ edges p ref, e = decile p ref 1 := by
      intro e he
      obtain ⟨q, hq, hnine, rfl⟩ := mem_edges.mp he
      exact le_antisymm ((decile_mono href hnine).trans heq.ge) (decile_mono href hq)
    obtain ⟨e, es, hes⟩ := List.exists_cons_of_ne_nil (edges_ne_nil p ref)
    have hnodup := hes ▸ edges_nodup p ref
    rw [hes] at hsame ⊢
    cases es with
    | nil => rfl
    | cons e' es =>
      have hsame' := (hsame e List.mem_cons_self).trans (hsame e' (by simp)).symm
      exact absurd hsame' (by simpa using (List.nodup_cons.mp hnodup).1 ∘ fun h => by simp [h])
  have hrest := sum_share_rest (p := p) href
  rw [hone, Finset.sum_range_one] at hrest
  rw [psi_below h hcur hbelow, hone, Finset.sum_range_one, hrest, single]

/-- The index is sound on two samples exactly unless the current one lies below the
reference and too little of the reference is above its first decile: the least share
that is enough is between 1/41 and 1/40. -/
theorem detects_iff (p : Places) (ref cur : List ℚ) : 1 / 41 < cut ∧ cut < 1 / 40 ∧
    (Sound p ref cur ↔
      (2 ≤ ref.length → cur ≠ [] → Below ref cur → cut ≤ shareAbove p ref)) := by
  obtain ⟨hlow, hhigh, hcut⟩ := cut_spec
  refine ⟨hlow, hhigh, fun hsound h hcur hbelow => ?_, fun hcond => ⟨?_, psi_nonneg, psi_same⟩⟩
  · have href : ref ≠ [] := List.ne_nil_of_length_pos (by omega)
    have hdetects := hsound.detects h hcur (Or.inr hbelow)
    rcases (decile_mono (p := p) href (show 1 ≤ 9 by omega)).eq_or_lt with heq | hlt
    · rw [psi_below_of_eq h hcur hbelow heq] at hdetects
      exact (hcut _ (shareAbove_mem href)).mp hdetects
    · have hle := (Rat.cast_le (K := ℝ)).mpr (le_shareAbove href hlt)
      push_cast at hle
      linarith
  · rintro h hcur (habove | hbelow)
    · exact detects_above h hcur habove
    · have href : ref ≠ [] := List.ne_nil_of_length_pos (by omega)
      rcases (decile_mono (p := p) href (show 1 ≤ 9 by omega)).eq_or_lt with heq | hlt
      · rw [psi_below_of_eq h hcur hbelow heq]
        exact (hcut _ (shareAbove_mem href)).mpr (hcond h hcur hbelow)
      · exact detects_below_of_lt h hcur hbelow hlt

/-- Ties up. -/
def nearest : Places where
  place q n := (round ((q : ℚ) * n / 10)).toNat
  near q n := by
    have hnonneg : 0 ≤ round ((q : ℚ) * n / 10) := by
      rw [round_eq]
      exact Int.floor_nonneg.mpr (by positivity)
    have hcast : ((round ((q : ℚ) * n / 10)).toNat : ℚ) = round ((q : ℚ) * n / 10) := by
      exact_mod_cast Int.toNat_of_nonneg hnonneg
    rw [hcast, abs_sub_comm]
    exact abs_sub_round _

/-- A constant reference, and a sample below it. -/
theorem constant_missed : ¬ Sound nearest [5, 5] [1] := by
  intro h
  have hbelow : Below [5, 5] [1] := by
    intro x hx y hy
    simp only [List.mem_cons, List.not_mem_nil, or_false, or_self] at hx hy
    rw [hx, hy]
    norm_num
  have hdecile : ∀ q, decile nearest [5, 5] q = 5 := fun q => by
    simpa using @decile_mem nearest [5, 5] (by simp) q
  have hshare : shareAbove nearest [5, 5] = 0 := by
    rw [shareAbove, hdecile]
    norm_num
  have hdetects := h.detects le_rfl (by simp) (Or.inr hbelow)
  rw [psi_below_of_eq le_rfl (by simp) hbelow ((hdecile 1).trans (hdecile 9).symm), hshare,
    Rat.cast_zero, Stability.single_eq eps_pos le_rfl, zero_mul, threshold] at hdetects
  norm_num at hdetects

end MlopsLite.Gateway.Monitoring
