import Mathlib

/-!
# Paging — a list in pages by a key

A page is the first elements below a cut; its cursor is the key of its last
element, and the next page is cut there. Over a list from the highest key down
the pages are the whole list exactly if no two elements of one key stand on
both sides of a page's end.
-/

namespace Paging

variable {α κ : Type} [LinearOrder κ] (key : α → κ) (size : ℕ)

def below (cut : Option κ) (l : List α) : List α :=
  match cut with
  | none => l
  | some c => l.filter fun a => key a < c

/-- The cursor of a page, when elements are left. -/
def cursor (l : List α) : Option κ :=
  if size < l.length then (l.take size).getLast?.map key else none

/-- The elements of all the pages from a cut on. -/
def walk (l : List α) : ℕ → Option κ → Option (List α)
  | 0, _ => none
  | fuel + 1, cut =>
    let rest := below key cut l
    match cursor key size rest with
    | none => some (rest.take size)
    | some c => (walk l fuel (some c)).map (rest.take size ++ ·)

/-- No page ends between two elements of one key. -/
def Clear (l : List α) : Prop :=
  ∀ k, 0 < k → ∀ a ∈ l[k * size - 1]?, ∀ b ∈ l[k * size]?, key a ≠ key b

variable {key size} {l r r' : List α} {c : κ} {fuel fuel' : ℕ} {cut : Option κ}

theorem walk_mono (h : walk key size l fuel cut = some r) (hle : fuel ≤ fuel') :
    walk key size l fuel' cut = some r := by
  induction fuel generalizing fuel' cut r with
  | zero => cases h
  | succ fuel ih =>
    obtain ⟨fuel', rfl⟩ := Nat.exists_eq_add_of_le' (show 1 ≤ fuel' by omega)
    unfold walk at h ⊢
    dsimp only at h ⊢
    split at h
    · exact h
    · obtain ⟨r', hr', rfl⟩ := Option.map_eq_some_iff.mp h
      rw [ih hr' (by omega)]
      rfl

theorem walk_unique (h : walk key size l fuel cut = some r) (h' : walk key size l fuel' cut = some r') :
    r = r' := by
  have hr := walk_mono h (le_max_left fuel fuel')
  rw [walk_mono h' (le_max_right fuel fuel')] at hr
  exact (Option.some.inj hr).symm

/-- Cut twice is cut at the lower key. -/
theorem below_below {c' : κ} (h : c' ≤ c) :
    below key (some c') (below key (some c) l) = below key (some c') l := by
  rw [below, below, below, List.filter_filter]
  refine List.filter_congr fun a _ => ?_
  by_cases ha : key a < c'
  · simp [ha, ha.trans_le h]
  · simp [ha]

/-- From a cut on the list is as good as what is below the cut. -/
theorem walk_some (fuel : ℕ) (c : κ) :
    walk key size l fuel (some c) = walk key size (below key (some c) l) fuel none := by
  induction fuel generalizing l c with
  | zero => rfl
  | succ fuel ih =>
    unfold walk
    dsimp only
    rw [show below key none (below key (some c) l) = below key (some c) l from rfl]
    cases hnext : cursor key size (below key (some c) l) with
    | none => rfl
    | some c' =>
      have hlt : c' < c := by
        unfold cursor at hnext
        split at hnext
        · obtain ⟨a, ha, rfl⟩ := Option.map_eq_some_iff.mp hnext
          have hmem := List.mem_of_mem_take (List.mem_of_getLast? ha)
          exact of_decide_eq_true (List.mem_filter.mp hmem).2
        · cases hnext
      dsimp only
      rw [ih c', ih c', below_below hlt.le]

theorem countP_le (c : κ) : (l.countP fun a => decide (c ≤ key a)) =
    (l.countP fun a => decide (c < key a)) + l.countP fun a => decide (c = key a) := by
  induction l with
  | nil => rfl
  | cons a l ih =>
    rw [List.countP_cons, List.countP_cons, List.countP_cons, ih]
    rcases lt_trichotomy c (key a) with h | h | h
    · simp [h, h.le, h.ne]
      omega
    · simp [h]
      omega
    · simp [h.not_ge, h.not_gt, h.ne']

omit [LinearOrder κ] in
/-- Page by page. -/
theorem clear_iff (hlen : size < l.length) (hsize : 0 < size) :
    Clear key size l ↔ key l[size - 1] ≠ key l[size] ∧ Clear key size (l.drop size) := by
  have hpred : size - 1 < l.length := by omega
  constructor
  · intro h
    refine ⟨?_, fun k hk a ha b hb => ?_⟩
    · exact h 1 Nat.one_pos _ (by rw [Nat.one_mul, List.getElem?_eq_getElem hpred]; rfl) _
        (by rw [Nat.one_mul, List.getElem?_eq_getElem hlen]; rfl)
    · rw [List.getElem?_drop] at ha hb
      have hmul : (k + 1) * size = size + k * size := by ring
      have hpos : 0 < k * size := Nat.mul_pos hk hsize
      refine h (k + 1) (Nat.succ_pos k) a ?_ b (hmul ▸ hb)
      rwa [hmul, Nat.add_sub_assoc hpos]
  · rintro ⟨hne, h⟩ k hk a ha b hb
    rcases Nat.eq_or_lt_of_le hk with rfl | hk
    · rw [Nat.one_mul] at ha hb
      obtain ⟨-, rfl⟩ := List.getElem?_eq_some_iff.mp ha
      obtain ⟨-, rfl⟩ := List.getElem?_eq_some_iff.mp hb
      exact hne
    · obtain ⟨k, rfl⟩ := Nat.exists_eq_add_of_le' hk.le
      have hpos : 0 < k * size := Nat.mul_pos (by omega) hsize
      have hmul : (k + 1) * size = size + k * size := by ring
      refine h k (by omega) a ?_ b ?_
      · rw [List.getElem?_drop]
        rwa [hmul, Nat.add_sub_assoc hpos] at ha
      · rw [List.getElem?_drop]
        rwa [hmul] at hb

section

variable (hsorted : l.Pairwise fun a b => key b ≤ key a) (hsize : 0 < size)

include hsorted

/-- What is above a bound stands first. -/
theorem getElem_above {p : κ → Prop} [DecidablePred p] (hp : ∀ x y, y ≤ x → p y → p x) {i : ℕ}
    (hi : i < l.length) : p (key l[i]) ↔ i < l.countP fun a => p (key a) := by
  induction l generalizing i with
  | nil => cases hi
  | cons a l ih =>
    obtain ⟨hhead, htail⟩ := List.pairwise_cons.mp hsorted
    by_cases ha : p (key a)
    · rw [List.countP_cons, if_pos (decide_eq_true ha)]
      cases i with
      | zero => exact iff_of_true ha (Nat.succ_pos _)
      | succ i =>
        rw [List.getElem_cons_succ, ih htail (by simpa using hi)]
        omega
    · have hnone : (a :: l).countP (fun a => p (key a)) = 0 := by
        rw [List.countP_eq_zero]
        intro b hb hpb
        rcases List.mem_cons.mp hb with rfl | hb
        · exact ha (of_decide_eq_true hpb)
        · exact ha (hp _ _ (hhead b hb) (of_decide_eq_true hpb))
      rw [hnone]
      refine iff_of_false (fun hpi => ?_) (Nat.not_lt_zero _)
      have hzero := List.countP_eq_zero.mp hnone _ (List.getElem_mem hi)
      exact hzero (decide_eq_true hpi)

/-- Two neighbours have one key exactly if the elements of a key stand on both sides. -/
theorem split_iff {i : ℕ} :
    (∃ a ∈ l[i]?, ∃ b ∈ l[i + 1]?, key a = key b) ↔
      ∃ c, (l.countP fun a => c < key a) < i + 1 ∧ i + 1 < l.countP fun a => c ≤ key a := by
  constructor
  · rintro ⟨a, ha, b, hb, heq⟩
    obtain ⟨hi, rfl⟩ := List.getElem?_eq_some_iff.mp ha
    obtain ⟨hi', rfl⟩ := List.getElem?_eq_some_iff.mp hb
    have habove := getElem_above hsorted (p := (key l[i] < ·)) (fun _ _ h h' => h'.trans_le h) hi
    have hupto := getElem_above hsorted (p := (key l[i] ≤ ·)) (fun _ _ h h' => h'.trans h) hi'
    refine ⟨key l[i], ?_, hupto.mp heq.le⟩
    have hnot := (not_congr habove).mp (lt_irrefl _)
    omega
  · rintro ⟨c, habove, hupto⟩
    have hi' : i + 1 < l.length := hupto.trans_le List.countP_le_length
    have hi : i < l.length := by omega
    have hle : c ≤ key l[i + 1] := (getElem_above hsorted (p := (c ≤ ·)) (fun _ _ h h' => h'.trans h) hi').mpr hupto
    have hge : ¬ c < key l[i] := fun h => by
      have := (getElem_above hsorted (p := (c < ·)) (fun _ _ h h' => h'.trans_le h) hi).mp h
      omega
    have hstep : key l[i + 1] ≤ key l[i] :=
      List.pairwise_iff_getElem.mp hsorted i (i + 1) hi hi' (Nat.lt_succ_self i)
    refine ⟨_, List.getElem?_eq_getElem hi, _, List.getElem?_eq_getElem hi', ?_⟩
    exact le_antisymm ((not_lt.mp hge).trans hle) hstep

/-- A page ends inside a key exactly if a number of whole pages lies strictly
between how many elements are above the key and how many are not below it. -/
theorem clear_iff_count (hsize : 0 < size) : Clear key size l ↔ ∀ c k,
    ¬ ((l.countP fun a => c < key a) < k * size ∧ k * size < l.countP fun a => c ≤ key a) := by
  constructor
  · rintro h c k ⟨habove, hupto⟩
    have hpos : 0 < k * size := by omega
    have hsucc : k * size - 1 + 1 = k * size := Nat.sub_add_cancel hpos
    obtain ⟨a, ha, b, hb, heq⟩ := (split_iff hsorted (i := k * size - 1)).mpr
      ⟨c, by rwa [hsucc], by rwa [hsucc]⟩
    rw [hsucc] at hb
    exact h k (Nat.pos_of_mul_pos_right hpos) a ha b hb heq
  · intro h k hk a ha b hb heq
    have hpos : 0 < k * size := Nat.mul_pos hk hsize
    have hsucc : k * size - 1 + 1 = k * size := Nat.sub_add_cancel hpos
    obtain ⟨c, habove, hupto⟩ := (split_iff hsorted (i := k * size - 1)).mp
      ⟨a, ha, b, by rwa [hsucc], heq⟩
    rw [hsucc] at habove hupto
    exact h c k ⟨habove, hupto⟩

/-- The cut behind the first elements takes them and whatever has their last key. -/
theorem below_cursor {a : α} (ha : l[size - 1]? = some a) (hsize : 0 < size) :
    below key (some (key a)) l = below key (some (key a)) (l.drop size) := by
  have hsplit : l = l.take size ++ l.drop size := (List.take_append_drop size l).symm
  have hnone : (l.take size).filter (fun b => key b < key a) = [] := by
    rw [List.filter_eq_nil_iff]
    intro b hb hlt
    obtain ⟨i, hi, rfl⟩ := List.mem_iff_getElem.mp hb
    obtain ⟨hlen, rfl⟩ := List.getElem?_eq_some_iff.mp ha
    have hi' : i < size := by
      rw [List.length_take] at hi
      omega
    rw [List.getElem_take] at hlt
    have hlt := of_decide_eq_true hlt
    rcases Nat.lt_or_eq_of_le (show i ≤ size - 1 by omega) with hless | heq
    · exact absurd hlt (not_lt.mpr (List.pairwise_iff_getElem.mp hsorted i (size - 1) _ hlen hless))
    · subst heq
      exact absurd hlt (lt_irrefl _)
  conv_lhs => rw [hsplit]
  rw [below, List.filter_append, hnone, List.nil_append]
  rfl

include hsize

/-- Where the last key of a page goes on behind it, that part is cut away. -/
theorem below_drop (hlen : size < l.length) :
    (key l[size - 1] ≠ key l[size] → below key (some (key l[size - 1])) (l.drop size) = l.drop size) ∧
      (key l[size - 1] = key l[size] →
        (below key (some (key l[size - 1])) (l.drop size)).length < (l.drop size).length) := by
  constructor
  · intro hne
    rw [below, List.filter_eq_self]
    intro b hb
    obtain ⟨i, hi, rfl⟩ := List.mem_iff_getElem.mp hb
    have hdrop : (l.drop size).length = l.length - size := List.length_drop ..
    rw [List.getElem_drop]
    have hstep : key l[size] ≤ key l[size - 1] :=
      List.pairwise_iff_getElem.mp hsorted (size - 1) size (by omega) hlen (by omega)
    have hlt : key l[size] < key l[size - 1] := lt_of_le_of_ne hstep hne.symm
    refine decide_eq_true (lt_of_le_of_lt ?_ hlt)
    rcases Nat.eq_zero_or_pos i with rfl | hpos
    · exact le_rfl
    · exact List.pairwise_iff_getElem.mp hsorted size (size + i) hlen (by omega) (by omega)
  · intro heq
    refine lt_of_le_of_ne (List.length_filter_le ..) fun hall => ?_
    have hdrop : (l.drop size).length = l.length - size := List.length_drop ..
    have hmem : l[size] ∈ l.drop size := List.mem_iff_getElem.mpr ⟨0, by omega, by simp⟩
    have hlt := of_decide_eq_true (List.length_filter_eq_length_iff.mp hall l[size] hmem)
    exact absurd heq.symm hlt.ne

/-- A page with more behind it, and the walk on from there. -/
theorem walk_page {fuel : ℕ} (hlen : size < l.length) (h : walk key size
    (below key (some (key l[size - 1])) (l.drop size)) fuel none = some r) :
    walk key size l (fuel + 1) none = some (l.take size ++ r) := by
  have ha : l[size - 1]? = some l[size - 1] := List.getElem?_eq_getElem _
  have hcursor : cursor key size (below key none l) = some (key l[size - 1]) := by
    show cursor key size l = _
    rw [cursor, if_pos hlen, List.getLast?_take, if_neg hsize.ne', ha]
    rfl
  unfold walk
  dsimp only
  rw [hcursor]
  dsimp only
  rw [walk_some, below_cursor hsorted ha hsize, h]
  rfl

/-- The pages end; nothing is on two of them, and nothing is missing exactly
where no page ends inside a key. -/
theorem walk_spec : ∃ r, walk key size l (l.length + 1) none = some r ∧ r.length ≤ l.length ∧
    (Clear key size l → r = l) ∧ (r.length = l.length → Clear key size l) := by
  -- a page takes `size` elements; what is left of the others is a shorter list
  induction hn : l.length using Nat.strong_induction_on generalizing l with
  | _ n ih =>
    subst hn
    by_cases hlen : size < l.length
    · obtain ⟨hkept, hcut⟩ := below_drop hsorted hsize hlen
      set rest := below key (some (key l[size - 1])) (l.drop size) with hrest
      have hdrop : (l.drop size).length = l.length - size := List.length_drop ..
      have hshort : rest.length ≤ (l.drop size).length := List.length_filter_le ..
      have hsorted' : rest.Pairwise fun a b => key b ≤ key a :=
        (hsorted.sublist (List.drop_sublist ..)).filter _
      obtain ⟨r, hwalk, hle, hclear, hmissing⟩ := ih rest.length (by omega) hsorted' rfl
      have hrun := walk_page hsorted hsize hlen (walk_mono hwalk (show _ ≤ l.length by omega))
      have htake : (l.take size).length = size := by
        rw [List.length_take]
        omega
      refine ⟨_, hrun, ?_, fun h => ?_, fun h => ?_⟩
      · rw [List.length_append, htake]
        omega
      · obtain ⟨hne, hdrops⟩ := (clear_iff hlen hsize).mp h
        rw [hkept hne] at hclear
        rw [hclear hdrops, List.take_append_drop]
      · rw [List.length_append, htake] at h
        have hne : key l[size - 1] ≠ key l[size] := by
          intro heq
          have := hcut heq
          omega
        rw [hkept hne] at hmissing
        exact (clear_iff hlen hsize).mpr ⟨hne, hmissing (by omega)⟩
    · have hcursor : cursor key size (below key none l) = none := if_neg hlen
      have hwhole : l.take size = l := List.take_of_length_le (not_lt.mp hlen)
      refine ⟨l, ?_, le_rfl, fun _ => rfl, fun _ k hk a ha b hb => ?_⟩
      · unfold walk
        dsimp only
        rw [hcursor]
        exact congrArg some hwhole
      · obtain ⟨hlt, -⟩ := List.getElem?_eq_some_iff.mp hb
        have hmul : size ≤ k * size := Nat.le_mul_of_pos_left _ hk
        omega

end

end Paging
