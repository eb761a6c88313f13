import MlopsLite.HostAgent.Coordinator.Entries

/-!
# Coordinator — which victims are chosen

`_select_victims` against the bounds of the coordinator without the victims: the
shortest sufficient prefix of the eligible entries that is not empty. The loop
looks at the bounds after each victim it takes and not before the first, so one
entry goes also where nothing has to.
-/

namespace MlopsLite.HostAgent

namespace Coordinator

/-- Without these entries. -/
def without (co : Coordinator) (victims : List ModelKey) : Coordinator :=
  { co with residents := co.residents.filter fun k _ => k ∉ victims }

/-- What removing these gives back. -/
def freedBy (victims : List (ModelKey × ResidentModel)) : Bytes :=
  (victims.map fun kv => kv.2.vramAccountedBytes).sum

/-- With these removed both bounds hold for the estimate. -/
def Suffices (gpu : Gpu) (co : Coordinator) (free : ℚ) (est : Bytes)
    (victims : List (ModelKey × ResidentModel)) : Prop :=
  (co.without (victims.map Prod.fst)).fitsBudget gpu est = true ∧
    (co.without (victims.map Prod.fst)).fitsLive gpu (free + freedBy victims) est = true

/-- The eligible entries nothing works on. -/
def idle (co : Coordinator) (m : ModelKey) : List (ModelKey × ResidentModel) :=
  (co.eligible m).filter fun kv => kv.2.activeRequests = 0

variable {gpu : Gpu} {co : Coordinator} {m : ModelKey} {free : ℚ} {est freed freed' : Bytes}
  {l victims : List (ModelKey × ResidentModel)} {chosen : List ModelKey} {n : ℕ}

/-! ## The eligible entries -/

theorem eligible_perm (co : Coordinator) (m : ModelKey) : (co.eligible m).Perm (co.residents.items.filter fun kv =>
    kv.1 ≠ m ∧ kv.2.state = .resident ∧ kv.2.materialized) :=
  List.perm_insertionSort ..

theorem victimOrder_iff {a b : ModelKey × ResidentModel} : victimOrder a b = true ↔
    toLex (decide (0 < a.2.activeRequests), a.2.recencySeq) ≤
      toLex (decide (0 < b.2.activeRequests), b.2.recencySeq) := by
  rw [Prod.Lex.toLex_le_toLex]
  rcases Nat.eq_zero_or_pos a.2.activeRequests with ha | ha
  · rcases Nat.eq_zero_or_pos b.2.activeRequests with hb | hb
    · simp [victimOrder, ha, hb]
    · simp [victimOrder, ha, hb]
  · rcases Nat.eq_zero_or_pos b.2.activeRequests with hb | hb
    · simp [victimOrder, ha, hb, ha.ne']
    · simp [victimOrder, ha, hb]

theorem eligible_pairwise : (co.eligible m).Pairwise fun a b => victimOrder a b = true :=
  have : IsTrans (ModelKey × ResidentModel) fun a b => victimOrder a b = true :=
    ⟨fun _ _ _ hab hbc => victimOrder_iff.mpr ((victimOrder_iff.mp hab).trans (victimOrder_iff.mp hbc))⟩
  have : Std.Total fun a b : ModelKey × ResidentModel => victimOrder a b = true :=
    ⟨fun _ _ => (le_total _ _).imp victimOrder_iff.mpr victimOrder_iff.mpr⟩
  List.pairwise_insertionSort ..

theorem eligible_nodup : ((co.eligible m).map Prod.fst).Nodup := by
  have hperm := (eligible_perm co m).map Prod.fst
  exact hperm.nodup_iff.mpr (co.residents.nodup.sublist (List.filter_sublist.map _))

theorem mem_eligible {kv : ModelKey × ResidentModel} (h : kv ∈ co.eligible m) :
    kv ∈ co.residents.items ∧ kv.2.materialized = true := by
  obtain ⟨hitem, hp⟩ := List.mem_filter.mp ((eligible_perm co m).mem_iff.mp h)
  exact ⟨hitem, (of_decide_eq_true hp).2.2⟩

/-! ## The bounds without the victims -/

/-- What is measured over all the entries is split by a removal. -/
theorem total_without (hnodup : (victims.map Prod.fst).Nodup)
    (hmem : ∀ kv ∈ victims, kv ∈ co.residents.items) (f : ModelKey → ResidentModel → Bytes) :
    co.residents.total f =
      (co.without (victims.map Prod.fst)).residents.total f +
        (victims.map fun kv => f kv.1 kv.2).sum := by
  have hitems : co.residents.items.Nodup := co.residents.nodup.of_map
  have hchosen : (co.residents.items.filter fun kv => decide (kv.1 ∈ victims.map Prod.fst)).Perm
      victims := by
    refine (List.perm_ext_iff_of_nodup (hitems.filter _) hnodup.of_map).mpr fun kv => ?_
    rw [List.mem_filter]
    constructor
    · rintro ⟨hitem, hkey⟩
      obtain ⟨kv', hkv', hfst⟩ := List.mem_map.mp (of_decide_eq_true hkey)
      have heq := List.inj_on_of_nodup_map co.residents.nodup (hmem kv' hkv') hitem hfst
      exact heq ▸ hkv'
    · intro hkv
      exact ⟨hmem kv hkv, decide_eq_true (List.mem_map_of_mem hkv)⟩
  have hsplit := List.filter_append_perm (fun kv => decide (kv.1 ∈ victims.map Prod.fst))
    co.residents.items
  have hsum := (hsplit.map fun kv => f kv.1 kv.2).sum_eq
  rw [List.map_append, List.sum_append, (hchosen.map fun kv => f kv.1 kv.2).sum_eq] at hsum
  rw [Dict.total, ← hsum, add_comm]
  congr 2
  simp [without, Dict.filter]

/-- The loop's test is the two bounds of the coordinator without the victims. -/
theorem suffices_iff (hsub : victims.Sublist (co.eligible m)) :
    Suffices gpu co free est victims ↔ fitsAfter gpu co free est (freedBy victims) = true := by
  have hnodup : (victims.map Prod.fst).Nodup := eligible_nodup.sublist (hsub.map _)
  have hmem : ∀ kv ∈ victims, kv ∈ co.residents.items := fun kv hkv =>
    (mem_eligible (hsub.subset hkv)).1
  have haccounted : co.accounted = (co.without (victims.map Prod.fst)).accounted +
      freedBy victims := by
    rw [accounted, accounted, total_without hnodup hmem]
    show _ + freedBy victims + _ = _
    rw [add_right_comm]
    rfl
  have hunmaterialized : co.unmaterialized =
      (co.without (victims.map Prod.fst)).unmaterialized := by
    have hzero : (victims.map fun kv : ModelKey × ResidentModel =>
        if kv.2.materialized then (0 : Bytes) else kv.2.vramAccountedBytes).sum = 0 := by
      refine List.sum_eq_zero fun x hx => ?_
      obtain ⟨kv, hkv, rfl⟩ := List.mem_map.mp hx
      exact if_pos (mem_eligible (hsub.subset hkv)).2
    rw [unmaterialized, unmaterialized, total_without hnodup hmem, hzero, add_zero]
    rfl
  have hbudget : (co.without (victims.map Prod.fst)).accounted + est ≤ gpu.usableCapacity ↔
      (co.accounted : ℚ) - freedBy victims + est ≤ gpu.usableCapacity := by
    rw [haccounted, ← NNRat.coe_le_coe]
    push_cast
    rw [add_sub_cancel_right]
  rw [Suffices, fitsBudget, fitsLive, fitsAfter, decide_eq_true_iff, decide_eq_true_iff,
    decide_eq_true_iff, hbudget, hunmaterialized]

theorem fitsAfter_mono (h : freed ≤ freed') (hfits : fitsAfter gpu co free est freed = true) :
    fitsAfter gpu co free est freed' = true := by
  obtain ⟨hbudget, hlive⟩ := of_decide_eq_true hfits
  have hle : (freed : ℚ) ≤ freed' := NNRat.coe_le_coe.mpr h
  exact decide_eq_true ⟨by linarith, by linarith⟩

theorem freedBy_mono (h : victims.Sublist l) : freedBy victims ≤ freedBy l :=
  (h.map _).sum_le_sum fun _ _ => zero_le

/-! ## The loop -/

/-- The loop takes victims until the test holds for the first time. -/
theorem takeVictims_spec :
    (∃ n, IsLeast {n | 0 < n ∧ n ≤ l.length ∧
        fitsAfter gpu co free est (freed + freedBy (l.take n)) = true} n ∧
      takeVictims gpu co free est l chosen freed = chosen ++ (l.take n).map Prod.fst) ∨
    ((∀ n, 0 < n → n ≤ l.length → fitsAfter gpu co free est (freed + freedBy (l.take n)) = false) ∧
      takeVictims gpu co free est l chosen freed = []) := by
  induction l generalizing chosen freed with
  | nil => exact Or.inr ⟨fun n hpos hle => absurd hle (by simpa using hpos.ne'), rfl⟩
  | cons kv l ih =>
    have hnext : ∀ n, freed + freedBy ((kv :: l).take (n + 1)) =
        freed + kv.2.vramAccountedBytes + freedBy (l.take n) := fun n => by
      rw [List.take_succ_cons, freedBy, List.map_cons, List.sum_cons, ← add_assoc]
      rfl
    by_cases hfits : fitsAfter gpu co free est (freed + kv.2.vramAccountedBytes) = true
    · refine Or.inl ⟨1, ⟨⟨Nat.one_pos, by simp, ?_⟩, fun n hn => hn.1⟩, ?_⟩
      · have hone : freedBy ([] : List (ModelKey × ResidentModel)) = 0 := rfl
        rw [hnext 0, List.take_zero, hone, add_zero]
        exact hfits
      · rw [takeVictims, if_pos hfits]
        rfl
    · rw [takeVictims, if_neg hfits]
      have hfirst : ∀ n, 0 < n → fitsAfter gpu co free est (freed + freedBy ((kv :: l).take n)) = true →
          ∃ k, n = k + 1 ∧ 0 < k := by
        intro n hpos hn
        obtain ⟨k, rfl⟩ := Nat.exists_eq_add_of_le' hpos
        refine ⟨k, rfl, Nat.pos_of_ne_zero ?_⟩
        rintro rfl
        rw [hnext 0] at hn
        have hzero : freedBy (l.take 0) = 0 := rfl
        rw [hzero, add_zero] at hn
        exact hfits hn
      rcases @ih (freed + kv.2.vramAccountedBytes) (chosen ++ [kv.1]) with
        ⟨n, ⟨⟨hpos, hle, hn⟩, hleast⟩, htake⟩ | ⟨hnone, htake⟩
      · refine Or.inl ⟨n + 1, ⟨⟨Nat.succ_pos n, by simpa using hle, by rw [hnext]; exact hn⟩, ?_⟩, ?_⟩
        · rintro k ⟨hkpos, hkle, hk⟩
          obtain ⟨k, rfl, hpred⟩ := hfirst k hkpos hk
          rw [hnext] at hk
          exact Nat.succ_le_succ (hleast ⟨hpred, by simpa using hkle, hk⟩)
        · rw [htake, List.take_succ_cons, List.map_cons, List.append_assoc]
          rfl
      · refine Or.inr ⟨fun n hpos hle => ?_, htake⟩
        by_contra hn
        obtain ⟨k, rfl, hkpos⟩ := hfirst n hpos (by simpa using hn)
        rw [hnext] at hn
        exact hn (hnone k hkpos (by simpa using hle))

/-- The idle entries come first. -/
theorem idle_eq_take : co.idle m = (co.eligible m).take (co.idle m).length := by
  have hfilter : ∀ l : List (ModelKey × ResidentModel),
      (l.Pairwise fun a b => victimOrder a b = true) →
      (l.filter fun kv => kv.2.activeRequests = 0) <+: l := by
    intro l hl
    induction l with
    | nil => exact List.prefix_rfl
    | cons a l ih =>
      obtain ⟨hhead, hl⟩ := List.pairwise_cons.mp hl
      by_cases ha : a.2.activeRequests = 0
      · rw [List.filter_cons, if_pos (decide_eq_true ha)]
        exact (List.prefix_cons_inj a).mpr (ih hl)
      · have hnone : (a :: l).filter (fun kv => kv.2.activeRequests = 0) = [] := by
          rw [List.filter_eq_nil_iff]
          intro b hb hidle
          have hidle : b.2.activeRequests = 0 := of_decide_eq_true hidle
          rcases List.mem_cons.mp hb with rfl | hb
          · exact ha hidle
          · have horder := hhead b hb
            simp [victimOrder, hidle, ha, Nat.pos_of_ne_zero ha] at horder
        rw [hnone]
        exact List.nil_prefix
  exact List.prefix_iff_eq_take.mp (hfilter _ eligible_pairwise)

theorem selectVictims_cases (gpu : Gpu) (co : Coordinator) (m : ModelKey) (free : ℚ)
    (est : Bytes) :
    (∃ n, IsLeast {n | 0 < n ∧ n ≤ (co.eligible m).length ∧
        Suffices gpu co free est ((co.eligible m).take n)} n ∧
      selectVictims gpu co m free est = ((co.eligible m).take n).map Prod.fst) ∨
    ((∀ n, 0 < n → n ≤ (co.eligible m).length →
        ¬ Suffices gpu co free est ((co.eligible m).take n)) ∧
      selectVictims gpu co m free est = []) := by
  have hsuffices : ∀ n, Suffices gpu co free est ((co.eligible m).take n) ↔
      fitsAfter gpu co free est (0 + freedBy ((co.eligible m).take n)) = true := fun n => by
    rw [zero_add, suffices_iff (List.take_sublist ..)]
  simp only [hsuffices, Bool.not_eq_true]
  exact takeVictims_spec

/-- What suffices still does with more entries. -/
theorem Suffices.take_le (h : Suffices gpu co free est ((co.eligible m).take n)) {k : ℕ}
    (hk : n ≤ k) : Suffices gpu co free est ((co.eligible m).take k) := by
  rw [suffices_iff (List.take_sublist ..)] at h ⊢
  exact fitsAfter_mono (freedBy_mono (List.take_sublist_take_left hk)) h

/-- One idle resident of one byte on a GPU of ten. -/
def oneResident : Coordinator :=
  { Coordinator.init with
    residents := Dict.empty.insert "a" { ResidentModel.loading 0 1 with
      state := .resident, vramAccountedBytes := 1 } }

end Coordinator

end MlopsLite.HostAgent
