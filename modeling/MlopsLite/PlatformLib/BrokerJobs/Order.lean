import MlopsLite.PlatformLib.BrokerJobs.States

/-!
# Broker jobs — the order of the lane

The committed lane against a plain list. `Effect` says what a step does to
the committed positions: a job gets the last one, a job loses its own, or a
renumbering commits. `Undisturbed` asks that a renumbering meets the lane it
has read, when it counts; then every operation does to the committed order
what `LaneOp.apply` does to the list (`lane_order`).
-/

namespace MlopsLite.PlatformLib

/-- What an operation is for: on the list of queued jobs. -/
def LaneOp.apply : LaneOp → List JobId → List JobId
  | .append id, l => l ++ [id]
  | .remove id, l => l.erase id
  | .move id position, l => moveTo id position l

namespace Lane

open Versions Ranked

/-- A cancel shifts the lane back, and a reorder commits, on the lane it has
read. -/
def Undisturbed (s : Sys) (a : Act) : Prop :=
  match s.pc a.1, a.2 with
  | .shift _ (.compact id ranked), .scan _ => s.shared.order.erase id = ranked
  | .commit _ (.reorder _ _ queued), .go => s.shared.order = queued
  | _, _ => True

instance (s : Sys) (a : Act) : Decidable (Undisturbed s a) := by
  unfold Undisturbed
  exact Interleaving.pointwise (s.pc a.1) a.2 fun pc c => by split <;> infer_instance

/-- The committed lane positions. -/
def pos (x : Lane) : JobId → Option ℤ := posOf (committed x.rows)

structure Sorted (x : Lane) : Prop where
  distinct : Distinct x.pos
  positive : ∀ k p, x.pos k = some p → 1 ≤ p

section

variable {t u : CallId} {x x' y : Lane} {pc pc' : LanePc} {id k : JobId} {j : BrokerJob}
  {op : Option LaneOp}

/-! ## Positions and the order -/

theorem pos_eq_some {p : ℤ} :
    x.pos k = some p ↔ ∃ j, committed x.rows k = some j ∧ j.at p = true :=
  posOf_eq_some

theorem isRanked_order (h : Sorted x) : IsRanked x.pos x.order := by
  refine isRanked_rankedBy x.rows.nodup (fun k hk => ?_) h.distinct
  obtain ⟨p, hp⟩ := Option.isSome_iff_exists.mp hk
  obtain ⟨j, hj, -⟩ := pos_eq_some.mp hp
  unfold committed at hj
  rw [Dict.mem_keys]
  cases hget : x.rows.get? k with
  | none => simp [hget] at hj
  | some row => exact ⟨row, rfl⟩

theorem mem_order (h : Sorted x) : k ∈ x.order ↔ ∃ p, x.pos k = some p := by
  rw [(isRanked_order h).mem, Option.isSome_iff_exists]

theorem not_mem_order (h : Sorted x) (hk : x.pos k = none) : k ∉ x.order := by
  rw [mem_order h, hk]
  exact fun ⟨p, hp⟩ => nomatch hp

/-- The committed order is the only list in the order of the positions. -/
theorem order_of_isRanked {l : List JobId} (hl : IsRanked x.pos l)
    (hpos : ∀ k p, x.pos k = some p → 1 ≤ p) : Sorted x ∧ x.order = l := by
  have hs : Sorted x := ⟨hl.distinct, hpos⟩
  exact ⟨hs, (isRanked_order hs).unique hl⟩

/-- The queued jobs below a position are fewer than it. -/
theorem length_order_lt (h : Sorted x) {p : ℤ} (hp : 1 ≤ p) {l : List JobId}
    (hl : l.Sublist x.order) (hlt : ∀ k q, x.pos k = some q → q < p) : 1 + l.length ≤ p := by
  refine length_le_of_sorted ((isRanked_order h).sorted.sublist hl) _ hp ?_
  intro k hk
  obtain ⟨q, hq⟩ := (mem_order h).mp (hl.subset hk)
  exact ⟨q, hq, h.positive k q hq, hlt k q hq⟩

/-! ## What a step does to the positions -/

/-- `Effect t x x' op`: a step of `t` takes the committed positions of `x` to
those of `x'` and completes `op`, on rows `t` holds. -/
inductive Effect (t : CallId) (x x' : Lane) : Option LaneOp → Prop
  | same (h : x'.pos = x.pos) : Effect t x x' none
  | append (id : JobId) (p : ℤ) (hmine : ∃ v, own x.rows t id = some v)
      (hadv : x.advisory = some t) (hnew : x.pos id = none) (hpos : x'.pos id = some p)
      (hrest : ∀ k, k ≠ id → x'.pos k = x.pos k) (hp : 1 ≤ p)
      (hlast : ∀ k q, x.pos k = some q → q < p) : Effect t x x' (some (.append id))
  | remove (id : JobId)
      (hfree : ∀ u v, u ≠ t → own x.rows u id = some v → x.pos id = none)
      (hpos : x'.pos id = none) (hrest : ∀ k, k ≠ id → x'.pos k = x.pos k) :
      Effect t x x' (some (.remove id))
  | move (id : JobId) (position : ℤ) (hmem : id ∈ x.order)
      (hmine : ∀ k ∈ x.order, ∃ v, own x.rows t k = some v)
      (hpos : Numbered x'.pos 1 (moveTo id position x.order))
      (hrest : ∀ k, k ∉ x.order → x'.pos k = none) : Effect t x x' (some (.move id position))
  | compact (id : JobId) (ranked tail : List JobId)
      (horder : x.order.erase id = ranked ++ tail) (hid : ∃ v, own x.rows t id = some v)
      (hmine : ∀ k ∈ ranked, ∃ v, own x.rows t k = some v)
      (hpos : Numbered x'.pos 1 ranked) (hgone : x'.pos id = none)
      (hrest : ∀ k, k ≠ id → k ∉ ranked → x'.pos k = x.pos k)
      (htail : ∀ k ∈ tail, ∀ p, x.pos k = some p → (ranked.length : ℤ) < p) :
      Effect t x x' (some (.remove id))

theorem isRanked_compact {ranked tail : List JobId} (hs : Sorted x)
    (horder : x.order.erase id = ranked ++ tail) (hpos : Numbered x'.pos 1 ranked)
    (hgone : x'.pos id = none) (hrest : ∀ k, k ≠ id → k ∉ ranked → x'.pos k = x.pos k)
    (htail : ∀ k ∈ tail, ∀ p, x.pos k = some p → (ranked.length : ℤ) < p) :
    IsRanked x'.pos (ranked ++ tail) := by
  have hr := isRanked_order hs
  have hnodup : (ranked ++ tail).Nodup := horder ▸ hr.nodup.erase id
  have hmem : ∀ k, k ∈ ranked ++ tail ↔ k ≠ id ∧ k ∈ x.order := by
    intro k
    rw [← horder, hr.nodup.mem_erase_iff]
  obtain ⟨hnr, -, hdis⟩ := List.nodup_append.mp hnodup
  have hkeep : ∀ k ∈ tail, x'.pos k = x.pos k := by
    intro k hk
    refine hrest k ((hmem k).mp (List.mem_append_right _ hk)).1 fun hk' => ?_
    exact hdis k hk' k hk rfl
  constructor
  · rw [List.pairwise_append]
    refine ⟨hpos.sorted hnr, ?_, fun a ha b hb => ?_⟩
    · have hsub : tail.Sublist x.order :=
        (List.sublist_append_right ranked tail).trans (horder ▸ List.erase_sublist)
      refine (hr.sorted.sublist hsub).imp_of_mem fun ha hb hab => ?_
      simpa only [Before, hkeep _ ha, hkeep _ hb] using hab
    · obtain ⟨p, hp⟩ := (mem_order hs).mp ((hmem b).mp (List.mem_append_right _ hb)).2
      have hidx : (ranked.idxOf a : ℤ) < ranked.length := by
        exact_mod_cast List.idxOf_lt_length_of_mem ha
      have hlt := htail b hb p hp
      exact ⟨_, p, hpos a ha, (hkeep b hb).trans hp, by omega⟩
  · intro k
    by_cases hid : k = id
    · subst hid
      simp [hmem, hgone]
    · by_cases hk : k ∈ ranked
      · simp [hk, hpos k hk]
      · rw [hmem, hrest k hid hk, hr.mem]
        simp [hid]

/-- A step does to the committed order what its operation does to a list. -/
theorem Effect.order (h : Effect t x x' op) (hs : Sorted x) :
    Sorted x' ∧ x'.order = op.elim x.order fun o => o.apply x.order := by
  have hr := isRanked_order hs
  cases h with
  | same h =>
    refine order_of_isRanked (hr.congr fun k => congrFun h k) ?_
    rw [h]
    exact hs.positive
  | append id p _ _ hnew hpos hrest hp hlast =>
    refine order_of_isRanked (hr.append hnew hpos hrest hlast) fun k q hq => ?_
    by_cases hk : k = id
    · subst hk
      cases hpos.symm.trans hq
      exact hp
    · exact hs.positive k q (hrest k hk ▸ hq)
  | remove id _ hpos hrest =>
    refine order_of_isRanked (hr.erase hpos hrest) fun k q hq => ?_
    have hk : k ≠ id := by
      rintro rfl
      cases hpos.symm.trans hq
    exact hs.positive k q (hrest k hk ▸ hq)
  | move id position hmem _ hpos hrest =>
    have hperm := moveTo_perm position hmem
    have hmem' : ∀ k, k ∈ moveTo id position x.order ↔ k ∈ x.order := fun _ => hperm.mem_iff
    rw [Option.elim_some, LaneOp.apply]
    refine order_of_isRanked ⟨hpos.sorted (hperm.nodup_iff.mpr hr.nodup), fun k => ?_⟩ ?_
    · by_cases hk : k ∈ x.order
      · simp [hmem', hk, hpos k ((hmem' k).mpr hk)]
      · simp [hmem', hk, hrest k hk]
    · intro k q hq
      by_cases hk : k ∈ x.order
      · cases (hpos k ((hmem' k).mpr hk)).symm.trans hq
        omega
      · cases (hrest k hk).symm.trans hq
  | compact id ranked tail horder _ _ hpos hgone hrest htail =>
    have hrank := isRanked_compact hs horder hpos hgone hrest htail
    rw [Option.elim_some, LaneOp.apply, horder]
    refine order_of_isRanked hrank fun k q hq => ?_
    by_cases hid : k = id
    · subst hid
      cases hgone.symm.trans hq
    · by_cases hk : k ∈ ranked
      · cases (hpos k hk).symm.trans hq
        omega
      · exact hs.positive k q (hrest k hid hk ▸ hq)

/-! ## What a call knows of the order -/

/-- Every queued job is before position `p`. -/
def Last (x : Lane) (p : ℤ) : Prop := 1 ≤ p ∧ ∀ k q, x.pos k = some q → q < p

/-- Since a cancel began to shift the lane back, only jobs that come behind
those it ranked have joined. -/
structure Behind (x : Lane) (t : CallId) (id : JobId) (ranked todo : List JobId) : Prop where
  moved : ∀ k v, own x.rows t k = some v → v.state = .queued → k ∈ ranked
  todo : ∀ k ∈ todo, k ∈ ranked
  order : ∃ tail, x.order.erase id = ranked ++ tail ∧
    ∀ k ∈ tail, ∀ p, x.pos k = some p → (ranked.length : ℤ) < p

def Placed (x : Lane) (t : CallId) : LanePc → Prop
  | .enqueueInsert _ p => Last x p
  | .enqueueCommit j => ∃ p, own x.rows t j.id = some (newRow j p) ∧ Last x p
  | .placing _ (.reorder id _ queued) _ | .shift _ (.reorder id _ queued)
  | .lowering _ (.reorder id _ queued) _ | .commit _ (.reorder id _ queued) => id ∈ queued
  | .lowering _ (.compact id ranked) todo => Behind x t id ranked todo
  | .commit _ (.compact id ranked) => Behind x t id ranked []
  | _ => True

/-- The last position stays the last while others commit. -/
theorem Last.effect {p : ℤ} (h : Last x p) (he : Effect t x x' op) (hs : Sorted x)
    (hadv : x.advisory = some u) (hu : u ≠ t) : Last x' p := by
  refine ⟨h.1, fun k q hq => ?_⟩
  cases he with
  | same heq => exact h.2 k q (heq ▸ hq)
  | append id p' _ hadv' => exact absurd (Option.some.inj (hadv.symm.trans hadv')) hu
  | remove id _ hpos hrest =>
    have hk : k ≠ id := by
      rintro rfl
      cases hpos.symm.trans hq
    exact h.2 k q (hrest k hk ▸ hq)
  | move id position hmem _ hpos hrest =>
    have hperm := moveTo_perm position hmem
    by_cases hk : k ∈ x.order
    · have hk' := hperm.mem_iff.mpr hk
      cases (hpos k hk').symm.trans hq
      have hidx := List.idxOf_lt_length_of_mem hk'
      rw [hperm.length_eq] at hidx
      have hlen := length_order_lt hs h.1 (List.Sublist.refl _) h.2
      omega
    · cases (hrest k hk).symm.trans hq
  | compact id ranked tail horder _ _ hpos hgone hrest _ =>
    by_cases hid : k = id
    · subst hid
      cases hgone.symm.trans hq
    · by_cases hk : k ∈ ranked
      · cases (hpos k hk).symm.trans hq
        have hidx := List.idxOf_lt_length_of_mem hk
        have hsub : ranked.Sublist x.order :=
          (List.sublist_append_left ranked tail).trans (horder ▸ List.erase_sublist)
        have hlen := length_order_lt hs h.1 hsub h.2
        omega
      · exact h.2 k q (hrest k hid hk ▸ hq)

/-- One job leaves the lane, not one of those ranked. -/
theorem Behind.remove {ranked todo : List JobId} (h : Behind x u id ranked todo)
    (hf : Frame u x x') (horder : x'.order = x.order.erase k) (hk : k ∉ ranked)
    (hrest : ∀ a p, x'.pos a = some p → x.pos a = some p) : Behind x' u id ranked todo := by
  obtain ⟨tail, htail, hlow⟩ := h.order
  refine ⟨fun a v hown => h.moved a v ((hf.own a).symm.trans hown), h.todo, tail.erase k, ?_, ?_⟩
  · rw [horder, List.erase_comm, htail, List.erase_append_right _ hk]
  · intro a ha p hp
    exact hlow a (List.erase_subset ha) p (hrest a p hp)

theorem Behind.of_nil {ranked todo : List JobId} (h : Behind x u id ranked todo)
    (hf : Frame u x x') (hs' : Sorted x') (hnil : ranked = []) : Behind x' u id ranked todo := by
  subst hnil
  refine ⟨fun a v hown => h.moved a v ((hf.own a).symm.trans hown), h.todo, x'.order.erase id, rfl, ?_⟩
  intro a _ p hp
  have := hs'.positive a p hp
  simpa using Int.lt_of_lt_of_le Int.zero_lt_one this

theorem Behind.effect {ranked todo : List JobId} (h : Behind x u id ranked todo)
    (he : Effect t x x' op) (hs : Sorted x) (hf : Frame u x x') (hu : u ≠ t)
    (hid : ∃ v, own x.rows u id = some v) (hmine : ∀ k ∈ ranked, ∃ v, own x.rows u k = some v) :
    Behind x' u id ranked todo := by
  obtain ⟨hs', horder'⟩ := he.order hs
  -- a row of the other call is none of ours
  have hother : ∀ k ∈ ranked, ∀ v, own x.rows t k ≠ some v := by
    intro k hk v hv
    obtain ⟨w, hw⟩ := hmine k hk
    exact hu (own_unique hw hv)
  have hin : ∀ k ∈ ranked, k ∈ x.order := by
    intro k hk
    obtain ⟨tail, htail, -⟩ := h.order
    have hk' : k ∈ x.order.erase id := htail ▸ List.mem_append_left tail hk
    exact List.erase_subset hk'
  cases he with
  | same heq =>
    obtain ⟨tail, htail, hlow⟩ := h.order
    refine ⟨fun a v hown => h.moved a v ((hf.own a).symm.trans hown), h.todo, tail, ?_, ?_⟩
    · rw [horder']
      exact htail
    · rw [heq]
      exact hlow
  | append id' p hmine' _ hnew hpos hrest hp hlast =>
    obtain ⟨v, hv⟩ := hmine'
    obtain ⟨w, hw⟩ := hid
    have hne : id' ≠ id := by
      rintro rfl
      exact hu (own_unique hw hv)
    obtain ⟨tail, htail, hlow⟩ := h.order
    refine ⟨fun a v hown => h.moved a v ((hf.own a).symm.trans hown), h.todo, tail ++ [id'], ?_, ?_⟩
    · have hlist : (x.order ++ [id']).erase id = x.order.erase id ++ [id'] := by
        rw [List.erase_append]
        split
        · rfl
        · rename_i hnot
          rw [List.erase_of_not_mem hnot, List.erase_of_not_mem (by simpa using hne.symm)]
      rw [horder', Option.elim_some, LaneOp.apply, hlist, htail, List.append_assoc]
    · intro a ha q hq
      have hsub : ranked.Sublist x.order :=
        (List.sublist_append_left ranked tail).trans (htail ▸ List.erase_sublist)
      by_cases ha' : a = id'
      · subst ha'
        cases hpos.symm.trans hq
        have hlen := length_order_lt hs hp hsub hlast
        omega
      · have hat : a ∈ tail := by simpa [ha'] using ha
        exact hlow a hat q (hrest a ha' ▸ hq)
  | remove id' hfree hpos hrest =>
    refine h.remove hf horder' (fun hk => ?_) fun a p hp => ?_
    · obtain ⟨w, hw⟩ := hmine id' hk
      exact not_mem_order hs (hfree u w hu hw) (hin id' hk)
    · have ha : a ≠ id' := by
        rintro rfl
        cases hpos.symm.trans hp
      exact hrest a ha ▸ hp
  | move id' position _ hall _ _ =>
    refine h.of_nil hf hs' (List.eq_nil_iff_forall_not_mem.mpr fun k hk => ?_)
    obtain ⟨v, hv⟩ := hall k (hin k hk)
    exact hother k hk v hv
  | compact id' ranked' tail' horder hid' hmine' hpos hgone hrest htail' =>
    obtain ⟨v, hv⟩ := hid'
    have hnot : ∀ k ∈ ranked, k ≠ id' := by
      rintro k hk rfl
      exact hother k hk v hv
    cases ranked' with
    | nil =>
      refine h.remove hf horder' (fun hk => hnot id' hk rfl) fun a p hp => ?_
      have ha : a ≠ id' := by
        rintro rfl
        cases hgone.symm.trans hp
      exact hrest a ha (List.not_mem_nil) ▸ hp
    | cons b ranked' =>
      refine h.of_nil hf hs' (List.eq_nil_iff_forall_not_mem.mpr fun a ha => ?_)
      -- two renumberings at once would each have the other's jobs behind its own
      obtain ⟨tail, htail, -⟩ := h.order
      obtain ⟨w, hw⟩ := hmine' b List.mem_cons_self
      have hsorted := (isRanked_order hs).sorted
      have hba : Before x.pos b a := by
        have hs₁ : ((b :: ranked') ++ tail').Pairwise (Before x.pos) :=
          horder ▸ hsorted.sublist List.erase_sublist
        have ha' : a ∈ (b :: ranked') ++ tail' := by
          rw [← horder, (isRanked_order hs).nodup.mem_erase_iff]
          exact ⟨hnot a ha, hin a ha⟩
        rcases List.mem_append.mp ha' with ha' | ha'
        · obtain ⟨w', hw'⟩ := hmine' a ha'
          exact absurd hw' (hother a ha w')
        · exact (List.pairwise_append.mp hs₁).2.2 b List.mem_cons_self a ha'
      have hab : Before x.pos a b := by
        have hs₂ : (ranked ++ tail).Pairwise (Before x.pos) :=
          htail ▸ hsorted.sublist List.erase_sublist
        have hbin : b ∈ x.order := by
          have hb' : b ∈ x.order.erase id' := horder ▸ List.mem_append_left tail' List.mem_cons_self
          exact List.erase_subset hb'
        have hbne : b ≠ id := by
          rintro rfl
          obtain ⟨w', hw'⟩ := hid
          exact hu (own_unique hw' hw)
        have hb' : b ∈ ranked ++ tail := by
          rw [← htail, (isRanked_order hs).nodup.mem_erase_iff]
          exact ⟨hbne, hbin⟩
        rcases List.mem_append.mp hb' with hb' | hb'
        · exact absurd hw (hother b hb' w)
        · exact (List.pairwise_append.mp hs₂).2.2 a ha b hb'
      exact hab.asymm hba

theorem Placed.frame {k : LanePc} (h : Placed x u k) (he : Effect t x x' op) (hs : Sorted x)
    (hkn : Knows x u k) (hf : Frame u x x') (hu : u ≠ t) : Placed x' u k := by
  cases k with
  | enqueueInsert j p => exact Last.effect h he hs hkn.2 hu
  | enqueueCommit j =>
    obtain ⟨p, hown, hlast⟩ := h
    exact ⟨p, (hf.own _).trans hown, hlast.effect he hs hkn.2.2.2 hu⟩
  | placing via m todo | shift via m =>
    cases m with
    | reorder id position queued => exact h
    | compact id ranked => trivial
  | lowering via m todo =>
    cases m with
    | reorder id position queued => exact h
    | compact id ranked =>
      obtain ⟨v, hv, -⟩ := hkn.cancelled id rfl
      refine Behind.effect h he hs hf hu ⟨v, hv⟩ fun a ha => ?_
      by_cases hin : a ∈ todo
      · obtain ⟨j, hown, -⟩ := hkn.high a ha hin
        exact ⟨j, hown⟩
      · obtain ⟨j, hown, -⟩ := hkn.low a ha hin
        exact ⟨j, hown⟩
  | commit via m =>
    cases m with
    | reorder id position queued => exact h
    | compact id ranked =>
      obtain ⟨v, hv, -⟩ := hkn.cancelled id rfl
      refine Behind.effect h he hs hf hu ⟨v, hv⟩ fun a ha => ?_
      obtain ⟨j, hown, -⟩ := hkn.low a ha List.not_mem_nil
      exact ⟨j, hown⟩
  | _ => trivial

/-! ## A call's own steps -/

theorem pos_of_committed (h : ∀ k, committed x'.rows k = committed x.rows k) : x'.pos = x.pos := by
  funext k
  simp only [pos, posOf, h]

theorem le_foldl_max (l : List ℤ) (b : ℤ) :
    b ≤ l.foldl max b ∧ ∀ q ∈ l, q ≤ l.foldl max b := by
  induction l generalizing b with
  | nil => exact ⟨le_rfl, nofun⟩
  | cons a l ih =>
    obtain ⟨hb, hl⟩ := ih (max b a)
    refine ⟨(le_max_left b a).trans hb, fun q hq => ?_⟩
    rcases List.mem_cons.mp hq with rfl | hq
    · exact (le_max_right b q).trans hb
    · exact hl q hq

/-- The position an enqueue computes is the last one. -/
theorem last_nextPos (hn : NoOwn x t) : Last x (x.nextPos t) := by
  obtain ⟨hzero, hmax⟩ := le_foldl_max
    (x.rows.keys.filterMap (posOf (view x.rows t))) 0
  refine ⟨by unfold nextPos; omega, fun k q hq => ?_⟩
  obtain ⟨j, hj, hat⟩ := pos_eq_some.mp hq
  have hview : view x.rows t k = some j := (hn.view k).trans hj
  have hmem : q ∈ x.rows.keys.filterMap (posOf (view x.rows t)) :=
    List.mem_filterMap.mpr ⟨k, mem_keys_of_view hview, posOf_eq_some.mpr ⟨j, hview, hat⟩⟩
  have := hmax q hmem
  unfold nextPos
  omega

/-- The positions after the commit of `t`. -/
theorem pos_commit_of_own (hown : own x.rows t k = some j) :
    (x.commit t).pos k = if j.state = .queued then j.queuePos else none := by
  have hc : committed (x.commit t).rows k = some j :=
    (committed_commit ..).trans (view_of_own hown)
  simp [pos, posOf, hc]

theorem pos_commit_of_none (hown : own x.rows t k = none) : (x.commit t).pos k = x.pos k := by
  have hc : committed (x.commit t).rows k = committed x.rows k :=
    (committed_commit ..).trans (view_of_own_none hown)
  simp only [pos, posOf, hc]

theorem pos_commit_of_at {p : ℤ} (hown : own x.rows t k = some j) (hat : j.at p = true) :
    (x.commit t).pos k = some p := by
  obtain ⟨hstate, hpos⟩ := at_iff.mp hat
  rw [pos_commit_of_own hown, if_pos hstate, hpos]

theorem effect_enqueued {nj : NewJob} (hkn : Knows x t (.enqueueCommit nj))
    (hp : Placed x t (.enqueueCommit nj)) : Effect t x (x.commit t) (some (.append nj.id)) := by
  obtain ⟨-, hrest, hnone, hadv⟩ := hkn
  obtain ⟨p, hown, hlast⟩ := hp
  refine .append nj.id p ⟨_, hown⟩ hadv ?_ (pos_commit_of_at hown (at_iff.mpr ⟨rfl, rfl⟩)) ?_
    hlast.1 hlast.2
  · simp [pos, posOf, hnone]
  · intro k hk
    exact pos_commit_of_none (hrest k hk)

/-- An UPDATE that takes one job off the lane, a transaction of its own. -/
theorem effect_update (hn : NoOwn x t) {guard : BrokerJob → Bool} {f : BrokerJob → BrokerJob}
    (hup : x.update t id guard f = .done y) (hguard : ∀ j, j.state = .queued → guard j = true)
    (hf : ∀ j, (f j).state ≠ .queued) : Effect t x (y.commit t) (some (.remove id)) := by
  have hpos : ∀ k, committed (y.commit t).rows k = committed x.rows k →
      (y.commit t).pos k = x.pos k := by
    intro k hk
    simp only [pos, posOf, hk]
  rcases update_done hup with ⟨rfl, hnone⟩ | ⟨j, hview, hg, hw⟩
  · have hsame : ∀ k, (y.commit t).pos k = y.pos k := fun k => pos_commit_of_none (hn k)
    have hid : y.pos id = none := by
      cases hp : y.pos id with
      | none => rfl
      | some p =>
        obtain ⟨j, hj, hat⟩ := pos_eq_some.mp hp
        have hfalse := hnone j ((hn.view id).trans hj)
        rw [hguard j (at_iff.mp hat).1] at hfalse
        cases hfalse
    exact .remove id (fun _ _ _ _ => hid) ((hsame id).trans hid) fun k _ => hsame k
  · refine .remove id (fun u v hu hv => ?_) ?_ fun k hk => ?_
    · have := not_free_of_own hv hu
      rw [hw.free] at this
      cases this
    · rw [pos_commit_of_own hw.own_self, if_neg (hf j)]
    · have hkn : own y.rows t k = none := (hw.own_ne hk).trans (hn k)
      rw [pos_commit_of_none hkn]
      simp only [pos, posOf, hw.committed]

theorem place_sub (m : Mover) (k : JobId) :
    m.place k - shiftOffset = 1 + (m.target.idxOf k : ℤ) := by
  unfold Mover.place
  omega

theorem effect_reorder {via : Caller} {position : ℤ} {queued : List JobId} (hs : Sorted x)
    (hc : Checked x.rows) (hkn : Knows x t (.commit via (.reorder id position queued))) (hmem : id ∈ queued)
    (horder : x.order = queued) : Effect t x (x.commit t) (some (.move id position)) := by
  subst horder
  have hperm := moveTo_perm position hmem
  have hlow : ∀ k ∈ moveTo id position x.order, ∃ j, own x.rows t k = some j ∧
      j.at (1 + ((moveTo id position x.order).idxOf k : ℤ)) = true := by
    intro k hk
    obtain ⟨j, hown, hat⟩ := hkn.low k hk List.not_mem_nil
    rw [place_sub] at hat
    exact ⟨j, hown, hat⟩
  refine .move id position hmem (fun k hk => ?_) (fun k hk => ?_) fun k hk => ?_
  · obtain ⟨j, hown, -⟩ := hlow k (hperm.mem_iff.mpr hk)
    exact ⟨j, hown⟩
  · obtain ⟨j, hown, hat⟩ := hlow k hk
    exact pos_commit_of_at hown hat
  · -- a row that is not in the list is not pending: it would be committed as queued
    have hnone : own x.rows t k = none := by
      cases hown : own x.rows t k with
      | none => rfl
      | some j =>
        rcases hkn.moving k j hown with ⟨-, hcom⟩ | ⟨hcan, -⟩
        · obtain ⟨j₀, hj₀, hq⟩ := (Option.any_eq_true _ _).mp hcom
          have hpos := hc.committed k j₀ hj₀
          rw [hq] at hpos
          obtain ⟨p, hp⟩ := Option.isSome_iff_exists.mp hpos.symm
          have hat : j₀.at p = true := at_iff.mpr ⟨by simpa [BrokerJob.isQueued] using hq, hp⟩
          exact absurd ((mem_order hs).mpr ⟨p, pos_eq_some.mpr ⟨j₀, hj₀, hat⟩⟩) hk
        · cases hcan
    rw [pos_commit_of_none hnone]
    cases hp : x.pos k with
    | none => rfl
    | some p => exact absurd ((mem_order hs).mpr ⟨p, hp⟩) hk

theorem effect_compact {via : Caller} {ranked : List JobId}
    (hkn : Knows x t (.commit via (.compact id ranked))) (hb : Behind x t id ranked []) :
    Effect t x (x.commit t) (some (.remove id)) := by
  obtain ⟨v, hv, hstate⟩ := hkn.cancelled id rfl
  obtain ⟨tail, horder, htail⟩ := hb.order
  have hlow : ∀ k ∈ ranked, ∃ j, own x.rows t k = some j ∧
      j.at (1 + (ranked.idxOf k : ℤ)) = true := by
    intro k hk
    obtain ⟨j, hown, hat⟩ := hkn.low k hk List.not_mem_nil
    rw [place_sub] at hat
    exact ⟨j, hown, hat⟩
  refine .compact id ranked tail horder ⟨v, hv⟩ (fun k hk => ?_) (fun k hk => ?_) ?_
    (fun k hid hk => ?_) htail
  · obtain ⟨j, hown, -⟩ := hlow k hk
    exact ⟨j, hown⟩
  · obtain ⟨j, hown, hat⟩ := hlow k hk
    exact pos_commit_of_at hown hat
  · rw [pos_commit_of_own hv, if_neg (by simp [hstate])]
  · refine pos_commit_of_none ?_
    cases hown : own x.rows t k with
    | none => rfl
    | some j =>
      rcases hkn.moving k j hown with ⟨hq, -⟩ | ⟨hcan, -⟩
      · exact absurd (hb.moved k j hown hq) hk
      · exact absurd hcan hid

theorem effect_recovered {l : List (JobId × Option Time)} (hkn : Knows x t (.recoverCommit l)) :
    Effect t x (x.commit t) none := by
  refine .same (funext fun k => ?_)
  cases hown : own x.rows t k with
  | none => exact pos_commit_of_none hown
  | some j =>
    obtain ⟨hstate, hrun⟩ := hkn k j hown
    obtain ⟨j₀, hj₀, hq⟩ := (Option.any_eq_true _ _).mp hrun
    have hrun₀ : j₀.state = .running := by simpa [BrokerJob.isRunning] using hq
    rw [pos_commit_of_own hown, if_neg (by simp [hstate])]
    simp [pos, posOf, hj₀, hrun₀]

theorem laneOp_commit {via : Caller} {m : Mover} :
    laneOp (.commit via m) via.returns = some (match m with
      | .reorder id position _ => .move id position
      | .compact id _ => .remove id) := by
  cases m <;> simp [laneOp]

theorem Step.effect (h : Step t x pc x' pc') (hkn : Knows x t pc) (hp : Placed x t pc)
    (hs : Sorted x) (hc : Checked x.rows)
    (hok : ∀ via id position queued, pc = .commit via (.reorder id position queued) →
      pc' = via.returns → x.order = queued) : Effect t x x' (laneOp pc pc') := by
  cases h with
  | read _ _ _ hop =>
    rw [hop]
    exact .same rfl
  | enqueued => exact effect_enqueued hkn hp
  | @start y id at' hup =>
    refine effect_update hkn hup (fun j hq => ?_) fun j => ?_
    · simp [BrokerJob.isQueued, hq]
    · simp [started]
  | @finish y id state usage hup =>
    refine effect_update hkn.1 hup (fun j hq => ?_) fun j hq => ?_
    · simp [hq, JobState.terminal]
    · have hterm := hkn.2
      have hq' : state = .queued := hq
      rw [hq'] at hterm
      cases hterm
  | @commit via m =>
    rw [laneOp_commit]
    cases m with
    | reorder id position queued => exact effect_reorder hs hc hkn hp (hok via id position queued rfl rfl)
    | compact id ranked => exact effect_compact hkn hp
  | recovered => exact effect_recovered hkn
  | @fails _ e hpc =>
    have hnone : laneOp pc (.raised e) = none := by
      cases pc with
      | commit via m => cases m <;> cases via <;> rfl
      | _ => rfl
    rw [hnone]
    exact .same (pos_of_committed fun k => committed_rollback ..)
  | insert _ hw => exact .same (pos_of_committed hw.committed)
  | cancelUpdate hup =>
    rcases update_done hup with ⟨rfl, -⟩ | ⟨j, -, -, hw⟩
    · exact .same rfl
    · exact .same (pos_of_committed hw.committed)
  | place hput | lower hput | interrupt hput =>
    exact .same (pos_of_committed (committed_rewrite hput))
  | _ => exact .same rfl

theorem Step.keepsPlaced (h : Step t x pc x' pc') (hkn : Knows x t pc) (hp : Placed x t pc)
    (hs : Sorted x) (hc : Checked x.rows)
    (hok : ∀ via id ranked todo, pc = .shift via (.compact id ranked) →
      pc' = .lowering via (.compact id ranked) todo → x.order.erase id = ranked) :
    Placed x' t pc' := by
  cases h with
  | read hq hq' _ _ =>
    cases pc' with
    | enqueueInsert | enqueueCommit | placing | shift | lowering | commit => cases hq'
    | _ => trivial
  | max => exact last_nextPos hkn.1
  | @insert _ nj p hnew hw =>
    have hlast : Last x p := hp
    refine ⟨p, hw.own_self, hlast.1, ?_⟩
    rw [pos_of_committed hw.committed]
    exact hlast.2
  | list hmem => exact hmem
  | @placed via m =>
    cases m with
    | reorder => exact hp
    | compact => trivial
  | @place _ via m k todo hput =>
    cases m with
    | reorder => exact hp
    | compact => trivial
  | @scan via m ids hperm =>
    cases m with
    | reorder => exact hp
    | compact id ranked =>
      have horder := hok via id ranked ids rfl rfl
      have hmoved : ∀ k v, own x.rows t k = some v → v.state = .queued → k ∈ ranked :=
        fun k v hown hq => (hkn.moving k v hown).2 hq
      refine ⟨hmoved, fun k hk => ?_, [], by simpa using horder, nofun⟩
      -- what the statement sees queued is placed, or committed and then ranked
      obtain ⟨j, hview, hq⟩ := mem_select.mp (hperm.mem_iff.mp hk)
      have hstate : j.state = .queued := by simpa [BrokerJob.isQueued] using hq
      cases hown : own x.rows t k with
      | some v =>
        cases (view_of_own hown).symm.trans hview
        exact hmoved k j hown hstate
      | none =>
        rw [view_of_own_none hown] at hview
        have hpos := hc.committed k j hview
        rw [hq] at hpos
        obtain ⟨p, hp'⟩ := Option.isSome_iff_exists.mp hpos.symm
        have hmem : k ∈ x.order :=
          (mem_order hs).mpr ⟨p, pos_eq_some.mpr ⟨j, hview, at_iff.mpr ⟨hstate, hp'⟩⟩⟩
        have hne : k ≠ id := by
          rintro rfl
          obtain ⟨v, hv, -⟩ := hkn.cancelled k rfl
          cases hown.symm.trans hv
        rw [← horder, (isRanked_order hs).nodup.mem_erase_iff]
        exact ⟨hne, hmem⟩
  | @lowered via m =>
    cases m with
    | reorder => exact hp
    | compact => exact hp
  | @lower _ via m k todo hput =>
    cases m with
    | reorder => exact hp
    | compact id ranked =>
      have hb : Behind x t id ranked (k :: todo) := hp
      have hk := hb.todo k List.mem_cons_self
      have hpos := pos_of_committed (committed_rewrite hput)
      have horder : x'.order = x.order := by
        have hr' : IsRanked x'.pos x.order := (isRanked_order hs).congr fun a => congrFun hpos a
        exact (order_of_isRanked hr' (by rw [hpos]; exact hs.positive)).2
      refine ⟨fun a v hown hq => ?_, fun a ha => hb.todo a (List.mem_cons_of_mem k ha), ?_⟩
      · by_cases hak : a = k
        · subst hak
          exact hk
        · refine hb.moved a v ?_ hq
          rcases (rewrite_done hput).2 with ⟨rfl, -⟩ | ⟨j, -, -, hw⟩
          · exact hown
          · exact (hw.own_ne hak).symm.trans hown
      · rw [horder, hpos]
        exact hb.order
  | @commit via m => cases via <;> trivial
  | _ => trivial

end

/-! ## Runs -/

structure Lined (s : Sys) : Prop where
  sorted : Sorted s.shared
  placed : ∀ t, Placed s.shared t (s.pc t)

variable {s s' : Sys} {a : Act}

/-- A renumbering that has returned was not stopped. -/
theorem go_of_returns {via : Caller} {m : Mover} (hn : next s a = some s')
    (hpc : s.pc a.1 = .commit via m) (hpc' : s'.pc a.1 = via.returns) : a.2 = .go := by
  obtain ⟨t, ch⟩ := a
  obtain ⟨x, k, ha, rfl⟩ := Interleaving.next_eq_some.mp hn
  simp only [Function.update_self] at hpc'
  rw [hpc] at ha
  cases ch with
  | go => rfl
  | call | now | scan => cases ha
  | fails =>
    cases ha
    cases via <;> cases hpc'

/-- A step of the run with the condition it meets. -/
theorem undisturbed_commit (hok : Undisturbed s a) (hn : next s a = some s') {via : Caller}
    {id : JobId} {position : ℤ} {queued : List JobId}
    (hpc : s.pc a.1 = .commit via (.reorder id position queued))
    (hpc' : s'.pc a.1 = via.returns) : s.shared.order = queued := by
  unfold Undisturbed at hok
  rw [hpc, go_of_returns hn hpc hpc'] at hok
  exact hok

theorem undisturbed_shift (hok : Undisturbed s a) (hn : next s a = some s') {via : Caller}
    {id : JobId} {ranked todo : List JobId} (hpc : s.pc a.1 = .shift via (.compact id ranked))
    (hpc' : s'.pc a.1 = .lowering via (.compact id ranked) todo) :
    s.shared.order.erase id = ranked := by
  obtain ⟨t, ch⟩ := a
  obtain ⟨x, k, ha, rfl⟩ := Interleaving.next_eq_some.mp hn
  simp only [Function.update_self] at hpc'
  have hscan : ∃ ids, ch = .scan ids := by
    rw [hpc] at ha
    cases ch with
    | scan ids => exact ⟨ids, rfl⟩
    | call | now | go => cases ha
    | fails =>
      cases ha
      cases hpc'
  obtain ⟨ids, rfl⟩ := hscan
  simp only [Undisturbed] at hok
  rw [hpc] at hok
  exact hok

theorem Lined.effect (h : Lined s) (hr : Runs.Reachable next Undisturbed Sys.init s)
    (hok : Undisturbed s a) (hn : next s a = some s') :
    Effect a.1 s.shared s'.shared (laneOp (s.pc a.1) (s'.pc a.1)) :=
  (step_of_next hn).1.effect (knows_of_reachable hr _) (h.placed _) h.sorted
    (all_of_reachable kept_checked hr) fun _ _ _ _ hpc hpc' => undisturbed_commit hok hn hpc hpc'

theorem Lined.next (h : Lined s) (hr : Runs.Reachable next Undisturbed Sys.init s)
    (hok : Undisturbed s a) (hn : next s a = some s') : Lined s' := by
  obtain ⟨hst, hothers⟩ := step_of_next hn
  have heff := h.effect hr hok hn
  refine ⟨(heff.order h.sorted).1, fun u => ?_⟩
  by_cases hu : u = a.1
  · subst hu
    exact hst.keepsPlaced (knows_of_reachable hr _) (h.placed _) h.sorted
      (all_of_reachable kept_checked hr) fun _ _ _ _ hpc hpc' => undisturbed_shift hok hn hpc hpc'
  · rw [hothers u hu]
    exact (h.placed u).frame heff h.sorted (knows_of_reachable hr u) (hst.frame hu) hu

theorem lined_of_reachable (h : Runs.Reachable next Undisturbed Sys.init s) : Lined s := by
  have h0 : Lined Sys.init :=
    ⟨⟨fun _ _ _ hp => (by cases hp), fun _ _ hp => (by cases hp)⟩, fun _ => trivial⟩
  exact h.invariant h0 fun s a s' hr hI hok hn => hI.next hr hok hn

/-! ## The abstract lane -/

/-- Beside the lane: the list on which every operation is done as it commits. -/
abbrev LoggedSys := Interleaving.State CallId (Lane × List JobId) LanePc

def logOp (_ : CallId) (_ : Lane) (pc : LanePc) (l : List JobId) (_ : Lane) (pc' : LanePc) :
    List JobId :=
  (laneOp pc pc').elim l fun op => op.apply l

abbrev loggedNext : LoggedSys → Act → Option LoggedSys :=
  Interleaving.next (Interleaving.withHistory advance logOp)

def LoggedSys.init : LoggedSys := ⟨(Lane.init, []), fun _ => .idle⟩

def LogUndisturbed (s : LoggedSys) (a : Act) : Prop := Undisturbed s.forget a

instance (s : LoggedSys) (a : Act) : Decidable (LogUndisturbed s a) :=
  inferInstanceAs (Decidable (Undisturbed s.forget a))

theorem step_of_loggedNext {s s' : LoggedSys} {a : Act} (h : loggedNext s a = some s') :
    next s.forget a = some s'.forget ∧
      s'.shared.2 = (laneOp (s.pc a.1) (s'.pc a.1)).elim s.shared.2 fun op => op.apply s.shared.2 := by
  obtain ⟨t, ch⟩ := a
  obtain ⟨⟨x, l⟩, k, ha, rfl⟩ := Interleaving.next_eq_some.mp h
  obtain ⟨hadv, rfl⟩ := Interleaving.withHistory_eq_some.mp ha
  refine ⟨Interleaving.next_eq_some.mpr ⟨x, k, hadv, rfl⟩, ?_⟩
  simp only [Function.update_self]
  rfl

theorem reachable_forget {s : LoggedSys}
    (h : Runs.Reachable loggedNext LogUndisturbed LoggedSys.init s) :
    Runs.Reachable next Undisturbed Sys.init s.forget := by
  have hforget : Runs.Reachable next Undisturbed LoggedSys.init.forget s.forget :=
    Interleaving.forget_reachable_of (fun _ _ hok => hok) h
  exact hforget

theorem order_step {s s' : LoggedSys} {a : Act}
    (h : Runs.Reachable loggedNext LogUndisturbed LoggedSys.init s) (hok : LogUndisturbed s a)
    (hn : loggedNext s a = some s') :
    s'.shared.1.order =
      (laneOp (s.pc a.1) (s'.pc a.1)).elim s.shared.1.order fun op => op.apply s.shared.1.order := by
  have hr := reachable_forget h
  have hI := lined_of_reachable hr
  exact ((hI.effect hr hok (step_of_loggedNext hn).1).order hI.sorted).2

/-- `i` stands before `k`. -/
def Precedes (l : List JobId) (i k : JobId) : Prop := [i, k].Sublist l

/-- Only its own move takes a job past another. -/
theorem precedes_apply {l : List JobId} {op : LaneOp} {i k : JobId} (hnodup : l.Nodup)
    (h : Precedes l i k) (hi : i ∈ op.apply l) (hk : k ∈ op.apply l)
    (hop : ∀ position, op ≠ .move i position ∧ op ≠ .move k position) :
    Precedes (op.apply l) i k := by
  have herase : ∀ id, i ≠ id → k ≠ id → [i, k].Sublist (l.erase id) := by
    intro id hne hne'
    have hsame : [i, k].erase id = [i, k] :=
      List.erase_of_not_mem (by simp [Ne.symm hne, Ne.symm hne'])
    exact hsame ▸ h.erase id
  cases op with
  | append id => exact h.trans (List.sublist_append_left l [id])
  | remove id =>
    have hne : ∀ a ∈ l.erase id, a ≠ id := fun a ha => (hnodup.mem_erase_iff.mp ha).1
    exact herase id (hne i hi) (hne k hk)
  | move id position =>
    have hne : i ≠ id ∧ k ≠ id := by
      constructor
      · rintro rfl
        exact (hop position).1 rfl
      · rintro rfl
        exact (hop position).2 rfl
    have hsub : (l.erase id).Sublist (moveTo id position l) := by
      unfold moveTo
      have := List.eraseIdx_sublist (moveTo id position l)
        (max 0 (min ((l.erase id).length : ℤ) (position - 1))).toNat
      rwa [moveTo, List.eraseIdx_insertIdx_self] at this
    exact (herase id hne.1 hne.2).trans hsub

/-- What the lane promises in one state: its committed order is the abstract
list, no position is given twice, and a step lets no job past another but by
a move of one of them. -/
structure InLine (s : LoggedSys) : Prop where
  order : s.shared.1.order = s.shared.2
  distinct : Distinct s.shared.1.pos
  overtake : ∀ a s' i k, LogUndisturbed s a → loggedNext s a = some s' →
    Precedes s.shared.1.order i k → i ∈ s'.shared.1.order → k ∈ s'.shared.1.order →
    (∀ position, laneOp (s.pc a.1) (s'.pc a.1) ≠ some (.move i position) ∧
      laneOp (s.pc a.1) (s'.pc a.1) ≠ some (.move k position)) →
    Precedes s'.shared.1.order i k

theorem order_eq_log {s : LoggedSys}
    (h : Runs.Reachable loggedNext LogUndisturbed LoggedSys.init s) :
    s.shared.1.order = s.shared.2 := by
  induction h with
  | init => rfl
  | step a hr hok hn ih =>
    rw [order_step hr hok hn, (step_of_loggedNext hn).2, ih]

theorem lane_order (s : LoggedSys)
    (h : Runs.Reachable loggedNext LogUndisturbed LoggedSys.init s) : InLine s := by
  have hr := reachable_forget h
  have hI := lined_of_reachable hr
  refine ⟨order_eq_log h, hI.sorted.distinct, ?_⟩
  intro a s' i k hok hn hprec hi hk hop
  have hstep := order_step h hok hn
  rw [hstep] at hi hk ⊢
  cases hlane : laneOp (s.pc a.1) (s'.pc a.1) with
  | none => exact hprec
  | some op =>
    rw [hlane] at hi hk
    refine precedes_apply (isRanked_order hI.sorted).nodup hprec hi hk fun position => ?_
    simpa [hlane] using hop position

/-- Calls 0, 1 and 2 enqueue three jobs, call 3 moves the last to the head and
call 4 cancels another. -/
def moveThenCancel : List Act :=
  enqueueing 0 "a" ++ enqueueing 1 "b" ++ enqueueing 2 "c" ++
    ([(3, .call (.reorder "c" 1)), (3, .go), (3, .go), (4, .call (.cancel "b")), (4, .go),
      (3, .go), (3, .go), (3, .go), (3, .go), (3, .scan ["a", "b", "c"]), (3, .go), (3, .go),
      (3, .go), (3, .go), (3, .go),
      (4, .go), (4, .scan ["c", "a"]), (4, .go), (4, .go), (4, .go), (4, .scan ["a", "c"]),
      (4, .go), (4, .go), (4, .go), (4, .go)] : List Act)

theorem moveThenCancel_inLine :
    ∃ s : LoggedSys, s.shared.1.order = ["c", "a"] ∧ InLine s := by
  have hrun : (Runs.run loggedNext LogUndisturbed LoggedSys.init moveThenCancel).map
      (fun s => decide (s.shared.1.order = ["c", "a"])) = some true := by decide +kernel
  obtain ⟨s, hs, hp⟩ := Runs.exists_reachable hrun
  exact ⟨s, of_decide_eq_true hp, lane_order s hs⟩

/-- A job is enqueued, and committed, between the two passes of a reorder. -/
def enqueueInReorder : List Act :=
  enqueueing 0 "a" ++ enqueueing 1 "b" ++
    ([(2, .call (.reorder "b" 1)), (2, .go), (2, .go), (2, .go), (2, .go), (2, .go)] : List Act) ++
    enqueueing 3 "c" ++
    ([(2, .scan ["a", "b", "c"]), (2, .go), (2, .go), (2, .go), (2, .go), (2, .go)] : List Act)

theorem enqueueInReorder_overtakes :
    ¬ ∀ s, Runs.Reachable loggedNext Runs.anyStep LoggedSys.init s → InLine s := by
  have hrun : (Runs.run loggedNext Runs.anyStep LoggedSys.init enqueueInReorder).map
      (fun s => decide (s.shared.1.order = ["c", "b", "a"] ∧ s.shared.2 = ["b", "a", "c"]))
        = some true := by decide +kernel
  obtain ⟨s, hs, hp⟩ := Runs.exists_reachable hrun
  obtain ⟨horder, hlist⟩ := of_decide_eq_true hp
  intro hall
  have heq := (hall s hs).order
  rw [horder, hlist] at heq
  exact absurd heq (by decide)

end Lane

end MlopsLite.PlatformLib
