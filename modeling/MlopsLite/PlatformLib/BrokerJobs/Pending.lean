import MlopsLite.PlatformLib.BrokerJobs.Steps

/-!
# Broker jobs — what a transaction has pending

`Knows` says, control point by control point, which rows a call has pending,
in which version, and what is committed of them. Another call's step leaves
all of it (`Frame`), since it writes no row that is locked.
-/

namespace MlopsLite.PlatformLib

/-- The row a renumbering takes off the lane. -/
def Mover.cancels : Mover → JobId → Prop
  | .compact id _, k => k = id
  | .reorder .., _ => False

namespace Lane

open Versions

/-- `t` has no version pending. -/
def NoOwn (x : Lane) (t : CallId) : Prop := ∀ k, own x.rows t k = none

/-- A version of a row that a renumbering may have pending. -/
def Moving (x : Lane) (m : Mover) (k : JobId) (j : BrokerJob) : Prop :=
  (j.state = .queued ∧ (committed x.rows k).any BrokerJob.isQueued = true) ∨
    (m.cancels k ∧ j.state = .cancelled)

/-- In the first pass: the jobs of the list that are not in `todo` have their
temporary positions. -/
structure Placing (x : Lane) (t : CallId) (m : Mover) (todo : List JobId) : Prop where
  nodup : m.target.Nodup
  todo_nodup : todo.Nodup
  sub : ∀ k ∈ todo, k ∈ m.target
  rows : ∀ k ∈ m.target, (committed x.rows k).isSome = true
  done : ∀ k ∈ m.target, k ∉ todo → ∃ j, own x.rows t k = some j ∧ j.at (m.place k) = true
  moving : ∀ k j, own x.rows t k = some j → Moving x m k j ∧ (j.state = .queued → k ∈ m.target)
  cancelled : ∀ k, m.cancels k → ∃ j, own x.rows t k = some j ∧ j.state = .cancelled

/-- In the second pass: those in `todo` still have them, the others their new
positions. -/
structure Lowering (x : Lane) (t : CallId) (m : Mover) (todo : List JobId) : Prop where
  nodup : m.target.Nodup
  todo_nodup : todo.Nodup
  high : ∀ k ∈ m.target, k ∈ todo → ∃ j, own x.rows t k = some j ∧ j.at (m.place k) = true
  low : ∀ k ∈ m.target, k ∉ todo →
    ∃ j, own x.rows t k = some j ∧ j.at (m.place k - shiftOffset) = true
  moving : ∀ k j, own x.rows t k = some j → Moving x m k j
  cancelled : ∀ k, m.cancels k → ∃ j, own x.rows t k = some j ∧ j.state = .cancelled

def Knows (x : Lane) (t : CallId) : LanePc → Prop
  | .finish _ state _ => NoOwn x t ∧ state.terminal = true
  | .cancelUpdate _ id => NoOwn x t ∧ (committed x.rows id).isSome = true
  | .enqueueMax _ | .enqueueInsert .. => NoOwn x t ∧ x.advisory = some t
  | .enqueueCommit j =>
      (∃ pos, own x.rows t j.id = some (newRow j pos)) ∧ (∀ k, k ≠ j.id → own x.rows t k = none) ∧
        committed x.rows j.id = none ∧ x.advisory = some t
  | .compact _ id =>
      (∃ j, own x.rows t id = some j ∧ j.state = .cancelled) ∧ ∀ k, k ≠ id → own x.rows t k = none
  | .placing _ m todo => Placing x t m todo
  | .shift _ m => Placing x t m []
  | .lowering _ m todo => Lowering x t m todo
  | .commit _ m => Lowering x t m []
  | .recovering .. | .recoverCommit _ =>
      ∀ k j, own x.rows t k = some j →
        j.state = .interrupted ∧ (committed x.rows k).any BrokerJob.isRunning = true
  | _ => NoOwn x t

/-! ## Other calls' steps -/

/-- What a step of another call leaves to `u`. -/
structure Frame (u : CallId) (x x' : Lane) : Prop where
  own : ∀ k, own x'.rows u k = own x.rows u k
  committed : ∀ k j, Versions.own x.rows u k = some j →
    committed x'.rows k = committed x.rows k
  rows : ∀ k, (Versions.committed x.rows k).isSome = true →
    (Versions.committed x'.rows k).isSome = true
  advisory : x.advisory = some u → x'.advisory = some u

section

variable {t u : CallId} {x x' y : Lane} {pc pc' : LanePc} {id : JobId} {j : BrokerJob}

theorem Frame.refl (x : Lane) : Frame u x x := ⟨fun _ => rfl, fun _ _ _ => rfl, fun _ h => h, id⟩

theorem Frame.trans (h : Frame u x y) (h' : Frame u y x') : Frame u x x' := by
  refine ⟨fun k => (h'.own k).trans (h.own k), fun k j hown => ?_,
    fun k hk => h'.rows k (h.rows k hk), fun ha => h'.advisory (h.advisory ha)⟩
  have hown' : Versions.own y.rows u k = some j := (h.own k).trans hown
  exact (h'.committed k j hown').trans (h.committed k j hown)

theorem Wrote.frame (h : Wrote t x x' id j) (hu : u ≠ t) : Frame u x x' := by
  refine ⟨h.own_other hu, fun k _ _ => h.committed k, fun k hk => ?_, fun ha => ?_⟩
  · rwa [h.committed]
  · rw [h.eq]
    exact ha

theorem frame_commit (hu : u ≠ t) : Frame u x (x.commit t) := by
  refine ⟨fun k => ?_, fun k j hown => committed_commit_of_own hown hu, fun k hk => ?_,
    fun ha => ?_⟩
  · exact (own_commit ..).trans (if_neg hu)
  · show (Versions.committed (Versions.commit x.rows t) k).isSome = true
    rw [committed_commit, view_eq]
    cases Versions.own x.rows t k with
    | none => exact hk
    | some v => rfl
  · show (if x.advisory = some t then none else x.advisory) = some u
    simp [ha, hu]

theorem frame_rollback (hu : u ≠ t) : Frame u x (x.rollback t) := by
  refine ⟨fun k => ?_, fun k _ _ => committed_rollback .., fun k hk => ?_, fun ha => ?_⟩
  · exact (own_rollback ..).trans (if_neg hu)
  · exact (congrArg Option.isSome (committed_rollback x.rows t k)).trans hk
  · show (if x.advisory = some t then none else x.advisory) = some u
    simp [ha, hu]

theorem frame_update {guard : BrokerJob → Bool} {f : BrokerJob → BrokerJob}
    (h : x.update t id guard f = .done x') (hu : u ≠ t) : Frame u x x' := by
  rcases update_done h with ⟨rfl, -⟩ | ⟨j, -, -, hw⟩
  · exact .refl _
  · exact hw.frame hu

theorem frame_rewrite {guard : BrokerJob → Bool} {f : BrokerJob → BrokerJob}
    (h : x.rewrite t id guard f = .done x') (hu : u ≠ t) : Frame u x x' := by
  rcases (rewrite_done h).2 with ⟨rfl, -⟩ | ⟨j, -, -, hw⟩
  · exact .refl _
  · exact hw.frame hu

theorem Step.frame (h : Step t x pc x' pc') (hu : u ≠ t) : Frame u x x' := by
  cases h with
  | read | max | rank | list | placed | scan | lowered | interrupting | interrupted =>
    exact .refl _
  | lock ha => exact ⟨fun _ => rfl, fun _ _ _ => rfl, fun _ h => h, fun hx => nomatch ha.symm.trans hx⟩
  | insert _ hw => exact hw.frame hu
  | enqueued | commit | recovered => exact frame_commit hu
  | start hup | finish hup => exact (frame_update hup hu).trans (frame_commit hu)
  | cancelUpdate hup => exact frame_update hup hu
  | place hput | lower hput | interrupt hput => exact frame_rewrite hput hu
  | fails => exact frame_rollback hu

theorem Moving.frame {m : Mover} (hf : Frame u x x') (hown : own x.rows u id = some j)
    (h : Moving x m id j) : Moving x' m id j := by
  unfold Moving
  rw [hf.committed id j hown]
  exact h

theorem Knows.frame {k : LanePc} (h : Knows x u k) (hf : Frame u x x') : Knows x' u k := by
  have hnone : NoOwn x u → NoOwn x' u := fun hn k => (hf.own k).trans (hn k)
  cases k with
  | finish | cancelUpdate => exact ⟨hnone h.1, by first | exact h.2 | exact hf.rows _ h.2⟩
  | enqueueMax | enqueueInsert => exact ⟨hnone h.1, hf.advisory h.2⟩
  | enqueueCommit j =>
    obtain ⟨⟨pos, hown⟩, hrest, hcom, hadv⟩ := h
    refine ⟨⟨pos, (hf.own _).trans hown⟩, fun k hk => (hf.own k).trans (hrest k hk), ?_,
      hf.advisory hadv⟩
    rw [hf.committed _ _ hown]
    exact hcom
  | compact via id =>
    obtain ⟨⟨j, hown, hstate⟩, hrest⟩ := h
    exact ⟨⟨j, (hf.own _).trans hown, hstate⟩, fun k hk => (hf.own k).trans (hrest k hk)⟩
  | placing via m todo | shift via m =>
    refine ⟨h.nodup, h.todo_nodup, h.sub, fun k hk => hf.rows k (h.rows k hk), ?_, ?_, ?_⟩
    · intro k hk hnot
      obtain ⟨j, hown, hat⟩ := h.done k hk hnot
      exact ⟨j, (hf.own k).trans hown, hat⟩
    · intro k j hown
      rw [hf.own] at hown
      obtain ⟨hmoving, hmem⟩ := h.moving k j hown
      exact ⟨hmoving.frame hf hown, hmem⟩
    · intro k hk
      obtain ⟨j, hown, hstate⟩ := h.cancelled k hk
      exact ⟨j, (hf.own k).trans hown, hstate⟩
  | lowering via m todo | commit via m =>
    refine ⟨h.nodup, h.todo_nodup, ?_, ?_, ?_, ?_⟩
    · intro k hk hin
      obtain ⟨j, hown, hat⟩ := h.high k hk hin
      exact ⟨j, (hf.own k).trans hown, hat⟩
    · intro k hk hnot
      obtain ⟨j, hown, hat⟩ := h.low k hk hnot
      exact ⟨j, (hf.own k).trans hown, hat⟩
    · intro k j hown
      rw [hf.own] at hown
      exact (h.moving k j hown).frame hf hown
    · intro k hk
      obtain ⟨j, hown, hstate⟩ := h.cancelled k hk
      exact ⟨j, (hf.own k).trans hown, hstate⟩
  | recovering l todo | recoverCommit l =>
    intro k j hown
    rw [hf.own] at hown
    rw [hf.committed k j hown]
    exact h k j hown
  | _ => exact hnone h

/-! ## What is listed -/

theorem at_iff {p : ℤ} : j.at p = true ↔ j.state = .queued ∧ j.queuePos = some p := by
  simp [BrokerJob.at]

theorem posOf_eq_some {read : JobId → Option BrokerJob} {p : ℤ} :
    posOf read id = some p ↔ ∃ j, read id = some j ∧ j.at p = true := by
  unfold posOf
  cases read id with
  | none => simp
  | some j => by_cases hj : j.state = .queued <;> simp [BrokerJob.at, hj]

theorem mem_keys_of_view (h : view x.rows t id = some j) : id ∈ x.rows.keys := by
  unfold view pending committed at h
  rw [Dict.mem_keys]
  cases hget : x.rows.get? id with
  | none => simp [hget] at h
  | some row => exact ⟨row, rfl⟩

theorem nodup_listQueued (x : Lane) (t : CallId) : (x.listQueued t).Nodup :=
  Ranked.nodup_rankedBy x.rows.nodup

theorem mem_listQueued (h : id ∈ x.listQueued t) :
    ∃ j, view x.rows t id = some j ∧ j.state = .queued := by
  obtain ⟨-, hpos⟩ := Ranked.mem_rankedBy.mp h
  obtain ⟨p, hp⟩ := Option.isSome_iff_exists.mp hpos
  obtain ⟨j, hview, hat⟩ := posOf_eq_some.mp hp
  exact ⟨j, hview, (at_iff.mp hat).1⟩

theorem nodup_select (x : Lane) (t : CallId) (p : BrokerJob → Bool) : (x.select t p).Nodup :=
  x.rows.nodup.filter _

theorem mem_select {p : BrokerJob → Bool} :
    id ∈ x.select t p ↔ ∃ j, view x.rows t id = some j ∧ p j = true := by
  unfold select
  rw [List.mem_filter]
  constructor
  · rintro ⟨-, h⟩
    exact (Option.any_eq_true _ _).mp h
  · rintro ⟨j, hview, hp⟩
    exact ⟨mem_keys_of_view hview, by simp [hview, hp]⟩

/-- A move permutes the list. -/
theorem moveTo_perm (position : ℤ) {queued : List JobId} (h : id ∈ queued) :
    (moveTo id position queued).Perm queued := by
  have hle : (max 0 (min ((queued.erase id).length : ℤ) (position - 1))).toNat
      ≤ (queued.erase id).length := by
    omega
  exact (List.perm_insertIdx _ _ hle).trans (List.perm_cons_erase h).symm

/-! ## A call's own steps -/

theorem noOwn_commit (x : Lane) (t : CallId) : NoOwn (x.commit t) t := fun k =>
  (own_commit x.rows t t k).trans (if_pos rfl)

theorem noOwn_rollback (x : Lane) (t : CallId) : NoOwn (x.rollback t) t := fun k =>
  (own_rollback x.rows t t k).trans (if_pos rfl)

/-- Away from a transaction a call reads what is committed. -/
theorem NoOwn.view (h : NoOwn x t) (k : JobId) : view x.rows t k = committed x.rows k :=
  view_of_own_none (h k)

theorem Knows.of_quiet (h : Knows x t pc) (hq : pc.quiet = true) : NoOwn x t := by
  cases pc with
  | finish | cancelUpdate => exact h.1
  | enqueueMax | enqueueInsert | enqueueCommit | compact | placing | shift | lowering | commit
    | recovering | recoverCommit => cases hq
  | _ => exact h

theorem knows_quiet (h : NoOwn x t) (hq : pc.quiet = true) (hfound : Found x t pc) :
    Knows x t pc := by
  cases pc with
  | finish id state usage => exact ⟨h, hfound⟩
  | cancelUpdate via id =>
    refine ⟨h, ?_⟩
    rw [← h.view]
    exact hfound
  | enqueueMax | enqueueInsert | enqueueCommit | compact | placing | shift | lowering | commit
    | recovering | recoverCommit => cases hq
  | _ => exact h

theorem knows_insert {nj : NewJob} {pos : ℤ} (h : Knows x t (.enqueueInsert nj pos))
    (hnew : view x.rows t nj.id = none) (hw : Wrote t x x' nj.id (newRow nj pos)) :
    Knows x' t (.enqueueCommit nj) := by
  refine ⟨⟨pos, hw.own_self⟩, fun k hk => (hw.own_ne hk).trans (h.1 k), ?_, ?_⟩
  · rw [hw.committed, ← h.1.view]
    exact hnew
  · rw [hw.eq]
    exact h.2

theorem knows_cancelUpdate {via : Caller} (h : Knows x t (.cancelUpdate via id))
    (hup : x.update t id (fun _ => true) (ended .cancelled) = .done x') :
    Knows x' t (.compact via id) := by
  rcases update_done hup with ⟨-, hnone⟩ | ⟨j, -, -, hw⟩
  · obtain ⟨j, hj⟩ := Option.isSome_iff_exists.mp h.2
    rw [← h.1.view] at hj
    cases hnone j hj
  · exact ⟨⟨_, hw.own_self, rfl⟩, fun k hk => (hw.own_ne hk).trans (h.1 k)⟩

theorem knows_rank {via : Caller} {ids : List JobId} (h : Knows x t (.compact via id))
    (hp : ids.Perm (x.listQueued t)) :
    Knows x t (.placing via (.compact id (x.listQueued t)) ids) := by
  obtain ⟨⟨j₀, hown₀, hstate₀⟩, hrest⟩ := h
  have hne : ∀ k ∈ x.listQueued t, k ≠ id := by
    rintro k hk rfl
    obtain ⟨j, hview, hq⟩ := mem_listQueued hk
    cases (view_of_own hown₀).symm.trans hview
    cases hstate₀.symm.trans hq
  refine ⟨nodup_listQueued x t, hp.nodup_iff.mpr (nodup_listQueued x t),
    fun k hk => hp.mem_iff.mp hk, fun k hk => ?_, fun k hk hnot => ?_, fun k j hown => ?_,
    fun k hk => ?_⟩
  · obtain ⟨j, hview, -⟩ := mem_listQueued hk
    rw [view_of_own_none (hrest k (hne k hk))] at hview
    simp [hview]
  · exact absurd (hp.mem_iff.mpr hk) hnot
  · by_cases hk : k = id
    · subst hk
      cases hown₀.symm.trans hown
      refine ⟨.inr ⟨rfl, hstate₀⟩, fun hq => ?_⟩
      cases hstate₀.symm.trans hq
    · cases (hrest k hk).symm.trans hown
  · obtain rfl : k = id := hk
    exact ⟨j₀, hown₀, hstate₀⟩

theorem knows_list {via : Caller} {position : ℤ} (h : NoOwn x t) (hmem : id ∈ x.listQueued t) :
    Knows x t (.placing via (.reorder id position (x.listQueued t))
      (moveTo id position (x.listQueued t))) := by
  have hperm := moveTo_perm position hmem
  have hnodup := hperm.nodup_iff.mpr (nodup_listQueued x t)
  refine ⟨hnodup, hnodup, fun _ hk => hk, fun k hk => ?_, fun k hk hnot => absurd hk hnot,
    fun k j hown => ?_, fun k hk => hk.elim⟩
  · obtain ⟨j, hview, -⟩ := mem_listQueued (hperm.mem_iff.mp hk)
    rw [h.view] at hview
    simp [hview]
  · cases (h k).symm.trans hown

/-- A row that a renumbering writes is committed as queued. -/
theorem moving_of_view {m : Mover} (hown : ∀ k j, own x.rows t k = some j → Moving x m k j)
    (hview : view x.rows t id = some j) (hq : j.state = .queued) :
    (committed x.rows id).any BrokerJob.isQueued = true := by
  cases h : own x.rows t id with
  | none =>
    rw [view_of_own_none h] at hview
    simp [hview, BrokerJob.isQueued, hq]
  | some j' =>
    cases (view_of_own h).symm.trans hview
    rcases hown id j h with ⟨-, hcom⟩ | ⟨-, hc⟩
    · exact hcom
    · cases hc.symm.trans hq

/-- The cancelled row is not the one written. -/
theorem cancelled_write {m : Mover} {v : BrokerJob}
    (h : ∀ k, m.cancels k → ∃ j, own x.rows t k = some j ∧ j.state = .cancelled)
    (hview : view x.rows t id = some j) (hq : j.state = .queued) (hw : Wrote t x x' id v) :
    ∀ k, m.cancels k → ∃ j, own x'.rows t k = some j ∧ j.state = .cancelled := by
  intro k hk
  obtain ⟨j', hown, hstate⟩ := h k hk
  have hne : k ≠ id := by
    rintro rfl
    cases (view_of_own hown).symm.trans hview
    cases hstate.symm.trans hq
  exact ⟨j', (hw.own_ne hne).trans hown, hstate⟩

theorem Placing.next {m : Mover} {todo : List JobId} (h : Placing x t m (id :: todo))
    (hput : x.place t m id = .done x') : Placing x' t m todo := by
  obtain ⟨hnot, hnd⟩ := List.nodup_cons.mp h.todo_nodup
  have hmem := h.sub id List.mem_cons_self
  rcases (rewrite_done hput).2 with ⟨rfl, hnone⟩ | ⟨j, hview, -, hw⟩
  · -- the row exists, so the unguarded UPDATE has written it
    obtain ⟨j, hj⟩ := Option.isSome_iff_exists.mp (h.rows id hmem)
    have hview : ∃ j', view x'.rows t id = some j' := by
      rw [view_eq, hj]
      cases own x'.rows t id with
      | none => exact ⟨j, rfl⟩
      | some v => exact ⟨v, rfl⟩
    obtain ⟨j', hj'⟩ := hview
    cases hnone j' hj'
  · have hq : j.state = .queued := by
      have hcheck := hw.check
      simpa [BrokerJob.isQueued] using hcheck
    have hat : BrokerJob.at (m.place id) { j with queuePos := some (m.place id) } = true :=
      at_iff.mpr ⟨hq, rfl⟩
    refine ⟨h.nodup, hnd, fun k hk => h.sub k (List.mem_cons_of_mem _ hk), fun k hk => ?_,
      fun k hk hk' => ?_, fun k v hown => ?_, cancelled_write h.cancelled hview hq hw⟩
    · rw [hw.committed]
      exact h.rows k hk
    · by_cases hkid : k = id
      · subst hkid
        exact ⟨_, hw.own_self, hat⟩
      · rw [hw.own_ne hkid]
        exact h.done k hk (by simp [hkid, hk'])
    · unfold Moving
      rw [hw.committed]
      by_cases hkid : k = id
      · subst hkid
        cases hw.own_self.symm.trans hown
        refine ⟨.inl ⟨hq, moving_of_view (fun k j hk => (h.moving k j hk).1) hview hq⟩, fun _ => hmem⟩
      · rw [hw.own_ne hkid] at hown
        exact h.moving k v hown

theorem Placing.scan {m : Mover} {ids : List JobId} (h : Placing x t m [])
    (hp : ids.Perm (x.select t BrokerJob.isQueued)) : Lowering x t m ids := by
  have hplaced : ∀ k ∈ m.target, ∃ j, own x.rows t k = some j ∧ j.at (m.place k) = true :=
    fun k hk => h.done k hk (List.not_mem_nil)
  refine ⟨h.nodup, hp.nodup_iff.mpr (nodup_select ..), fun k hk _ => hplaced k hk,
    fun k hk hnot => ?_, fun k j hown => (h.moving k j hown).1, h.cancelled⟩
  obtain ⟨j, hown, hat⟩ := hplaced k hk
  refine absurd (hp.mem_iff.mpr (mem_select.mpr ⟨j, view_of_own hown, ?_⟩)) hnot
  simp [BrokerJob.isQueued, (at_iff.mp hat).1]

theorem Lowering.next {m : Mover} {todo : List JobId} (h : Lowering x t m (id :: todo))
    (hput : x.lower t id = .done x') : Lowering x' t m todo := by
  obtain ⟨hnot, hnd⟩ := List.nodup_cons.mp h.todo_nodup
  rcases (rewrite_done hput).2 with ⟨rfl, hnone⟩ | ⟨j, hview, hq, hw⟩
  · -- a job of the list is queued, so this row is not one of them
    have hout : id ∉ m.target := by
      intro hmem
      obtain ⟨j, hown, hat⟩ := h.high id hmem List.mem_cons_self
      have hfalse := hnone j (view_of_own hown)
      simp [BrokerJob.isQueued, (at_iff.mp hat).1] at hfalse
    refine ⟨h.nodup, hnd, fun k hk hin => h.high k hk (List.mem_cons_of_mem _ hin),
      fun k hk hk' => h.low k hk ?_, h.moving, h.cancelled⟩
    have hne : k ≠ id := fun heq => hout (heq ▸ hk)
    simp [hne, hk']
  · have hstate : j.state = .queued := by simpa [BrokerJob.isQueued] using hq
    refine ⟨h.nodup, hnd, fun k hk hin => ?_, fun k hk hk' => ?_, fun k v hown => ?_,
      cancelled_write h.cancelled hview hstate hw⟩
    · have hne : k ≠ id := fun heq => hnot (heq ▸ hin)
      rw [hw.own_ne hne]
      exact h.high k hk (List.mem_cons_of_mem _ hin)
    · by_cases hkid : k = id
      · subst hkid
        obtain ⟨j', hown, hat⟩ := h.high k hk List.mem_cons_self
        cases (view_of_own hown).symm.trans hview
        refine ⟨_, hw.own_self, at_iff.mpr ⟨hstate, ?_⟩⟩
        simp [(at_iff.mp hat).2]
      · rw [hw.own_ne hkid]
        exact h.low k hk (by simp [hkid, hk'])
    · unfold Moving
      rw [hw.committed]
      by_cases hkid : k = id
      · subst hkid
        cases hw.own_self.symm.trans hown
        exact .inl ⟨hstate, moving_of_view h.moving hview hstate⟩
      · rw [hw.own_ne hkid] at hown
        exact h.moving k v hown

theorem knows_interrupt {l : List (JobId × Option Time)} {todo : List JobId}
    (h : Knows x t (.recovering l (id :: todo)))
    (hput : x.rewrite t id BrokerJob.isRunning (ended .interrupted) = .done x') :
    Knows x' t (.recovering l todo) := by
  rcases (rewrite_done hput).2 with ⟨rfl, -⟩ | ⟨j, hview, hrun, hw⟩
  · exact h
  · intro k v hown
    rw [hw.committed]
    by_cases hkid : k = id
    · subst hkid
      cases hw.own_self.symm.trans hown
      refine ⟨rfl, ?_⟩
      cases hold : own x.rows t k with
      | none =>
        rw [view_of_own_none hold] at hview
        simp [hview, hrun]
      | some v => exact (h k v hold).2
    · rw [hw.own_ne hkid] at hown
      exact h k v hown

theorem Step.knows (h : Step t x pc x' pc') (hk : Knows x t pc) : Knows x' t pc' := by
  cases h with
  | read hq hq' hfound _ => exact knows_quiet (hk.of_quiet hq) hq' hfound
  | lock => exact ⟨hk, rfl⟩
  | max => exact hk
  | insert hnew hw => exact knows_insert hk hnew hw
  | enqueued | start | finish | recovered => exact noOwn_commit _ _
  | cancelUpdate hup => exact knows_cancelUpdate hk hup
  | rank hp => exact knows_rank hk hp
  | list hmem => exact knows_list hk hmem
  | placed => exact hk
  | place hput => exact Placing.next hk hput
  | scan hp => exact Placing.scan hk hp
  | lowered => exact hk
  | lower hput => exact Lowering.next hk hput
  | @commit via _ => cases via <;> exact noOwn_commit _ _
  | interrupting =>
    intro k j hown
    cases (hk k).symm.trans hown
  | interrupt hput => exact knows_interrupt hk hput
  | interrupted => exact hk
  | fails => exact noOwn_rollback _ _

/-! ## Versions -/

/-- What the writes of the lane keep of every version of a row. -/
structure Kept (p : BrokerJob → Prop) : Prop where
  new : ∀ nj pos, p (newRow nj pos)
  started : ∀ j at', j.state = .queued → p j → p (started at' j)
  finished : ∀ j state u, state.terminal = true → p j → p (finished state u j)
  ended : ∀ j state, state.terminal = true → p j → p (ended state j)
  moved : ∀ j q, j.state = .queued → p j → p { j with queuePos := some q }

theorem all_write {p : BrokerJob → Prop} (h : All p x.rows) (hw : Wrote t x x' id j) (hj : p j) :
    All p x'.rows := by
  rw [hw.eq]
  exact h.write hw.free hj

theorem all_update {p : BrokerJob → Prop} (h : All p x.rows) {guard : BrokerJob → Bool}
    {f : BrokerJob → BrokerJob} (hup : x.update t id guard f = .done y)
    (hf : ∀ j, guard j = true → (f j).isQueued = (f j).queuePos.isSome → p j → p (f j)) :
    All p y.rows := by
  rcases update_done hup with ⟨rfl, -⟩ | ⟨j, hview, hg, hw⟩
  · exact h
  · exact all_write h hw (hf j hg hw.check (h.view hview))

theorem all_rewrite {p : BrokerJob → Prop} (h : All p x.rows) {guard : BrokerJob → Bool}
    {f : BrokerJob → BrokerJob} (hup : x.rewrite t id guard f = .done y)
    (hf : ∀ j, guard j = true → (f j).isQueued = (f j).queuePos.isSome → p j → p (f j)) :
    All p y.rows := by
  rcases (rewrite_done hup).2 with ⟨rfl, -⟩ | ⟨j, hview, hg, hw⟩
  · exact h
  · exact all_write h hw (hf j hg hw.check (h.view hview))

theorem Step.all {p : BrokerJob → Prop} (hp : Kept p) (hst : Step t x pc x' pc')
    (hkn : Knows x t pc) (h : All p x.rows) : All p x'.rows := by
  cases hst with
  | insert _ hw => exact all_write h hw (hp.new _ _)
  | enqueued | commit | recovered => exact h.commit t
  | start hup =>
    refine All.commit (all_update h hup fun j hg _ hj => hp.started j _ ?_ hj) t
    simpa [BrokerJob.isQueued] using hg
  | finish hup => exact (all_update h hup fun j _ _ hj => hp.finished j _ _ hkn.2 hj).commit t
  | cancelUpdate hup => exact all_update h hup fun j _ _ hj => hp.ended j _ rfl hj
  | place hput =>
    refine all_rewrite h hput fun j _ hcheck hj => hp.moved j _ ?_ hj
    simpa [BrokerJob.isQueued] using hcheck
  | lower hput =>
    refine all_rewrite h hput fun j hg hcheck hj => ?_
    have hq : j.state = .queued := by simpa [BrokerJob.isQueued] using hg
    cases hpos : j.queuePos with
    | none => simp [BrokerJob.isQueued, hq, hpos] at hcheck
    | some q => exact hp.moved j (q - shiftOffset) hq hj
  | interrupt hput => exact all_rewrite h hput fun j _ _ hj => hp.ended j _ rfl hj
  | fails => exact h.rollback t
  | _ => exact h

/-- The CHECK `broker_jobs_queue_pos_when_queued`, of every version. -/
def Checked : Versions.Table JobId CallId BrokerJob → Prop :=
  All fun j => j.isQueued = j.queuePos.isSome

/-- A job that has not ended has used no GPU-seconds yet. -/
def Unmetered : Versions.Table JobId CallId BrokerJob → Prop :=
  All fun j => j.state.terminal = false → j.gpuSeconds = none

theorem kept_checked : Kept fun j => j.isQueued = j.queuePos.isSome := by
  constructor
  · intro nj pos
    rfl
  · intro j at' _ _
    rfl
  · intro j state u hterm _
    cases state <;> first | rfl | cases hterm
  · intro j state hterm _
    cases state <;> first | rfl | cases hterm
  · intro j q hq _
    simp [BrokerJob.isQueued, hq]

theorem kept_unmetered : Kept fun j => j.state.terminal = false → j.gpuSeconds = none := by
  constructor
  · intro nj pos _
    rfl
  · intro j at' hq hj _
    refine hj ?_
    rw [hq]
    rfl
  · intro j state u hterm _ hlive
    cases hterm.symm.trans hlive
  · intro j state hterm _ hlive
    cases hterm.symm.trans hlive
  · intro j q hq hj hlive
    exact hj hlive

end

/-! ## Runs -/

variable {ok : Sys → Act → Prop} {s : Sys}

theorem knows_of_reachable (h : Runs.Reachable next ok Sys.init s) :
    ∀ t, Knows s.shared t (s.pc t) := by
  have h0 : ∀ t, Knows Sys.init.shared t (Sys.init.pc t) := fun _ _ => rfl
  refine h.invariant (I := fun s => ∀ t, Knows s.shared t (s.pc t)) h0 ?_
  intro s a s' _ hI _ hn u
  obtain ⟨hst, hothers⟩ := step_of_next hn
  by_cases hu : u = a.1
  · subst hu
    exact hst.knows (hI _)
  · rw [hothers u hu]
    exact (hI u).frame (hst.frame hu)

theorem all_of_reachable {p : BrokerJob → Prop} (hp : Kept p)
    (h : Runs.Reachable next ok Sys.init s) : All p s.shared.rows := by
  have h0 : All p Sys.init.shared.rows :=
    ⟨fun _ _ hj => (by cases hj), fun _ _ _ hj => (by cases hj)⟩
  refine h.invariant (I := fun s => All p s.shared.rows) h0 ?_
  intro s a s' hr hI _ hn
  exact (step_of_next hn).1.all hp (knows_of_reachable hr a.1) hI

end Lane

end MlopsLite.PlatformLib
