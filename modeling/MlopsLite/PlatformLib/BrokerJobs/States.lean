import MlopsLite.PlatformLib.BrokerJobs.Pending

/-!
# Broker jobs — the states of a job

`start` and `finish` judge the row in the UPDATE itself; `cancel_broker_job`
reads it first and then updates it whatever it has become. `CancelGuarded`
is what that UPDATE leaves out. With it a job that has ended stays as it is,
an owner's cancel takes no job that has started, and one job runs at a time
(`lane_states`).
-/

namespace MlopsLite.PlatformLib

namespace Lane

open Versions

/-- The UPDATE of a cancel finds its job not ended, and for the override
route still queued. -/
def CancelGuarded (s : Sys) (a : Act) : Prop :=
  match s.pc a.1, a.2 with
  | .cancelUpdate via id, .go => ∀ j ∈ committed s.shared.rows id,
      j.state.terminal = false ∧ (via = .route → j.state = .queued)
  | _, _ => True

instance (s : Sys) (a : Act) : Decidable (CancelGuarded s a) := by
  unfold CancelGuarded
  exact Interleaving.pointwise (s.pc a.1) a.2 fun pc c => by split <;> infer_instance

/-! ## What a step commits -/

/-- How the committed version of a row comes out of a step of `t`. -/
inductive Outcome (t : CallId) (x : Lane) (pc : LanePc) (x' : Lane) (k : JobId) : Prop
  | same (h : committed x'.rows k = committed x.rows k)
  | own (j : BrokerJob) (hown : own x.rows t k = some j) (h : committed x'.rows k = some j)
  | started (j : BrokerJob) (at' : Time) (hpc : pc = .start k) (hold : committed x.rows k = some j)
      (hq : j.state = .queued) (h : committed x'.rows k = some (started at' j))
      (hone : ∀ k' j', k' ≠ k → committed x.rows k' = some j' → j'.state ≠ .running)
  | finished (j : BrokerJob) (state : JobState) (u : Usage) (hpc : pc = .finish k state u)
      (hold : committed x.rows k = some j) (hlive : j.state.terminal = false)
      (h : committed x'.rows k = some (finished state u j))

section

variable {t u : CallId} {x x' y : Lane} {pc pc' : LanePc} {id k : JobId} {j : BrokerJob}

theorem outcome_commit (x : Lane) (t : CallId) (pc : LanePc) (k : JobId) :
    Outcome t x pc (x.commit t) k := by
  have hc : committed (x.commit t).rows k = (own x.rows t k).or (committed x.rows k) :=
    (committed_commit ..).trans (view_eq ..)
  cases hown : own x.rows t k with
  | none => exact .same (hc.trans (by rw [hown]; rfl))
  | some j => exact .own j hown (hc.trans (by rw [hown]; rfl))

/-- After an UPDATE that is a transaction of its own. -/
theorem committed_update (hn : NoOwn x t) {guard : BrokerJob → Bool} {f : BrokerJob → BrokerJob}
    (h : x.update t id guard f = .done y) :
    (∀ k, committed (y.commit t).rows k = committed x.rows k) ∨
      ∃ j, committed x.rows id = some j ∧ guard j = true ∧ Wrote t x y id (f j) ∧
        committed (y.commit t).rows id = some (f j) ∧
        ∀ k, k ≠ id → committed (y.commit t).rows k = committed x.rows k := by
  rcases update_done h with ⟨rfl, -⟩ | ⟨j, hview, hg, hw⟩
  · exact .inl fun k => (committed_commit ..).trans (hn.view k)
  · rw [hn.view] at hview
    refine .inr ⟨j, hview, hg, hw, (committed_commit ..).trans (view_of_own hw.own_self),
      fun k hk => ?_⟩
    have hnone : own y.rows t k = none := (hw.own_ne hk).trans (hn k)
    exact (committed_commit ..).trans ((view_of_own_none hnone).trans (hw.committed k))

/-- No other row is `running` when one is written so. -/
theorem Wrote.one_running (hn : NoOwn x t) (hw : Wrote t x y id j) (hrun : j.state = .running)
    {j' : BrokerJob} (hk : k ≠ id) (hj' : Versions.committed x.rows k = some j') :
    j'.state ≠ .running := by
  intro hrun'
  have htaken := hw.notTaken
  have hview : view x.rows t k = some j' := (hn.view k).trans hj'
  have hmem := mem_keys_of_view hview
  have := List.any_eq_false.mp htaken k hmem
  simp [hk, hview, BrokerJob.isRunning, hrun, hrun'] at this

theorem Step.outcome (h : Step t x pc x' pc') (hkn : Knows x t pc) (k : JobId) :
    Outcome t x pc x' k := by
  cases h with
  | enqueued | commit | recovered => exact outcome_commit ..
  | @start y id at' hup =>
    rcases committed_update hkn hup with hsame | ⟨j, hold, hq, hw, hnew, hrest⟩
    · exact .same (hsame k)
    · by_cases hk : k = id
      · subst hk
        refine .started j _ rfl hold (by simpa [BrokerJob.isQueued] using hq) hnew ?_
        exact fun k' j' hk' hj' => hw.one_running hkn rfl hk' hj'
      · exact .same (hrest k hk)
  | @finish y id state usage hup =>
    rcases committed_update hkn.1 hup with hsame | ⟨j, hold, hlive, -, hnew, hrest⟩
    · exact .same (hsame k)
    · by_cases hk : k = id
      · subst hk
        exact .finished j _ _ rfl hold (by simpa using hlive) hnew
      · exact .same (hrest k hk)
  | fails => exact .same (committed_rollback ..)
  | insert _ hw => exact .same (hw.committed k)
  | cancelUpdate hup =>
    rcases update_done hup with ⟨rfl, -⟩ | ⟨j, -, -, hw⟩
    · exact .same rfl
    · exact .same (hw.committed k)
  | place hput | lower hput | interrupt hput =>
    rcases (rewrite_done hput).2 with ⟨rfl, -⟩ | ⟨j, -, -, hw⟩
    · exact .same rfl
    · exact .same (hw.committed k)
  | _ => exact .same rfl

/-! ## The job a cancel takes -/

/-- The committed version of a job is open to a cancel. -/
def Opened (x : Lane) (via : Caller) (id : JobId) : Prop :=
  ∀ j, committed x.rows id = some j → j.state.terminal = false ∧ (via = .route → j.state = .queued)

/-- Since its UPDATE a cancel holds a job that was open to it. -/
def Guarded (x : Lane) : LanePc → Prop
  | .compact via id | .placing via (.compact id _) _ | .shift via (.compact id _)
  | .lowering via (.compact id _) _ | .commit via (.compact id _) => Opened x via id
  | _ => True

theorem Opened.frame {via : Caller} (h : Opened x via id) (hf : Frame u x x')
    (hown : ∃ j, own x.rows u id = some j ∧ j.state = .cancelled) : Opened x' via id := by
  obtain ⟨j, hown, -⟩ := hown
  unfold Opened
  rw [hf.committed id j hown]
  exact h

theorem Guarded.frame {k : LanePc} (h : Guarded x k) (hkn : Knows x u k) (hf : Frame u x x') :
    Guarded x' k := by
  cases k with
  | compact via id => exact Opened.frame h hf hkn.1
  | placing via m todo | shift via m | lowering via m todo | commit via m =>
    cases m with
    | reorder => trivial
    | compact id ranked => exact Opened.frame h hf (hkn.cancelled id rfl)
  | _ => trivial

theorem Opened.write {via : Caller} (h : Opened x via id)
    (hc : ∀ k, committed x'.rows k = committed x.rows k) : Opened x' via id := by
  unfold Opened
  rw [hc]
  exact h

theorem committed_rewrite {guard : BrokerJob → Bool} {f : BrokerJob → BrokerJob}
    (h : x.rewrite t id guard f = .done x') (k : JobId) :
    committed x'.rows k = committed x.rows k := by
  rcases (rewrite_done h).2 with ⟨rfl, -⟩ | ⟨j, -, -, hw⟩
  · rfl
  · exact hw.committed k

theorem Step.guarded (h : Step t x pc x' pc') (hg : Guarded x pc)
    (hok : ∀ via id, pc = .cancelUpdate via id → pc' = .compact via id → Opened x via id) :
    Guarded x' pc' := by
  cases h with
  | read hq hq' hfound _ =>
    cases pc' with
    | compact | placing | shift | lowering | commit => cases hq'
    | _ => trivial
  | @cancelUpdate _ via id hup =>
    refine (hok via id rfl rfl).write fun k => ?_
    rcases update_done hup with ⟨rfl, -⟩ | ⟨j', -, -, hw⟩
    · rfl
    · exact hw.committed k
  | rank => exact hg
  | list => trivial
  | @placed via m | @scan via m _ _ | @lowered via m =>
    cases m with
    | reorder => trivial
    | compact id ranked => exact hg
  | @place _ via m k todo hput | @lower _ via m k todo hput =>
    cases m with
    | reorder => trivial
    | compact id ranked => exact Opened.write hg (committed_rewrite hput)
  | @commit via m => cases via <;> trivial
  | _ => trivial

/-- A pending version was taken from a job that is open. -/
theorem open_of_own (hkn : Knows x t pc) (hg : Guarded x pc) (hown : own x.rows t k = some j) :
    j.state ≠ .running ∧ ∀ j₀, committed x.rows k = some j₀ →
      j₀.state.terminal = false ∧
        (∀ via m, pc = .commit via m → via = .route → j₀.state = .queued) := by
  have hmoving : ∀ m, Moving x m k j →
      (∀ id ranked, m = .compact id ranked → ∃ via, Opened x via id ∧
        ∀ via' m', pc = .commit via' m' → via' = via) →
      j.state ≠ .running ∧ ∀ j₀, committed x.rows k = some j₀ → j₀.state.terminal = false ∧
        (∀ via m, pc = .commit via m → via = .route → j₀.state = .queued) := by
    intro m hm hc
    rcases hm with ⟨hq, hcom⟩ | ⟨hcancels, hq⟩
    · refine ⟨by simp [hq], fun j₀ hj₀ => ?_⟩
      have hq₀ : j₀.state = .queued := by simpa [hj₀, BrokerJob.isQueued] using hcom
      exact ⟨by rw [hq₀]; rfl, fun _ _ _ _ => hq₀⟩
    · refine ⟨by simp [hq], fun j₀ hj₀ => ?_⟩
      cases m with
      | reorder => cases hcancels
      | compact id ranked =>
        obtain rfl : k = id := hcancels
        obtain ⟨via, hcan, hvia⟩ := hc k ranked rfl
        refine ⟨(hcan j₀ hj₀).1, fun via' m' hpc hroute => (hcan j₀ hj₀).2 ?_⟩
        rw [← hvia via' m' hpc]
        exact hroute
  cases pc with
  | enqueueCommit nj =>
    obtain ⟨⟨pos, hmine⟩, hrest, hnone, -⟩ := hkn
    by_cases hk : k = nj.id
    · subst hk
      cases hmine.symm.trans hown
      refine ⟨by simp [newRow], fun j₀ hj₀ => ?_⟩
      cases hnone.symm.trans hj₀
    · cases (hrest k hk).symm.trans hown
  | compact via id =>
    obtain ⟨⟨j', hmine, hstate⟩, hrest⟩ := hkn
    by_cases hk : k = id
    · subst hk
      cases hmine.symm.trans hown
      exact ⟨by simp [hstate], fun j₀ hj₀ => ⟨(hg j₀ hj₀).1, (by simp)⟩⟩
    · cases (hrest k hk).symm.trans hown
  | placing via m todo | shift via m =>
    refine hmoving m (hkn.moving k j hown).1 ?_
    rintro id ranked rfl
    exact ⟨via, hg, (by simp)⟩
  | lowering via m todo =>
    refine hmoving m (hkn.moving k j hown) ?_
    rintro id ranked rfl
    exact ⟨via, hg, (by simp)⟩
  | commit via m =>
    refine hmoving m (hkn.moving k j hown) ?_
    rintro id ranked rfl
    refine ⟨via, hg, ?_⟩
    rintro via' m' hpc
    cases hpc
    rfl
  | recovering l todo | recoverCommit l =>
    obtain ⟨hstate, hrun⟩ := hkn k j hown
    refine ⟨by simp [hstate], fun j₀ hj₀ => ?_⟩
    have hrun₀ : j₀.state = .running := by simpa [hj₀, BrokerJob.isRunning] using hrun
    exact ⟨by rw [hrun₀]; rfl, (by simp)⟩
  | finish | cancelUpdate => cases (hkn.1 k).symm.trans hown
  | enqueueMax | enqueueInsert => cases (hkn.1 k).symm.trans hown
  | _ => cases (hkn k).symm.trans hown

end

/-! ## Runs -/

variable {s s' : Sys} {a : Act}

theorem guarded_of_reachable (h : Runs.Reachable next CancelGuarded Sys.init s) :
    ∀ t, Guarded s.shared (s.pc t) := by
  have h0 : ∀ t, Guarded Sys.init.shared (Sys.init.pc t) := fun _ => trivial
  refine h.invariant (I := fun s => ∀ t, Guarded s.shared (s.pc t)) h0 ?_
  intro s a s' hr hI hok hn u
  obtain ⟨hst, hothers⟩ := step_of_next hn
  by_cases hu : u = a.1
  · subst hu
    refine hst.guarded (hI _) ?_
    intro via id hpc hpc' j hj
    have hgo : a.2 = .go := by
      obtain ⟨t, ch⟩ := a
      obtain ⟨x, k, ha, rfl⟩ := Interleaving.next_eq_some.mp hn
      simp only [Function.update_self] at hpc'
      rw [hpc, hpc'] at ha
      cases ch with
      | go => rfl
      | call | now | scan => cases ha
      | fails => cases ha
    unfold CancelGuarded at hok
    rw [hpc, hgo] at hok
    exact hok j hj
  · rw [hothers u hu]
    exact (hI u).frame (knows_of_reachable hr u) (hst.frame hu)

/-- The running jobs are one at most. -/
def OneRunning (x : Lane) : Prop :=
  ∀ k k' j j', committed x.rows k = some j → committed x.rows k' = some j' →
    j.state = .running → j'.state = .running → k = k'

theorem OneRunning.next (h : OneRunning s.shared) (hr : Runs.Reachable next CancelGuarded Sys.init s)
    (hn : next s a = some s') : OneRunning s'.shared := by
  have hkn := knows_of_reachable hr a.1
  have hg := guarded_of_reachable hr a.1
  have hst := (step_of_next hn).1
  have hrun : ∀ k j, committed s'.shared.rows k = some j → j.state = .running →
      (∃ j₀, committed s.shared.rows k = some j₀ ∧ j₀.state = .running) ∨
      (s.pc a.1 = .start k ∧ ∀ k' j', k' ≠ k → committed s.shared.rows k' = some j' →
        j'.state ≠ .running) := by
    intro k j hj hstate
    cases hst.outcome hkn k with
    | same hsame => exact .inl ⟨j, hsame.symm.trans hj, hstate⟩
    | own j' hown hnew =>
      cases hnew.symm.trans hj
      exact absurd hstate (open_of_own hkn hg hown).1
    | started j' at' hpc _ _ _ hone => exact .inr ⟨hpc, hone⟩
    | finished j' state u hpc _ _ hnew =>
      cases hnew.symm.trans hj
      rw [hpc] at hkn
      have hterm := hkn.2
      have hstate' : state = .running := hstate
      rw [hstate'] at hterm
      cases hterm
  intro k k' j j' hj hj' hs hs'
  rcases hrun k j hj hs with ⟨j₀, hj₀, hs₀⟩ | ⟨hpc, hone⟩
  · rcases hrun k' j' hj' hs' with ⟨j₀', hj₀', hs₀'⟩ | ⟨-, hone'⟩
    · exact h k k' j₀ j₀' hj₀ hj₀' hs₀ hs₀'
    · by_contra hne
      exact hone' k j₀ hne hj₀ hs₀
  · rcases hrun k' j' hj' hs' with ⟨j₀', hj₀', hs₀'⟩ | ⟨hpc', -⟩
    · by_contra hne
      exact hone k' j₀' (Ne.symm hne) hj₀' hs₀'
    · rw [hpc] at hpc'
      cases hpc'
      rfl

theorem oneRunning_of_reachable (h : Runs.Reachable next CancelGuarded Sys.init s) :
    OneRunning s.shared := by
  refine h.invariant (I := fun s => OneRunning s.shared) ?_ fun s a s' hr hI _ hn => hI.next hr hn
  intro k k' j j' hj
  cases hj

/-- What one step keeps of the job states. -/
structure StatesKept (s s' : Sys) (t : CallId) : Prop where
  final : ∀ id j, committed s.shared.rows id = some j → j.state.terminal = true →
    ∃ j', committed s'.shared.rows id = some j' ∧ j'.state = j.state ∧ j'.gpuSeconds = j.gpuSeconds
  overridden : ∀ m, s.pc t = .commit .route m → ∀ id j, committed s.shared.rows id = some j →
    j.state ≠ .queued → ∃ j', committed s'.shared.rows id = some j' ∧ j'.state = j.state
  oneRunning : OneRunning s'.shared

/-- A job that has ended keeps its state and its GPU-seconds, the commit of an
owner's override leaves every job that has started as it is, and one job at
most runs. -/
theorem lane_states (s s' : Sys) (a : Act) (h : Runs.Reachable next CancelGuarded Sys.init s)
    (hok : CancelGuarded s a) (hn : next s a = some s') : StatesKept s s' a.1 := by
  have hkn := knows_of_reachable h a.1
  have hg := guarded_of_reachable h a.1
  have hst := (step_of_next hn).1
  refine ⟨fun id j hj hterm => ?_, fun m hpc id j hj hstarted => ?_,
    oneRunning_of_reachable (h.step a hok hn)⟩
  · cases hst.outcome hkn id with
    | same hsame => exact ⟨j, hsame.trans hj, rfl, rfl⟩
    | own j' hown _ =>
      have hopen := ((open_of_own hkn hg hown).2 j hj).1
      cases hopen.symm.trans hterm
    | started j' at' _ hold hq _ _ =>
      cases hold.symm.trans hj
      rw [hq] at hterm
      cases hterm
    | finished j' state u _ hold hlive _ =>
      cases hold.symm.trans hj
      cases hlive.symm.trans hterm
  · cases hst.outcome hkn id with
    | same hsame => exact ⟨j, hsame.trans hj, rfl⟩
    | own j' hown _ =>
      exact absurd (((open_of_own hkn hg hown).2 j hj).2 _ m hpc rfl) hstarted
    | started j' at' hpc' => cases hpc.symm.trans hpc'
    | finished j' state u hpc' => cases hpc.symm.trans hpc'

/-! ## Runs -/

def submitted (id : JobId) : NewJob :=
  { id, tenantId := "acme", kind := .batch, spec := "\x7b\x7d", sandbox := "" }

/-- The steps of `t` that enqueue a job. -/
def enqueueing (t : CallId) (id : JobId) : List Act :=
  [(t, .call (.enqueue (submitted id))), (t, .go), (t, .go), (t, .go), (t, .go)]

/-- Call 2 finishes the job with 7 GPU-seconds; call 3 is about to finish it
again with 9. -/
def finishedTwice : List Act :=
  enqueueing 0 "a" ++
    [(1, .call (.start "a")), (1, .now 5), (2, .call (.finish "a" .succeeded ⟨some 7, none, none⟩)),
      (2, .go), (3, .call (.finish "a" .failed ⟨some 9, none, none⟩))]

theorem finishedTwice_keeps : ∃ s s' : Sys, next s (3, .go) = some s' ∧
    ∃ j, committed s'.shared.rows "a" = some j ∧ j.state = .succeeded ∧ j.gpuSeconds = some 7 := by
  have hrun : ((Runs.run next CancelGuarded Sys.init finishedTwice).bind fun s =>
      (next s (3, .go)).map fun _ => decide (CancelGuarded s (3, .go)) &&
        (committed s.shared.rows "a").any fun j =>
          j.state = .succeeded ∧ j.gpuSeconds = some 7) = some true := by
    decide +kernel
  obtain ⟨s, s', hs, hn, hp⟩ := Runs.exists_step hrun
  obtain ⟨hok, hany⟩ := Bool.and_eq_true_iff.mp hp
  obtain ⟨j, hj, hfin⟩ := (Option.any_eq_true _ _).mp hany
  obtain ⟨hstate, hgpu⟩ := of_decide_eq_true hfin
  have hterm : j.state.terminal = true := by
    rw [hstate]
    rfl
  have hkept := lane_states s s' (3, .go) hs (of_decide_eq_true hok) hn
  obtain ⟨j', hj', hstate', hgpu'⟩ := hkept.final "a" j hj hterm
  exact ⟨s, s', hn, j', hj', hstate'.trans hstate, hgpu'.trans hgpu⟩

/-- The override of call 1 has read the job as queued; call 2 starts it before
the UPDATE of the cancel. -/
def overrideAfterStart : List Act :=
  enqueueing 0 "a" ++
    [(1, .call (.override "a" "cancel" none)), (1, .go), (1, .go),
      (2, .call (.start "a")), (2, .now 5),
      (1, .go), (1, .scan []), (1, .go), (1, .scan []), (1, .go)]

theorem overrideAfterStart_cancels :
    ¬ ∀ s s' a, Runs.Reachable next Runs.anyStep Sys.init s → next s a = some s' →
      StatesKept s s' a.1 := by
  have hrun : ((Runs.run next Runs.anyStep Sys.init overrideAfterStart).bind fun s =>
      (next s (1, .go)).map fun s' =>
        decide (s.pc 1 = .commit .route (.compact "a" [])) &&
          (committed s.shared.rows "a").any (fun j => j.state = .running) &&
          (committed s'.shared.rows "a").any fun j => j.state = .cancelled) = some true := by
    decide +kernel
  obtain ⟨s, s', hs, hn, hp⟩ := Runs.exists_step hrun
  obtain ⟨hp, hany'⟩ := Bool.and_eq_true_iff.mp hp
  obtain ⟨hpc, hany⟩ := Bool.and_eq_true_iff.mp hp
  obtain ⟨j, hj, hrun⟩ := (Option.any_eq_true _ _).mp hany
  obtain ⟨j', hj', hcan⟩ := (Option.any_eq_true _ _).mp hany'
  have hrunning := of_decide_eq_true hrun
  have hcancelled := of_decide_eq_true hcan
  intro hall
  obtain ⟨j'', hj'', hsame⟩ := (hall s s' (1, .go) hs hn).overridden _ (of_decide_eq_true hpc) "a" j
    hj (by simp [hrunning])
  cases hj'.symm.trans hj''
  rw [hcancelled, hrunning] at hsame
  cases hsame

end Lane

end MlopsLite.PlatformLib
