import MlopsLite.Training.HpoTrials

/-!
# HpoWinner — what a study leaves behind

The cleanup knows the versions that the trials were given, and it is reached when no
trial stops the study and the winner's tags are written. What it could not delete is
only known to a run that returns.
-/

namespace MlopsLite.Training.Hpo

open Raising

namespace Run

variable {π : Type} (run : Run π)

def setsUp : Bool :=
  run.returns .setTrackingUri && run.returns .setExperiment && run.returns .startStudy &&
    run.returns .tagStudy

/-- The trials that run. -/
def ran : List (ℕ × Trial π) := if run.setsUp then run.ranFrom 0 run.trials else []

/-- No trial, or the study's own begin, raises past the cleanup. -/
def aborted : Bool := !run.setsUp || run.ran.any fun p => run.aborts p.1 p.2

def registered : List Version := run.ran.flatMap fun p => run.registers p.1 p.2

def given : List Version := run.ran.flatMap fun p => run.gives p.1 p.2

def completed : List (Completed π) := run.ran.flatMap fun p => (run.completes p.1 p.2).toList

def writesTags : Bool :=
  ["hpo_study", "hpo_best_params", "hpo_best_metric", "hpo_best_value"].all run.writes

/-- What comes behind the cleanup returns. -/
def tells (best : Option (Completed π)) : Bool :=
  (best.isNone || run.returns .tagBest) && run.returns .endStudy

end Run

/-- What is known of Optuna's `best_trial`. -/
structure Picks {π : Type} (direction : Direction)
    (bestTrial : List (Completed π) → Option (Completed π)) : Prop where
  none_iff : ∀ trials, bestTrial trials = none ↔ trials = []
  mem : ∀ trials best, bestTrial trials = some best → best ∈ trials
  best : ∀ trials best, bestTrial trials = some best →
    ∀ t ∈ trials, direction.better t.value best.value = false

/-- Nothing but the winner is left, or is told of, and the winner is the best trial. -/
structure LeavesOnlyWinner {π : Type} (direction : Direction)
    (r : Except Stop (Summary π) × Study π) : Prop where
  accounted : ∀ v ∈ r.2.registered,
    (∃ best, r.2.best = some best ∧ best.version = v) ∨ v ∈ r.2.deleted ∨
      ∃ summary, r.1 = .ok summary ∧ ∃ l ∈ summary.cleanupFailed, l.version = v
  winner : ∀ best, r.2.best = some best → best ∈ r.2.completed ∧
    ∀ t ∈ r.2.completed, direction.better t.value best.value = false
  reported : ∀ summary, r.1 = .ok summary →
    summary.best.map Winner.version = r.2.best.map Completed.version

/-- When a study does. -/
structure Accounts {π : Type} (bestTrial : List (Completed π) → Option (Completed π))
    (run : Run π) : Prop where
  aborted : run.aborted = true → run.registered = []
  given : run.aborted = false → ∀ v ∈ run.registered, v ∈ run.given
  tagged : run.aborted = false → run.writesTags = false →
    ∀ best, bestTrial run.completed = some best → ∀ v ∈ run.registered, best.version = v
  told : run.aborted = false → run.tells (bestTrial run.completed) = false →
    (bestTrial run.completed ≠ none → run.writesTags = true) →
    ∀ v ∈ run.given, (bestTrial run.completed).map Completed.version = some v ∨
      ∃ i, run.given[i]? = some v ∧ run.deletes i = none

variable {π : Type} {run : Run π} {s : Study π} {best : Completed π} {keep : Option Version}
  {bestTrial : List (Completed π) → Option (Completed π)} {vs gone : List Version} {i : ℕ}
  {failed : List Leftover} {v : Version}

/-! ## The cleanup -/

/-- What the cleanup makes of the versions from a place on. -/
structure Cleaned (run : Run π) (keep : Option Version) (i : ℕ) (vs gone : List Version)
    (failed : List Leftover) : Prop where
  mem_gone : ∀ v, v ∈ gone ↔ keep ≠ some v ∧ ∃ j, vs[j]? = some v ∧ run.deletes (i + j) = none
  mem_failed : ∀ l ∈ failed, l.version ∈ vs
  all : ∀ v ∈ vs, keep = some v ∨ v ∈ gone ∨ ∃ l ∈ failed, l.version = v

theorem cleanupVersions_spec (run : Run π) (keep : Option Version) (i : ℕ) (vs : List Version)
    (s : Study π) : ∃ failed gone, cleanupVersions run keep i vs s =
      (.ok failed, { s with deleted := s.deleted ++ gone }) ∧
        Cleaned run keep i vs gone failed := by
  induction vs generalizing i s with
  | nil => exact ⟨[], [], by simp [cleanupVersions], by simp, by simp, by simp⟩
  | cons v vs ih =>
    have hplace : ∀ w, (∃ j, (v :: vs)[j]? = some w ∧ run.deletes (i + j) = none) ↔
        v = w ∧ run.deletes i = none ∨ ∃ j, vs[j]? = some w ∧ run.deletes (i + 1 + j) = none := by
      intro w
      constructor
      · rintro ⟨j, hj, hd⟩
        cases j with
        | zero => exact Or.inl ⟨by simpa using hj, hd⟩
        | succ j =>
          have hshift : i + 1 + j = i + (j + 1) := by omega
          exact Or.inr ⟨j, by simpa using hj, by rwa [hshift]⟩
      · rintro (⟨rfl, hd⟩ | ⟨j, hj, hd⟩)
        · exact ⟨0, rfl, hd⟩
        · exact ⟨j + 1, by simpa using hj, by rwa [show i + (j + 1) = i + 1 + j by omega]⟩
    by_cases hkeep : keep = some v
    · obtain ⟨failed, gone, hrun, hc⟩ := ih (i + 1) s
      refine ⟨failed, gone, by rw [cleanupVersions, if_pos hkeep, hrun], fun w => ?_, ?_, ?_⟩
      · rw [hc.mem_gone, hplace]
        refine and_congr_right fun hne => ⟨Or.inr, fun h => h.resolve_left ?_⟩
        rintro ⟨rfl, -⟩
        exact hne hkeep
      · exact fun l hl => List.mem_cons_of_mem v (hc.mem_failed l hl)
      · intro w hw
        rcases List.mem_cons.mp hw with rfl | hw
        · exact Or.inl hkeep
        · exact hc.all w hw
    · cases hd : run.deletes i with
      | none =>
        obtain ⟨failed, gone, hrun, hc⟩ := ih (i + 1) { s with deleted := s.deleted ++ [v] }
        refine ⟨failed, v :: gone, ?_, fun w => ?_, ?_, ?_⟩
        · rw [cleanupVersions, if_neg hkeep, hd]
          simp [hrun]
        · rw [List.mem_cons, hc.mem_gone, hplace]
          constructor
          · rintro (rfl | ⟨hne, h⟩)
            · exact ⟨hkeep, Or.inl ⟨rfl, hd⟩⟩
            · exact ⟨hne, Or.inr h⟩
          · rintro ⟨hne, ⟨rfl, -⟩ | h⟩
            · exact Or.inl rfl
            · exact Or.inr ⟨hne, h⟩
        · exact fun l hl => List.mem_cons_of_mem v (hc.mem_failed l hl)
        · intro w hw
          rcases List.mem_cons.mp hw with rfl | hw
          · exact Or.inr (Or.inl List.mem_cons_self)
          · exact (hc.all w hw).imp_right (Or.imp_left (List.mem_cons_of_mem v))
      | some error =>
        obtain ⟨failed, gone, hrun, hc⟩ := ih (i + 1) s
        refine ⟨⟨v, error⟩ :: failed, gone, ?_, fun w => ?_, ?_, ?_⟩
        · rw [cleanupVersions, if_neg hkeep, hd]
          simp [hrun]
        · rw [hc.mem_gone, hplace]
          simp [hd]
        · intro l hl
          rcases List.mem_cons.mp hl with rfl | hl
          · exact List.mem_cons_self
          · exact List.mem_cons_of_mem v (hc.mem_failed l hl)
        · intro w hw
          rcases List.mem_cons.mp hw with rfl | hw
          · exact Or.inr (Or.inr ⟨_, List.mem_cons_self, rfl⟩)
          · refine (hc.all w hw).imp_right (Or.imp_right ?_)
            rintro ⟨l, hl, rfl⟩
            exact ⟨l, List.mem_cons_of_mem _ hl, rfl⟩

/-- Every version is accounted for: of what was not deleted only a run that returns tells. -/
theorem accounted_iff {registered created : List Version} {tells : Bool}
    (hc : Cleaned run keep 0 created gone failed) (hkeep : ∀ v, keep = some v → v ∈ created)
    (hsub : ∀ v ∈ created, v ∈ registered) :
    (∀ v ∈ registered, keep = some v ∨ v ∈ gone ∨ tells = true ∧ ∃ l ∈ failed, l.version = v) ↔
      (∀ v ∈ registered, v ∈ created) ∧ (tells = false → ∀ v ∈ created, keep = some v ∨
        ∃ i, created[i]? = some v ∧ run.deletes i = none) := by
  have hgone : ∀ v, v ∈ gone ↔
      keep ≠ some v ∧ ∃ j, created[j]? = some v ∧ run.deletes j = none := by
    simpa using hc.mem_gone
  constructor
  · intro h
    refine ⟨fun v hv => ?_, fun htells v hv => ?_⟩
    · rcases h v hv with hk | hg | ⟨-, l, hl, rfl⟩
      · exact hkeep v hk
      · obtain ⟨-, j, hj, -⟩ := (hgone v).mp hg
        exact List.mem_of_getElem? hj
      · exact hc.mem_failed l hl
    · rcases h v (hsub v hv) with hk | hg | ⟨htrue, -⟩
      · exact Or.inl hk
      · exact Or.inr ((hgone v).mp hg).2
      · rw [htells] at htrue
        cases htrue
  · rintro ⟨hcreated, hdeleted⟩ v hv
    by_cases hk : keep = some v
    · exact Or.inl hk
    · refine Or.inr ?_
      cases htells : tells with
      | true => exact ((hc.all v (hcreated v hv)).resolve_left hk).imp_right fun h => ⟨rfl, h⟩
      | false =>
        exact Or.inl ((hgone v).mpr ⟨hk, (hdeleted htells v (hcreated v hv)).resolve_left hk⟩)

/-! ## Behind the trials -/

theorem setTags_spec (run : Run π) (version : Version) (tags : List (String × String))
    (s : Study π) : ∃ r written, setTags run version tags s = (r, { s with tags := written }) ∧
      if tags.all fun kv => run.writes kv.1 then r = .ok () else ∃ e, r = .error e := by
  induction tags generalizing s with
  | nil => exact ⟨.ok (), s.tags, rfl, by simp⟩
  | cons kv tags ih =>
    obtain ⟨k, value⟩ := kv
    cases hk : run.writes k with
    | false => exact ⟨.error (.tag k), s.tags, by simp [setTags, hk], by simp [hk]⟩
    | true =>
      obtain ⟨r, written, hrun, hr⟩ := ih { s with tags := s.tags ++ [(version, k, value)] }
      refine ⟨r, written, by simp [setTags, hk, hrun], ?_⟩
      rw [List.all_cons, hk, Bool.true_and]
      exact hr

theorem all_winnerTags (run : Run π) (best : Completed π) :
    ((winnerTags run best).all fun kv => run.writes kv.1) = run.writesTags := rfl

theorem conclude_of_none (run : Run π) (h : bestTrial s.completed = none) :
    ∃ gone summary, conclude run bestTrial s =
        (.ok summary, { s with best := none, deleted := s.deleted ++ gone }) ∧
      summary.best = none ∧ Cleaned run none 0 s.created gone summary.cleanupFailed := by
  obtain ⟨failed, gone, hrun, hc⟩ := cleanupVersions_spec run none 0 s.created
    { s with best := none }
  exact ⟨gone, _, by simp [conclude, h, hrun]; rfl, rfl, hc⟩

theorem conclude_of_untagged (h : bestTrial s.completed = some best)
    (hwrites : run.writesTags = false) :
    ∃ e written, conclude run bestTrial s =
      (.error e, { s with best := some best, tags := written }) := by
  obtain ⟨r, written, hrun, hr⟩ := setTags_spec run best.version (winnerTags run best)
    { s with best := some best }
  rw [all_winnerTags, hwrites, if_neg (by simp)] at hr
  obtain ⟨e, rfl⟩ := hr
  exact ⟨e, written, by simp [conclude, h, registerWinner, hrun]⟩

theorem conclude_of_tagged (h : bestTrial s.completed = some best)
    (hwrites : run.writesTags = true) :
    ∃ gone failed written r, conclude run bestTrial s =
        (r, { s with best := some best, tags := written, deleted := s.deleted ++ gone }) ∧
      Cleaned run (some best.version) 0 s.created gone failed ∧
      if run.returns .tagBest then
        ∃ summary, r = .ok summary ∧ summary.best.map Winner.version = some best.version ∧
          summary.cleanupFailed = failed
      else r = .error (.step .tagBest) := by
  obtain ⟨r, written, hrun, hr⟩ := setTags_spec run best.version (winnerTags run best)
    { s with best := some best }
  rw [all_winnerTags, hwrites, if_pos rfl] at hr
  subst hr
  obtain ⟨failed, gone, hclean, hc⟩ := cleanupVersions_spec run (some best.version) 0 s.created
    { s with best := some best, tags := written }
  cases htag : run.returns .tagBest with
  | false =>
    refine ⟨gone, failed, written, .error (.step .tagBest), ?_, hc,
      by rw [if_neg Bool.false_ne_true]⟩
    simp [conclude, h, registerWinner, hrun, hclean, call_of_raises htag]
  | true =>
    refine ⟨gone, failed, written, .ok ⟨run.studyId, run.modality, run.direction, run.nTrials,
      s.completed.length, s.trialsLog, some ⟨best.version, best.value, best.metric, best.params⟩,
      failed⟩, ?_, hc, ?_⟩
    · simp [conclude, h, registerWinner, hrun, hclean, call_of_returns htag]
    · rw [if_pos rfl]
      exact ⟨_, rfl, rfl, rfl⟩

/-! ## The study -/

theorem gives_subset (h : v ∈ run.given) : v ∈ run.registered := by
  obtain ⟨⟨n, t⟩, hran, hv⟩ := List.mem_flatMap.mp h
  refine List.mem_flatMap.mpr ⟨(n, t), hran, ?_⟩
  dsimp only [Run.gives, Run.registers] at hv ⊢
  split at hv
  · cases hout : t.outcome <;> simp_all [Outcome.gives, Outcome.registers]
  · cases hv

theorem given_of_completed (h : best ∈ run.completed) : best.version ∈ run.given := by
  obtain ⟨⟨n, t⟩, hran, hbest⟩ := List.mem_flatMap.mp h
  refine List.mem_flatMap.mpr ⟨(n, t), hran, ?_⟩
  obtain ⟨params, outcome⟩ := t
  dsimp only [Run.completes, Run.gives] at hbest ⊢
  cases haborts : run.aborts n ⟨params, outcome⟩ with
  | true => simp [haborts] at hbest
  | false =>
    have hbegins : run.begins n = true := by
      simp only [Run.aborts, Bool.or_eq_false_iff, Bool.not_eq_false'] at haborts
      exact haborts.1.1.1
    rw [if_pos hbegins]
    cases outcome with
    | answered version ev =>
      obtain ⟨metric, reading⟩ := ev
      cases reading with
      | refused error => simp [haborts] at hbest
      | value x =>
        by_cases real : x = .nan
        · simp [real] at hbest
        · obtain rfl : best = ⟨n, params, version, metric, x, real⟩ := by
            simpa [haborts, real, eq_comm] using hbest
          exact List.mem_singleton_self version
    | trainingFailed | noVersion | evalFailed => simp [haborts] at hbest

/-- The end of the parent run. -/
theorem within_endStudy {body : Raising (Study π) Stop (Summary π)} :
    within body (fun _ => call run .endStudy) s =
      (if run.returns .endStudy then (body s).1 else .error (.step .endStudy), (body s).2) := by
  cases hend : run.returns .endStudy with
  | false => simp [within, call_of_raises hend]
  | true => simp [within, call_of_returns hend]

/-- The trials, and what comes behind them. -/
def body (run : Run π) (bestTrial : List (Completed π) → Option (Completed π)) :
    Raising (Study π) Stop (Summary π) := do
  optimize run 0 run.trials
  conclude run bestTrial

theorem runStudy_of_setsUp (h : run.setsUp = true) : runStudy run bestTrial s =
    (if run.returns .endStudy then (body run bestTrial s).1 else .error (.step .endStudy),
      (body run bestTrial s).2) := by
  obtain ⟨huri, hexperiment, hstart, htag⟩ :
      run.returns .setTrackingUri = true ∧ run.returns .setExperiment = true ∧
        run.returns .startStudy = true ∧ run.returns .tagStudy = true := by
    simpa [Run.setsUp, and_assoc] using h
  have hbody : (call run .tagStudy >>= fun _ => body run bestTrial) s = body run bestTrial s := by
    rw [bind_apply, call_of_returns htag]
  rw [← hbody, ← within_endStudy]
  simp only [runStudy, bind_apply, call_of_returns huri, call_of_returns hexperiment,
    call_of_returns hstart]
  rfl

theorem runStudy_of_not_setsUp (bestTrial : List (Completed π) → Option (Completed π))
    (s : Study π) (h : run.setsUp = false) :
    ∃ e, runStudy run bestTrial s = (.error e, s) := by
  cases huri : run.returns .setTrackingUri with
  | false => exact ⟨.step .setTrackingUri, by rw [runStudy, bind_apply, call_of_raises huri]⟩
  | true =>
    cases hexperiment : run.returns .setExperiment with
    | false =>
      exact ⟨.step .setExperiment, by simp only [runStudy, bind_apply, call_of_returns huri,
        call_of_raises hexperiment]⟩
    | true =>
      cases hstart : run.returns .startStudy with
      | false =>
        exact ⟨.step .startStudy, by simp only [runStudy, bind_apply, call_of_returns huri,
          call_of_returns hexperiment, call_of_raises hstart]⟩
      | true =>
        have htag : run.returns .tagStudy = false := by
          simpa [Run.setsUp, huri, hexperiment, hstart] using h
        refine ⟨if run.returns .endStudy then .step .tagStudy else .step .endStudy, ?_⟩
        simp only [runStudy, bind_apply, call_of_returns huri, call_of_returns hexperiment,
          call_of_returns hstart, within_endStudy, call_of_raises htag]
        split <;> rfl

/-! ### When a trial stops the study -/

theorem body_of_aborts (bestTrial : List (Completed π) → Option (Completed π)) (s : Study π)
    (h : ((run.ranFrom 0 run.trials).any fun p => run.aborts p.1 p.2) = true) :
    ∃ e, body run bestTrial s = (.error e, (optimize run 0 run.trials s).2) := by
  have hleaves := optimize_leaves run 0 run.trials s
  rw [h] at hleaves
  cases hopt : optimize run 0 run.trials s with
  | mk r s' =>
    rw [hopt] at hleaves
    cases r with
    | ok a => exact absurd (hleaves.aborts.mp rfl) (by simp)
    | error e => exact ⟨e, by rw [body, bind_apply, hopt]⟩

theorem body_of_not_aborts (bestTrial : List (Completed π) → Option (Completed π)) (s : Study π)
    (h : ((run.ranFrom 0 run.trials).any fun p => run.aborts p.1 p.2) = false) :
    body run bestTrial s = conclude run bestTrial (optimize run 0 run.trials s).2 := by
  have hleaves := optimize_leaves run 0 run.trials s
  rw [h] at hleaves
  cases hopt : optimize run 0 run.trials s with
  | mk r s' =>
    rw [hopt] at hleaves
    cases r with
    | error e => exact absurd (hleaves.aborts.mpr rfl) (by simp [raised])
    | ok a => rw [body, bind_apply, hopt]

/-- What the trials leave in a new study. -/
theorem optimize_empty (h : run.setsUp = true) :
    ∃ log tags, (optimize run 0 run.trials Study.empty).2 =
      ⟨run.registered, [], tags, run.completed, run.given, log, none⟩ := by
  have hleaves := optimize_leaves run 0 run.trials Study.empty
  generalize optimize run 0 run.trials Study.empty = r at hleaves ⊢
  obtain ⟨r, registered, deleted, tags, completed, created, log, best⟩ := r
  obtain ⟨hregistered, hcreated, hcompleted, hdeleted, hbest, -⟩ := hleaves
  refine ⟨log, tags, ?_⟩
  dsimp only [Study.empty, List.nil_append] at hregistered hcreated hcompleted hdeleted hbest
  simp only [Run.registered, Run.given, Run.completed, Run.ran, h, if_true]
  rw [hregistered, hcreated, hcompleted, hdeleted, hbest]

theorem aborted_of_setsUp (h : run.setsUp = true) :
    run.aborted = (run.ranFrom 0 run.trials).any fun p => run.aborts p.1 p.2 := by
  simp [Run.aborted, Run.ran, h]

theorem iff_of_not_setsUp (h : run.setsUp = false) :
    LeavesOnlyWinner run.direction (runStudy run bestTrial Study.empty) ↔
      Accounts bestTrial run := by
  obtain ⟨e, hrun⟩ := runStudy_of_not_setsUp bestTrial Study.empty h
  have haborted : run.aborted = true := by simp [Run.aborted, h]
  rw [hrun]
  refine iff_of_true ⟨?_, ?_, ?_⟩ ⟨fun _ => ?_, ?_, ?_, ?_⟩
  · simp [Study.empty]
  · simp [Study.empty]
  · simp
  · simp [Run.registered, Run.ran, h]
  all_goals simp [haborted]

theorem iff_of_aborts (run : Run π) (bestTrial : List (Completed π) → Option (Completed π))
    (h : run.setsUp = true) (haborted : run.aborted = true) :
    LeavesOnlyWinner run.direction (runStudy run bestTrial Study.empty) ↔
      Accounts bestTrial run := by
  obtain ⟨e, hbody⟩ := body_of_aborts bestTrial Study.empty
    ((aborted_of_setsUp h).symm.trans haborted)
  obtain ⟨log, tags, hopt⟩ := optimize_empty h
  obtain ⟨e', hrun⟩ : ∃ e', runStudy run bestTrial Study.empty =
      (.error e', ⟨run.registered, [], tags, run.completed, run.given, log, none⟩) := by
    rw [runStudy_of_setsUp h, hbody, hopt]
    cases run.returns .endStudy with
    | true => exact ⟨e, rfl⟩
    | false => exact ⟨_, rfl⟩
  rw [hrun]
  constructor
  · intro hl
    refine ⟨fun _ => List.eq_nil_iff_forall_not_mem.mpr fun v hv => ?_, ?_, ?_, ?_⟩
    · simpa using hl.accounted v hv
    all_goals simp [haborted]
  · intro ha
    refine ⟨?_, by simp, by simp⟩
    simp [ha.aborted haborted]

/-- With the cleanup behind it the study accounts for what was given and deleted. -/
theorem iff_of_cleaned {r : Except Stop (Summary π)} {tells : Bool}
    {tags : List (Version × String × String)} {log : List (Entry π)}
    {chosen : Option (Completed π)} (hpicks : Picks run.direction bestTrial)
    (hchosen : chosen = bestTrial run.completed)
    (hc : Cleaned run ((bestTrial run.completed).map Completed.version) 0 run.given gone failed)
    (hr : if tells then ∃ summary, r = .ok summary ∧ summary.cleanupFailed = failed ∧
        summary.best.map Winner.version = (bestTrial run.completed).map Completed.version
      else ∃ e, r = .error e) :
    LeavesOnlyWinner run.direction
        (r, ⟨run.registered, gone, tags, run.completed, run.given, log, chosen⟩) ↔
      (∀ v ∈ run.registered, v ∈ run.given) ∧ (tells = false → ∀ v ∈ run.given,
        (bestTrial run.completed).map Completed.version = some v ∨
          ∃ i, run.given[i]? = some v ∧ run.deletes i = none) := by
  subst hchosen
  have htold : ∀ v, (∃ summary, r = .ok summary ∧ ∃ l ∈ summary.cleanupFailed, l.version = v) ↔
      tells = true ∧ ∃ l ∈ failed, l.version = v := by
    intro v
    cases tells with
    | true =>
      obtain ⟨summary, rfl, rfl, -⟩ := hr
      simp
    | false =>
      obtain ⟨e, rfl⟩ := hr
      simp
  have hkeep : ∀ v, (bestTrial run.completed).map Completed.version = some v → v ∈ run.given := by
    intro v hv
    obtain ⟨best, hbest, rfl⟩ := Option.map_eq_some_iff.mp hv
    exact given_of_completed (hpicks.mem _ _ hbest)
  rw [← accounted_iff hc hkeep fun v => gives_subset]
  constructor
  · intro hl v hv
    rcases hl.accounted v hv with ⟨best, hbest, rfl⟩ | hgone | hfailed
    · exact Or.inl (congrArg (Option.map Completed.version) hbest)
    · exact Or.inr (Or.inl hgone)
    · exact Or.inr (Or.inr ((htold v).mp hfailed))
  · intro ha
    refine ⟨fun v hv => ?_, fun best hbest => ⟨hpicks.mem _ _ hbest, hpicks.best _ _ hbest⟩, ?_⟩
    · rcases ha v hv with hk | hgone | hfailed
      · obtain ⟨best, hbest, rfl⟩ := Option.map_eq_some_iff.mp hk
        exact Or.inl ⟨best, hbest, rfl⟩
      · exact Or.inr (Or.inl hgone)
      · exact Or.inr (Or.inr ((htold v).mpr hfailed))
    · intro summary hsummary
      cases tells with
      | true =>
        obtain ⟨summary', rfl, -, hbest⟩ := hr
        cases hsummary
        exact hbest
      | false =>
        obtain ⟨e, rfl⟩ := hr
        cases hsummary

/-- The cleanup is reached, and what comes behind it returns or raises. -/
theorem iff_of_tagged (hpicks : Picks run.direction bestTrial) (h : run.setsUp = true)
    (haborted : run.aborted = false)
    (htags : bestTrial run.completed ≠ none → run.writesTags = true) :
    LeavesOnlyWinner run.direction (runStudy run bestTrial Study.empty) ↔
      (∀ v ∈ run.registered, v ∈ run.given) ∧
        (run.tells (bestTrial run.completed) = false → ∀ v ∈ run.given,
          (bestTrial run.completed).map Completed.version = some v ∨
            ∃ i, run.given[i]? = some v ∧ run.deletes i = none) := by
  have hbody := body_of_not_aborts bestTrial Study.empty
    ((aborted_of_setsUp h).symm.trans haborted)
  obtain ⟨log, tags, hopt⟩ := optimize_empty h
  rw [runStudy_of_setsUp h, hbody, hopt]
  obtain hbest | ⟨best, hbest⟩ := (bestTrial run.completed).eq_none_or_eq_some
  · obtain ⟨gone, summary, hrun, hnone, hc⟩ := conclude_of_none run
      (s := ⟨run.registered, [], tags, run.completed, run.given, log, none⟩) hbest
    rw [hrun]
    refine iff_of_cleaned hpicks hbest.symm (by rw [hbest]; exact hc) ?_
    rw [hbest]
    cases hend : run.returns .endStudy with
    | false => simp [Run.tells, hend]
    | true => simp [Run.tells, hend, hnone]
  · obtain ⟨gone, failed, written, r, hrun, hc, hr⟩ := conclude_of_tagged
      (s := ⟨run.registered, [], tags, run.completed, run.given, log, none⟩) hbest
      (htags (by simp [hbest]))
    rw [hrun]
    refine iff_of_cleaned hpicks hbest.symm (by rw [hbest]; exact hc) ?_
    rw [hbest]
    cases htag : run.returns .tagBest with
    | false =>
      rw [htag, if_neg Bool.false_ne_true] at hr
      subst hr
      cases hend : run.returns .endStudy <;> simp [Run.tells, htag, hend]
    | true =>
      rw [htag, if_pos rfl] at hr
      obtain ⟨summary, rfl, hnamed, rfl⟩ := hr
      cases hend : run.returns .endStudy with
      | false => simp [Run.tells, htag, hend]
      | true => simpa [Run.tells, htag, hend] using hnamed

/-- The study ends before the cleanup, with the winner's tags not all written. -/
theorem iff_of_untagged (hpicks : Picks run.direction bestTrial) (h : run.setsUp = true)
    (haborted : run.aborted = false) (hbest : bestTrial run.completed = some best)
    (hwrites : run.writesTags = false) :
    LeavesOnlyWinner run.direction (runStudy run bestTrial Study.empty) ↔
      ∀ v ∈ run.registered, best.version = v := by
  have hbody := body_of_not_aborts bestTrial Study.empty
    ((aborted_of_setsUp h).symm.trans haborted)
  obtain ⟨log, tags, hopt⟩ := optimize_empty h
  obtain ⟨e, written, hrun⟩ := conclude_of_untagged
    (s := ⟨run.registered, [], tags, run.completed, run.given, log, none⟩) hbest hwrites
  obtain ⟨e', hstudy⟩ : ∃ e', runStudy run bestTrial Study.empty = (.error e',
      ⟨run.registered, [], written, run.completed, run.given, log, some best⟩) := by
    rw [runStudy_of_setsUp h, hbody, hopt, hrun]
    cases run.returns .endStudy with
    | true => exact ⟨e, rfl⟩
    | false => exact ⟨_, rfl⟩
  rw [hstudy]
  constructor
  · intro hl v hv
    simpa using hl.accounted v hv
  · intro ha
    refine ⟨fun v hv => Or.inl ⟨best, rfl, ha v hv⟩, ?_, by simp⟩
    rintro _ ⟨⟩
    exact ⟨hpicks.mem _ _ hbest, hpicks.best _ _ hbest⟩

/-- A study leaves nothing but its winner exactly if no trial stops it behind a version
that was registered, the winner's tags are written (or there is no other version), and
what is raised behind the cleanup hides no version that is left. -/
theorem leavesOnlyWinner_iff (run : Run π)
    (bestTrial : List (Completed π) → Option (Completed π))
    (hpicks : Picks run.direction bestTrial) :
    LeavesOnlyWinner run.direction (runStudy run bestTrial Study.empty) ↔
      Accounts bestTrial run := by
  cases hsetsUp : run.setsUp with
  | false => exact iff_of_not_setsUp hsetsUp
  | true =>
    cases haborted : run.aborted with
    | true => exact iff_of_aborts run bestTrial hsetsUp haborted
    | false =>
      by_cases htags : bestTrial run.completed ≠ none → run.writesTags = true
      · rw [iff_of_tagged hpicks hsetsUp haborted htags]
        constructor
        · rintro ⟨hgiven, htold⟩
          refine ⟨by simp [haborted], fun _ => hgiven, fun _ hwrites best hbest => ?_,
            fun _ htells _ => htold htells⟩
          rw [htags (by simp [hbest])] at hwrites
          cases hwrites
        · exact fun ha => ⟨ha.given haborted, fun htells => ha.told haborted htells htags⟩
      · obtain ⟨hbest, hwrites⟩ := Classical.not_imp.mp htags
        obtain ⟨best, hbest⟩ := Option.ne_none_iff_exists'.mp hbest
        have hwrites : run.writesTags = false := by simpa using hwrites
        rw [iff_of_untagged hpicks hsetsUp haborted hbest hwrites]
        constructor
        · intro hone
          refine ⟨by simp [haborted], fun _ v hv => ?_, fun _ _ best' hbest' => ?_,
            fun _ _ htags' => absurd htags' htags⟩
          · rw [← hone v hv]
            exact given_of_completed (hpicks.mem _ _ hbest)
          · obtain rfl := Option.some.inj (hbest.symm.trans hbest')
            exact hone
        · exact fun ha => ha.tagged haborted hwrites best hbest

/-! ### Two studies -/

/-- The earliest of the best trials. -/
def firstBest (direction : Direction) : List (Completed π) → Option (Completed π)
  | [] => none
  | t :: ts =>
    match firstBest direction ts with
    | none => some t
    | some u => if direction.better u.value t.value then some u else some t

theorem not_better_trans {direction : Direction} {x y z : Number} (hx : x ≠ .nan) (hy : y ≠ .nan)
    (hz : z ≠ .nan) (hxy : direction.better x y = false) (hyz : direction.better y z = false) :
    direction.better x z = false := by
  cases direction with
  | maximize => exact Number.not_lt_trans hz hy hyz hxy
  | minimize => exact Number.not_lt_trans hx hy hxy hyz

theorem better_self (direction : Direction) (x : Number) : direction.better x x = false := by
  cases direction <;> exact Number.lt_self x

theorem not_better_of_better {direction : Direction} {x y : Number}
    (h : direction.better x y = true) : direction.better y x = false := by
  refine Bool.eq_false_iff.mpr fun h' => ?_
  have hself : direction.better x x = true := by
    cases direction with
    | maximize => exact Number.lt_trans h' h
    | minimize => exact Number.lt_trans h h'
  rw [better_self] at hself
  cases hself

theorem firstBest_eq_none_iff {direction : Direction} {ts : List (Completed π)} :
    firstBest direction ts = none ↔ ts = [] := by
  cases ts with
  | nil => simp [firstBest]
  | cons t ts =>
    refine iff_of_false ?_ (List.cons_ne_nil t ts)
    rw [firstBest]
    cases firstBest direction ts with
    | none => simp
    | some u => dsimp only; split <;> simp

theorem firstBest_spec {direction : Direction} {ts : List (Completed π)}
    (h : firstBest direction ts = some best) :
    best ∈ ts ∧ ∀ t ∈ ts, direction.better t.value best.value = false := by
  induction ts generalizing best with
  | nil => cases h
  | cons t ts ih =>
    rw [firstBest] at h
    cases hrest : firstBest direction ts with
    | none =>
      rw [hrest] at h
      cases h
      obtain rfl := firstBest_eq_none_iff.mp hrest
      simp [better_self]
    | some u =>
      obtain ⟨hmem, hbest⟩ := ih hrest
      rw [hrest] at h
      dsimp only at h
      split at h
      next hbetter =>
        cases h
        refine ⟨List.mem_cons_of_mem t hmem, fun w hw => ?_⟩
        rcases List.mem_cons.mp hw with rfl | hw
        · exact not_better_of_better hbetter
        · exact hbest w hw
      next hbetter =>
        cases h
        refine ⟨List.mem_cons_self, fun w hw => ?_⟩
        rcases List.mem_cons.mp hw with rfl | hw
        · exact better_self direction w.value
        · exact not_better_trans w.real u.real t.real (hbest w hw) (by simpa using hbetter)

theorem firstBest_picks (direction : Direction) :
    Picks direction (firstBest direction : List (Completed π) → Option (Completed π)) where
  none_iff _ := firstBest_eq_none_iff
  mem _ _ h := (firstBest_spec h).1
  best _ _ h := (firstBest_spec h).2

/-- Every step returns. -/
def calm (trials : List (Trial Unit)) : Run Unit where
  studyId := "s"
  modality := "llm"
  direction := .maximize
  nTrials := trials.length
  trials := trials
  returns := fun _ => true
  writes := fun _ => true
  deletes := fun _ => none
  dumps := fun _ => "{}"
  str := fun _ => "0.75"

def version (number : String) : Version := ⟨some "toy-llm", number⟩

/-- A trial that is better and one that is worse. -/
def twoTrials : Run Unit :=
  calm [⟨(), .answered (version "1") ⟨none, .value (.fin (3 / 4))⟩⟩,
    ⟨(), .answered (version "2") ⟨none, .value (.fin (1 / 2))⟩⟩]

/-- The second trial's evaluation answers with no number. -/
def cutShort : Run Unit :=
  calm [⟨(), .answered (version "1") ⟨none, .value (.fin (3 / 4))⟩⟩,
    ⟨(), .answered (version "2") ⟨none, .refused "could not convert string to float"⟩⟩]

theorem twoTrials_leavesOnlyWinner : LeavesOnlyWinner .maximize
    (runStudy twoTrials (firstBest .maximize) Study.empty) := by
  refine (leavesOnlyWinner_iff twoTrials (firstBest .maximize) (firstBest_picks .maximize)).mpr
    ⟨by decide, by decide, ?_, ?_⟩
  · intro _ hwrites
    exact absurd hwrites (by decide)
  · intro _ htells
    simp [Run.tells, twoTrials, calm] at htells

/-- Both versions are left, and no run tells of them. -/
theorem cutShort_not_leavesOnlyWinner : ¬ LeavesOnlyWinner .maximize
    (runStudy cutShort (firstBest .maximize) Study.empty) := by
  intro h
  have hiff := iff_of_aborts cutShort (firstBest .maximize) (by decide) (by decide)
  exact absurd ((hiff.mp h).aborted (by decide)) (by decide)

end MlopsLite.Training.Hpo
