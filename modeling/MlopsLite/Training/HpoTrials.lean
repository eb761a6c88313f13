import MlopsLite.Training.Hpo

/-!
# HpoTrials — what trials leave in a study

What a trial registers, what it is given and whether it stops the study can be read off
its outcome and the steps that return.
-/

namespace MlopsLite.Training.Hpo

open Raising

/-- What the training has registered. -/
def Outcome.registers : Outcome → List Version
  | .trainingFailed _ left => left.toList
  | .noVersion => []
  | .evalFailed version _ => [version]
  | .answered version _ => [version]

/-- What the trial was given. -/
def Outcome.gives : Outcome → List Version
  | .trainingFailed _ _ => []
  | .noVersion => []
  | .evalFailed version _ => [version]
  | .answered version _ => [version]

/-- The evaluation's value is nothing that `float` takes. -/
def Outcome.refuses : Outcome → Bool
  | .answered _ ⟨_, .refused _⟩ => true
  | _ => false

/-- The steps between the outcome and the end of the nested run. -/
def Outcome.steps (n : ℕ) : Outcome → List Call
  | .answered _ _ => [.logMetric n, .tagCompleted n]
  | _ => [.tagStatus n]

namespace Run

variable {π : Type} (run : Run π)

/-- The training is reached. -/
def begins (n : ℕ) : Bool :=
  run.returns (.sample n) && run.returns (.startTrial n) && run.returns (.tagTrial n) &&
    run.returns (.logParams n)

/-- The trial raises what is not `TrialPruned`. -/
def aborts (n : ℕ) (t : Trial π) : Bool :=
  !run.begins n || t.outcome.refuses || !(t.outcome.steps n).all run.returns ||
    !run.returns (.endTrial n)

def registers (n : ℕ) (t : Trial π) : List Version :=
  if run.begins n then t.outcome.registers else []

def gives (n : ℕ) (t : Trial π) : List Version :=
  if run.begins n then t.outcome.gives else []

/-- The trial as Optuna has it, where its value is a number. -/
def completes (n : ℕ) (t : Trial π) : Option (Completed π) :=
  if run.aborts n t then none
  else
    match t.outcome with
    | .answered version ⟨metric, .value x⟩ =>
      if real : x = .nan then none else some ⟨n, t.params, version, metric, x, real⟩
    | _ => none

end Run

variable {π : Type} {run : Run π} {c : Call} {n i : ℕ} {t : Trial π} {ts : List (Trial π)}
  {s s' : Study π} {v : Version} {vs : List Version} {keep : Option Version}

/-! ## One trial -/

theorem call_of_returns (h : run.returns c = true) : call run c s = (.ok (), s) := by
  rw [call, if_pos h]
  rfl

theorem call_of_raises (h : run.returns c = false) : call run c s = (.error (.step c), s) := by
  rw [call, if_neg (by simp [h])]
  rfl

/-- The study after a trial has registered and been given what it is. -/
def Study.after (s : Study π) (registered created : List Version) (log : List (Entry π)) :
    Study π :=
  { s with
    registered := s.registered ++ registered
    created := s.created ++ created
    trialsLog := log }

/-- What a trial raises or returns where all its steps return. -/
def Outcome.answer : Outcome → Except Stop Answer
  | .answered version ⟨metric, .value x⟩ => .ok ⟨version, metric, x⟩
  | .answered _ ⟨_, .refused error⟩ => .error (.value error)
  | _ => .error .pruned

/-- The study is to be stopped, or the trial comes to its answer. -/
def Comes (stops : Bool) (t : Trial π) (r : Except Stop Answer) : Prop :=
  if stops then ∃ e, r = .error e ∧ e ≠ .pruned else r = t.outcome.answer

/-- How a trial that failed ends. -/
theorem prune_spec (run : Run π) (n : ℕ) (s : Study π) (entry : Entry π) :
    ∃ e log, (do call run (.tagStatus n); note entry; raise .pruned) s =
        ((.error e : Except Stop Answer), { s with trialsLog := log }) ∧
      (if run.returns (.tagStatus n) then e = .pruned else e ≠ .pruned) := by
  cases hstatus : run.returns (.tagStatus n) with
  | false =>
    refine ⟨.step (.tagStatus n), s.trialsLog, ?_, by simp⟩
    rw [bind_apply, call_of_raises hstatus]
  | true =>
    refine ⟨.pruned, s.trialsLog ++ [entry], ?_, by simp⟩
    rw [bind_apply, call_of_returns hstatus]
    rfl

theorem comes_of_prune {e : Stop} (ht : t.outcome.refuses = false)
    (hsteps : t.outcome.steps n = [.tagStatus n]) (hanswer : t.outcome.answer = .error .pruned)
    (he : if run.returns (.tagStatus n) then e = .pruned else e ≠ .pruned) :
    Comes (t.outcome.refuses || !(t.outcome.steps n).all run.returns) t (.error e) := by
  rw [Comes, ht, hsteps]
  cases hstatus : run.returns (.tagStatus n) with
  | false => simpa [hstatus] using he
  | true => simpa [hstatus, hanswer] using he

theorem score_spec (htag : run.returns (.tagTrial n) = true)
    (hparams : run.returns (.logParams n) = true) :
    ∃ r log, score run n t s = (r, s.after t.outcome.registers t.outcome.gives log) ∧
      Comes (t.outcome.refuses || !(t.outcome.steps n).all run.returns) t r := by
  obtain ⟨params, outcome⟩ := t
  have hbegin : ∀ f : Unit → Raising (Study π) Stop Answer,
      (call run (.tagTrial n) >>= fun _ => call run (.logParams n) >>= f) s = f () s := by
    intro f
    rw [bind_apply, call_of_returns htag]
    dsimp only
    rw [bind_apply, call_of_returns hparams]
  unfold score
  rw [hbegin]
  cases outcome with
  | trainingFailed error left =>
    obtain ⟨e, log, hrun, he⟩ := prune_spec run n
      { s with registered := s.registered ++ left.toList } (.failed n params error)
    refine ⟨.error e, log, hrun.trans ?_, comes_of_prune rfl rfl rfl he⟩
    simp [Study.after, Outcome.registers, Outcome.gives]
  | noVersion =>
    obtain ⟨e, log, hrun, he⟩ := prune_spec run n s
      (.failed n params "training produced no registered version")
    refine ⟨.error e, log, hrun.trans ?_, comes_of_prune rfl rfl rfl he⟩
    simp [Study.after, Outcome.registers, Outcome.gives]
  | evalFailed version error =>
    obtain ⟨e, log, hrun, he⟩ := prune_spec run n { s with
      registered := s.registered ++ [version]
      created := s.created ++ [version] } (.evalFailed n params version error)
    exact ⟨.error e, log, hrun, comes_of_prune rfl rfl rfl he⟩
  | answered version ev =>
    obtain ⟨metric, reading⟩ := ev
    cases reading with
    | refused error =>
      refine ⟨.error (.value error), s.trialsLog, ?_, ?_⟩
      · simp [register, create, Study.after, Outcome.registers, Outcome.gives]
      · simp [Comes, Outcome.refuses]
    | value x =>
      cases hmetric : run.returns (.logMetric n) with
      | false =>
        refine ⟨.error (.step (.logMetric n)), s.trialsLog, ?_, ?_⟩
        · simp [register, create, call_of_raises hmetric, Study.after, Outcome.registers,
            Outcome.gives]
        · simp [Comes, Outcome.refuses, Outcome.steps, hmetric]
      | true =>
        cases hdone : run.returns (.tagCompleted n) with
        | false =>
          refine ⟨.error (.step (.tagCompleted n)), s.trialsLog, ?_, ?_⟩
          · simp [register, create, call_of_returns hmetric, call_of_raises hdone, Study.after,
              Outcome.registers, Outcome.gives]
          · simp [Comes, Outcome.refuses, Outcome.steps, hmetric, hdone]
        | true =>
          refine ⟨.ok ⟨version, metric, x⟩, s.trialsLog ++ [.completed n params version x metric],
            ?_, ?_⟩
          · simp [register, create, note, call_of_returns hmetric, call_of_returns hdone,
              Study.after, Outcome.registers, Outcome.gives]
          · simp [Comes, Outcome.refuses, Outcome.steps, hmetric, hdone, Outcome.answer]

theorem objective_of_not_begins (h : run.begins n = false) :
    ∃ e, objective run n t s = (.error e, s.after [] [] s.trialsLog) ∧ e ≠ .pruned := by
  have hsame : s.after [] [] s.trialsLog = s := by simp [Study.after]
  rw [hsame]
  unfold objective
  cases hsample : run.returns (.sample n) with
  | false => exact ⟨_, by rw [bind_apply, call_of_raises hsample], by simp⟩
  | true =>
    rw [bind_apply, call_of_returns hsample]
    dsimp only
    cases hstart : run.returns (.startTrial n) with
    | false => exact ⟨_, by rw [bind_apply, call_of_raises hstart], by simp⟩
    | true =>
      rw [bind_apply, call_of_returns hstart]
      have hscore : ∃ e, score run n t s = (.error e, s) ∧ e ≠ .pruned := by
        unfold score
        cases htag : run.returns (.tagTrial n) with
        | false => exact ⟨_, by rw [bind_apply, call_of_raises htag], by simp⟩
        | true =>
          rw [bind_apply, call_of_returns htag]
          have hparams : run.returns (.logParams n) = false := by
            simpa [Run.begins, hsample, hstart, htag] using h
          exact ⟨_, by dsimp only; rw [bind_apply, call_of_raises hparams], by simp⟩
      obtain ⟨e, hscore, he⟩ := hscore
      -- the nested run ends with what its body raised, or with what its end raises
      cases hend : run.returns (.endTrial n) with
      | false => exact ⟨.step (.endTrial n), by simp [within, hscore, call_of_raises hend], by simp⟩
      | true => exact ⟨e, by simp [within, hscore, call_of_returns hend], he⟩

theorem objective_spec (run : Run π) (n : ℕ) (t : Trial π) (s : Study π) :
    ∃ r log, objective run n t s = (r, s.after (run.registers n t) (run.gives n t) log) ∧
      Comes (run.aborts n t) t r := by
  cases hbegins : run.begins n with
  | false =>
    obtain ⟨e, hrun, he⟩ := objective_of_not_begins (s := s) (t := t) hbegins
    refine ⟨.error e, s.trialsLog, ?_, ?_⟩
    · simpa [Run.registers, Run.gives, hbegins] using hrun
    · simpa [Comes, Run.aborts, hbegins] using he
  | true =>
    obtain ⟨⟨⟨hsample, hstart⟩, htag⟩, hparams⟩ :
        ((run.returns (.sample n) = true ∧ run.returns (.startTrial n) = true) ∧
          run.returns (.tagTrial n) = true) ∧ run.returns (.logParams n) = true := by
      simpa [Run.begins, and_assoc] using hbegins
    obtain ⟨r, log, hscore, hcomes⟩ := score_spec (s := s) (t := t) htag hparams
    simp only [Run.registers, Run.gives, hbegins, if_true]
    have hrun : objective run n t s =
        within (score run n t) (fun _ => call run (.endTrial n)) s := by
      unfold objective
      rw [bind_apply, call_of_returns hsample]
      dsimp only
      rw [bind_apply, call_of_returns hstart]
    rw [hrun]
    cases hend : run.returns (.endTrial n) with
    | false =>
      refine ⟨.error (.step (.endTrial n)), log, ?_, ?_⟩
      · simp [within, hscore, call_of_raises hend]
      · simp [Comes, Run.aborts, hend]
    | true =>
      refine ⟨r, log, ?_, ?_⟩
      · simp [within, hscore, call_of_returns hend]
      · simpa [Run.aborts, hbegins, hend] using hcomes

/-- What trials leave in the study. -/
structure Leaves (s : Study π) (registered created : List Version) (completed : List (Completed π))
    (aborts : Bool) (r : Except Stop Unit × Study π) : Prop where
  registered : r.2.registered = s.registered ++ registered
  created : r.2.created = s.created ++ created
  completed : r.2.completed = s.completed ++ completed
  deleted : r.2.deleted = s.deleted
  best : r.2.best = s.best
  aborts : raised r.1 = none ↔ aborts = false

theorem runTrial_of_raised {e : Stop} (h : objective run n t s = (.error e, s')) :
    runTrial run n t s = (if e = .pruned then .ok () else .error e, s') := by
  have hbind : (objective run n t >>= tell n t.params) s = (.error e, s') := by
    rw [bind_apply, h]
  unfold runTrial
  by_cases he : e = .pruned
  · rw [rescue_of_caught (by rw [hbind]; rfl) (by simp [he]), hbind, if_pos he]
    rfl
  · rw [rescue_of_not_caught (by rw [hbind]; simp [raised, he]), hbind, if_neg he]

theorem runTrial_of_answer {a : Answer} (h : objective run n t s = (.ok a, s')) :
    runTrial run n t s = (.ok (), { s' with
      completed := s'.completed ++ if real : a.value = .nan then []
        else [⟨n, t.params, a.version, a.metric, a.value, real⟩] }) := by
  have hbind : (objective run n t >>= tell n t.params) s = tell n t.params a s' := by
    rw [bind_apply, h]
  unfold runTrial
  by_cases real : a.value = .nan
  · have htell : tell n t.params a s' = (.ok (), s') := by rw [tell, dif_pos real]; rfl
    rw [rescue_of_not_caught (by rw [hbind, htell]; simp [raised]), hbind, htell, dif_pos real,
      List.append_nil]
  · have htell : tell n t.params a s' = (.ok (), { s' with
        completed := s'.completed ++ [⟨n, t.params, a.version, a.metric, a.value, real⟩] }) := by
      rw [tell, dif_neg real]
      rfl
    rw [rescue_of_not_caught (by rw [hbind, htell]; simp [raised]), hbind, htell, dif_neg real]

theorem runTrial_leaves (run : Run π) (n : ℕ) (t : Trial π) (s : Study π) :
    Leaves s (run.registers n t) (run.gives n t)
    (run.completes n t).toList (run.aborts n t) (runTrial run n t s) := by
  obtain ⟨r, log, hrun, hcomes⟩ := objective_spec run n t s
  cases haborts : run.aborts n t with
  | true =>
    obtain ⟨e, rfl, he⟩ : ∃ e, r = .error e ∧ e ≠ .pruned := by
      simpa [Comes, haborts] using hcomes
    rw [runTrial_of_raised hrun, if_neg he]
    constructor <;> simp [Study.after, Run.completes, haborts, raised]
  | false =>
    obtain rfl : r = t.outcome.answer := by simpa [Comes, haborts] using hcomes
    have hpruned (hanswer : t.outcome.answer = .error .pruned) (hnone : run.completes n t = none) :
        Leaves s (run.registers n t) (run.gives n t) (run.completes n t).toList false
          (runTrial run n t s) := by
      rw [hanswer] at hrun
      rw [runTrial_of_raised hrun, if_pos rfl]
      constructor <;> simp [Study.after, hnone, raised]
    obtain ⟨params, outcome⟩ := t
    cases outcome with
    | trainingFailed error left => exact hpruned rfl (by simp [Run.completes])
    | noVersion => exact hpruned rfl (by simp [Run.completes])
    | evalFailed version error => exact hpruned rfl (by simp [Run.completes])
    | answered version ev =>
      obtain ⟨metric, reading⟩ := ev
      cases reading with
      | refused error => simp [Run.aborts, Outcome.refuses] at haborts
      | value x =>
        rw [runTrial_of_answer hrun]
        have hcompleted : (run.completes n ⟨params, .answered version ⟨metric, .value x⟩⟩).toList =
            if real : x = .nan then [] else [⟨n, params, version, metric, x, real⟩] := by
          rw [Run.completes, haborts]
          by_cases real : x = .nan <;> simp [real]
        rw [hcompleted]
        constructor <;> simp [Study.after, raised]

/-! ## All trials -/

namespace Run

variable (run)

/-- The trials that run: none behind the first that stops the study. -/
def ranFrom : ℕ → List (Trial π) → List (ℕ × Trial π)
  | _, [] => []
  | n, t :: ts => (n, t) :: if run.aborts n t then [] else ranFrom (n + 1) ts

end Run

theorem Leaves.append {r : Except Stop Unit × Study π} {r' : Except Stop Unit × Study π}
    {vs vs' ws ws' : List Version} {cs cs' : List (Completed π)} {b : Bool}
    (h : Leaves s vs ws cs false r) (h' : Leaves r.2 vs' ws' cs' b r') :
    Leaves s (vs ++ vs') (ws ++ ws') (cs ++ cs') b r' where
  registered := by rw [h'.registered, h.registered, List.append_assoc]
  created := by rw [h'.created, h.created, List.append_assoc]
  completed := by rw [h'.completed, h.completed, List.append_assoc]
  deleted := by rw [h'.deleted, h.deleted]
  best := by rw [h'.best, h.best]
  aborts := h'.aborts

theorem optimize_leaves (run : Run π) (n : ℕ) (ts : List (Trial π)) (s : Study π) :
    Leaves s ((run.ranFrom n ts).flatMap fun p => run.registers p.1 p.2)
      ((run.ranFrom n ts).flatMap fun p => run.gives p.1 p.2)
      ((run.ranFrom n ts).flatMap fun p => (run.completes p.1 p.2).toList)
      ((run.ranFrom n ts).any fun p => run.aborts p.1 p.2) (optimize run n ts s) := by
  induction ts generalizing n s with
  | nil => exact ⟨by simp [optimize, Run.ranFrom], by simp [optimize, Run.ranFrom],
      by simp [optimize, Run.ranFrom], rfl, rfl, by simp [optimize, Run.ranFrom, raised]⟩
  | cons t ts ih =>
    have hfirst := runTrial_leaves run n t s
    rw [optimize, bind_apply]
    cases haborts : run.aborts n t with
    | true =>
      rw [haborts] at hfirst
      cases hr : runTrial run n t s with
      | mk r s' =>
        rw [hr] at hfirst
        cases r with
        | ok a => exact absurd (hfirst.aborts.mp rfl) (by simp)
        | error e => simpa [Run.ranFrom, haborts] using hfirst
    | false =>
      rw [haborts] at hfirst
      cases hr : runTrial run n t s with
      | mk r s' =>
        rw [hr] at hfirst
        cases r with
        | error e => exact absurd (hfirst.aborts.mpr rfl) (by simp [raised])
        | ok a => simpa [Run.ranFrom, haborts] using hfirst.append (ih (n + 1) s')

end MlopsLite.Training.Hpo
