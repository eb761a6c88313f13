import MlopsLite.Lib.Floats
import MlopsLite.Lib.Raising

/-!
# Hpo — a study of trials

A study (`training/flows/hpo.py`) runs its trials one behind the other, lets Optuna pick
the best one, writes the winner's tags and deletes every other version its trials were
given. A trial that fails is pruned; anything else that raises inside of one goes through
`study.optimize`, past the cleanup.
-/

namespace MlopsLite.Training.Hpo

open Raising

/-- The version of a registered model, its number as `str` has it. -/
structure Version where
  name : Option String
  version : String
deriving DecidableEq

inductive Direction
  | maximize
  | minimize
deriving DecidableEq

/-- `x` is better than `y`. -/
def Direction.better : Direction → Number → Number → Bool
  | .maximize, x, y => y.lt x
  | .minimize, x, y => x.lt y

/-- What `float(ev["value"])` comes to. -/
inductive Reading
  | refused (error : String)
  | value (x : Number)
deriving DecidableEq

structure Evaluation where
  metric : Option String
  reading : Reading
deriving DecidableEq

/-- What a trial's training and evaluation come to. A training that fails may have
registered a version before. -/
inductive Outcome
  | trainingFailed (error : String) (left : Option Version)
  | noVersion
  | evalFailed (version : Version) (error : String)
  | answered (version : Version) (ev : Evaluation)
deriving DecidableEq

structure Trial (π : Type) where
  params : π
  outcome : Outcome

/-- The steps besides training, evaluation and registry that may raise. -/
inductive Call
  | setTrackingUri
  | setExperiment
  | startStudy
  | tagStudy
  | sample (trial : ℕ)
  | startTrial (trial : ℕ)
  | tagTrial (trial : ℕ)
  | logParams (trial : ℕ)
  | tagStatus (trial : ℕ)
  | logMetric (trial : ℕ)
  | tagCompleted (trial : ℕ)
  | endTrial (trial : ℕ)
  | tagBest
  | endStudy
deriving DecidableEq

/-- What goes up; `pruned` is `TrialPruned`. -/
inductive Stop
  | pruned
  | step (call : Call)
  | value (error : String)
  | tag (key : String)
deriving DecidableEq

inductive Entry (π : Type)
  | failed (trial : ℕ) (params : π) (error : String)
  | evalFailed (trial : ℕ) (params : π) (version : Version) (error : String)
  | completed (trial : ℕ) (params : π) (version : Version) (value : Number) (metric : Option String)

/-- A trial that Optuna holds for complete: its value is a number. -/
structure Completed (π : Type) where
  number : ℕ
  params : π
  version : Version
  metric : Option String
  value : Number
  real : value ≠ .nan

/-- The registry, Optuna's study and what `run_study` holds in its variables. -/
structure Study (π : Type) where
  registered : List Version
  deleted : List Version
  tags : List (Version × String × String)
  completed : List (Completed π)
  created : List Version
  trialsLog : List (Entry π)
  best : Option (Completed π)

def Study.empty {π : Type} : Study π := ⟨[], [], [], [], [], [], none⟩

structure Leftover where
  version : Version
  error : String
deriving DecidableEq

structure Winner (π : Type) where
  version : Version
  value : Number
  metric : Option String
  params : π

structure Summary (π : Type) where
  studyId : String
  modality : String
  direction : Direction
  nTrials : ℕ
  completed : ℕ
  trials : List (Entry π)
  best : Option (Winner π)
  cleanupFailed : List Leftover

/-- What a study is asked for, and what the world does in it. -/
structure Run (π : Type) where
  studyId : String
  modality : String
  direction : Direction
  nTrials : ℕ
  trials : List (Trial π)
  returns : Call → Bool
  /-- The write of the winner's tag of this key returns. -/
  writes : String → Bool
  /-- What the delete of the version at this place of `created` raises. -/
  deletes : ℕ → Option String
  dumps : π → String
  str : Number → String

section

variable {π : Type} (run : Run π)

def call (c : Call) : Raising (Study π) Stop Unit :=
  if run.returns c then pure () else raise (.step c)

def note (entry : Entry π) : Raising (Study π) Stop Unit :=
  modify fun s => { s with trialsLog := s.trialsLog ++ [entry] }

def register (versions : List Version) : Raising (Study π) Stop Unit :=
  modify fun s => { s with registered := s.registered ++ versions }

def create (version : Version) : Raising (Study π) Stop Unit :=
  modify fun s => { s with created := s.created ++ [version] }

/-- What an objective returns, with the attributes it has set on the trial. -/
structure Answer where
  version : Version
  metric : Option String
  value : Number

/-- The body of the nested run. -/
def score (n : ℕ) (t : Trial π) : Raising (Study π) Stop Answer := do
  call run (.tagTrial n)
  call run (.logParams n)
  match t.outcome with
  | .trainingFailed error left =>
    register left.toList
    call run (.tagStatus n)
    note (.failed n t.params error)
    raise .pruned
  | .noVersion =>
    call run (.tagStatus n)
    note (.failed n t.params "training produced no registered version")
    raise .pruned
  | .evalFailed version error =>
    register [version]
    create version
    call run (.tagStatus n)
    note (.evalFailed n t.params version error)
    raise .pruned
  | .answered version ev =>
    register [version]
    create version
    match ev.reading with
    | .refused error => raise (.value error)
    | .value x =>
      call run (.logMetric n)
      call run (.tagCompleted n)
      note (.completed n t.params version x ev.metric)
      return ⟨version, ev.metric, x⟩

def objective (n : ℕ) (t : Trial π) : Raising (Study π) Stop Answer := do
  call run (.sample n)
  call run (.startTrial n)
  within (score run n t) fun _ => call run (.endTrial n)

/-- Optuna takes a trial for complete unless its value is not a number. -/
def tell (n : ℕ) (params : π) (a : Answer) : Raising (Study π) Stop Unit :=
  if real : a.value = .nan then pure ()
  else modify fun s =>
    { s with completed := s.completed ++ [⟨n, params, a.version, a.metric, a.value, real⟩] }

/-- One trial: `TrialPruned` is caught, what else is raised is not. -/
def runTrial (n : ℕ) (t : Trial π) : Raising (Study π) Stop Unit :=
  rescue (objective run n t >>= tell n t.params) (· = .pruned) fun _ => pure ()

def optimize : ℕ → List (Trial π) → Raising (Study π) Stop Unit
  | _, [] => pure ()
  | n, t :: ts => do
    runTrial run n t
    optimize (n + 1) ts

/-- `_cleanup_versions`, from a place of `created` on. -/
def cleanupVersions (keep : Option Version) :
    ℕ → List Version → Raising (Study π) Stop (List Leftover)
  | _, [] => pure []
  | i, v :: vs =>
    if keep = some v then cleanupVersions keep (i + 1) vs
    else
      match run.deletes i with
      | none => do
        modify fun s => { s with deleted := s.deleted ++ [v] }
        cleanupVersions keep (i + 1) vs
      | some error => do
        let failed ← cleanupVersions keep (i + 1) vs
        return ⟨v, error⟩ :: failed

def winnerTags (best : Completed π) : List (String × String) :=
  [("hpo_study", run.studyId), ("hpo_best_params", run.dumps best.params),
    ("hpo_best_metric", best.metric.getD ""), ("hpo_best_value", run.str best.value)]

def setTags (version : Version) : List (String × String) → Raising (Study π) Stop Unit
  | [] => pure ()
  | (k, v) :: tags =>
    if run.writes k then do
      modify fun s => { s with tags := s.tags ++ [(version, k, v)] }
      setTags version tags
    else raise (.tag k)

def registerWinner (best : Completed π) :
    Raising (Study π) Stop (Winner π × List Leftover) := do
  setTags run best.version (winnerTags run best)
  let s ← read
  let failed ← cleanupVersions run (some best.version) 0 s.created
  return (⟨best.version, best.value, best.metric, best.params⟩, failed)

/-- What comes behind the trials; `bestTrial` is Optuna's. -/
def conclude (bestTrial : List (Completed π) → Option (Completed π)) :
    Raising (Study π) Stop (Summary π) := do
  modify fun s => { s with best := bestTrial s.completed }
  let s ← read
  match s.best with
  | some best => do
    let (winner, failed) ← registerWinner run best
    call run .tagBest
    return ⟨run.studyId, run.modality, run.direction, run.nTrials, s.completed.length, s.trialsLog,
      some winner, failed⟩
  | none => do
    let failed ← cleanupVersions run none 0 s.created
    return ⟨run.studyId, run.modality, run.direction, run.nTrials, s.completed.length, s.trialsLog,
      none, failed⟩

def runStudy (bestTrial : List (Completed π) → Option (Completed π)) :
    Raising (Study π) Stop (Summary π) := do
  call run .setTrackingUri
  call run .setExperiment
  call run .startStudy
  within (do
    call run .tagStudy
    optimize run 0 run.trials
    conclude run bestTrial) fun _ => call run .endStudy

end

end MlopsLite.Training.Hpo
