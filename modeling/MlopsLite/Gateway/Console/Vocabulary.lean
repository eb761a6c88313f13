import MlopsLite.Gateway.Console.Jobs
import MlopsLite.HostAgent.Jobs.States

/-!
# Vocabulary — the agent's words in the console and the journal reader

The words `JobManager` writes, as `normalize`, `detect_conflict` and
`_checksum_state` read them. `completed` is in none of their tables, and a job
that was interrupted before it started has no start to show.
-/

namespace MlopsLite.Gateway.Console.Vocabulary

open Jobs
open HostAgent.Jobs (Word Lives stateOf? stamped checksumState)
open PlatformLib.Jobs (Record)

/-- A state in flight. -/
def inFlight : JobState → Bool
  | .queued | .admissionCheck | .admitted | .starting | .running | .completing => true
  | _ => false

/-- What the gateway may say of a job the agent has a record of: no record of
its own, or out for execution. -/
def laneStates : List Native := [none, some "dispatched", some "running"]

/-- What tracking may say of a job that is over, and of one that is not. -/
def runStates (live : Bool) : List Native :=
  if live then [none, some "RUNNING"] else [none, some "FINISHED", some "FAILED"]

/-- `normalize` has the job in flight exactly when it is, and a success succeed. -/
structure Normalized (state : Native) (w : Word) : Prop where
  live : w.live = true → ∀ g ∈ laneStates, ∀ t ∈ runStates true,
    inFlight (normalize g state t) = true
  terminal : w.live = false → ∀ g ∈ laneStates, ∀ t ∈ runStates false,
    (normalize g state t).terminal = true
  success : w.successful = true → ∀ g ∈ laneStates, ∀ t ∈ runStates false,
    normalize g state t = .succeeded

/-- The words that `_EQUIVALENT` has for a job that is not over. -/
def liveClasses : List String := ["running", "queued"]

/-- `detect_conflict` compares the job as what it is, and finds nothing between
a success and a finished run. -/
structure Compared (state : Native) (w : Word) : Prop where
  live : (state.map comparable).any (· ∈ liveClasses) = w.live
  success : w.successful = true → ∀ entity id, ∀ agent tracking : Observation,
    agent.state = state → tracking.state = some "FINISHED" →
      detectConflict entity id [agent, tracking] = none

/-- The console and the journal reader understand a record of the agent. -/
structure Understood (r : Record) (w : Word) : Prop where
  normalized : Normalized (stateOf? r) w
  compared : Compared (stateOf? r) w
  whole : checksumState r = .ok

/-! ## The three readers, word by word -/

/-- `normalize` knows neither a queued job of the agent's own nor a completed one. -/
theorem normalized_iff (w : Word) :
    Normalized (some w.text) w ↔ w ≠ .queued ∧ w ≠ .completed := by
  constructor
  · rintro ⟨hlive, hterminal, -⟩
    constructor
    · rintro rfl
      exact absurd (hlive rfl none (by decide) none (by decide)) (by decide)
    · rintro rfl
      exact absurd (hterminal rfl none (by decide) none (by decide)) (by decide)
  · rintro ⟨hqueued, hcompleted⟩
    cases w with
    | queued => exact absurd rfl hqueued
    | completed => exact absurd rfl hcompleted
    | running | succeeded | failed | interrupted => constructor <;> decide

/-- Two readings of one class are no conflict. -/
theorem detectConflict_same (entity id : String) {a b : Observation} {s s' : String}
    (ha : a.state = some s) (hb : b.state = some s') (hs : s ≠ "unreachable")
    (hs' : s' ≠ "unreachable") (hsame : comparable s = comparable s') :
    detectConflict entity id [a, b] = none := by
  have hknown : known [a, b] = [a, b] := by simp [known, ha, hb, hs, hs']
  simp [detectConflict, detectConflictBy, hknown, ha, hb, hsame]

/-- Two readings of different classes are one, unless read too far apart. -/
theorem detectConflict_differ (entity id : String) {a b : Observation} {s s' : String}
    (ha : a.state = some s) (hb : b.state = some s') (hs : s ≠ "unreachable")
    (hs' : s' ≠ "unreachable") (hdiffer : comparable s ≠ comparable s') :
    detectConflict entity id [a, b] ≠ none := by
  have hknown : known [a, b] = [a, b] := by simp [known, ha, hb, hs, hs']
  have hcard : ¬ ({comparable s, comparable s'} : Finset String).card < 2 := by
    rw [Finset.card_pair hdiffer]
    decide
  simp only [detectConflict, detectConflictBy, hknown, List.filterMap_cons, List.filterMap_nil,
    ha, hb, Option.map_some, List.toFinset_cons, List.toFinset_nil, insert_empty_eq, hcard]
  split_ifs <;> simp_all

/-- `_EQUIVALENT` has every word but `completed`. -/
theorem compared_iff (w : Word) : Compared (some w.text) w ↔ w ≠ .completed := by
  constructor
  · rintro ⟨-, hsuccess⟩ rfl
    refine detectConflict_differ "job" "j" (a := ⟨"agent", some "completed", none, none⟩)
      (b := ⟨"tracking", some "FINISHED", none, none⟩) rfl rfl (by decide) (by decide)
      (by decide +kernel) (hsuccess rfl "job" "j" _ _ rfl rfl)
  · intro hcompleted
    refine ⟨by cases w <;> decide +kernel, ?_⟩
    intro hsuccess entity id agent tracking hagent htracking
    cases w with
    | succeeded =>
      exact detectConflict_same entity id hagent htracking (by decide) (by decide)
        (by decide +kernel)
    | completed => exact absurd rfl hcompleted
    | queued | running | failed | interrupted => cases hsuccess

/-- A record that tells its end is whole when it is queued or completed, or has
a start. -/
theorem checksumState_iff {r : Record} {w : Word}
    (hstate : r.get? "state" = some (.str w.text))
    (hended : w.live = false → HostAgent.Jobs.Clocked (r.get? "ended_at")) :
    checksumState r = .ok ↔
      w = .queued ∨ w = .completed ∨ stamped r "started_at" = true := by
  have hword : stateOf? r = some w.text := by
    rw [stateOf?, hstate]
    rfl
  have hend : w.live = false → stamped r "ended_at" = true := fun h =>
    HostAgent.Jobs.stamped_of_clocked (hended h)
  rw [checksumState, hword]
  cases hs : stamped r "started_at" <;> cases w <;>
    simp_all [Word.text, Word.live]

/-! ## The agent's records -/

variable {cfg : HostAgent.Jobs.JobConfig} {j : HostAgent.Jobs.Journal}

/-- Every record of an agent's journal is understood, by its word, exactly when
it is not queued, not completed, and has a start. -/
theorem understood_iff (h : Lives cfg j) (id : String) (r : Record)
    (hr : j.jobs.get? id = some r) :
    ∃ w : Word, stateOf? r = some w.text ∧
      (Understood r w ↔
        w ≠ .queued ∧ w ≠ .completed ∧ stamped r "started_at" = true) := by
  obtain ⟨w, hstate, hended⟩ := (HostAgent.Jobs.told_of_lives h).jobs id r hr
  have hword : stateOf? r = some w.text := by
    rw [stateOf?, hstate]
    rfl
  have hwhole := checksumState_iff hstate hended
  refine ⟨w, hword, ?_⟩
  constructor
  · rintro ⟨hnormalized, -, hok⟩
    rw [hword] at hnormalized
    obtain ⟨hqueued, hcompleted⟩ := (normalized_iff w).mp hnormalized
    have hcases := hwhole.mp hok
    exact ⟨hqueued, hcompleted, by simpa [hqueued, hcompleted] using hcases⟩
  · rintro ⟨hqueued, hcompleted, hstarted⟩
    refine ⟨?_, ?_, hwhole.mpr (.inr (.inr hstarted))⟩
    · rw [hword]
      exact (normalized_iff w).mpr ⟨hqueued, hcompleted⟩
    · rw [hword]
      exact (compared_iff w).mpr hcompleted

/-! ## Two runs -/

open HostAgent.Jobs (Act Finished Sys next quarterHour keyedFinetune launched)

/-- From its launch to its end. -/
def toTheEnd (update : Finished) : List Act := [(0, .go), (0, .go), (0, .finished update), (0, .go)]

/-- A batch job with a result. -/
def batchEnds : List Act :=
  [(0, .submit .batch HostAgent.Jobs.Journal.batchRequest "a"), (0, .go), (0, .go), (0, .go),
    (0, .go)] ++ toTheEnd (.scored (.num 1))

theorem batch_understood :
    ∃ j r, Lives quarterHour j ∧ j.jobs.get? "a" = some r ∧ Understood r .succeeded := by
  have hrun : (Runs.run (next quarterHour) Runs.anyStep (Sys.init .init 1) batchEnds).map
      (fun s => (s.shared.journal.jobs.get? "a").any fun r =>
        decide (stateOf? r = some "succeeded" ∧ stamped r "started_at" = true)) = some true := by
    decide +kernel
  obtain ⟨s, hs, hp⟩ := Runs.exists_reachable hrun
  obtain ⟨r, hr, hr'⟩ := (Option.any_eq_true _ _).mp hp
  obtain ⟨hstate, hstarted⟩ := of_decide_eq_true hr'
  have hlives : Lives quarterHour s.shared.journal := .runs .fresh le_rfl hs
  obtain ⟨w, hword, hiff⟩ := understood_iff hlives "a" r hr
  have hw : w = .succeeded := by
    have htext : w.text = "succeeded" := Option.some.inj (hword.symm.trans hstate)
    cases w <;> first | rfl | exact absurd htext (by decide)
  subst hw
  exact ⟨s.shared.journal, r, hlives, hr, hiff.mpr ⟨by decide, by decide, hstarted⟩⟩

/-- A finetune job with a model. -/
def finetuneEnds : List Act :=
  launched 0 "a" ++ toTheEnd (.finetuned (.str "r") (.str "m") (.obj []) (.obj []))

/-- It ends as `completed`, which the console takes for no state it knows, and
for a conflict with its finished run. -/
theorem finetune_misunderstood :
    ∃ j r, Lives quarterHour j ∧ j.jobs.get? "a" = some r ∧ stateOf? r = some "completed" ∧
      normalize none (stateOf? r) none = .unknown ∧
      detectConflict "job" "a" [⟨"agent", stateOf? r, none, none⟩,
        ⟨"tracking", some "FINISHED", none, none⟩] ≠ none ∧
      ¬ Understood r .completed := by
  have hrun : (Runs.run (next quarterHour) Runs.anyStep (Sys.init .init 1) finetuneEnds).map
      (fun s => (s.shared.journal.jobs.get? "a").any fun r =>
        decide (stateOf? r = some "completed")) = some true := by
    decide +kernel
  obtain ⟨s, hs, hp⟩ := Runs.exists_reachable hrun
  obtain ⟨r, hr, hr'⟩ := (Option.any_eq_true _ _).mp hp
  have hstate : stateOf? r = some "completed" := of_decide_eq_true hr'
  have hunknown : normalize none (stateOf? r) none = .unknown := by
    rw [hstate]
    decide
  refine ⟨s.shared.journal, r, .runs .fresh le_rfl hs, hr, hstate, hunknown, ?_, ?_⟩
  · rw [hstate]
    decide +kernel
  · intro h
    have hterminal := h.normalized.terminal rfl none (by decide) none (by decide)
    rw [hunknown] at hterminal
    cases hterminal

end MlopsLite.Gateway.Console.Vocabulary
