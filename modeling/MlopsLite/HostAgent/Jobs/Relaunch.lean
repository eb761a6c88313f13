import MlopsLite.HostAgent.Jobs.Lease

/-!
# Jobs — a launch under the same key

`submit` tells whether a keyed launch is still going or done from the record
of the last job under the key and the time it was submitted. That is what
the job's worker and its end say, except where the record misjudges the job
(`Misjudged`).
-/

namespace MlopsLite.HostAgent.Jobs

open Lifecycle (Tenant ThreadId EngineId ChildRef Ret)
open PlatformLib.Jobs

variable {cfg : JobConfig} {t : ThreadId} {c : Choice} {x x' : Shared} {k k' : Pc} {s s' : Sys}
  {ls ls' : List Launch} {n m : ℕ} {l l' : Launch} {key : Key} {run : Run}

/-! ## What is asked -/

/-- The `n`-th job has a worker. -/
def Live (s : Sys) (n : ℕ) : Prop := ∃ u run, (s.pc u).worker? = some run ∧ run.nth = n

/-- It completed, not more than a window before `now`. -/
def SucceededWithin (cfg : JobConfig) (now : ℚ) (l : Launch) : Prop :=
  ∃ e, l.ended = some (true, e) ∧ now - e ≤ cfg.windowS

/-- A job under the key is really in progress, or completed within the window. -/
def GoingOrDone (cfg : JobConfig) (s : Sys) (key : Key) : Prop :=
  ∃ n l, s.shared.launched[n]? = some l ∧ l.key = some key ∧
    (Live s n ∨ SucceededWithin cfg s.shared.now l)

/-- The last job under a key. -/
structure LastUnder (ls : List Launch) (key : Key) (n : ℕ) (l : Launch) : Prop where
  here : ls[n]? = some l
  under : l.key = some key
  last : ∀ m l', ls[m]? = some l' → l'.key = some key → m ≤ n

/-- No later job was given its id. -/
def Unretaken (ls : List Launch) (n : ℕ) (id : String) : Prop :=
  ∀ m l, n < m → ls[m]? = some l → l.id ≠ id

/-- The record of a job is still queued or running. -/
def Unfinished (s : Sys) (l : Launch) : Prop :=
  ∃ r, s.shared.journal.jobs.get? l.id = some r ∧ unfinished r = true

/-- The ways its record misjudges the last job under a key. -/
inductive Misjudged (cfg : JobConfig) (s : Sys) (n : ℕ) (l : Launch) : Prop
  /-- A write or a thread's start failed, and the record stayed behind; or
  the thread is still to be started. -/
  | lost (left : Unfinished s l) (dead : ¬ Live s n)
      (undone : ¬ SucceededWithin cfg s.shared.now l)
  /-- It failed, and was submitted within the window. -/
  | failed (closed : ¬ Unfinished s l) (soon : s.shared.now - l.submittedAt ≤ cfg.windowS)
      (dead : ¬ Live s n) (undone : ¬ SucceededWithin cfg s.shared.now l)
  /-- It ran for long: it was submitted before the window, and completed
  within it or has not let go of the slot. -/
  | long (closed : ¬ Unfinished s l) (early : cfg.windowS < s.shared.now - l.submittedAt)
      (really : Live s n ∨ SucceededWithin cfg s.shared.now l)

/-- The key that a thread is looking up. -/
def Pc.asks? : Pc → Option Key
  | .check sub => (keyOf sub.request).join
  | _ => none

/-- The existing job that a submission was answered with. -/
def Pc.answer? : Pc → Option String
  | .existing id => some id
  | _ => none

/-- Where a key is looked up, its last job has its id still, and is not
misjudged. -/
def Judged (cfg : JobConfig) (s : Sys) (a : Act) : Prop :=
  ∀ key, (s.pc a.1).asks? = some key → ∀ n l, LastUnder s.shared.launched key n l →
    Unretaken s.shared.launched n l.id ∧ ¬ Misjudged cfg s n l

/-! ## What a section does to the journal and the history -/

/-- Jobs that are the same but for their end. -/
def SameLaunch (l l' : Launch) : Prop :=
  l'.key = l.key ∧ l'.id = l.id ∧ l'.submittedAt = l.submittedAt

inductive Records (cfg : JobConfig) (x : Shared) : Pc → Shared → Pc → Prop
  | stays {k k' : Pc} {x' : Shared} (journal : x'.journal = x.journal)
      (launched : x'.launched = x.launched) (runKeys : x'.manager.runKeys = x.manager.runKeys)
      (now : x.now ≤ x'.now) (owned : ∀ run, k'.owned? = some run → k.owned? = some run)
      (slot : ∀ sub key, k' = .slot sub (some key) →
        k = .check sub ∧ keyOf sub.request = some (some key) ∧ x.existing cfg key = none ∧ x' = x)
      (past : ∀ sub key took, k' = .journal sub key took →
        k = .slot sub key ∧ x.manager.active = none) : Records cfg x k x' k'
  | launches (sub : Submission) (key : Option Key) (took : Bool) (id : String) {journal : Journal}
      (hid : text (jobIdOf sub.kind.spec sub.request sub.fresh) = some id)
      (hjournal : x.journal.submit (queuedRecord sub.kind.spec
        (jobIdOf sub.kind.spec sub.request sub.fresh) sub.modality sub.request x.now) =
          some journal) :
      Records cfg x (.journal sub key took) (x.launch cfg sub key id journal)
        (.start ⟨id, took, x.launched.length⟩)
  | runs {k k' : Pc} {x' : Shared} (run : Run) (owned : k.owned? = some run)
      (owned' : k'.owned? = some run) (runKeys : x'.manager.runKeys = x.manager.runKeys)
      (now : x'.now = x.now)
      (journal : x'.journal = x.journal ∨
        ∃ ch : Change, x.journal.transition run.id ch = some x'.journal)
      (launched : x'.launched = x.launched ∨
        ∃ b, x'.launched = x.launched.modify run.nth fun l => { l with ended := some (b, x.now) }) :
      Records cfg x k x' k'

/-- On the way to a launch under a key. -/
def Pc.asked : Pc → Bool
  | .slot _ (some _) | .journal .. => true
  | _ => false

theorem Records.elsewhere (journal : x'.journal = x.journal) (launched : x'.launched = x.launched)
    (runKeys : x'.manager.runKeys = x.manager.runKeys) (now : x.now ≤ x'.now)
    (owned : k'.owned? = none) (asked : k'.asked = false) : Records cfg x k x' k' := by
  refine .stays journal launched runKeys now ?_ ?_ ?_
  · intro run hrun
    cases owned.symm.trans hrun
  · rintro sub key rfl
    cases asked
  · rintro sub key took rfl
    cases asked

/-- Giving the lease back is no matter of the records. -/
theorem giveBack_records (x : Shared) : x.giveBack.journal = x.journal ∧
    x.giveBack.launched = x.launched ∧ x.giveBack.manager.runKeys = x.manager.runKeys ∧
    x.giveBack.now = x.now := by
  unfold Shared.giveBack
  split <;> exact ⟨rfl, rfl, rfl, rfl⟩

theorem records_of_advance (h : advance cfg t c x k = some (x', k')) : Records cfg x k x' k' := by
  cases k with
  | idle =>
    cases c <;> simp only [advance] at h <;> try cases h
    · split at h
      · cases h
        exact .elsewhere rfl rfl rfl le_rfl rfl rfl
      · cases h
        exact .elsewhere rfl rfl rfl le_rfl rfl rfl
    · exact .elsewhere rfl rfl rfl le_rfl rfl rfl
    · split at h
      · rename_i d hd
        cases h
        exact .elsewhere rfl rfl rfl (le_add_of_nonneg_right hd) rfl rfl
      · cases h
  | waiting sub =>
    simp only [advance] at h
    split at h
    · cases h
    · cases h
      exact .elsewhere rfl rfl rfl le_rfl rfl rfl
  | check sub =>
    simp only [advance] at h
    split at h
    · cases h
      exact .elsewhere rfl rfl rfl le_rfl rfl rfl
    · cases h
      exact .elsewhere rfl rfl rfl le_rfl rfl rfl
    · rename_i key hkey
      split at h
      · cases h
        exact .elsewhere rfl rfl rfl le_rfl rfl rfl
      · rename_i hnone
        cases h
        refine .stays rfl rfl rfl le_rfl (fun _ h => h) ?_ ?_
        · intro sub' key' heq
          cases heq
          exact ⟨rfl, hkey, hnone, rfl⟩
        · intro sub' key' took heq
          cases heq
  | slot sub key =>
    simp only [advance] at h
    split at h
    · cases h
      exact .elsewhere rfl rfl rfl le_rfl rfl rfl
    · rename_i hactive
      have hidle : x.manager.active = none := by simpa using hactive
      have hlook : ∀ {x' : Shared} {took : Bool}, x'.journal = x.journal →
          x'.launched = x.launched → x'.manager.runKeys = x.manager.runKeys → x'.now = x.now →
          Records cfg x (.slot sub key) x' (.journal sub key took) := by
        intro x' took hj hl hr hn
        refine .stays hj hl hr hn.ge (fun _ h => h) ?_ ?_
        · intro sub' key' heq
          cases heq
        · intro sub' key' took' heq
          cases heq
          exact ⟨rfl, hidle⟩
      split at h
      · cases c <;> simp only [reduceCtorEq] at h
        split at h
        · cases h
          exact hlook rfl rfl rfl rfl
        · cases h
          exact .elsewhere rfl rfl rfl le_rfl rfl rfl
      · cases h
        exact hlook rfl rfl rfl rfl
  | journal sub key took =>
    simp only [advance] at h
    split at h
    · rename_i id journal hid hw
      cases h
      exact .launches sub key took id hid (of_written hw)
    · cases h
      exact .elsewhere rfl rfl rfl le_rfl rfl rfl
  | unwind took =>
    cases h
    obtain ⟨hj, hl, hr, hn⟩ := giveBack_records x
    exact .elsewhere hj hl hr hn.ge rfl rfl
  | start run =>
    cases c <;> cases h <;> exact .runs run rfl rfl rfl rfl (.inl rfl) (.inl rfl)
  | abandon run =>
    simp only [advance] at h
    split at h
    · cases h
    · cases h
      obtain ⟨hj, hl, hr, hn⟩ := giveBack_records x
      exact .elsewhere hj hl hr hn.ge rfl rfl
  | began run =>
    simp only [advance] at h
    split at h
    · rename_i x₁ hw
      cases h
      obtain ⟨j, hj, rfl⟩ := Option.map_eq_some_iff.mp (of_written hw)
      exact .runs run rfl rfl rfl rfl (.inr ⟨_, hj⟩) (.inl rfl)
    · cases h
      exact .runs run rfl rfl rfl rfl (.inl rfl) (.inl rfl)
  | working run =>
    cases c <;> cases h
    exact .runs run rfl rfl rfl rfl (.inl rfl) (.inl rfl)
  | ending run update =>
    simp only [advance] at h
    split at h
    · rename_i x₁ hw
      cases h
      obtain ⟨j, hj, rfl⟩ := Option.map_eq_some_iff.mp (of_written hw)
      exact .runs run rfl rfl rfl rfl (.inr ⟨_, hj⟩) (.inr ⟨_, rfl⟩)
    · cases h
      exact .runs run rfl rfl rfl rfl (.inl rfl) (.inr ⟨_, rfl⟩)
  | free run =>
    simp only [advance] at h
    split at h
    · cases h
    · cases h
      obtain ⟨hj, hl, hr, hn⟩ := giveBack_records x
      exact .elsewhere hj hl hr hn.ge rfl rfl
  | existing job =>
    cases h
    exact .elsewhere rfl rfl rfl le_rfl rfl rfl
  | refused why =>
    cases h
    exact .elsewhere rfl rfl rfl le_rfl rfl rfl

/-! ## What the keys and the records say of the history -/

theorem not_succeeded_later {now now' : ℚ} (hle : now ≤ now')
    (h : ¬ SucceededWithin cfg now l) : ¬ SucceededWithin cfg now' l := by
  rintro ⟨e, he, hwin⟩
  exact h ⟨e, he, by linarith⟩

/-- The history, the keys and the records at one moment. -/
structure Book (cfg : JobConfig) (x : Shared) : Prop where
  times : ∀ (n : ℕ) (l : Launch), x.launched[n]? = some l → l.submittedAt ≤ x.now ∧
    ∀ b e, l.ended = some (b, e) → l.submittedAt ≤ e ∧ e ≤ x.now
  records : ∀ (n : ℕ) (l : Launch), x.launched[n]? = some l → Unretaken x.launched n l.id →
    ∃ r, x.journal.jobs.get? l.id = some r ∧ r.get? "submitted_at" = some (.num l.submittedAt)
  fresh : ∀ key : Key, (∀ (n : ℕ) (l : Launch), x.launched[n]? = some l → l.key ≠ some key) →
    x.manager.runKeys.get? key = none
  /-- A key is its last job's, or was dropped after it left the window. -/
  kept : ∀ (key : Key) (n : ℕ) (l : Launch), LastUnder x.launched key n l → x.manager.runKeys.get? key = some l.id ∨
    (x.manager.runKeys.get? key = none ∧ n + 1 < x.launched.length ∧
      (Unretaken x.launched n l.id → ∃ r, x.journal.jobs.get? l.id = some r ∧
        unfinished r = false ∧ cfg.windowS < x.now - l.submittedAt))
  superseded : ∀ (n m : ℕ) (l l' : Launch) (key : Key), x.launched[n]? = some l → x.launched[m]? = some l' →
    l.key = some key → l'.key = some key → n < m → ¬ SucceededWithin cfg x.now l

/-- No job under the key completed within the window. -/
def NoneDone (cfg : JobConfig) (x : Shared) (key : Key) : Prop :=
  ∀ (n : ℕ) (l : Launch), x.launched[n]? = some l → l.key = some key → ¬ SucceededWithin cfg x.now l

/-- Time goes on. -/
theorem Book.later (h : Book cfg x) (journal : x'.journal = x.journal)
    (launched : x'.launched = x.launched) (runKeys : x'.manager.runKeys = x.manager.runKeys)
    (now : x.now ≤ x'.now) : Book cfg x' := by
  constructor
  · intro n l hl
    rw [launched] at hl
    obtain ⟨hsub, hend⟩ := h.times n l hl
    refine ⟨hsub.trans now, ?_⟩
    intro b e he
    exact ⟨(hend b e he).1, (hend b e he).2.trans now⟩
  · rw [journal, launched]
    exact h.records
  · rw [launched, runKeys]
    exact h.fresh
  · intro key n l hl
    rw [launched] at hl ⊢
    rw [runKeys, journal]
    rcases h.kept key n l hl with hkept | ⟨hnone, hlen, hgone⟩
    · exact .inl hkept
    · right
      refine ⟨hnone, hlen, fun hun => ?_⟩
      obtain ⟨r, hr, hclosed, hwin⟩ := hgone hun
      exact ⟨r, hr, hclosed, by linarith⟩
  · intro n m l l' key hl hl' hk hk' hlt
    rw [launched] at hl hl'
    exact not_succeeded_later now (h.superseded n m l l' key hl hl' hk hk' hlt)

/-! ### A worker's write -/

/-- The history before and after a job was noted to have ended. -/
structure Noted (nth : ℕ) (now : ℚ) (ls ls' : List Launch) : Prop where
  length : ls'.length = ls.length
  fwd : ∀ (n : ℕ) (l : Launch), ls[n]? = some l → ∃ l', ls'[n]? = some l' ∧ SameLaunch l l'
  bwd : ∀ (n : ℕ) (l' : Launch), ls'[n]? = some l' → ∃ l, ls[n]? = some l ∧ SameLaunch l l' ∧
    (l'.ended = l.ended ∨ n = nth ∧ ∃ b, l'.ended = some (b, now))

theorem noted_of_runs {nth : ℕ} {now : ℚ} (h : ls' = ls ∨
    ∃ b, ls' = ls.modify nth fun l => { l with ended := some (b, now) }) :
    Noted nth now ls ls' := by
  rcases h with rfl | ⟨b, rfl⟩
  · exact ⟨rfl, fun n l hl => ⟨l, hl, rfl, rfl, rfl⟩, fun n l hl => ⟨l, hl, ⟨rfl, rfl, rfl⟩, .inl rfl⟩⟩
  · refine ⟨List.length_modify .., ?_, ?_⟩
    · intro n l hl
      refine ⟨_, by rw [List.getElem?_modify, hl]; rfl, ?_⟩
      split <;> exact ⟨rfl, rfl, rfl⟩
    · intro n l' hl'
      rw [List.getElem?_modify] at hl'
      obtain ⟨l, hl, rfl⟩ := Option.map_eq_some_iff.mp hl'
      refine ⟨l, hl, ?_⟩
      by_cases hn : nth = n
      · rw [if_pos hn]
        exact ⟨⟨rfl, rfl, rfl⟩, .inr ⟨hn.symm, b, rfl⟩⟩
      · rw [if_neg hn]
        exact ⟨⟨rfl, rfl, rfl⟩, .inl rfl⟩

namespace Noted

variable {nth : ℕ} {now : ℚ}

theorem unretaken (h : Noted nth now ls ls') {id : String} (hun : Unretaken ls' n id) :
    Unretaken ls n id := by
  intro m l hlt hl
  obtain ⟨l', hl', -, hid, -⟩ := h.fwd m l hl
  rw [← hid]
  exact hun m l' hlt hl'

theorem lastUnder (h : Noted nth now ls ls') (hl : LastUnder ls' key n l') :
    ∃ l, LastUnder ls key n l ∧ SameLaunch l l' := by
  obtain ⟨l, hget, hsame, -⟩ := h.bwd n l' hl.here
  refine ⟨l, ⟨hget, hsame.1.symm.trans hl.under, ?_⟩, hsame⟩
  intro m l₁ hl₁ hk
  obtain ⟨l₂, hl₂, hkey, -⟩ := h.fwd m l₁ hl₁
  exact hl.last m l₂ hl₂ (hkey.trans hk)

end Noted

/-- What a worker's write does to the records in memory. -/
theorem jobs_of_runs {j j' : Journal} {id : String}
    (h : j' = j ∨ ∃ ch : Change, j.transition id ch = some j') :
    (∀ id', id' ≠ id → j'.jobs.get? id' = j.jobs.get? id') ∧
      ∀ r, j.jobs.get? id = some r → ∃ r', j'.jobs.get? id = some r' ∧
        r'.get? "submitted_at" = r.get? "submitted_at" := by
  rcases h with rfl | ⟨ch, ht⟩
  · exact ⟨fun _ _ => rfl, fun r hr => ⟨r, hr, rfl⟩⟩
  · obtain ⟨rows, -, ht⟩ := Option.bind_eq_some_iff.mp ht
    obtain rfl := Option.some.inj ht
    refine ⟨fun id' hne => Dict.get?_insert_ne _ _ hne, fun r hr => ⟨_, Dict.get?_insert_self .., ?_⟩⟩
    rw [hr]
    exact Change.get?_apply_fixed (by decide) (by decide)

theorem Book.runs (h : Book cfg x) {lr : Launch} (hlen : run.nth + 1 = x.launched.length)
    (hlr : x.launched[run.nth]? = some lr) (hid : lr.id = run.id)
    (runKeys : x'.manager.runKeys = x.manager.runKeys) (now : x'.now = x.now)
    (journal : x'.journal = x.journal ∨
      ∃ ch : Change, x.journal.transition run.id ch = some x'.journal)
    (hnoted : Noted run.nth x.now x.launched x'.launched) : Book cfg x' := by
  obtain ⟨hother, hown⟩ := jobs_of_runs journal
  constructor
  · intro n l' hl'
    obtain ⟨l, hl, ⟨-, -, hsub⟩, hended⟩ := hnoted.bwd n l' hl'
    obtain ⟨hle, hend⟩ := h.times n l hl
    rw [now, hsub]
    refine ⟨hle, fun b e he => ?_⟩
    rcases hended with hsame | ⟨-, b', hnow⟩
    · exact hend b e (hsame.symm.trans he)
    · obtain ⟨-, rfl⟩ := Prod.mk.inj (Option.some.inj (hnow.symm.trans he))
      exact ⟨hle, le_rfl⟩
  · intro n l' hl' hun
    obtain ⟨l, hl, ⟨-, hid', hsub⟩, -⟩ := hnoted.bwd n l' hl'
    rw [hid'] at hun ⊢
    rw [hsub]
    obtain ⟨r, hr, hrsub⟩ := h.records n l hl (hnoted.unretaken hun)
    by_cases hne : l.id = run.id
    · rw [hne] at hr ⊢
      obtain ⟨r', hr', hsame⟩ := hown r hr
      exact ⟨r', hr', hsame.trans hrsub⟩
    · exact ⟨r, (hother _ hne).trans hr, hrsub⟩
  · intro key hnone
    rw [runKeys]
    refine h.fresh key fun n l hl hkey => ?_
    obtain ⟨l', hl', hkey', -⟩ := hnoted.fwd n l hl
    exact hnone n l' hl' (hkey'.trans hkey)
  · intro key n l' hl'
    obtain ⟨l, hl, -, hid', hsub⟩ := hnoted.lastUnder hl'
    rw [runKeys, hid', hnoted.length, now, hsub]
    rcases h.kept key n l hl with hkept | ⟨hnone, hlt, hgone⟩
    · exact .inl hkept
    · right
      refine ⟨hnone, hlt, fun hun => ?_⟩
      have hun' := hnoted.unretaken hun
      -- the running job came after it, with an id of its own
      have hne : l.id ≠ run.id := by
        rw [← hid]
        exact (hun' run.nth lr (by omega) hlr).symm
      rw [hother _ hne]
      exact hgone hun'
  · intro n m l₁ l₂ key hl₁ hl₂ hk₁ hk₂ hlt
    obtain ⟨l, hl, ⟨hkey, -, -⟩, hended⟩ := hnoted.bwd n l₁ hl₁
    obtain ⟨l', hl', ⟨hkey', -, -⟩, -⟩ := hnoted.bwd m l₂ hl₂
    have hold := h.superseded n m l l' key hl hl' (hkey.symm.trans hk₁) (hkey'.symm.trans hk₂) hlt
    have hm : m < x.launched.length := (List.getElem?_eq_some_iff.mp hl').1
    rcases hended with hsame | ⟨hn, -⟩
    · rintro ⟨e, he, hwin⟩
      rw [now] at hwin
      exact hold ⟨e, hsame.symm.trans he, hwin⟩
    · omega

/-! ### A launch -/

theorem getElem?_snoc_eq_some {new : Launch} : (ls ++ [new])[n]? = some l ↔
    ls[n]? = some l ∨ n = ls.length ∧ l = new := by
  by_cases hn : n < ls.length
  · rw [List.getElem?_append_left hn]
    constructor
    · exact .inl
    · rintro (h | ⟨rfl, -⟩)
      · exact h
      · omega
  · have hnone : ls[n]? = none := List.getElem?_eq_none (by omega)
    rw [List.getElem?_append_right (by omega), hnone, List.getElem?_singleton]
    by_cases hlen : n = ls.length
    · simp [hlen, eq_comm]
    · simp [hlen, show n - ls.length ≠ 0 by omega]

theorem lt_of_getElem? (h : ls[n]? = some l) : n < ls.length :=
  (List.getElem?_eq_some_iff.mp h).1

/-- An id that the newest job did not take. -/
theorem unretaken_of_snoc {new : Launch} (hl : ls[n]? = some l) {id : String}
    (h : Unretaken (ls ++ [new]) n id) : new.id ≠ id ∧ Unretaken ls n id := by
  refine ⟨h ls.length new (lt_of_getElem? hl) (by simp), ?_⟩
  intro m l' hlt hl'
  exact h m l' hlt (getElem?_snoc_eq_some.mpr (.inl hl'))

theorem lastUnder_of_snoc {new : Launch} (hl : LastUnder (ls ++ [new]) key n l) :
    n = ls.length ∧ l = new ∨ LastUnder ls key n l ∧ new.key ≠ some key := by
  rcases getElem?_snoc_eq_some.mp hl.here with hold | hnew
  · right
    refine ⟨⟨hold, hl.under, fun m l' hl' => ?_⟩, fun hkey => ?_⟩
    · exact hl.last m l' (getElem?_snoc_eq_some.mpr (.inl hl'))
    · have hlast := hl.last ls.length new (by simp) hkey
      have hlt := lt_of_getElem? hold
      omega
  · exact .inl hnew

/-- What a submission's write does to the records in memory. -/
theorem jobs_of_submit {j j' : Journal} {kind : Kind} {jobId modality : Value} {request : Record}
    {now : ℚ} {id : String} (hid : text jobId = some id)
    (h : j.submit (queuedRecord kind.spec jobId modality request now) = some j') :
    (∀ id', id' ≠ id → j'.jobs.get? id' = j.jobs.get? id') ∧
      ∃ r, j'.jobs.get? id = some r ∧ r.get? "submitted_at" = some (.num now) := by
  obtain ⟨rows, -, h⟩ := Option.bind_eq_some_iff.mp h
  obtain ⟨id₁, hid₁, h⟩ := Option.bind_eq_some_iff.mp h
  obtain rfl := Option.some.inj h
  have hsame : id₁ = id := by
    rw [get?_queuedRecord (by decide)] at hid₁
    simp only [Dict.get?_insert, String.reduceEq, if_false, if_true, Option.bind_some] at hid₁
    exact Option.some.inj (hid₁.symm.trans hid)
  subst hsame
  refine ⟨fun id' hne => Dict.get?_insert_ne _ _ hne, _, Dict.get?_insert_self .., ?_⟩
  rw [get?_queuedRecord (by decide)]
  simp

theorem withinWindow_of_submitted (cfg : JobConfig) {r : Record} (now : ℚ) {t : ℚ}
    (h : r.get? "submitted_at" = some (.num t)) :
    withinWindow (some r) now cfg.windowS = true ↔ unfinished r = true ∨ now - t ≤ cfg.windowS := by
  simp [withinWindow, h]

theorem Book.launch (h : Book cfg x) {sub : Submission} {k₀ : Option Key} {id : String}
    {journal : Journal} (hid : text (jobIdOf sub.kind.spec sub.request sub.fresh) = some id)
    (hjournal : x.journal.submit (queuedRecord sub.kind.spec
      (jobIdOf sub.kind.spec sub.request sub.fresh) sub.modality sub.request x.now) = some journal)
    (hold : ∀ key, k₀ = some key → NoneDone cfg x key) :
    Book cfg (x.launch cfg sub k₀ id journal) := by
  obtain ⟨hother, r₀, hr₀, hsub₀⟩ := jobs_of_submit hid hjournal
  have hlaunched : (x.launch cfg sub k₀ id journal).launched =
      x.launched ++ [⟨k₀, id, x.now, none⟩] := rfl
  have hlen : (x.launch cfg sub k₀ id journal).launched.length = x.launched.length + 1 := by
    rw [hlaunched, List.length_append]
    rfl
  -- the keys of other jobs: left, or out of the window
  have hkeys : ∀ key, k₀ ≠ some key →
      (x.launch cfg sub k₀ id journal).manager.runKeys.get? key = x.manager.runKeys.get? key ∨
      (x.launch cfg sub k₀ id journal).manager.runKeys.get? key = none ∧
        ∀ id', x.manager.runKeys.get? key = some id' →
          withinWindow (journal.jobs.get? id') x.now cfg.windowS = false := by
    intro key hne
    cases k₀ with
    | none => exact .inl rfl
    | some k₁ =>
      have hk : key ≠ k₁ := fun heq => hne (by rw [heq])
      have hget : (x.launch cfg sub (some k₁) id journal).manager.runKeys.get? key =
          (x.manager.runKeys.get? key).filter fun id' =>
            withinWindow (journal.jobs.get? id') x.now cfg.windowS := by
        show (Dict.insert _ k₁ id).get? key = _
        rw [Dict.get?_insert_ne _ _ hk]
        exact Dict.get?_filter ..
      rw [hget]
      cases hold : x.manager.runKeys.get? key with
      | none => exact .inl rfl
      | some id₁ =>
        cases hwin : withinWindow (journal.jobs.get? id₁) x.now cfg.windowS with
        | true => exact .inl (by simp [hwin])
        | false =>
          right
          refine ⟨by simp [hwin], fun id' hid' => ?_⟩
          obtain rfl := Option.some.inj hid'
          exact hwin
  constructor
  · intro n l hl
    rcases getElem?_snoc_eq_some.mp (hlaunched ▸ hl) with hl | ⟨-, rfl⟩
    · exact h.times n l hl
    · exact ⟨le_rfl, fun b e he => by cases he⟩
  · intro n l hl hun
    rcases getElem?_snoc_eq_some.mp (hlaunched ▸ hl) with hl | ⟨-, rfl⟩
    · obtain ⟨hne, hun⟩ := unretaken_of_snoc hl (hlaunched ▸ hun)
      obtain ⟨r, hr, hrsub⟩ := h.records n l hl hun
      exact ⟨r, (hother _ hne.symm).trans hr, hrsub⟩
    · exact ⟨r₀, hr₀, hsub₀⟩
  · intro key hnone
    have hne : k₀ ≠ some key := fun heq =>
      hnone x.launched.length ⟨k₀, id, x.now, none⟩ (by rw [hlaunched]; simp) heq
    have hfresh := h.fresh key fun n l hl =>
      hnone n l (hlaunched ▸ getElem?_snoc_eq_some.mpr (.inl hl))
    rcases hkeys key hne with hsame | ⟨hdropped, -⟩
    · exact hsame.trans hfresh
    · exact hdropped
  · intro key n l hl
    rcases lastUnder_of_snoc (hlaunched ▸ hl) with ⟨rfl, rfl⟩ | ⟨hlast, hne⟩
    · left
      obtain rfl : k₀ = some key := hl.under
      exact Dict.get?_insert_self ..
    · have hn := lt_of_getElem? hlast.here
      rcases hkeys key hne with hsame | ⟨hdropped, hwin⟩
      · rw [hsame, hlen]
        rcases h.kept key n l hlast with hkept | ⟨hnone, hlt, hgone⟩
        · exact .inl hkept
        · right
          refine ⟨hnone, by omega, fun hun => ?_⟩
          obtain ⟨hid', hun⟩ := unretaken_of_snoc hlast.here (hlaunched ▸ hun)
          obtain ⟨r, hr, hclosed⟩ := hgone hun
          exact ⟨r, (hother _ hid'.symm).trans hr, hclosed⟩
      · right
        rw [hlen]
        refine ⟨hdropped, by omega, fun hun => ?_⟩
        obtain ⟨hid', hun⟩ := unretaken_of_snoc hlast.here (hlaunched ▸ hun)
        rcases h.kept key n l hlast with hkept | ⟨hnone, hlt, hgone⟩
        · obtain ⟨r, hr, hrsub⟩ := h.records n l hlast.here hun
          have hr' := (hother _ hid'.symm).trans hr
          have hout := hwin l.id hkept
          rw [hr'] at hout
          have hiff := (withinWindow_of_submitted cfg x.now hrsub).not.mp
            (by simp [hout])
          obtain ⟨hclosed, hlate⟩ := not_or.mp hiff
          exact ⟨r, hr', by simpa using hclosed, not_le.mp hlate⟩
        · obtain ⟨r, hr, hclosed⟩ := hgone hun
          exact ⟨r, (hother _ hid'.symm).trans hr, hclosed⟩
  · intro n m l l' key hl hl' hk hk' hlt
    rcases getElem?_snoc_eq_some.mp (hlaunched ▸ hl) with hl | ⟨rfl, -⟩
    · rcases getElem?_snoc_eq_some.mp (hlaunched ▸ hl') with hl' | ⟨-, rfl⟩
      · exact h.superseded n m l l' key hl hl' hk hk' hlt
      · exact hold key hk' n l hl hk
    · have hm := lt_of_getElem? hl'
      omega

/-! ## The answer and what is really so -/

/-- The bookkeeping in a state, and the owners in it. -/
structure Known (cfg : JobConfig) (s : Sys) : Prop where
  book : Book cfg s.shared
  owners : ∀ u run, (s.pc u).owned? = some run → run.nth + 1 = s.shared.launched.length ∧
    ∃ l, s.shared.launched[run.nth]? = some l ∧ l.id = run.id
  slot : ∀ u sub key, s.pc u = .slot sub (some key) → s.shared.manager.active = none →
    NoneDone cfg s.shared key
  past : ∀ u sub key took, s.pc u = .journal sub (some key) took → NoneDone cfg s.shared key

/-- A live job is the newest. -/
theorem Known.newest (h : Known cfg s) (hlive : Live s n) : n + 1 = s.shared.launched.length := by
  obtain ⟨u, run, hworker, rfl⟩ := hlive
  exact (h.owners u run (Pc.owned_of_worker hworker)).1

/-- Of the jobs under a key the last one decides. -/
theorem Known.goingOrDone_iff (h : Known cfg s) (hl : LastUnder s.shared.launched key n l) :
    GoingOrDone cfg s key ↔ Live s n ∨ SucceededWithin cfg s.shared.now l := by
  constructor
  · rintro ⟨m, l', hl', hkey, hreally⟩
    rcases (hl.last m l' hl' hkey).eq_or_lt with rfl | hlt
    · rwa [Option.some.inj (hl.here.symm.trans hl')]
    · rcases hreally with hlive | hdone
      · have hm := h.newest hlive
        have hn := lt_of_getElem? hl.here
        omega
      · exact absurd hdone (h.book.superseded m n l' l key hl' hl.here hkey hl.under hlt)
  · intro hreally
    exact ⟨n, l, hl.here, hl.under, hreally⟩

/-- And the answer is from its record and the time it was submitted. -/
theorem Known.existing_iff (h : Known cfg s) (hl : LastUnder s.shared.launched key n l)
    (hun : Unretaken s.shared.launched n l.id) :
    (s.shared.existing cfg key).isSome = true ↔
      Unfinished s l ∨ s.shared.now - l.submittedAt ≤ cfg.windowS := by
  obtain ⟨r, hr, hsub⟩ := h.book.records n l hl.here hun
  have hleft : Unfinished s l ↔ unfinished r = true := by
    constructor
    · rintro ⟨r', hr', hleft⟩
      rwa [Option.some.inj (hr.symm.trans hr')]
    · intro hleft
      exact ⟨r, hr, hleft⟩
  rw [hleft, ← withinWindow_of_submitted cfg _ hsub, ← hr]
  rcases h.book.kept key n l hl with hkept | ⟨hnone, -, hgone⟩
  · rw [Shared.existing, hkept]
    cases hw : withinWindow (s.shared.journal.jobs.get? l.id) s.shared.now cfg.windowS <;>
      simp [hw]
  · obtain ⟨r', hr', hclosed, hlate⟩ := hgone hun
    obtain rfl := Option.some.inj (hr.symm.trans hr')
    have hout : ¬ withinWindow (some r) s.shared.now cfg.windowS = true := by
      rw [withinWindow_of_submitted cfg _ hsub]
      simp [hclosed, not_le.mpr hlate]
    rw [Shared.existing, hnone, hr]
    simp [hout]

theorem misjudged_iff : Misjudged cfg s n l ↔
    (Unfinished s l ∧ ¬ Live s n ∧ ¬ SucceededWithin cfg s.shared.now l) ∨
    (¬ Unfinished s l ∧ s.shared.now - l.submittedAt ≤ cfg.windowS ∧ ¬ Live s n ∧
      ¬ SucceededWithin cfg s.shared.now l) ∨
    (¬ Unfinished s l ∧ cfg.windowS < s.shared.now - l.submittedAt ∧
      (Live s n ∨ SucceededWithin cfg s.shared.now l)) := by
  constructor
  · rintro (⟨left, dead, undone⟩ | ⟨closed, soon, dead, undone⟩ | ⟨closed, early, really⟩)
    · exact .inl ⟨left, dead, undone⟩
    · exact .inr (.inl ⟨closed, soon, dead, undone⟩)
    · exact .inr (.inr ⟨closed, early, really⟩)
  · rintro (⟨left, dead, undone⟩ | ⟨closed, soon, dead, undone⟩ | ⟨closed, early, really⟩)
    · exact .lost left dead undone
    · exact .failed closed soon dead undone
    · exact .long closed early really

theorem exists_lastUnder (h : ls[n]? = some l) (hkey : l.key = some key) :
    ∃ n l, LastUnder ls key n l := by
  classical
  let under : ℕ → Prop := fun n => ∃ l, ls[n]? = some l ∧ l.key = some key
  have hbound : ∀ m, under m → m ≤ ls.length := fun m ⟨l, hl, _⟩ => (lt_of_getElem? hl).le
  have hn : under n := ⟨l, h, hkey⟩
  obtain ⟨l', hl', hkey'⟩ := Nat.findGreatest_spec (hbound n hn) hn
  refine ⟨_, l', hl', hkey', fun m l₁ hl₁ hkey₁ => ?_⟩
  exact Nat.le_findGreatest (hbound m ⟨l₁, hl₁, hkey₁⟩) ⟨l₁, hl₁, hkey₁⟩

/-- The answer is right exactly when the record does not misjudge the last
job under the key. -/
theorem Known.right_iff (h : Known cfg s)
    (hun : ∀ n l, LastUnder s.shared.launched key n l → Unretaken s.shared.launched n l.id) :
    ((s.shared.existing cfg key).isSome = true ↔ GoingOrDone cfg s key) ↔
      ∀ n l, LastUnder s.shared.launched key n l → ¬ Misjudged cfg s n l := by
  by_cases hany : ∃ n l, LastUnder s.shared.launched key n l
  · obtain ⟨n, l, hl⟩ := hany
    have hall : (∀ n l, LastUnder s.shared.launched key n l → ¬ Misjudged cfg s n l) ↔
        ¬ Misjudged cfg s n l := by
      constructor
      · intro hall
        exact hall n l hl
      · intro hnot m l' hl'
        have hmn : m = n := le_antisymm (hl.last m l' hl'.here hl'.under)
          (hl'.last n l hl.here hl.under)
        subst hmn
        rwa [Option.some.inj (hl'.here.symm.trans hl.here)]
    rw [hall, h.existing_iff hl (hun n l hl), h.goingOrDone_iff hl, misjudged_iff, ← not_le]
    tauto
  · have hnone : ∀ (n : ℕ) (l : Launch), s.shared.launched[n]? = some l → l.key ≠ some key :=
      fun n l hl hkey => hany (exists_lastUnder hl hkey)
    have hexisting : s.shared.existing cfg key = none := by
      rw [Shared.existing, h.book.fresh key hnone]
      rfl
    have hgoing : ¬ GoingOrDone cfg s key := by
      rintro ⟨n, l, hl, hkey, -⟩
      exact hnone n l hl hkey
    constructor
    · intro _ n l hl
      exact absurd ⟨n, l, hl⟩ hany
    · intro _
      simp [hexisting, hgoing]

/-! ## The steps keep it -/

/-- While a thread is in `submit`'s section no other moves the slot. -/
theorem Held.active_of_other (h : Held s) {u : ThreadId} (hu : (s.pc u).inside = true)
    (hne : t ≠ u) (hn : Jobs.next cfg s (t, c) = some s') :
    s'.shared.manager.active = s.shared.manager.active := by
  have hsec := section_of_advance (Interleaving.of_next hn).1
  have hlocked := h.lock.up u hu
  generalize hpc : s.pc t = k₀ at hsec
  generalize s'.pc t = k₁ at hsec
  generalize s'.shared = x at hsec ⊢
  cases hsec with
  | keeps manager tenant inside owned leased past admission => rw [manager]
  | enters sub free => rfl
  | leaves manager tenant inside past owned leased outside => rw [manager]
  | takes sub key idle a took => rfl
  | skips sub key idle => rfl
  | launches sub key took id nth locked active lease admission =>
    exact absurd (h.lock.unique t u (by rw [hpc]; rfl) hu) hne
  | unwinds took => simp [Shared.unlock]
  | releases owned free inside none leased => cases free.symm.trans hlocked

theorem NoneDone.later (h : NoneDone cfg x key) (launched : x'.launched = x.launched)
    (now : x.now ≤ x'.now) : NoneDone cfg x' key := by
  intro n l hl hkey
  exact not_succeeded_later now (h n l (launched ▸ hl) hkey)

/-- A lookup that found nothing, where the records are right. -/
theorem Known.noneDone (h : Known cfg s) {a : Act} (hj : Judged cfg s a)
    (hasks : (s.pc a.1).asks? = some key) (hnone : s.shared.existing cfg key = none) :
    NoneDone cfg s.shared key := by
  intro n l hl hkey hdone
  have hright := (h.right_iff fun n l hl => (hj key hasks n l hl).1).mpr
    fun n l hl => (hj key hasks n l hl).2
  have hsome := hright.mpr ⟨n, l, hl, hkey, .inr hdone⟩
  rw [hnone] at hsome
  cases hsome

theorem Known.next (hheld : Held s) (h : Known cfg s) {a : Act} (hj : Judged cfg s a)
    (hn : next cfg s a = some s') : Known cfg s' := by
  obtain ⟨t, c⟩ := a
  obtain ⟨ha, other⟩ := Interleaving.of_next hn
  have hrec := records_of_advance ha
  -- another thread in `submit`'s section sees the slot as it was
  have hidle : ∀ u, u ≠ t → (s.pc u).inside = true → s'.shared.manager.active = none →
      s.shared.manager.active = none := fun u hu hin hnone =>
    (hheld.active_of_other hin (Ne.symm hu) hn).symm.trans hnone
  generalize hpc : s.pc t = k₀ at hrec
  generalize hpc' : s'.pc t = k₁ at hrec
  generalize hx : s'.shared = x at hrec hidle
  cases hrec with
  | stays journal launched runKeys now owned slot past =>
    refine ⟨hx ▸ h.book.later journal launched runKeys now, ?_, ?_, ?_⟩
    · intro u run hrun
      rw [hx, launched]
      by_cases hu : u = t
      · subst hu
        exact h.owners u run (hpc ▸ owned run (hpc' ▸ hrun))
      · exact h.owners u run (other u hu ▸ hrun)
    · intro u sub key hu hnone
      rw [hx] at hnone ⊢
      by_cases hut : u = t
      · subst hut
        obtain ⟨hcheck, hkey, hex, hsame⟩ := slot sub key (hpc'.symm.trans hu)
        rw [hsame]
        refine h.noneDone hj ?_ hex
        show (s.pc u).asks? = some key
        rw [hpc, hcheck]
        simp [Pc.asks?, hkey]
      · have hslot := (other u hut).symm.trans hu
        exact (h.slot u sub key hslot (hidle u hut (by rw [hslot]; rfl) hnone)).later launched now
    · intro u sub key took hu
      rw [hx]
      by_cases hut : u = t
      · subst hut
        obtain ⟨hslot, hnone⟩ := past sub (some key) took (hpc'.symm.trans hu)
        exact (h.slot u sub key (hpc.trans hslot) hnone).later launched now
      · exact (h.past u sub key took ((other u hut).symm.trans hu)).later launched now
  | launches sub key₀ took id hid hjournal =>
    have hin : (s.pc t).inside = true := by
      rw [hpc]
      rfl
    have hactive := hheld.past t (by rw [hpc]; rfl)
    have halone : ∀ u, u ≠ t → (s.pc u).inside = true → False := fun u hu hu' =>
      hu (hheld.lock.unique u t hu' hin)
    refine ⟨hx ▸ h.book.launch hid hjournal ?_, ?_, ?_, ?_⟩
    · rintro key rfl
      exact h.past t sub key took hpc
    · intro u run hrun
      by_cases hu : u = t
      · subst hu
        obtain rfl := Option.some.inj ((hpc' ▸ hrun : Pc.owned? (.start _) = some run))
        rw [hx]
        show s.shared.launched.length + 1 = (s.shared.launched ++ [_]).length ∧
          ∃ l, (s.shared.launched ++ [_])[s.shared.launched.length]? = some l ∧ l.id = id
        simp
      · cases (hheld.named u run (other u hu ▸ hrun)).symm.trans hactive
    · intro u sub' key hu _
      by_cases hut : u = t
      · subst hut
        cases hpc'.symm.trans hu
      · exact (halone u hut (by rw [← other u hut, hu]; rfl)).elim
    · intro u sub' key took' hu
      by_cases hut : u = t
      · subst hut
        cases hpc'.symm.trans hu
      · exact (halone u hut (by rw [← other u hut, hu]; rfl)).elim
  | runs run owned owned' runKeys now journal launched =>
    have hactive := hheld.named t run (hpc ▸ owned)
    obtain ⟨hlen, lr, hlr, hid⟩ := h.owners t run (hpc ▸ owned)
    have hnoted := noted_of_runs launched
    refine ⟨hx ▸ h.book.runs hlen hlr hid runKeys now journal hnoted, ?_, ?_, ?_⟩
    · intro u run' hrun'
      have hbefore : (s.pc u).owned? = some run' := by
        by_cases hu : u = t
        · subst hu
          rw [hpc, owned, ← owned', ← hpc', hrun']
        · exact other u hu ▸ hrun'
      obtain ⟨hlen', l, hl, hid'⟩ := h.owners u run' hbefore
      obtain ⟨l', hl', -, hsame, -⟩ := hnoted.fwd _ l hl
      rw [hx, hnoted.length]
      exact ⟨hlen', l', hl', hsame.trans hid'⟩
    · intro u sub key hu hnone
      by_cases hut : u = t
      · subst hut
        rw [hu] at hpc'
        subst hpc'
        cases owned'
      · have hslot := (other u hut).symm.trans hu
        cases hactive.symm.trans (hidle u hut (by rw [hslot]; rfl) (hx ▸ hnone))
    · intro u sub key took hu
      by_cases hut : u = t
      · subst hut
        rw [hu] at hpc'
        subst hpc'
        cases owned'
      · have hpast := (other u hut).symm.trans hu
        cases hactive.symm.trans (hheld.past u (by rw [hpast]; rfl))

theorem known_init (journal : Journal) (now : ℚ) : Known cfg (Sys.init journal now) := by
  refine ⟨⟨?_, ?_, ?_, ?_, ?_⟩, ?_, ?_, ?_⟩
  · intro n l hl
    cases hl
  · intro n l hl
    cases hl
  · intro key _
    rfl
  · intro key n l hl
    cases hl.here
  · intro n m l l' key hl
    cases hl
  · intro u run hrun
    cases hrun
  · intro u sub key hu
    cases hu
  · intro u sub key took hu
    cases hu

theorem known_of_reachable {journal : Journal} {now : ℚ}
    (h : Runs.Reachable (next cfg) (Judged cfg) (Sys.init journal now) s) : Known cfg s :=
  h.invariant (known_init journal now) fun _ _ _ hr hI hj hn =>
    Known.next (held_of_reachable hr.any) hI hj hn

/-! ## A keyed submission is answered rightly -/

/-- A lookup starts nothing: it answers with a job under the key, or goes on. -/
structure LooksUp (s s' : Sys) (t : ThreadId) (key : Key) : Prop where
  existing : ∀ id, (s'.pc t).answer? = some id → s'.shared = s.shared.unlock ∧
    ∃ l ∈ s.shared.launched, l.key = some key ∧ l.id = id
  proceeds : (s'.pc t).answer? = none → s'.shared = s.shared ∧
    ∃ sub, s'.pc t = .slot sub (some key)

/-- A submission that goes on is refused where the slot or the lease is
taken, or comes to its write, and is a new job when that is done. -/
structure Proceeds (cfg : JobConfig) (s s' : Sys) (t : ThreadId) : Prop where
  slot : ∀ sub key, s.pc t = .slot sub key →
    (s'.pc t = .refused .busy ∧ s.shared.manager.active.isSome = true) ∨
    (s'.pc t = .refused .held ∧
      ∃ free, (s.shared.admission.acquire cfg.slot training free).2 ≠ .ok) ∨
    ∃ took, s'.pc t = .journal sub key took
  journal : ∀ sub key took, s.pc t = .journal sub key took →
    (s'.pc t = .unwind took ∧ s'.shared = s.shared) ∨
    ∃ run, s'.pc t = .start run ∧ s'.shared.manager.active = some run.id ∧
      s'.shared.launched = s.shared.launched ++ [⟨key, run.id, s.shared.now, none⟩]

theorem advance_of_asks (hasks : k.asks? = some key) (h : advance cfg t c x k = some (x', k')) :
    (∃ id, x.existing cfg key = some id ∧ x' = x.unlock ∧ k' = .existing id) ∨
      (x.existing cfg key = none ∧ x' = x ∧ ∃ sub, k' = .slot sub (some key)) := by
  cases k with
  | check sub =>
    have hkey : keyOf sub.request = some (some key) := by
      simpa [Pc.asks?, Option.join_eq_some_iff] using hasks
    simp only [advance, hkey] at h
    split at h
    · rename_i id hid
      cases h
      exact .inl ⟨id, hid, rfl, rfl⟩
    · rename_i hnone
      cases h
      exact .inr ⟨hnone, rfl, sub, rfl⟩
  | _ => cases hasks

theorem Known.looksUp (h : Known cfg s) (hasks : (s.pc t).asks? = some key)
    (hn : Jobs.next cfg s (t, c) = some s') :
    LooksUp s s' t key ∧
      ((∃ id, (s'.pc t).answer? = some id) ↔ (s.shared.existing cfg key).isSome = true) := by
  rcases advance_of_asks hasks (Interleaving.of_next hn).1 with
    ⟨id, hid, hx, hk⟩ | ⟨hnone, hx, sub, hk⟩
  · refine ⟨⟨fun id' hid' => ⟨hx, ?_⟩, fun hnot => ?_⟩, ?_⟩
    · rw [hk] at hid'
      obtain rfl := Option.some.inj hid'
      obtain ⟨hkept, -⟩ := Option.filter_eq_some_iff.mp hid
      by_cases hany : ∃ n l, LastUnder s.shared.launched key n l
      · obtain ⟨n, l, hl⟩ := hany
        refine ⟨l, List.mem_of_getElem? hl.here, hl.under, ?_⟩
        rcases h.book.kept key n l hl with hsome | ⟨hnone, -⟩
        · exact Option.some.inj (hsome.symm.trans hkept)
        · cases hnone.symm.trans hkept
      · have hfresh := h.book.fresh key fun n l hl hkey => hany (exists_lastUnder hl hkey)
        cases hfresh.symm.trans hkept
    · rw [hk] at hnot
      cases hnot
    · rw [hk, hid]
      simp [Pc.answer?]
  · refine ⟨⟨fun id' hid' => ?_, fun _ => ⟨hx, sub, hk⟩⟩, ?_⟩
    · rw [hk] at hid'
      cases hid'
    · rw [hk, hnone]
      simp [Pc.answer?]

theorem proceeds_of_next {a : Act} (hn : next cfg s a = some s') : Proceeds cfg s s' a.1 := by
  obtain ⟨t, c⟩ := a
  have ha := (Interleaving.of_next hn).1
  constructor
  · intro sub key hpc
    show (s'.pc t = _ ∧ _) ∨ _
    rw [show s.pc t = .slot sub key from hpc] at ha
    simp only [advance] at ha
    split at ha
    · rename_i hactive
      obtain ⟨-, hk⟩ := Prod.mk.inj (Option.some.inj ha)
      exact .inl ⟨hk.symm, hactive⟩
    · split at ha
      · cases c <;> simp only [reduceCtorEq] at ha
        rename_i free
        split at ha
        · obtain ⟨-, hk⟩ := Prod.mk.inj (Option.some.inj ha)
          exact .inr (.inr ⟨true, hk.symm⟩)
        · rename_i a r hnot hacq
          obtain ⟨-, hk⟩ := Prod.mk.inj (Option.some.inj ha)
          exact .inr (.inl ⟨hk.symm, free, by rw [hacq]; exact hnot⟩)
      · obtain ⟨-, hk⟩ := Prod.mk.inj (Option.some.inj ha)
        exact .inr (.inr ⟨false, hk.symm⟩)
  · intro sub key took hpc
    show (s'.pc t = _ ∧ _) ∨ _
    rw [show s.pc t = .journal sub key took from hpc] at ha
    simp only [advance] at ha
    split at ha
    · obtain ⟨hx, hk⟩ := Prod.mk.inj (Option.some.inj ha)
      refine .inr ⟨_, hk.symm, ?_⟩
      rw [← hx]
      exact ⟨rfl, rfl⟩
    · obtain ⟨hx, hk⟩ := Prod.mk.inj (Option.some.inj ha)
      exact .inl ⟨hk.symm, hx.symm⟩

/-- Where the lookups so far met a job they do not misjudge, a lookup under
`key` is answered with an existing job exactly when one is in progress or
done; and a lookup that has its last job's own record is answered rightly
only then. -/
theorem answered_iff_goingOrDone (cfg : JobConfig) (journal : Journal) (now : ℚ) (s : Sys)
    (h : Runs.Reachable (next cfg) (Judged cfg) (Sys.init journal now) s) :
    (∀ t c s' key, (s.pc t).asks? = some key → next cfg s (t, c) = some s' →
      LooksUp s s' t key ∧
      (Judged cfg s (t, c) →
        ((∃ id, (s'.pc t).answer? = some id) ↔ GoingOrDone cfg s key)) ∧
      ((∀ n l, LastUnder s.shared.launched key n l → Unretaken s.shared.launched n l.id) →
        (((∃ id, (s'.pc t).answer? = some id) ↔ GoingOrDone cfg s key) ↔
          ∀ n l, LastUnder s.shared.launched key n l → ¬ Misjudged cfg s n l))) ∧
    ∀ a s', next cfg s a = some s' → Proceeds cfg s s' a.1 := by
  have hknown := known_of_reachable h
  refine ⟨fun t c s' key hasks hn => ?_, fun a s' hn => proceeds_of_next hn⟩
  obtain ⟨hlooks, hanswer⟩ := hknown.looksUp hasks hn
  refine ⟨hlooks, fun hj => ?_, fun hun => ?_⟩
  · rw [hanswer]
    exact (hknown.right_iff fun n l hl => (hj key hasks n l hl).1).mpr
      fun n l hl => (hj key hasks n l hl).2
  · rw [hanswer]
    exact hknown.right_iff hun

/-- Nothing is looked up after a launch. -/
def Unasked (s : Sys) (a : Act) : Prop :=
  (s.pc a.1).asks? = none ∨ s.shared.launched.isEmpty = true

instance (s : Sys) (a : Act) : Decidable (Unasked s a) := inferInstanceAs (Decidable (_ ∨ _))

theorem judged_of_unasked {a : Act} (h : Unasked s a) : Judged cfg s a := by
  intro key hasks n l hl
  rcases h with hnone | hempty
  · cases hnone.symm.trans hasks
  · rw [List.isEmpty_iff.mp hempty] at hl
    cases hl.here

/-- A job that runs, and its launch asked for again. -/
def askedAgain : List Act :=
  launched 0 "a" ++ ([(0, .go), (1, .submit .finetune keyedFinetune "b"), (1, .go)] : List Act)

/-- It is answered with the job that runs. -/
theorem running_answered :
    ∃ s s' : Sys, next quarterHour s (1, .go) = some s' ∧ (s'.pc 1).answer? = some "a" ∧
      LooksUp s s' 1 (.str "k") ∧ (Judged quarterHour s (1, .go) →
        ((∃ id, (s'.pc 1).answer? = some id) ↔ GoingOrDone quarterHour s (.str "k"))) := by
  have hrun : ((Runs.run (next quarterHour) Unasked (Sys.init .init 0) askedAgain).bind fun s =>
      (next quarterHour s (1, .go)).map fun s' =>
        decide ((s.pc 1).asks? = some (.str "k") ∧ (s'.pc 1).answer? = some "a")) = some true := by
    decide +kernel
  obtain ⟨s, s', hs, hn, hp⟩ := Runs.exists_step hrun
  obtain ⟨hasks, hanswer⟩ := of_decide_eq_true hp
  have hjudged : Runs.Reachable (next quarterHour) (Judged quarterHour) (Sys.init .init 0) s :=
    hs.mono fun _ _ => judged_of_unasked
  obtain ⟨hlooks, hright, -⟩ :=
    (answered_iff_goingOrDone quarterHour .init 0 s hjudged).1 1 .go s' (.str "k") hasks hn
  exact ⟨s, s', hn, hanswer, hlooks, hright⟩

/-- The thread of a launch could not be started; the launch is asked for
again. -/
def askedAfterFailedStart : List Act :=
  launched 0 "a" ++
    ([(0, .fails), (0, .go), (1, .submit .finetune keyedFinetune "b"), (1, .go)] : List Act)

/-- It is answered with the job that was never started. -/
theorem failedStart_answered :
    ¬ ∀ s, Runs.Reachable (next quarterHour) Runs.anyStep (Sys.init .init 0) s →
      ∀ t c s' key, (s.pc t).asks? = some key → next quarterHour s (t, c) = some s' →
        ((∃ id, (s'.pc t).answer? = some id) ↔ GoingOrDone quarterHour s key) := by
  have hrun : ((Runs.run (next quarterHour) Runs.anyStep (Sys.init .init 0)
      askedAfterFailedStart).bind fun s => (next quarterHour s (1, .go)).map fun s' =>
        decide (((s.pc 1).asks? = some (.str "k") ∧ (s'.pc 1).answer? = some "a") ∧
          s.shared.manager.active = none ∧ ∀ l ∈ s.shared.launched, l.ended = none)) =
      some true := by decide +kernel
  obtain ⟨s, s', hs, hn, hp⟩ := Runs.exists_step hrun
  obtain ⟨⟨hasks, hanswer⟩, hidle, hnone⟩ := of_decide_eq_true hp
  intro hall
  obtain ⟨n, l, hl, -, hreally⟩ := (hall s hs 1 .go s' (.str "k") hasks hn).mp ⟨"a", hanswer⟩
  rcases hreally with ⟨u, run, hworker, -⟩ | ⟨e, he, -⟩
  · have hactive := (held_of_reachable hs).named u run (Pc.owned_of_worker hworker)
    cases hactive.symm.trans hidle
  · cases (hnone l (List.mem_of_getElem? hl)).symm.trans he

end MlopsLite.HostAgent.Jobs
