import MlopsLite.Gateway.Policy.Scheduler

/-!
# Policy — one suggestion for a candidate

`create_suggestion` looks for a row in the state it would write, so that a
watch that could not be cleared is judged again without a second row. A row
that an operator resolved in the meantime is not found.
-/

namespace MlopsLite.Gateway.Policy.Suggestions

variable {cfg : Settings} {x x' : World} {s s' : Sys}

/-! ## Rows -/

/-- The candidates of the rows. -/
def candidates (x : World) : List (ModelName × Version) :=
  x.suggestions.map fun r => (r.modelName, r.candidateVersion)

theorem candidates_insert (x : World) (m : ModelName) (v : Version) (gate : Verdict)
    (shadow : Option Winner) (state : SuggestionState) (byPolicy : Bool) :
    candidates (x.insertSuggestion m v gate shadow state byPolicy) = candidates x ++ [(m, v)] := by
  simp [candidates, World.insertSuggestion]

theorem candidates_resolve (x : World) (id : SuggestionId) (state : SuggestionState) :
    candidates (x.resolveSuggestion id state) = candidates x := by
  simp only [candidates, World.resolveSuggestion, List.map_map]
  congr 1
  funext r
  simp only [Function.comp_apply]
  split <;> rfl

theorem mem_candidates {x : World} {m : ModelName} {v : Version} :
    (m, v) ∈ candidates x ↔ ∃ r ∈ x.suggestions, r.modelName = m ∧ r.candidateVersion = v := by
  simp [candidates]

/-- An insertion. -/
def adds : Op → Bool
  | .insertSuggestion .. => true
  | _ => false

/-- Only an insertion adds a candidate. -/
theorem candidates_of_did {o : Op} (h : Did cfg x o x') (ho : adds o = false) :
    candidates x' = candidates x := by
  cases h with
  | inserted => cases ho
  | resolved id state => exact candidates_resolve x id state
  | _ => rfl

theorem candidates_of_insert {m : ModelName} {v : Version} {gate : Verdict}
    {shadow : Option Winner} {state : SuggestionState} {byPolicy : Bool}
    (h : Did cfg x (.insertSuggestion m v gate shadow state byPolicy) x') :
    candidates x' = candidates x ∨ candidates x' = candidates x ++ [(m, v)] := by
  cases h with
  | nothing => exact .inl rfl
  | inserted => exact .inr (candidates_insert x m v gate shadow state byPolicy)

/-- A row that was resolved stays as it is. -/
theorem resolved_of_did {o : Op} (h : Did cfg x o x') {r : Suggestion} (hr : r ∈ x.suggestions)
    (hstate : r.state ≠ .open) : r ∈ x'.suggestions := by
  cases h with
  | inserted => exact List.mem_append_left _ hr
  | resolved id state => exact List.mem_map.mpr ⟨r, hr, if_neg fun h => hstate h.2⟩
  | _ => exact hr

/-! ## The rule -/

/-- The candidate that a call looks for has no row in another state. -/
def Found (x : World) (o : Op) : Prop :=
  ∀ r ∈ x.suggestions, ∀ state,
    o = .findSuggestion r.modelName r.candidateVersion state → r.state = state

/-- A lookup that finds no row: there is none in any state. -/
theorem not_mem_of_missed {c : Choice} {m : ModelName} {v : Version} {state : SuggestionState}
    (hfound : Found x (.findSuggestion m v state))
    (he : exec cfg c x (.findSuggestion m v state) = some (x', some none)) :
    (m, v) ∉ candidates x := by
  intro hmem
  obtain ⟨r, hr, rfl, rfl⟩ := mem_candidates.mp hmem
  have hstate := hfound r hr state rfl
  have hnone : x.suggestions.find? (fun q => q.modelName = r.modelName ∧
      q.candidateVersion = r.candidateVersion ∧ q.state = state) = none := by
    simp only [exec] at he
    split at he
    · rename_i f
      cases f with
      | done => exact Option.some.inj (Prod.mk.inj (Option.some.inj he)).2
      | fails => cases he
      | lost => cases he
    · cases he
  exact (List.find?_eq_none.mp hnone) r hr (by simp [hstate])

/-- Nothing but the scheduler adds a candidate. -/
abbrev spec (cfg : Settings) (t : ThreadId) : Code.Spec World Choice Op Reply where
  exec := exec cfg
  inv x := (candidates x).Nodup
  cond _ x o := Found x o
  rely x y := y.epoch = x.epoch ∧ (t = scheduler → candidates y = candidates x)
  guar x y := y.epoch = x.epoch ∧ (t ≠ scheduler → candidates y = candidates x)

theorem keeps_of_not_adds {α : Type} {t : ThreadId} {code : Prog α}
    (h : code.Calls fun o => adds o = false) : code.Keeps (spec cfg t) fun _ => True := by
  refine Code.keeps_of_calls h ?_ fun _ _ _ _ => trivial
  intro c x o x' r ho _ hinv _ he
  have hdid := did_of_exec he
  have heq := candidates_of_did hdid ho
  refine ⟨?_, ⟨epoch_of_did hdid, fun _ => heq⟩, trivial⟩
  show (candidates x').Nodup
  rw [heq]
  exact hinv

/-- Between the lookup and the insertion nobody else adds a row. -/
theorem keeps_createSuggestion (m : ModelName) (v : Version) (gate : Verdict)
    (shadow : Option Winner) (state : SuggestionState) (byPolicy : Bool) :
    (createSuggestion m v gate shadow state byPolicy).Keeps (spec cfg scheduler) fun _ => True := by
  intro x _
  refine Code.meets_bind (Code.meets_bind (Code.meets_op ?_))
  intro c x₁ found hinv hfound he
  have hdid : Did cfg x (.findSuggestion m v state) x₁ := did_of_exec he
  have heq := candidates_of_did hdid rfl
  refine ⟨?_, ⟨epoch_of_did hdid, fun _ => heq⟩, fun y hy hrely => ?_⟩
  · show (candidates x₁).Nodup
    rw [heq]
    exact hinv
  · match found with
    | none => trivial
    | some (some r) => trivial
    | some none =>
      have hnew : (m, v) ∉ candidates y := by
        have he : exec cfg c x (.findSuggestion m v state) = some (x₁, some none) := he
        rw [hrely.2 rfl, heq]
        exact not_mem_of_missed hfound he
      refine Code.meets_bind (Code.meets_op ?_)
      intro c x₂ ok hinv _ he
      have hdid : Did cfg y (.insertSuggestion m v gate shadow state byPolicy) x₂ :=
        did_of_exec he
      refine ⟨?_, ⟨epoch_of_did hdid, fun h => absurd rfl h⟩, fun z _ _ => ?_⟩
      · rcases candidates_of_insert hdid with heq | heq
        · show (candidates x₂).Nodup
          rw [heq]
          exact hinv
        · show (candidates x₂).Nodup
          rw [heq]
          exact hinv.append (by simp) (by simpa using hnew)
      · exact keeps_okStore ok z trivial

theorem keeps_judgeCandidate (p : ModelPolicy) (status : Status) (v : Version) (now : ℚ) :
    (judgeCandidate cfg p status v now).Keeps (spec cfg scheduler) fun _ => True := by
  have hsave : ∀ st, (saveStatus p.modelName st).Keeps (spec cfg scheduler) fun _ => True :=
    fun _ => keeps_of_not_adds (calls_write (calls_ask rfl))
  refine Code.keeps_bind (keeps_of_not_adds (calls_gate (fun _ => rfl) (fun _ _ => rfl) ..))
    fun verdict => ?_
  refine Code.keeps_bind (keeps_of_not_adds (calls_shadowFn rfl)) fun shadow => ?_
  split
  · exact Code.keeps_bind (hsave _) fun _ => Code.keeps_ret _
  · split
    · refine Code.keeps_bind (keeps_of_not_adds (calls_promote .policy (fun _ => rfl)
        (fun _ _ => rfl) (fun _ _ _ => rfl) ..)) fun promoted => ?_
      split
      · refine Code.keeps_bind (keeps_createSuggestion _ _ _ _ _ _) fun _ => ?_
        exact Code.keeps_bind (hsave _) fun _ => Code.keeps_ret _
      · exact Code.keeps_bind (hsave _) fun _ => Code.keeps_ret _
    · refine Code.keeps_bind (keeps_createSuggestion _ _ _ _ _ _) fun _ => ?_
      exact Code.keeps_bind (hsave _) fun _ => Code.keeps_ret _

/-- What neither the retrains nor a request calls. -/
theorem not_adds_of_not_promotes {o : Op} (h : o.promotes = false) : adds o = false := by
  cases o <;> first | rfl | cases h

theorem not_adds_of_route {t : ThreadId} {o : Op} (h : o.ofRoute t = true) : adds o = false := by
  cases o <;> first | rfl | cases h

theorem keeps_tick : (tick cfg).Keeps (spec cfg scheduler) fun _ => True := by
  have hask : ∀ {o}, adds o = false → (ask o).Keeps (spec cfg scheduler) fun _ => True :=
    fun h => keeps_of_not_adds (calls_ask h)
  refine Policy.keeps_tick (hask rfl) (hask rfl) ?_ ?_ ?_
  · exact fun p now =>
      keeps_of_not_adds (calls_retryPending (fun _ => not_adds_of_not_promotes) cfg p now)
  · exact fun p now =>
      keeps_of_not_adds (calls_runDueChecks (fun _ => not_adds_of_not_promotes) cfg p now)
  · exact fun p now => keeps_pollWatch (fun _ => hask rfl) (fun _ _ => hask rfl)
      (fun _ => hask rfl) fun status v => keeps_judgeCandidate p status v now

theorem sound (cfg : Settings) :
    Code.Sound (machine cfg) (fun x => (candidates x).Nodup) (fun _ _ => Found)
      (fun _ _ _ => True) (fun t => (spec cfg t).rely) (fun t => (spec cfg t).guar)
      fun _ _ => True where
  refl t x := ⟨rfl, fun _ => rfl⟩
  trans t x y z hxy hyz := ⟨hyz.1.trans hxy.1, fun ht => (hyz.2 ht).trans (hxy.2 ht)⟩
  epoch t x y h := h.1
  epoch_guar t x y h := h.1
  others t u x y htu h := ⟨h.1, fun hu => h.2 fun ht => htu (ht.trans hu.symm)⟩
  stable _ _ _ _ _ := trivial
  spawn t c x code hspawn y _ _ := by
    by_cases ht : t = scheduler
    · subst ht
      rw [eq_tick_of_spawn x hspawn]
      exact keeps_tick y trivial
    · have hroute := calls_of_route x ht hspawn
      exact keeps_of_not_adds (hroute.mono fun _ => not_adds_of_route) y trivial
  env t c x x' hinv _ henv := by
    obtain ⟨hrows, -, -, hcases⟩ := of_env t henv
    refine ⟨?_, ?_⟩
    · show (candidates x').Nodup
      unfold candidates
      rw [hrows]
      exact hinv
    · rcases hcases with ⟨heq, -⟩ | ⟨-, rfl⟩
      · exact .inl fun u => ⟨heq, fun _ => congrArg (List.map _) hrows⟩
      · exact .inr ⟨Nat.lt_succ_self _, fun _ => trivial⟩
  finish t x r hinv _ := ⟨hinv, trivial, fun _ _ => ⟨rfl, fun _ => rfl⟩⟩

/-! ## Over a run -/

/-- The step is no lookup that misses a row of its candidate. -/
def Finds (s : Sys) (a : Act) : Prop :=
  ∀ o, (s.pc a.1).call? s.shared.epoch = some o → Found s.shared o

theorem nodup_of_reachable {now : ℚ} (h : Runs.Reachable (next cfg) Finds (Sys.init now) s) :
    (candidates s.shared).Nodup := by
  have h0 : (candidates (.init now)).Nodup := List.nodup_nil
  have hruns : Runs.Reachable (next cfg)
      (Code.OkStep (machine cfg) (fun _ _ => Found) fun _ _ _ => True) (Sys.init now) s :=
    h.mono fun _ _ hok => Code.okStep_of_call (fun _ => trivial) hok
  exact ((sound cfg).holds h0 (fun _ => trivial) hruns).global

theorem resolved_of_next {a : Act} (hn : next cfg s a = some s') {r : Suggestion}
    (hr : r ∈ s.shared.suggestions) (hstate : r.state ≠ .open) :
    r ∈ s'.shared.suggestions := by
  rcases Code.Machine.cases_of_next hn with hsame | henv | ⟨_, hfinish⟩ | ⟨_, o, _, _, -, -, he, -⟩
  · rwa [hsame]
  · rwa [(of_env a.1 henv).1]
  · rwa [hfinish]
  · exact resolved_of_did (did_of_exec he) hr hstate

theorem resolved_of_reachable {ok : Sys → Act → Prop} (h : Runs.Reachable (next cfg) ok s s')
    {r : Suggestion} (hr : r ∈ s.shared.suggestions) (hstate : r.state ≠ .open) :
    r ∈ s'.shared.suggestions :=
  h.invariant (I := fun s => r ∈ s.shared.suggestions) hr
    fun _ _ _ _ hI _ hn => resolved_of_next hn hI hstate

/-- Where every lookup finds what its candidate has, no candidate has a
second row, and one whose row was resolved has that row for good. -/
theorem one_row_for_candidate (cfg : Settings) (now : ℚ) (s s' : Sys)
    (h : Runs.Reachable (next cfg) Finds (Sys.init now) s)
    (h' : Runs.Reachable (next cfg) Finds s s') :
    (candidates s'.shared).Nodup ∧
      ∀ r ∈ s.shared.suggestions, r.state ≠ .open → ∀ r' ∈ s'.shared.suggestions,
        r'.modelName = r.modelName → r'.candidateVersion = r.candidateVersion → r' = r := by
  have hnodup := nodup_of_reachable (h.trans h')
  refine ⟨hnodup, fun r hr hstate r' hr' hm hv => ?_⟩
  have hr₁ := resolved_of_reachable h' hr hstate
  exact List.inj_on_of_nodup_map hnodup hr' hr₁ (Prod.ext hm hv)

/-- A lookup. -/
def looks : Op → Bool
  | .findSuggestion .. => true
  | _ => false

/-- No step is a lookup once a suggestion was made. -/
def Unasked (s : Sys) (a : Act) : Prop :=
  (s.shared.suggestions.isEmpty || ((s.pc a.1).call? s.shared.epoch).all fun o => !looks o) = true

instance (s : Sys) (a : Act) : Decidable (Unasked s a) := inferInstanceAs (Decidable (_ = true))

theorem finds_of_unasked {a : Act} (h : Unasked s a) : Finds s a := by
  intro o hcall r hr state ho
  rcases Bool.or_eq_true_iff.mp h with hempty | hother
  · rw [List.isEmpty_iff.mp hempty] at hr
    cases hr
  · rw [hcall, ho] at hother
    cases hother

/-- The candidate is suggested, the watch is cleared and the suggestion is
dismissed. -/
def suggested : List Act :=
  launched "m" .suggest ++ foundGreen "2" ++ List.replicate 4 done ++
    [(1, .dismiss 0), (1, .fate .done)]

/-- Its row stays the only one. -/
theorem suggested_one_row :
    ∃ s : Sys, (∃ r ∈ s.shared.suggestions, r.state = .dismissed) ∧
      (candidates s.shared).Nodup := by
  have hrun : (Runs.run (next .defaults) Unasked (Sys.init 1000) suggested).map
      (fun s => decide (∃ r ∈ s.shared.suggestions, r.state = .dismissed)) = some true := by
    decide +kernel
  obtain ⟨s, hs, hp⟩ := Runs.exists_reachable hrun
  have hs := hs.mono fun _ _ => finds_of_unasked
  exact ⟨s, of_decide_eq_true hp, (one_row_for_candidate .defaults 1000 s s hs .init).1⟩

/-- No policy is declared in another mode than `suggest`. -/
def suggesting : Choice → Bool
  | .putPolicy p => p.promotionMode = .suggest
  | _ => true

def Suggesting (_ : Sys) (a : Act) : Prop := suggesting a.2 = true

instance (s : Sys) (a : Act) : Decidable (Suggesting s a) := inferInstanceAs (Decidable (_ = true))

/-- The watch is not cleared, the suggestion is dismissed, and the next tick
judges the watch again. -/
def dismissedThenAsked : List Act :=
  launched "m" .suggest ++ foundGreen "2" ++
    [done, done, (scheduler, .fate .fails), done, (1, .dismiss 0), (1, .fate .done)] ++
    nextTick ++ foundGreen "2" ++ [done, done]

/-- It writes a second row for the candidate, open again. -/
theorem dismissed_asked_again :
    ¬ ∀ cfg now s, Runs.Reachable (next cfg) Suggesting (Sys.init now) s →
      (candidates s.shared).Nodup := by
  have hrun : (Runs.run (next .defaults) Suggesting (Sys.init 1000) dismissedThenAsked).map
      (fun s => decide (candidates s.shared = [("m", "2"), ("m", "2")])) = some true := by
    decide +kernel
  obtain ⟨s, hs, hp⟩ := Runs.exists_reachable hrun
  intro hall
  have hnodup := hall .defaults 1000 s hs
  rw [of_decide_eq_true hp] at hnodup
  exact absurd hnodup (by simp)

end MlopsLite.Gateway.Policy.Suggestions
