import MlopsLite.Gateway.Policy.Scheduler

/-!
# Policy — what becomes of a watch

A watch is in the status of its policy until `_poll_watch` has an answer that
settles it. Three methods write the status beside it. One of them may put
another run in its place: the retry of a parked retrain, which launches
without a look at the status.
-/

namespace MlopsLite.Gateway.Policy.Watches

variable {cfg : Settings} {x x' y z : World} {s s' : Sys} {m : ModelName} {w : Watch} {now : ℚ}

/-! ## Watches -/

def watch (x : World) (m : ModelName) : Option Watch := (x.status m).bind Status.watch

/-- The last poll ended the watch: the run is over, or it was not known for longer than the
timeout. -/
def Settled (cfg : Settings) (x : World) (w : Watch) : Prop :=
  ∃ answer, x.history.polled = some (w.runId, answer) ∧
    match answer with
    | .going => False
    | .unknown => ∃ first, w.unknownSince = some first ∧ cfg.watchUnknownTimeoutS < x.now - first
    | .failed | .completed _ => True

/-- The launch of the model's parked retrain was accepted, and its park is not cleared yet. -/
def Landing (x : World) (m : ModelName) : Prop := m ∈ x.history.landing

/-- The watch of the same launch. -/
def Continues (w w' : Watch) : Prop := w'.runId = w.runId ∧ w'.launchedAt = w.launchedAt

/-- A status written for `m` leaves its watch, or may drop it. -/
def Replaces (cfg : Settings) (x : World) (m : ModelName) (next : Option Watch) : Prop :=
  ∀ w, watch x m = some w →
    (∃ w', next = some w' ∧ Continues w w') ∨ Settled cfg x w ∨ Landing x m

/-- No status is written that may not be. -/
def Kept (cfg : Settings) (x y : World) : Prop := ∀ m, Replaces cfg x m (watch y m)

/-- Statuses, polls and landings are as they were. -/
structure Untouched (x y : World) : Prop where
  status : ∀ m, y.status m = x.status m
  polled : y.history.polled = x.history.polled
  landing : y.history.landing = x.history.landing
  now : x.now ≤ y.now

theorem Untouched.refl (x : World) : Untouched x x := ⟨fun _ => rfl, rfl, rfl, le_rfl⟩

theorem Untouched.trans (h : Untouched x y) (h' : Untouched y z) : Untouched x z where
  status m := (h'.status m).trans (h.status m)
  polled := h'.polled.trans h.polled
  landing := h'.landing.trans h.landing
  now := h.now.trans h'.now

theorem Untouched.watch (h : Untouched x y) (m : ModelName) : watch y m = watch x m := by
  rw [Watches.watch, Watches.watch, h.status]

theorem kept_of_status (h : ∀ m, y.status m = x.status m) : Kept cfg x y := by
  intro m w hw
  refine .inl ⟨w, ?_, rfl, rfl⟩
  rw [watch, h, ← hw, watch]

theorem Settled.mono (h : Settled cfg x w) (hpolled : y.history.polled = x.history.polled)
    (hnow : x.now ≤ y.now) : Settled cfg y w := by
  obtain ⟨answer, hanswer, hends⟩ := h
  refine ⟨answer, hpolled.trans hanswer, ?_⟩
  match answer, hends with
  | .unknown, ⟨first, hfirst, hlong⟩ =>
    exact ⟨first, hfirst, hlong.trans_le (sub_le_sub_right hnow first)⟩
  | .failed, _ => trivial
  | .completed _, _ => trivial

/-! ## What the calls do -/

/-- A call that writes a status. -/
def writesStatus : Op → Bool
  | .setStatus .. => true
  | _ => false

/-- A call that may change what a watch's fate depends on. -/
def touches : Op → Bool
  | .setStatus .. | .setPending .. | .clearPending _ | .pollRun _ | .launch none .. => true
  | _ => false

theorem untouched_of_did {o : Op} (h : Did cfg x o x') (ho : touches o = false) :
    Untouched x x' := by
  cases h with
  | parked | unparked | status | polled => cases ho
  | accepted trigger m dataset version =>
    cases trigger with
    | none => cases ho
    | some trigger => exact ⟨fun _ => rfl, rfl, rfl, le_rfl⟩
  | refused trigger d hd => exact ⟨fun _ => rfl, rfl, rfl, le_add_of_nonneg_right hd.le⟩
  | reserved trigger d hd => exact ⟨fun _ => rfl, rfl, rfl, le_add_of_nonneg_right hd.le⟩
  | noted m d hd => exact ⟨fun _ => rfl, rfl, rfl, le_add_of_nonneg_right hd.le⟩
  | _ => exact ⟨fun _ => rfl, rfl, rfl, le_rfl⟩

theorem status_of_did {o : Op} (h : Did cfg x o x') (ho : writesStatus o = false) (m : ModelName) :
    x'.status m = x.status m := by
  cases h with
  | parked m' p => exact x.status_setPending m' m (some p)
  | unparked m' => exact x.status_setPending m' m none
  | status => cases ho
  | _ => rfl

theorem now_of_did {o : Op} (h : Did cfg x o x') : x.now ≤ x'.now := by
  cases h with
  | refused trigger d hd => exact le_add_of_nonneg_right hd.le
  | reserved trigger d hd => exact le_add_of_nonneg_right hd.le
  | noted m d hd => exact le_add_of_nonneg_right hd.le
  | _ => exact le_rfl

theorem watch_setStatus (x : World) (m : ModelName) (st : Status) (hw : watch x m = some w) :
    watch (x.setStatus m st) m = st.watch := by
  obtain ⟨old, hold, -⟩ := Option.bind_eq_some_iff.mp hw
  obtain ⟨row, hrow, -⟩ := Option.bind_eq_some_iff.mp hold
  rw [watch, World.status_setStatus, if_pos rfl, hrow]
  rfl

/-- What is read is what is there. -/
theorem status_of_read {c : Choice} {st : Option Status}
    (he : exec cfg c x (.getStatus m) = some (x', some st)) : st = x.status m := by
  cases c <;> simp only [exec, reduceCtorEq] at he
  case fate f =>
    cases f <;> cases he
    rfl

theorem polled_of_exec {c : Choice} {run : RunId} {answer : RunStatus}
    (he : exec cfg c x (.pollRun run) = some (x', answer)) :
    x'.history.polled = some (run, answer) := by
  cases c <;> simp only [exec, reduceCtorEq] at he
  cases he
  rfl

/-- A status that may replace the one that is there. -/
theorem kept_of_setStatus {st : Status} (h : Did cfg x (.setStatus m st) x')
    (hst : Replaces cfg x m st.watch) : Kept cfg x x' := by
  cases h with
  | nothing => exact kept_of_status fun _ => rfl
  | status =>
    intro m' w hw
    by_cases hm : m' = m
    · subst hm
      rw [watch_setStatus x m' st hw]
      exact hst w hw
    · refine .inl ⟨w, ?_, rfl, rfl⟩
      rw [watch, World.status_setStatus, if_neg hm, ← hw, watch]

/-! ## The rule -/

/-- The scheduler alone touches the watches. -/
abbrev spec (cfg : Settings) (t : ThreadId) : Code.Spec World Choice Op Reply where
  exec := exec cfg
  inv _ := True
  cond _ _ _ := True
  rely x y := y.epoch = x.epoch ∧ (t = scheduler → Untouched x y)
  guar x y := y.epoch = x.epoch ∧ Kept cfg x y ∧ (t ≠ scheduler → Untouched x y)

/-- What the calls of the others leave. -/
def Stable (J : World → Prop) : Prop := ∀ x y, J x → Untouched x y → J y

theorem stable_now : Stable fun x => now ≤ x.now := fun _ _ h huntouched => h.trans huntouched.now

theorem Stable.and {J K : World → Prop} (hJ : Stable J) (hK : Stable K) :
    Stable fun x => J x ∧ K x :=
  fun x y h huntouched => ⟨hJ x y h.1 huntouched, hK x y h.2 huntouched⟩

theorem stable_status {st : Option Status} : Stable fun x => x.status m = st :=
  fun _ _ h huntouched => (huntouched.status m).trans h

/-- Any status may be written for the policy. -/
def Free (cfg : Settings) (m : ModelName) (x : World) : Prop :=
  ∀ next, Replaces cfg x m next

theorem free_of_landing (h : Landing x m) : Free cfg m x := fun _ _ _ => .inr (.inr h)

theorem free_of_watch (h : watch x m = none) : Free cfg m x := fun _ w hw => by
  rw [h] at hw
  cases hw

theorem free_of_settled (hw : watch x m = some w) (h : Settled cfg x w) : Free cfg m x := by
  intro next w' hw'
  obtain rfl := Option.some.inj (hw.symm.trans hw')
  exact .inr (.inl h)

theorem stable_free : Stable (Free cfg m) := by
  intro x y hfree huntouched next w hw
  rw [huntouched.watch] at hw
  rcases hfree next w hw with hnext | hsettled | hlanding
  · exact .inl hnext
  · exact .inr (.inl (hsettled.mono huntouched.polled huntouched.now))
  · refine .inr (.inr ?_)
    rw [Landing, huntouched.landing]
    exact hlanding

/-- Calls that touch nothing keep what is stable. -/
theorem meets_of_untouching {α : Type} {J : World → Prop} {code : Prog α}
    (h : code.Calls fun o => touches o = false) (hJ : Stable J) (hx : J x) :
    code.Meets (spec cfg scheduler) (fun _ => J) (fun _ => J) x := by
  refine Code.meets_of_calls h ?_ ?_ hx
  swap
  · exact fun x y hx hxy => hJ x y hx (hxy.2 rfl)
  intro c x o x' r ho hx _ _ he
  have hdid := did_of_exec he
  have huntouched := untouched_of_did hdid ho
  exact ⟨trivial, ⟨epoch_of_did hdid, kept_of_status huntouched.status, fun _ => huntouched⟩,
    hJ x x' hx huntouched⟩

/-- The scheduler's calls that write no status, in a tick that began at `now`. -/
theorem keeps_of_unwriting {α : Type} {code : Prog α}
    (h : code.Calls fun o => writesStatus o = false) :
    code.Keeps (spec cfg scheduler) fun x => now ≤ x.now := by
  refine Code.keeps_of_calls h ?_ fun x y hx hxy => hx.trans (hxy.2 rfl).now
  intro c x o x' r ho hx _ _ he
  have hdid := did_of_exec he
  have hkept : Kept cfg x x' := kept_of_status (status_of_did hdid ho)
  exact ⟨trivial, ⟨epoch_of_did hdid, hkept, fun h => absurd rfl h⟩, hx.trans (now_of_did hdid)⟩

/-- A status is read: it stays so until the scheduler writes it. -/
theorem meets_getStatus {J : World → Prop} (hJ : Stable J) (hx : J x) :
    (getStatus m).Meets (spec cfg scheduler) (fun st y => J y ∧ y.status m = st)
      (fun _ => J) x := by
  refine Code.meets_bind (Code.meets_op ?_)
  intro c x' r _ _ he
  have hdid : Did cfg x (.getStatus m) x' := did_of_exec he
  have huntouched := untouched_of_did hdid rfl
  refine ⟨trivial, ⟨epoch_of_did hdid, kept_of_status huntouched.status, fun _ => huntouched⟩, ?_⟩
  intro y _ hrely
  have hy : J y := hJ x y hx (huntouched.trans (hrely.2 rfl))
  match r with
  | none => exact hy
  | some st =>
    refine ⟨hy, ?_⟩
    rw [(hrely.2 rfl).status, huntouched.status]
    have he : exec cfg c x (.getStatus m) = some (x', some st) := he
    exact (status_of_read he).symm

/-- A status is written that may replace the one that is there. -/
theorem meets_saveStatus {st : Status} (hnow : now ≤ x.now) (hst : Replaces cfg x m st.watch) :
    (saveStatus m st).Meets (spec cfg scheduler) (fun _ y => now ≤ y.now) (fun _ y => now ≤ y.now)
      x := by
  refine Code.meets_bind (Code.meets_op ?_)
  intro c x' ok _ _ he
  have hdid : Did cfg x (.setStatus m st) x' := did_of_exec he
  refine ⟨trivial, ⟨epoch_of_did hdid, kept_of_setStatus hdid hst, fun h => absurd rfl h⟩, ?_⟩
  intro y _ hrely
  exact keeps_okStore (J := fun y => now ≤ y.now) ok y
    ((hnow.trans (now_of_did hdid)).trans (hrely.2 rfl).now)

/-! ## The parts of a tick -/

/-- What a tick that began at `now` knows throughout. -/
abbrev Since (now : ℚ) (x : World) : Prop := now ≤ x.now

/-- A launch, where the status may be written once it is accepted. -/
theorem meets_launch {trigger : Option Trigger} {p : ModelPolicy} {J : World → Prop}
    (hJ : Stable J) (hnow : ∀ x, J x → now ≤ x.now)
    (hcall : ∀ c x x' d v run, J x →
      exec cfg c x (.launch trigger p.modelName d v) = some (x', .accepted run) →
      Free cfg p.modelName x') (hx : J x) :
    (launch trigger p).Meets (spec cfg scheduler) (fun _ => Since now) (fun _ => Since now) x := by
  refine Code.meets_bind ?_
  refine (meets_of_untouching (calls_resolveDatasetVersion (fun _ => rfl) ..) hJ hx).mono
    (fun v y hy => ?_) fun _ y hy => hnow y hy
  refine Code.meets_bind (Code.meets_op ?_)
  intro c x' answer _ _ he
  have hdid : Did cfg y (.launch trigger p.modelName p.onBreach.datasetName v) x' :=
    did_of_exec he
  have hnow' : now ≤ x'.now := (hnow y hy).trans (now_of_did hdid)
  refine ⟨trivial, ⟨epoch_of_did hdid, kept_of_status (status_of_did hdid rfl),
    fun h => absurd rfl h⟩, fun z _ hrely => ?_⟩
  have hz : now ≤ z.now := hnow'.trans (hrely.2 rfl).now
  match answer with
  | .busy => exact hz
  | .failed => exact hz
  | .accepted none => exact hz
  | .accepted (some run) =>
    have hfree : Free cfg p.modelName z :=
      stable_free x' z (hcall c y x' _ v _ hy he) (hrely.2 rfl)
    refine Code.meets_bind (Code.meets_result (Code.meets_bind ?_))
    refine (meets_getStatus (stable_now.and stable_free) ⟨hz, hfree⟩).mono
      (fun st u hu => ?_) fun _ u hu => hu.1
    refine Code.meets_bind ?_
    refine (meets_of_untouching (calls_ask rfl) (stable_now.and stable_free) hu.1).mono
      (fun launchedAt u' hu' => ?_) fun _ u' hu' => hu'.1
    refine (meets_saveStatus hu'.1 (hu'.2 _)).mono (fun _ u'' hu'' => hu'') fun _ u'' hu'' => hu''

theorem keeps_launch_parked (p : ModelPolicy) :
    (launch none p).Keeps (spec cfg scheduler) (Since now) := by
  refine fun x hx => meets_launch stable_now (fun _ h => h) ?_ hx
  intro c x x' d v run _ he
  cases c <;> simp only [exec, reduceCtorEq] at he
  case launched a =>
    cases a with
    | accepted run' =>
      obtain ⟨rfl, -⟩ := Prod.mk.inj (Option.some.inj he)
      exact free_of_landing (List.mem_append_right _ (List.mem_singleton.mpr rfl))
    | busy => cases he
    | failed => cases he

/-- A breach is launched where nothing is watched. -/
theorem meets_launch_breach {p : ModelPolicy} (hx : now ≤ x.now ∧ Free cfg p.modelName x) :
    (launch (some (.policy p.modelName)) p).Meets (spec cfg scheduler) (fun _ => Since now)
      (fun _ => Since now) x := by
  refine meets_launch (stable_now.and stable_free) (fun _ h => h.1) ?_ hx
  intro c y y' d v run hy he
  exact stable_free y y' hy.2 (untouched_of_did (did_of_exec he) rfl)

section Keeps

variable {p : ModelPolicy}

/-- A call that writes no status. -/
theorem keeps_ask {o : Op} (h : writesStatus o = false) :
    (ask o).Keeps (spec cfg scheduler) (Since now) := keeps_of_unwriting (calls_ask h)

theorem keeps_savePending (pending : Pending) :
    (savePending pending).Keeps (spec cfg scheduler) (Since now) :=
  keeps_of_unwriting (calls_write (calls_ask rfl))

theorem keeps_clearPending : (clearPending m).Keeps (spec cfg scheduler) (Since now) :=
  keeps_of_unwriting (calls_write (calls_ask rfl))

theorem keeps_retry (pending : Pending) :
    (retry cfg p pending now).Keeps (spec cfg scheduler) (Since now) := by
  have hnote : ∀ actions : List Action, (noteFn p.modelName >>= fun _ =>
      (pure actions : Prog (List Action))).Keeps (spec cfg scheduler) (Since now) :=
    fun _ => Code.keeps_bind (keeps_ask rfl) fun _ => Code.keeps_ret _
  have hbackedOff : (backedOff cfg pending now).Keeps (spec cfg scheduler) (Since now) :=
    keeps_of_unwriting (calls_backedOff ..)
  refine Code.keeps_bind (Code.keeps_result (keeps_launch_parked p)) fun r => ?_
  split
  · refine Code.keeps_bind hbackedOff fun _ => ?_
    exact Code.keeps_bind (keeps_savePending _) fun _ => hnote _
  · refine Code.keeps_bind hbackedOff fun _ => ?_
    exact Code.keeps_bind (Code.keeps_result (keeps_savePending _)) fun _ => hnote _
  · refine Code.keeps_bind keeps_clearPending fun _ => ?_
    exact Code.keeps_bind (keeps_ask rfl) fun _ => Code.keeps_ret _
  · refine Code.keeps_bind (Code.keeps_result keeps_clearPending) fun r => ?_
    split
    · exact hnote _
    · exact Code.keeps_bind (Code.keeps_result (keeps_savePending _)) fun _ => hnote _

theorem keeps_retryPending :
    (retryPending cfg p now).Keeps (spec cfg scheduler) (Since now) := by
  refine Code.keeps_bind (keeps_read (keeps_ask rfl)) fun pending => ?_
  split
  · exact Code.keeps_ret _
  · split
    · exact Code.keeps_bind (Code.keeps_result keeps_clearPending) fun _ => Code.keeps_ret _
    · split
      · exact Code.keeps_ret _
      · exact keeps_retry _

theorem meets_launchBreach {breach : Breach} (hx : now ≤ x.now ∧ Free cfg p.modelName x) :
    (launchBreach cfg p breach now).Meets (spec cfg scheduler) (fun _ => Since now)
      (fun _ => Since now) x := by
  have hrelease : ∀ token (actions : List Action), (releaseFn (.policy p.modelName) token >>=
      fun _ => (pure actions : Prog (List Action))).Keeps (spec cfg scheduler) (Since now) :=
    fun _ _ => Code.keeps_bind (keeps_ask rfl) fun _ => Code.keeps_ret _
  refine Code.meets_bind ?_
  refine (meets_of_untouching (calls_ask rfl) (stable_now.and stable_free) hx).mono
    (fun token y hy => ?_) fun _ y hy => hy.1
  split
  · exact hy.1
  · refine Code.meets_bind (Code.meets_result ?_)
    refine (meets_launch_breach hy).mono (fun launched z hz => hz) fun err z hz => ?_
    cases err with
    | busy =>
      refine Code.keeps_bind (Code.keeps_result (keeps_savePending _)) (fun r => ?_) z hz
      split
      · exact Code.keeps_ret _
      · exact hrelease _ _
    | store => exact hrelease _ _ z hz
    | other => exact hrelease _ _ z hz

theorem keeps_handleBreach (breach : Breach) :
    (handleBreach cfg p breach now).Keeps (spec cfg scheduler) (Since now) := by
  intro x hx
  refine Code.meets_bind ?_
  refine (meets_getStatus stable_now hx).mono (fun st y hy => ?_) fun _ y hy => hy
  split
  · exact hy.1
  · rename_i hnone
    have hfree : Free cfg p.modelName y := by
      refine free_of_watch ?_
      rw [watch, hy.2]
      cases st with
      | none => rfl
      | some st => exact Option.not_isSome_iff_eq_none.mp hnone
    refine Code.meets_bind ?_
    have hget : (getPending p.modelName).Calls fun o => touches o = false :=
      calls_read (calls_ask rfl)
    refine (meets_of_untouching hget (stable_now.and stable_free) ⟨hy.1, hfree⟩).mono
      (fun pending z hz => ?_) fun _ z hz => hz.1
    split
    · split
      · exact meets_launchBreach hz
      · exact Code.keeps_bind (keeps_savePending _) (fun _ => Code.keeps_ret _) z hz.1
    · exact meets_launchBreach hz

theorem calls_runMonitors_untouching (kinds : List MonitorKind) :
    (runMonitors m now kinds).Calls fun o => touches o = false :=
  calls_runMonitors (fun _ _ => rfl) ..

theorem keeps_runDueChecks :
    (runDueChecks cfg p now).Keeps (spec cfg scheduler) (Since now) := by
  intro x hx
  refine Code.meets_bind ?_
  refine (meets_getStatus stable_now hx).mono (fun st y hy => ?_) fun _ y hy => hy
  dsimp only
  split
  · exact hy.1
  · refine Code.meets_bind ?_
    refine (meets_of_untouching (calls_runMonitors_untouching _) (stable_now.and stable_status)
      hy).mono (fun found z hz => ?_) fun _ z hz => hz.1
    have hsame : Replaces cfg z p.modelName (st.getD .empty).watch := by
      intro w hw
      refine .inl ⟨w, ?_, rfl, rfl⟩
      rw [watch, hz.2] at hw
      obtain ⟨st, rfl, hst⟩ := Option.bind_eq_some_iff.mp hw
      exact hst
    refine Code.meets_bind ?_
    refine Code.Meets.mono (meets_saveStatus hz.1 ?_) (fun _ u hu => ?_) fun _ u hu => hu
    · exact hsame
    split
    · exact hu
    · exact Code.keeps_bind (keeps_handleBreach _) (fun _ => Code.keeps_ret _) u hu

/-! ### The poll -/

/-- The status of the watch that was read, and the trainer's answer on it. -/
def Polled (m : ModelName) (st : Option Status) (run : RunId) (answer : RunStatus) (x : World) :
    Prop :=
  x.status m = st ∧ x.history.polled = some (run, answer)

theorem stable_polled {st : Option Status} {run : RunId} {answer : RunStatus} :
    Stable (Polled m st run answer) := fun _ _ h huntouched =>
  ⟨(huntouched.status m).trans h.1, huntouched.polled.trans h.2⟩

theorem Polled.watch {st : Option Status} {run : RunId} {answer : RunStatus}
    (h : Polled m st run answer x) (hst : (st.getD .empty).watch = some w) :
    watch x m = some w := by
  rw [Watches.watch, h.1]
  cases st with
  | none => cases hst
  | some st => exact hst

/-- A status with the same watch, as the poll left it. -/
theorem replaces_of_continues {w' : Watch} (hw : watch x m = some w) (h : Continues w w') :
    Replaces cfg x m (some w') := by
  intro w₁ hw₁
  obtain rfl := Option.some.inj (hw.symm.trans hw₁)
  exact .inl ⟨w', rfl, h⟩

theorem calls_judgeCandidate_reads (cfg : Settings) (p : ModelPolicy) (v : Version) :
    (gate cfg .judge p.modelName v false).Calls (fun o => touches o = false) ∧
      (shadowFn p.modelName v).Calls (fun o => touches o = false) ∧
      (promote cfg .policy p.modelName v false).Calls (fun o => touches o = false) :=
  ⟨calls_gate (fun _ => rfl) (fun _ _ => rfl) .., calls_shadowFn rfl,
    calls_promote .policy (fun _ => rfl) (fun _ _ => rfl) (fun _ _ _ => rfl) ..⟩

theorem calls_createSuggestion (v : Version) (verdict : Verdict) (shadow : Option Winner)
    (state : SuggestionState) (byPolicy : Bool) :
    (createSuggestion m v verdict shadow state byPolicy).Calls fun o => touches o = false := by
  refine Code.calls_bind (calls_read (calls_ask rfl)) fun found => ?_
  split
  · trivial
  · exact calls_write (calls_ask rfl)

/-- Where the watch is settled the candidate is judged, and its status written. -/
theorem meets_judgeCandidate {status : Status} {v : Version}
    (hx : now ≤ x.now ∧ Free cfg p.modelName x) :
    (judgeCandidate cfg p status v now).Meets (spec cfg scheduler) (fun _ => Since now)
      (fun _ => Since now) x := by
  have hstable : Stable fun x => now ≤ x.now ∧ Free cfg p.modelName x :=
    stable_now.and stable_free
  have hsave : ∀ (y : World) (st : Status) (actions : List Action),
      now ≤ y.now ∧ Free cfg p.modelName y →
      (saveStatus p.modelName st >>= fun _ => (pure actions : Prog (List Action))).Meets
        (spec cfg scheduler) (fun _ => Since now) (fun _ => Since now) y :=
    fun y st actions hy => Code.meets_bind
      ((meets_saveStatus hy.1 (hy.2 _)).mono (fun _ _ hz => hz) fun _ _ hz => hz)
  obtain ⟨hgate, hshadow, hpromote⟩ := calls_judgeCandidate_reads cfg p v
  refine Code.meets_bind ((meets_of_untouching hgate hstable hx).mono
    (fun verdict y hy => ?_) fun _ y hy => hy.1)
  refine Code.meets_bind ((meets_of_untouching hshadow hstable hy).mono
    (fun shadow z hz => ?_) fun _ z hz => hz.1)
  split
  · exact hsave z _ _ hz
  · split
    · refine Code.meets_bind ((meets_of_untouching hpromote hstable hz).mono
        (fun promoted u hu => ?_) fun _ u hu => hu.1)
      split
      · refine Code.meets_bind ((meets_of_untouching (calls_createSuggestion ..) hstable hu).mono
          (fun _ u' hu' => ?_) fun _ u' hu' => hu'.1)
        exact hsave u' _ _ hu'
      · exact hsave u _ _ hu
    · refine Code.meets_bind ((meets_of_untouching (calls_createSuggestion ..) hstable hz).mono
        (fun _ u hu => ?_) fun _ u hu => hu.1)
      exact hsave u _ _ hu

theorem keeps_pollWatch :
    (pollWatch cfg p now).Keeps (spec cfg scheduler) (Since now) := by
  intro x hx
  refine Code.meets_bind ?_
  refine (meets_getStatus stable_now hx).mono (fun st y hy => ?_) fun _ y hy => hy
  dsimp only
  split
  · exact hy.1
  · rename_i w hw
    refine Code.meets_bind (Code.meets_op ?_)
    intro c y' answer _ _ he
    have he : exec cfg c y (.pollRun w.runId) = some (y', answer) := he
    have hdid := did_of_exec he
    have hstatus := status_of_did hdid rfl
    refine ⟨trivial, ⟨epoch_of_did hdid, kept_of_status hstatus, fun h => absurd rfl h⟩,
      fun z _ hrely => ?_⟩
    have hpolled : Polled p.modelName st w.runId answer z :=
      stable_polled y' z ⟨(hstatus _).trans hy.2, polled_of_exec he⟩ (hrely.2 rfl)
    have hz : now ≤ z.now := (hy.1.trans (now_of_did hdid)).trans (hrely.2 rfl).now
    have hwatch := hpolled.watch hw
    have hwrite : ∀ (st : Status) (actions : List Action),
        Replaces cfg z p.modelName st.watch →
        (saveStatus p.modelName st >>= fun _ => (pure actions : Prog (List Action))).Meets
          (spec cfg scheduler) (fun _ => Since now) (fun _ => Since now) z :=
      fun st actions hst => Code.meets_bind
        ((meets_saveStatus hz hst).mono (fun _ _ hz => hz) fun _ _ hz => hz)
    cases answer with
    | unknown =>
      dsimp only
      split
      · exact hwrite _ _ (replaces_of_continues hwatch ⟨rfl, rfl⟩)
      · rename_i first hfirst
        split
        · rename_i hlong
          refine hwrite _ _ (free_of_settled hwatch ⟨_, hpolled.2, first, hfirst, ?_⟩ _)
          exact hlong.trans_le (sub_le_sub_right hz first)
        · exact hz
    | going =>
      dsimp only
      split
      · exact hwrite _ _ (replaces_of_continues hwatch ⟨rfl, rfl⟩)
      · exact hz
    | failed => exact hwrite _ _ (free_of_settled hwatch ⟨_, hpolled.2, trivial⟩ _)
    | completed version =>
      have hfree : Free cfg p.modelName z :=
        free_of_settled hwatch ⟨_, hpolled.2, trivial⟩
      cases version with
      | none => exact hwrite _ _ (hfree _)
      | some v =>
        dsimp only
        split
        · exact hwrite _ _ (hfree _)
        · exact meets_judgeCandidate ⟨hz, hfree⟩

end Keeps

theorem keeps_tick : (tick cfg).Keeps (spec cfg scheduler) fun _ => True := by
  intro x _
  refine Code.meets_bind (Code.meets_op ?_)
  intro c x' now _ _ he
  have he : exec cfg c x .clock = some (x', now) := he
  obtain ⟨rfl, rfl⟩ := Prod.mk.inj (Option.some.inj he)
  refine ⟨trivial, ⟨rfl, kept_of_status fun _ => rfl, fun h => absurd rfl h⟩, fun y _ hrely => ?_⟩
  have hy : Since x.now y := (hrely.2 rfl).now
  have hlist : listPolicies.Keeps (spec cfg scheduler) (Since x.now) := keeps_read (keeps_ask rfl)
  have hpolicy : ∀ p, (tickPolicy cfg p x.now).Keeps (spec cfg scheduler) (Since x.now) :=
    fun p => keeps_stages _ (by simp [keeps_retryPending, keeps_runDueChecks, keeps_pollWatch]) _
  refine Code.Meets.mono (Code.keeps_bind (Code.keeps_result hlist) (fun r => ?_) y hy)
    (fun _ _ _ => trivial) fun _ _ _ => trivial
  split
  · exact Code.keeps_ret _
  · exact keeps_tickAll hpolicy _

theorem not_touches_of_route {t : ThreadId} {o : Op} (h : o.ofRoute t = true) :
    touches o = false := by
  cases o with
  | launch trigger =>
    cases trigger with
    | none => cases h
    | some trigger => rfl
  | _ => first | rfl | cases h

/-- A request touches no watch. -/
theorem keeps_of_route {t : ThreadId} {code : Prog (List Action)}
    (h : code.Calls fun o => o.ofRoute t = true) : code.Keeps (spec cfg t) fun _ => True := by
  refine Code.keeps_of_calls h ?_ fun _ _ _ _ => trivial
  intro c x o x' r ho _ _ _ he
  have hdid := did_of_exec he
  have huntouched := untouched_of_did hdid (not_touches_of_route ho)
  exact ⟨trivial, ⟨epoch_of_did hdid, kept_of_status huntouched.status, fun _ => huntouched⟩,
    trivial⟩

theorem untouched_of_env {t : ThreadId} {c : Choice} (h : env t c x = some x') :
    (x'.epoch = x.epoch ∧ Untouched x x') ∨ x' = x.restart := by
  obtain ⟨-, -, hstatus, hcases⟩ := of_env t h
  rcases hcases with ⟨hepoch, hhistory, -, hnow⟩ | ⟨-, rfl⟩
  · exact .inl ⟨hepoch, hstatus, congrArg History.polled hhistory,
      congrArg History.landing hhistory, hnow⟩
  · exact .inr rfl

theorem sound (cfg : Settings) :
    Code.Sound (machine cfg) (fun _ => True) (fun _ _ _ _ => True) (fun _ _ _ => True)
      (fun t => (spec cfg t).rely) (fun t => (spec cfg t).guar) fun _ _ => True where
  refl t x := ⟨rfl, fun _ => .refl x⟩
  trans t x y z hxy hyz := ⟨hyz.1.trans hxy.1, fun ht => (hxy.2 ht).trans (hyz.2 ht)⟩
  epoch t x y h := h.1
  epoch_guar t x y h := h.1
  others t u x y htu h := ⟨h.1, fun hu => h.2.2 fun ht => htu (ht.trans hu.symm)⟩
  stable _ _ _ _ _ := trivial
  spawn t c x code hspawn y _ _ := by
    by_cases ht : t = scheduler
    · subst ht
      rw [eq_tick_of_spawn x hspawn]
      exact keeps_tick y trivial
    · exact keeps_of_route (calls_of_route x ht hspawn) y trivial
  env t c x x' _ _ henv := by
    refine ⟨trivial, ?_⟩
    have henv : env t c x = some x' := henv
    rcases untouched_of_env henv with ⟨hepoch, huntouched⟩ | rfl
    · exact .inl fun u => ⟨hepoch, fun _ => huntouched⟩
    · exact .inr ⟨Nat.lt_succ_self _, fun _ => trivial⟩
  finish t x r _ _ :=
    ⟨trivial, trivial, fun _ _ => ⟨rfl, fun _ => ⟨fun _ => rfl, rfl, rfl, le_rfl⟩⟩⟩

/-! ## Over a run -/

theorem kept_of_next {a : Act} (h : Runs.Reachable (next cfg) Runs.anyStep (Sys.init now) s)
    (hn : next cfg s a = some s') : Kept cfg s.shared s'.shared := by
  have hruns : Runs.Reachable (next cfg) (Code.OkStep (machine cfg) (fun _ _ _ _ => True)
      fun _ _ _ => True) (Sys.init now) s :=
    h.mono fun _ _ _ => Code.okStep_of_call (fun _ => trivial) fun _ _ => trivial
  rcases Code.Machine.cases_of_next hn with
    hsame | henv | ⟨_, hfinish⟩ | ⟨e, o, k, r, hpc, he, -, -⟩
  · rw [hsame]
    exact kept_of_status fun _ => rfl
  · exact kept_of_status (of_env a.1 henv).2.2.1
  · rw [hfinish]
    exact kept_of_status fun _ => rfl
  · have hcall : (s.pc a.1).call? s.shared.epoch = some o := by
      rw [hpc, he]
      simp [Code.Pc.call?, machine]
    have hok : Code.OkStep (machine cfg) (fun _ _ _ _ => True) (fun _ _ _ => True) s a :=
      Code.okStep_of_call (fun _ => trivial) fun _ _ => trivial
    exact ((sound cfg).step trivial (fun _ => trivial) hruns hok hcall hn).2.1

/-- A run that is watched stays watched, whatever fails, answers or stops in between, until a
poll has settled it; but for a launch of the model's parked retrain, which takes its place. -/
theorem watched_until_settled (cfg : Settings) (now : ℚ) (s s' : Sys)
    (tr : List (Runs.Taken Sys Act))
    (h : Runs.Reachable (next cfg) Runs.anyStep (Sys.init now) s)
    (hrun : Runs.Trace (next cfg) s tr s') (m : ModelName) (w : Watch)
    (hw : watch s.shared m = some w) :
    (∃ w', watch s'.shared m = some w' ∧ Continues w w') ∨
      ∃ t ∈ tr, ∃ w', watch t.src.shared m = some w' ∧ Continues w w' ∧
        (Settled cfg t.src.shared w' ∨ Landing t.src.shared m) := by
  induction hrun with
  | nil => exact .inl ⟨w, hw, rfl, rfl⟩
  | @snoc tr s₁ s₂ a htr hn ih =>
    rcases ih with ⟨w₁, hw₁, hsame⟩ | ⟨t, ht, hends⟩
    · have hreach := h.trans htr.reachable
      rcases kept_of_next hreach hn m w₁ hw₁ with ⟨w₂, hw₂, hnext⟩ | hends
      · exact .inl ⟨w₂, hw₂, hnext.1.trans hsame.1, hnext.2.trans hsame.2⟩
      · exact .inr ⟨_, List.mem_append_right _ (List.mem_singleton.mpr rfl), w₁, hw₁, hsame, hends⟩
    · exact .inr ⟨t, List.mem_append_left _ ht, hends⟩

/-- A watched run has completed, and the watch is about to be cleared. -/
def completed : List Act :=
  launched "m" .manual ++ [done, (scheduler, .polled (.completed (some "2")))]

/-- The step that clears it comes after the answer. -/
theorem completed_settled :
    ∃ s s' : Sys, ∃ w, watch s.shared "m" = some w ∧ watch s'.shared "m" = none ∧
      next .defaults s done = some s' ∧
      (Settled .defaults s.shared w ∨ Landing s.shared "m") := by
  have hrun : ((Runs.run (next .defaults) Runs.anyStep (Sys.init 1000) completed).bind fun s =>
      (next .defaults s done).map fun s' =>
        decide ((watch s.shared "m").map Watch.runId = some "r" ∧ watch s'.shared "m" = none)) =
      some true := by
    decide +kernel
  obtain ⟨s, s', hs, hn, hp⟩ := Runs.exists_step hrun
  obtain ⟨hrunId, hnone⟩ := of_decide_eq_true hp
  obtain ⟨w, hw, -⟩ := Option.map_eq_some_iff.mp hrunId
  refine ⟨s, s', w, hw, hnone, hn, ?_⟩
  rcases watched_until_settled .defaults 1000 s s' _ hs (.snoc done .nil hn) "m" w hw with
    ⟨w', hw', -⟩ | ⟨t, ht, w', hw', -, hends⟩
  · rw [hnone] at hw'
    cases hw'
  · obtain rfl := List.mem_singleton.mp ht
    obtain rfl := Option.some.inj (hw.symm.trans hw')
    exact hends

end MlopsLite.Gateway.Policy.Watches
