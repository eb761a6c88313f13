import MlopsLite.Gateway.Policy.Scheduler

/-!
# Policy — what becomes of a parked retrain

A park stays until the trainer accepts its launch. The one other way out is
a launch that fails for good: the tick that drops it says so in its actions,
unless the gateway stops first, or the store reports a removal as failed that
it has made.
-/

namespace MlopsLite.Gateway.Policy.Parks

variable {cfg : Settings} {x x' y z : World} {s s' : Sys} {m : ModelName} {now : ℚ}

/-! ## Parks -/

theorem live_iff : x.live m = true ↔ ∃ p, x.pending m = some p ∧ p.landed = false := by
  simp [World.live, Option.any_eq_true]

theorem live_congr (h : y.pending m = x.pending m) : y.live m = x.live m := by
  rw [World.live, h, World.live]

/-- The trainer has accepted the launch of the park, or there is none. -/
def MayEnd (x : World) (m : ModelName) : Prop := x.live m = true → m ∈ x.history.landing

/-- Parks, landings and drops are as they were. -/
structure Same (x y : World) : Prop where
  pending : ∀ m, y.pending m = x.pending m
  landing : y.history.landing = x.history.landing
  dropped : y.history.dropped = x.history.dropped

theorem Same.refl (x : World) : Same x x := ⟨fun _ => rfl, rfl, rfl⟩

theorem Same.trans (h : Same x y) (h' : Same y z) : Same x z :=
  ⟨fun m => (h'.pending m).trans (h.pending m), h'.landing.trans h.landing,
    h'.dropped.trans h.dropped⟩

theorem Same.live (h : Same x y) (m : ModelName) : y.live m = x.live m := live_congr (h.pending m)

theorem Same.mayEnd (h : Same x y) (hx : MayEnd x m) : MayEnd y m := by
  intro hlive
  rw [h.landing]
  exact hx (h.live m ▸ hlive)

/-! ## What the calls do -/

/-- A call that may begin or end a park, or accept its launch. -/
def touches : Op → Bool
  | .setPending .. | .clearPending _ | .launch none .. => true
  | _ => false

theorem same_of_did {o : Op} (h : Did cfg x o x') (ho : touches o = false) : Same x x' := by
  cases h with
  | parked | unparked => cases ho
  | status m' st => exact ⟨fun m => x.pending_setStatus m' m st, rfl, rfl⟩
  | accepted trigger m dataset version =>
    cases trigger with
    | none => cases ho
    | some trigger => exact ⟨fun _ => rfl, rfl, rfl⟩
  | _ => exact ⟨fun _ => rfl, rfl, rfl⟩

theorem live_setPending_of_ne {m' : ModelName} (h : m' ≠ m) (p : Option Pending) :
    (x.setPending m p).live m' = x.live m' :=
  live_congr (by rw [World.pending_setPending, if_neg h])

/-- A park that goes: launched, or dropped. -/
theorem ends_setPending (p : Option Pending) (hlive : x.live m = true)
    (hends : (x.setPending m p).live m = false) :
    (x.setPending m p).history.landing = x.history.landing.filter (· ≠ m) ∧
      (x.setPending m p).history.dropped =
        if m ∈ x.history.landing then x.history.dropped else x.history.dropped ++ [m] := by
  have hended : (x.updateRow m fun row => { row with pending := p }).live m = false := hends
  simp only [World.setPending, hlive, hended, Bool.not_false, Bool.and_self, if_true, true_and]
  by_cases hm : m ∈ x.history.landing <;> simp [hm]

/-- A park that stays, or was not there. -/
theorem stays_setPending (p : Option Pending)
    (h : x.live m = true → (x.setPending m p).live m = true) :
    (x.setPending m p).history.landing = x.history.landing ∧
      (x.setPending m p).history.dropped = x.history.dropped := by
  have hended : (x.live m && !(x.updateRow m fun row => { row with pending := p }).live m) =
      false := by
    cases hlive : x.live m with
    | false => rfl
    | true =>
      have hstays : (x.updateRow m fun row => { row with pending := p }).live m = true := h hlive
      rw [hstays]
      rfl
  simp [World.setPending, hended]

theorem live_setPending {p : Pending} (hp : p.landed = false) (h : x.live m = true) :
    (x.setPending m (some p)).live m = true := by
  obtain ⟨old, hold, -⟩ := live_iff.mp h
  obtain ⟨row, hrow, -⟩ := Option.bind_eq_some_iff.mp hold
  refine live_iff.mpr ⟨p, ?_, hp⟩
  rw [World.pending_setPending, if_pos rfl, hrow]
  rfl

theorem not_live_setPending {p : Option Pending} (hp : ∀ q, p = some q → q.landed = true) :
    (x.setPending m p).live m = false := by
  rw [Bool.eq_false_iff]
  intro hlive
  obtain ⟨q, hq, hlanded⟩ := live_iff.mp hlive
  rw [World.pending_setPending, if_pos rfl] at hq
  obtain ⟨row, -, rfl⟩ := Option.bind_eq_some_iff.mp hq
  rw [hp q rfl] at hlanded
  cases hlanded

/-- No park is dropped that may end, or that stays. -/
theorem dropped_setPending (p : Option Pending)
    (h : MayEnd x m ∨ ∃ q, p = some q ∧ q.landed = false) :
    (x.setPending m p).history.dropped = x.history.dropped := by
  by_cases hstays : x.live m = true → (x.setPending m p).live m = true
  · exact (stays_setPending p hstays).2
  · obtain ⟨hlive, hends⟩ := Classical.not_imp.mp hstays
    rcases h with hmay | ⟨q, rfl, hq⟩
    · rw [(ends_setPending p hlive (Bool.eq_false_iff.mpr hends)).2, if_pos (hmay hlive)]
    · exact absurd (live_setPending hq hlive) hends

/-- A park that is there after a call, accepted or dropped. -/
theorem stays_of_did {o : Op} (h : Did cfg x o x') (hlive : x.live m = true) :
    x'.live m = true ∨ m ∈ x.history.landing ∨ m ∈ x'.history.dropped := by
  have hset : ∀ m' p, (x.setPending m' p).live m = true ∨ m ∈ x.history.landing ∨
      m ∈ (x.setPending m' p).history.dropped := by
    intro m' p
    by_cases hm : m = m'
    · subst hm
      by_cases hstays : (x.setPending m p).live m = true
      · exact .inl hstays
      · rw [(ends_setPending p hlive (Bool.eq_false_iff.mpr hstays)).2]
        by_cases hlanding : m ∈ x.history.landing
        · exact .inr (.inl hlanding)
        · exact .inr (.inr (by simp [hlanding]))
    · exact .inl ((live_setPending_of_ne hm p).trans hlive)
  cases h with
  | parked m' p => exact hset m' (some p)
  | unparked m' => exact hset m' none
  | status m' st => exact .inl ((live_congr (x.pending_setStatus m' m st)).trans hlive)
  | _ => exact .inl hlive

/-- What the trainer answers to a launch. -/
theorem of_launch {c : Choice} {trigger : Option Trigger} {d v : String} {answer : LaunchAnswer}
    (he : exec cfg c x (.launch trigger m d v) = some (x', answer)) :
    (∃ run, answer = .accepted run ∧ x' = x.accept m trigger) ∨
      x' = x ∧ (answer = .busy ∨ answer = .failed) := by
  cases c <;> simp only [exec, reduceCtorEq] at he
  case launched a =>
    cases a with
    | accepted run =>
      cases he
      exact .inl ⟨run, rfl, rfl⟩
    | busy =>
      cases he
      exact .inr ⟨rfl, .inl rfl⟩
    | failed =>
      cases he
      exact .inr ⟨rfl, .inr rfl⟩

theorem pending_of_read {c : Choice} {pending : Option Pending}
    (he : exec cfg c x (.getPending m) = some (x', some pending)) : x.pending m = pending := by
  cases c <;> simp only [exec, reduceCtorEq] at he
  case fate f =>
    cases f <;> cases he
    rfl

/-! ## The invariant -/

/-- Only parks are landing, each is its model's, and no drop went untold. -/
structure Inv (x : World) : Prop where
  landing : ∀ m ∈ x.history.landing, x.live m = true
  named : ∀ m p, x.pending m = some p → p.modelName = m
  unreported : x.history.unreported = []

theorem inv_setPending (h : Inv x) (p : Option Pending) (hp : ∀ q, p = some q → q.modelName = m) :
    Inv (x.setPending m p) := by
  refine ⟨fun m' hm' => ?_, fun m' q hq => ?_, h.unreported⟩
  · by_cases hstays : x.live m = true → (x.setPending m p).live m = true
    · rw [(stays_setPending p hstays).1] at hm'
      by_cases hm : m' = m
      · subst hm
        exact hstays (h.landing m' hm')
      · rw [live_setPending_of_ne hm]
        exact h.landing m' hm'
    · obtain ⟨hlive, hends⟩ := Classical.not_imp.mp hstays
      rw [(ends_setPending p hlive (Bool.eq_false_iff.mpr hends)).1, List.mem_filter] at hm'
      rw [live_setPending_of_ne (of_decide_eq_true hm'.2)]
      exact h.landing m' hm'.1
  · rw [World.pending_setPending] at hq
    split at hq
    · rename_i hm
      obtain ⟨row, -, hq⟩ := Option.bind_eq_some_iff.mp hq
      exact (hp q hq).trans hm.symm
    · exact h.named m' q hq

/-- What is launched without a trigger is a park, and a park is its model's. -/
def Lawful (x : World) : Op → Prop
  | .launch none m _ _ => x.live m = true
  | .setPending m p => p.modelName = m
  | _ => True

theorem inv_of_did {o : Op} (h : Did cfg x o x') (hinv : Inv x) (ho : Lawful x o) : Inv x' := by
  cases h with
  | parked m' p =>
    refine inv_setPending hinv _ ?_
    rintro q ⟨⟩
    exact ho
  | unparked m' => exact inv_setPending hinv _ fun _ h => by cases h
  | status m' st =>
    refine ⟨fun m hm => ?_, fun m p hp => ?_, hinv.unreported⟩
    · rw [live_congr (x.pending_setStatus m' m st)]
      exact hinv.landing m hm
    · rw [x.pending_setStatus] at hp
      exact hinv.named m p hp
  | accepted trigger m dataset version =>
    cases trigger with
    | none =>
      refine ⟨fun m' hm' => ?_, hinv.named, hinv.unreported⟩
      rcases List.mem_append.mp hm' with hm' | hm'
      · exact hinv.landing m' hm'
      · obtain rfl := List.mem_singleton.mp hm'
        exact ho
    | some trigger => exact ⟨hinv.landing, hinv.named, hinv.unreported⟩
  | _ => exact ⟨hinv.landing, hinv.named, hinv.unreported⟩

theorem lawful_of_untouching {o : Op} (ho : touches o = false) : Lawful x o := by
  cases o with
  | setPending | clearPending => cases ho
  | launch trigger =>
    cases trigger with
    | none => cases ho
    | some trigger => trivial
  | _ => trivial

/-! ## The rule -/

/-- The drops of a tick are all among `told`. -/
def Within (told : ModelName → Prop) (x : World) : Prop := ∀ m ∈ x.history.dropped, told m

/-- Reported before, or by these actions. -/
def Reported (told : ModelName → Prop) (actions : List Action) (m : ModelName) : Prop :=
  told m ∨ .retryFailed m ∈ actions

/-- The removal of a park that was not launched is not reported as failed and made. -/
def Sure (c : Choice) (x : World) (o : Op) : Prop :=
  ∀ m, o = .clearPending m → ¬ MayEnd x m → c ≠ .fate .lost

/-- The scheduler alone parks and unparks. -/
abbrev spec (cfg : Settings) (t : ThreadId) : Code.Spec World Choice Op Reply where
  exec := exec cfg
  inv := Inv
  cond := Sure
  rely x y := y.epoch = x.epoch ∧ (t = scheduler → Same x y)
  guar x y := y.epoch = x.epoch ∧ (t ≠ scheduler → Same x y)

/-- What the calls of the others leave. -/
def Stable (J : World → Prop) : Prop := ∀ x y, J x → Same x y → J y

variable {told : ModelName → Prop}

theorem stable_within : Stable (Within told) := by
  intro x y h hsame m hm
  rw [hsame.dropped] at hm
  exact h m hm

theorem stable_mayEnd : Stable fun x => Within told x ∧ MayEnd x m :=
  fun x y h hsame => ⟨stable_within x y h.1 hsame, hsame.mayEnd h.2⟩

theorem stable_live : Stable fun x => Within told x ∧ x.live m = true :=
  fun x y h hsame => ⟨stable_within x y h.1 hsame, (hsame.live m).trans h.2⟩

theorem stable_landing : Stable fun x => Within told x ∧ m ∈ x.history.landing := by
  intro x y h hsame
  rw [hsame.landing]
  exact ⟨stable_within x y h.1 hsame, h.2⟩

theorem stable_pending {o : Option Pending} : Stable fun x => Within told x ∧ x.pending m = o :=
  fun x y h hsame => ⟨stable_within x y h.1 hsame, (hsame.pending m).trans h.2⟩

/-- Calls that touch no park keep what is stable. -/
theorem meets_of_untouching {α : Type} {J : World → Prop} {code : Prog α}
    (h : code.Calls fun o => touches o = false) (hJ : Stable J) (hx : J x) :
    code.Meets (spec cfg scheduler) (fun _ => J) (fun _ => J) x := by
  refine Code.meets_of_calls h ?_ ?_ hx
  swap
  · exact fun x y hx hxy => hJ x y hx (hxy.2 rfl)
  intro c x o x' r ho hx hinv _ he
  have hdid := did_of_exec he
  have hsame := same_of_did hdid ho
  exact ⟨inv_of_did hdid hinv (lawful_of_untouching ho), ⟨epoch_of_did hdid, fun _ => hsame⟩,
    hJ x x' hx hsame⟩

/-- One call, which raises nothing. -/
theorem meets_ask {o : Op} {J : World → Prop} {raises : Err → World → Prop}
    (ho : touches o = false) (hJ : Stable J) (hx : J x) :
    (ask o).Meets (spec cfg scheduler) (fun _ => J) raises x := by
  refine Code.meets_op fun c x' r hinv _ he => ?_
  have hdid : Did cfg x o x' := did_of_exec he
  have hsame := same_of_did hdid ho
  exact ⟨inv_of_did hdid hinv (lawful_of_untouching ho), ⟨epoch_of_did hdid, fun _ => hsame⟩,
    fun y _ hrely => hJ x' y (hJ x x' hx hsame) (hrely.2 rfl)⟩

theorem keeps_of_untouching {α : Type} {code : Prog α}
    (h : code.Calls fun o => touches o = false) :
    code.Keeps (spec cfg scheduler) (Within told) := fun _ hx =>
  meets_of_untouching h stable_within hx

/-! ## Parking and unparking -/

/-- A park is read: it stays so until the scheduler writes it. -/
theorem meets_getPending (hx : Within told x) :
    (getPending m).Meets (spec cfg scheduler)
      (fun pending y => Within told y ∧ y.pending m = pending ∧
        ∀ p, pending = some p → p.modelName = m)
      (fun _ => Within told) x := by
  refine Code.meets_bind (Code.meets_op ?_)
  intro c x' r hinv _ he
  have he : exec cfg c x (.getPending m) = some (x', r) := he
  have hdid := did_of_exec he
  have hsame := same_of_did hdid rfl
  refine ⟨inv_of_did hdid hinv trivial, ⟨epoch_of_did hdid, fun _ => hsame⟩, fun y hy hrely => ?_⟩
  have hsame := hsame.trans (hrely.2 rfl)
  have hwithin : Within told y := stable_within x y hx hsame
  match r with
  | none => exact hwithin
  | some pending =>
    have hread : y.pending m = pending := by
      rw [hsame.pending]
      exact pending_of_read he
    refine ⟨hwithin, hread, ?_⟩
    rintro p rfl
    exact hy.named m p hread

/-- A park is written that is not landed, or where one may end. -/
theorem meets_savePending {p : Pending} {J : World → Prop} (hJ : Stable J)
    (h : ∀ y, Did cfg x (.setPending p.modelName p) y → J y) :
    (savePending p).Meets (spec cfg scheduler) (fun _ => J) (fun _ => J) x := by
  refine Code.meets_bind (Code.meets_op ?_)
  intro c x' ok hinv _ he
  have hdid : Did cfg x (.setPending p.modelName p) x' := did_of_exec he
  refine ⟨inv_of_did hdid hinv rfl, ⟨epoch_of_did hdid, fun h => absurd rfl h⟩, ?_⟩
  intro y _ hrely
  exact keeps_okStore ok y (hJ x' y (h x' hdid) (hrely.2 rfl))

theorem within_setPending (hx : Within told x) (p : Option Pending)
    (h : MayEnd x m ∨ ∃ q, p = some q ∧ q.landed = false) : Within told (x.setPending m p) := by
  intro m' hm'
  rw [dropped_setPending p h] at hm'
  exact hx m' hm'

theorem keeps_savePending {p : Pending} (hp : p.landed = false) :
    (savePending p).Keeps (spec cfg scheduler) (Within told) := by
  intro x hx
  refine meets_savePending stable_within fun y hdid => ?_
  cases hdid with
  | nothing => exact hx
  | parked => exact within_setPending hx _ (.inr ⟨p, rfl, hp⟩)

/-- A park that may end is marked. -/
theorem keeps_saveLanded (p : Pending) :
    (savePending (landedPark p)).Keeps (spec cfg scheduler)
      fun x => Within told x ∧ MayEnd x p.modelName := by
  intro x hx
  refine meets_savePending stable_mayEnd fun y hdid => ?_
  cases hdid with
  | nothing => exact hx
  | parked =>
    refine ⟨within_setPending hx.1 _ (.inl hx.2), fun hlive => ?_⟩
    have hgone : (x.setPending p.modelName (some (landedPark p))).live p.modelName = false :=
      not_live_setPending (by rintro q ⟨⟩; rfl)
    exact absurd (hgone.symm.trans hlive) Bool.false_ne_true

/-- A park that may end is cleared. -/
theorem keeps_clearPending :
    (clearPending m).Keeps (spec cfg scheduler) fun x => Within told x ∧ MayEnd x m := by
  intro x hx
  refine Code.meets_bind (Code.meets_op ?_)
  intro c x' ok hinv _ he
  have hdid : Did cfg x (.clearPending m) x' := did_of_exec he
  refine ⟨inv_of_did hdid hinv trivial, ⟨epoch_of_did hdid, fun h => absurd rfl h⟩, ?_⟩
  intro y _ hrely
  refine keeps_okStore ok y (stable_mayEnd x' y ?_ (hrely.2 rfl))
  cases hdid with
  | nothing => exact hx
  | unparked =>
    refine ⟨within_setPending hx.1 _ (.inl hx.2), fun hlive => ?_⟩
    have hgone : (x.setPending m none).live m = false :=
      not_live_setPending fun q hq => by cases hq
    exact absurd (hgone.symm.trans hlive) Bool.false_ne_true

/-- A park is dropped: where that is reported as failed it is still there. -/
theorem meets_drop (hx : Within told x) :
    (clearPending m).Meets (spec cfg scheduler) (fun _ => Within fun m' => told m' ∨ m' = m)
      (fun _ => Within told) x := by
  refine Code.meets_bind (Code.meets_op ?_)
  intro c x' ok hinv hsure he
  have he : exec cfg c x (.clearPending m) = some (x', ok) := he
  have hdid := did_of_exec he
  refine ⟨inv_of_did hdid hinv trivial, ⟨epoch_of_did hdid, fun h => absurd rfl h⟩, ?_⟩
  intro y _ hrely
  have hdrop : ∀ m' ∈ (x.setPending m none).history.dropped, told m' ∨ m' = m := by
    intro m' hm'
    by_cases hstays : x.live m = true → (x.setPending m none).live m = true
    · rw [(stays_setPending none hstays).2] at hm'
      exact .inl (hx m' hm')
    · obtain ⟨hlive, hends⟩ := Classical.not_imp.mp hstays
      rw [(ends_setPending none hlive (Bool.eq_false_iff.mpr hends)).2] at hm'
      split at hm'
      · exact .inl (hx m' hm')
      · rcases List.mem_append.mp hm' with hm' | hm'
        · exact .inl (hx m' hm')
        · exact .inr (List.mem_singleton.mp hm')
  cases c <;> simp only [exec, reduceCtorEq] at he
  case fate f =>
    rcases of_writeAs he with ⟨rfl, rfl, rfl⟩ | ⟨rfl, rfl, rfl⟩ | ⟨rfl, rfl, rfl⟩
    · exact stable_within x' y hx (hrely.2 rfl)
    · exact stable_within _ y hdrop (hrely.2 rfl)
    · -- applied and reported as failed: then the park might end
      have hmay : MayEnd x m := by
        by_contra hno
        exact hsure m rfl hno rfl
      exact stable_within _ y (within_setPending hx none (.inl hmay)) (hrely.2 rfl)

/-! ## The parts of a tick -/

section Keeps

variable {p : ModelPolicy}

/-- The launch of a park: where it returns, the park is landing. -/
theorem meets_launch_parked (hx : Within told x ∧ x.live p.modelName = true) :
    (launch none p).Meets (spec cfg scheduler)
      (fun _ x => Within told x ∧ p.modelName ∈ x.history.landing) (fun _ => Within told) x := by
  refine Code.meets_bind ((meets_of_untouching (calls_resolveDatasetVersion (fun _ => rfl) ..)
    stable_live hx).mono (fun v y hy => ?_) fun _ y hy => hy.1)
  refine Code.meets_bind (Code.meets_op ?_)
  intro c x' answer hinv _ he
  have he : exec cfg c y (.launch none p.modelName p.onBreach.datasetName v) =
    some (x', answer) := he
  have hdid := did_of_exec he
  refine ⟨inv_of_did hdid hinv hy.2, ⟨epoch_of_did hdid, fun h => absurd rfl h⟩,
    fun z _ hrely => ?_⟩
  rcases of_launch he with ⟨run, rfl, rfl⟩ | ⟨rfl, hanswer⟩
  · have hlanding : Within told z ∧ p.modelName ∈ z.history.landing :=
      stable_landing (y.accept p.modelName none) z
        ⟨hy.1, List.mem_append_right _ (List.mem_singleton.mpr rfl)⟩ (hrely.2 rfl)
    cases run with
    | none => exact hlanding
    | some run =>
      have hwatched : ∀ status : Status → ℚ → Status, (getStatus p.modelName >>= fun st =>
          wall >>= fun now => saveStatus p.modelName (status (st.getD .empty) now)).Calls
          fun o => touches o = false := fun _ =>
        Code.calls_bind (calls_read (calls_ask rfl)) fun _ =>
          Code.calls_bind (calls_ask rfl) fun _ => calls_write (calls_ask rfl)
      refine Code.meets_bind (Code.meets_result ?_)
      exact (meets_of_untouching (hwatched fun st now => { st with watch := some ⟨run, now, none⟩ })
        stable_landing hlanding).mono (fun _ u hu => hu) fun _ u hu => hu
  · have hz : Within told z := stable_within x' z hy.1 (hrely.2 rfl)
    rcases hanswer with rfl | rfl
    · exact hz
    · exact hz

theorem keeps_note {α : Type} (a : α) :
    (noteFn m >>= fun _ => (pure a : Prog α)).Keeps (spec cfg scheduler) (Within told) :=
  keeps_of_untouching (Code.calls_bind (calls_ask rfl) fun _ => trivial)

theorem keeps_backedOff_saved {α : Type} {pending : Pending} (hp : pending.landed = false)
    {f : Pending → Prog α} (hf : ∀ park : Pending, park.landed = false →
      (f park).Keeps (spec cfg scheduler) (Within told)) :
    (backedOff cfg pending now >>= f).Keeps (spec cfg scheduler) (Within told) := by
  unfold backedOff
  split
  · exact Code.keeps_raise _
  · exact hf _ hp

/-- A retry drops its park only where it says so. -/
theorem meets_retry {pending : Pending} (hm : pending.modelName = p.modelName)
    (hp : pending.landed = false) (hx : Within told x ∧ x.live p.modelName = true) :
    (retry cfg p pending now).Meets (spec cfg scheduler)
      (fun actions => Within (Reported told actions)) (fun _ => Within told) x := by
  have hmore : ∀ {α : Type} {code : Prog α} {actions : α → List Action} {y : World},
      code.Meets (spec cfg scheduler) (fun _ => Within told) (fun _ => Within told) y →
      code.Meets (spec cfg scheduler) (fun a => Within (Reported told (actions a)))
        (fun _ => Within told) y :=
    fun h => h.mono (fun _ y hy m hm => .inl (hy m hm)) fun _ y hy => hy
  refine Code.meets_bind (Code.meets_result ?_)
  refine (meets_launch_parked hx).mono (fun launched y hy => ?_) fun err y hy => ?_
  · -- the trainer has it: the park may end
    have hmay : Within told y ∧ MayEnd y p.modelName := ⟨hy.1, fun _ => hy.2⟩
    refine Code.meets_bind (Code.meets_result ?_)
    refine (keeps_clearPending y hmay).mono (fun _ z hz => ?_) fun _ z hz => ?_
    · exact hmore (keeps_note _ z hz.1)
    · refine Code.meets_bind (Code.meets_result ?_)
      refine Code.Meets.mono (keeps_saveLanded pending z (hm ▸ hz)) ?_ ?_
      · exact fun _ u hu => hmore (keeps_note _ u hu.1)
      · exact fun _ u hu => hmore (keeps_note _ u hu.1)
  · cases err with
    | busy =>
      refine hmore (keeps_backedOff_saved hp (fun park hpark => ?_) y hy)
      exact Code.keeps_bind (keeps_savePending hpark) fun _ => keeps_note _
    | store =>
      refine hmore (keeps_backedOff_saved hp (fun park hpark => ?_) y hy)
      exact Code.keeps_bind (Code.keeps_result (keeps_savePending hpark)) fun _ => keeps_note _
    | other =>
      refine Code.meets_bind ((meets_drop hy).mono (fun _ z hz => ?_) fun _ z hz => hz)
      refine Code.meets_bind (Code.Meets.mono (meets_ask rfl stable_within hz) (fun _ u hu => ?_)
        fun _ _ h => h)
      intro m' hm'
      refine (hu m' hm').imp_right ?_
      rintro rfl
      exact List.mem_singleton.mpr rfl

theorem meets_retryPending (hx : Within told x) :
    (retryPending cfg p now).Meets (spec cfg scheduler)
      (fun actions => Within (Reported told actions)) (fun _ => Within told) x := by
  have hnone : ∀ y, Within told y → Within (Reported told []) y := fun y hy m hm => .inl (hy m hm)
  refine Code.meets_bind ((meets_getPending hx).mono (fun pending y hy => ?_) fun _ y hy => hy)
  match pending with
  | none => exact hnone y hy.1
  | some pending =>
    dsimp only
    split
    · rename_i hlanded
      have hmay : MayEnd y p.modelName := by
        intro hlive
        obtain ⟨q, hq, hlive⟩ := live_iff.mp hlive
        obtain rfl := Option.some.inj (hy.2.1.symm.trans hq)
        rw [hlanded] at hlive
        cases hlive
      refine Code.meets_bind (Code.meets_result ?_)
      exact (keeps_clearPending y ⟨hy.1, hmay⟩).mono (fun _ z hz => hnone z hz.1)
        fun _ z hz => hnone z hz.1
    · rename_i hlanded
      have hlanded : pending.landed = false := Bool.eq_false_iff.mpr hlanded
      split
      · exact hnone y hy.1
      · have hlive : y.live p.modelName = true := live_iff.mpr ⟨pending, hy.2.1, hlanded⟩
        exact meets_retry (hy.2.2 pending rfl) hlanded ⟨hy.1, hlive⟩

theorem keeps_launch_breach :
    (launch (some (.policy p.modelName)) p).Keeps (spec cfg scheduler) (Within told) := by
  have hcalls : (launch (some (.policy p.modelName)) p).Calls fun o => touches o = false :=
    calls_launch (P := fun o => touches o = false) (fun _ => rfl) (fun _ _ _ => rfl) (fun _ => rfl)
      (fun _ _ => rfl) rfl p
  exact keeps_of_untouching hcalls

theorem keeps_launchBreach (breach : Breach) :
    (launchBreach cfg p breach now).Keeps (spec cfg scheduler) (Within told) := by
  have hrelease : ∀ token (actions : List Action), (releaseFn (.policy p.modelName) token >>=
      fun _ => (pure actions : Prog (List Action))).Keeps (spec cfg scheduler) (Within told) :=
    fun _ _ => keeps_of_untouching (Code.calls_bind (calls_ask rfl) fun _ => trivial)
  refine Code.keeps_bind (keeps_of_untouching (calls_ask rfl)) fun token => ?_
  split
  · exact Code.keeps_ret _
  · refine Code.keeps_bind (Code.keeps_result keeps_launch_breach) fun r => ?_
    split
    · refine Code.keeps_bind (Code.keeps_result (keeps_savePending rfl)) fun r => ?_
      split
      · exact Code.keeps_ret _
      · exact hrelease _ _
    · exact hrelease _ _
    · exact Code.keeps_ret _

theorem keeps_handleBreach (breach : Breach) :
    (handleBreach cfg p breach now).Keeps (spec cfg scheduler) (Within told) := by
  refine Code.keeps_bind (keeps_of_untouching (calls_read (calls_ask rfl))) fun status => ?_
  split
  · exact Code.keeps_ret _
  · refine fun x hx => Code.meets_bind ((meets_getPending hx).mono (fun pending y hy => ?_)
      fun _ y hy => hy)
    match pending with
    | none => exact keeps_launchBreach breach y hy.1
    | some pending =>
      dsimp only
      split
      · exact keeps_launchBreach breach y hy.1
      · rename_i hlanded
        have hsave : (savePending { pending with breach }).Keeps (spec cfg scheduler)
            (Within told) := keeps_savePending (Bool.eq_false_iff.mpr hlanded)
        exact Code.keeps_bind hsave (fun _ => Code.keeps_ret _) y hy.1

theorem keeps_runDueChecks :
    (runDueChecks cfg p now).Keeps (spec cfg scheduler) (Within told) := by
  refine Code.keeps_bind (keeps_of_untouching (calls_read (calls_ask rfl))) fun status => ?_
  dsimp only
  split
  · exact Code.keeps_ret _
  · refine Code.keeps_bind (keeps_of_untouching (calls_runMonitors (fun _ _ => rfl) ..))
      fun found => ?_
    refine Code.keeps_bind (keeps_of_untouching (calls_write (calls_ask rfl))) fun _ => ?_
    split
    · exact Code.keeps_ret _
    · exact Code.keeps_bind (keeps_handleBreach _) fun _ => Code.keeps_ret _

theorem keeps_pollWatch : (pollWatch cfg p now).Keeps (spec cfg scheduler) (Within told) := by
  have hask : ∀ {o}, touches o = false → (ask o).Keeps (spec cfg scheduler) (Within told) :=
    fun h => keeps_of_untouching (calls_ask h)
  refine Policy.keeps_pollWatch (fun _ => hask rfl) (fun _ _ => hask rfl) (fun _ => hask rfl) ?_
  intro status v
  have hsave : ∀ st, (saveStatus p.modelName st).Keeps (spec cfg scheduler) (Within told) :=
    fun _ => keeps_of_untouching (calls_write (calls_ask rfl))
  have hsuggest : ∀ verdict shadow state byPolicy, (createSuggestion p.modelName v verdict shadow
      state byPolicy).Keeps (spec cfg scheduler) (Within told) := by
    refine fun _ _ _ _ => keeps_of_untouching (Code.calls_bind (calls_read (calls_ask rfl))
      fun found => ?_)
    split
    · trivial
    · exact calls_write (calls_ask rfl)
  refine Code.keeps_bind (keeps_of_untouching (calls_gate (fun _ => rfl) (fun _ _ => rfl) ..))
    fun verdict => ?_
  refine Code.keeps_bind (keeps_of_untouching (calls_shadowFn rfl)) fun shadow => ?_
  split
  · exact Code.keeps_bind (hsave _) fun _ => Code.keeps_ret _
  · split
    · refine Code.keeps_bind (keeps_of_untouching (calls_promote .policy (fun _ => rfl)
        (fun _ _ => rfl) (fun _ _ _ => rfl) ..)) fun promoted => ?_
      split
      · refine Code.keeps_bind (hsuggest _ _ _ _) fun _ => ?_
        exact Code.keeps_bind (hsave _) fun _ => Code.keeps_ret _
      · exact Code.keeps_bind (hsave _) fun _ => Code.keeps_ret _
    · refine Code.keeps_bind (hsuggest _ _ _ _) fun _ => ?_
      exact Code.keeps_bind (hsave _) fun _ => Code.keeps_ret _

end Keeps

/-! ## The tick -/

/-- A program whose actions report what it drops. -/
def Tells (cfg : Settings) (code : Prog (List Action)) : Prop :=
  ∀ (told : ModelName → Prop) (x : World), Within told x →
    code.Meets (spec cfg scheduler) (fun actions => Within (Reported told actions))
      (fun _ => Within told) x

theorem tells_of_keeps {code : Prog (List Action)}
    (h : ∀ told, code.Keeps (spec cfg scheduler) (Within told)) : Tells cfg code :=
  fun told x hx => (h told x hx).mono (fun _ _ hy m hm => .inl (hy m hm)) fun _ _ hy => hy

theorem reported_append {actions more : List Action} :
    Reported (Reported told actions) more m ↔ Reported told (actions ++ more) m := by
  simp [Reported, or_assoc]

/-- What a tick ends with: it does not raise, and reports its drops. -/
abbrev Ends (cfg : Settings) (told : ModelName → Prop) (code : Prog (List Action)) (x : World) :
    Prop :=
  code.Meets (spec cfg scheduler) (fun actions => Within (Reported told actions))
    (fun _ _ => False) x

theorem ends_stages {l : List (Prog (List Action))} (h : ∀ stage ∈ l, Tells cfg stage) :
    ∀ (actions : List Action) (x : World), Within (Reported told actions) x →
      Ends cfg told (stages m actions l) x := by
  induction l with
  | nil => exact fun actions x hx => hx
  | cons stage rest ih =>
    intro actions x hx
    refine Code.meets_bind (Code.meets_result ?_)
    refine (h stage List.mem_cons_self _ x hx).mono (fun more y hy => ?_) fun err y hy => ?_
    · refine ih (fun s hs => h s (List.mem_cons_of_mem _ hs)) _ y fun m' hm' => ?_
      exact reported_append.mp (hy m' hm')
    · intro m' hm'
      exact reported_append.mp (.inl (hy m' hm'))

theorem ends_tickPolicy (p : ModelPolicy) (hx : Within told x) :
    Ends cfg told (tickPolicy cfg p now) x := by
  refine ends_stages ?_ [] x fun m hm => .inl (hx m hm)
  intro stage hstage
  simp only [List.mem_cons, List.not_mem_nil, or_false] at hstage
  rcases hstage with rfl | rfl | rfl
  · exact fun told x hx => meets_retryPending hx
  · exact tells_of_keeps fun told => keeps_runDueChecks
  · exact tells_of_keeps fun told => keeps_pollWatch

theorem ends_tickAll : ∀ (l : List ModelPolicy) (told : ModelName → Prop) (x : World),
    Within told x → Ends cfg told (tickAll cfg now l) x := by
  intro l
  induction l with
  | nil => exact fun told x hx m hm => .inl (hx m hm)
  | cons p rest ih =>
    intro told x hx
    have hrest : ∀ actions y, Within (Reported told actions) y →
        Ends cfg told (tickAll cfg now rest >>= fun more =>
          (pure (actions ++ more) : Prog (List Action))) y := fun actions y hy =>
      Code.meets_bind ((ih _ y hy).mono (fun more z hz m hm => reported_append.mp (hz m hm))
        fun _ _ h => h)
    unfold tickAll
    dsimp only
    split
    · exact Code.meets_bind ((ends_tickPolicy p hx).mono (fun actions y hy => hrest actions y hy)
        fun _ _ h => h)
    · exact hrest [] x fun m hm => .inl (hx m hm)

theorem ends_tick (hx : x.history.dropped = []) :
    Ends cfg (fun _ => False) (tick cfg) x := by
  have hwithin : Within (fun _ => False) x := by
    intro m hm
    rw [hx] at hm
    cases hm
  refine Code.meets_bind (Code.Meets.mono (meets_ask rfl stable_within hwithin)
    (fun now y hy => ?_) fun _ _ h => h)
  refine Code.meets_bind (Code.meets_result ?_)
  have hlist : listPolicies.Calls fun o => touches o = false := calls_read (calls_ask rfl)
  refine (meets_of_untouching hlist stable_within hy).mono (fun l z hz => ?_) fun _ z hz => ?_
  · exact ends_tickAll l _ z hz
  · exact fun m hm => .inl (hz m hm)

/-! ## The machine -/

theorem not_touches_of_route {t : ThreadId} {o : Op} (h : o.ofRoute t = true) :
    touches o = false := by
  cases o with
  | launch trigger =>
    cases trigger with
    | none => cases h
    | some trigger => rfl
  | _ => first | rfl | cases h

theorem keeps_of_route {t : ThreadId} {code : Prog (List Action)}
    (h : code.Calls fun o => o.ofRoute t = true) : code.Keeps (spec cfg t) fun _ => True := by
  refine Code.keeps_of_calls h ?_ fun _ _ _ _ => trivial
  intro c x o x' r ho _ hinv _ he
  have hdid := did_of_exec he
  have huntouching := not_touches_of_route ho
  exact ⟨inv_of_did hdid hinv (lawful_of_untouching huntouching),
    ⟨epoch_of_did hdid, fun _ => same_of_did hdid huntouching⟩, trivial⟩

/-- The scheduler's tick has ended, and has told what it dropped. -/
def Told (t : ThreadId) (r : Except Err (List Action)) (x : World) : Prop :=
  t = scheduler → ∀ m ∈ x.history.dropped, ∃ actions, r = .ok actions ∧ .retryFailed m ∈ actions

theorem unreported_finish {t : ThreadId} {r : Except Err (List Action)}
    (h : x.history.unreported = []) (htold : Told t r x) :
    (finish t x r).history.unreported = [] := by
  by_cases ht : t = scheduler
  · simp only [finish, ht, if_true, h, List.nil_append, List.filter_eq_nil_iff]
    intro m hm
    obtain ⟨actions, rfl, hreported⟩ := htold ht m hm
    simp [hreported]
  · simp [finish, ht, h]

/-- The gateway does not stop between a drop and its report. -/
def Stops (c : Choice) (x : World) : Prop := c = .restart → x.history.dropped = []

theorem sound (cfg : Settings) :
    Code.SoundTo (machine cfg) Inv (fun _ => Sure) (fun _ => Stops)
      (fun t => (spec cfg t).rely) (fun t => (spec cfg t).guar)
      (fun t x => t = scheduler → x.history.dropped = []) Told where
  refl t x := ⟨rfl, fun _ => .refl x⟩
  trans t x y z hxy hyz := ⟨hyz.1.trans hxy.1, fun ht => (hxy.2 ht).trans (hyz.2 ht)⟩
  epoch t x y h := h.1
  epoch_guar t x y h := h.1
  others t u x y htu h := ⟨h.1, fun hu => h.2 fun ht => htu (ht.trans hu.symm)⟩
  stable t x y hrest hrely ht := (hrely.2 ht).dropped.trans (hrest ht)
  spawn t c x code hspawn y _ hrest := by
    by_cases ht : t = scheduler
    · subst ht
      rw [eq_tick_of_spawn x hspawn]
      refine (ends_tick (hrest rfl)).mono (fun actions z hz _ m hm => ?_) fun _ _ h => h.elim
      exact ⟨actions, rfl, (hz m hm).resolve_left id⟩
    · exact (keeps_of_route (calls_of_route x ht hspawn) y trivial).mono
        (fun _ _ _ h => absurd h ht) fun _ _ _ h => absurd h ht
  env t c x x' hinv hstops henv := by
    have henv : env t c x = some x' := henv
    obtain ⟨-, hpending, -, hcases⟩ := of_env t henv
    rcases hcases with ⟨hepoch, hhistory, -, -⟩ | ⟨hrestart, rfl⟩
    · have hsame : Same x x' :=
        ⟨hpending, congrArg History.landing hhistory, congrArg History.dropped hhistory⟩
      refine ⟨⟨fun m hm => ?_, fun m p hp => ?_, ?_⟩, .inl fun u => ⟨hepoch, fun _ => hsame⟩⟩
      · rw [hsame.landing] at hm
        rw [hsame.live]
        exact hinv.landing m hm
      · rw [hpending] at hp
        exact hinv.named m p hp
      · rw [hhistory]
        exact hinv.unreported
    · refine ⟨⟨hinv.landing, hinv.named, ?_⟩, .inr ⟨Nat.lt_succ_self _, fun _ _ => rfl⟩⟩
      simp [World.restart, hinv.unreported, hstops hrestart]
  finish t x r hinv htold := by
    refine ⟨⟨hinv.landing, hinv.named, unreported_finish hinv.unreported htold⟩, fun ht => ?_,
      fun u hu => ⟨rfl, fun hs => ?_⟩⟩
    · simp [machine, finish, ht]
    · have ht : t ≠ scheduler := fun ht => hu (hs.trans ht.symm)
      exact ⟨fun _ => rfl, rfl, by simp [machine, finish, ht]⟩

/-! ## Over a run -/

/-- The step does not hide a drop: no removal of a park that was not launched is reported as failed
and made, and the gateway does not stop before the tick that dropped it has ended. -/
def Open (s : Sys) (a : Act) : Prop :=
  (s.pc a.1 = none → Stops a.2 s.shared) ∧
    ∀ o, (s.pc a.1).call? s.shared.epoch = some o → Sure a.2 s.shared o

theorem inv_of_reachable (h : Runs.Reachable (next cfg) Open (Sys.init now) s) :
    Inv s.shared := by
  have h0 : Inv (.init now) := ⟨(fun _ h => by cases h), (fun _ _ h => by cases h), rfl⟩
  have hruns : Runs.Reachable (next cfg) (Code.OkStep (machine cfg) (fun _ => Sure)
      fun _ => Stops) (Sys.init now) s :=
    h.mono fun _ _ hok => Code.okStep_of_call hok.1 hok.2
  exact ((sound cfg).holds h0 (fun _ _ => rfl) hruns).global

/-- A run whose steps all meet a condition reaches its states under it. -/
theorem reachable_of_trace {ok : Sys → Act → Prop} {tr : List (Runs.Taken Sys Act)}
    (hrun : Runs.Trace (next cfg) s tr s') (hok : ∀ t ∈ tr, ok t.src t.act) :
    Runs.Reachable (next cfg) ok s s' := by
  induction hrun with
  | nil => exact .init
  | snoc a _ hn ih =>
    refine .step a (ih fun t ht => hok t (List.mem_append_left _ ht)) ?_ hn
    exact hok _ (List.mem_append_right _ (List.mem_singleton.mpr rfl))

theorem stays_of_next {a : Act} (hn : next cfg s a = some s') (hlive : s.shared.live m = true) :
    s'.shared.live m = true ∨ m ∈ s.shared.history.landing ∨ m ∈ s'.shared.history.dropped := by
  rcases Code.Machine.cases_of_next hn with hsame | henv | ⟨_, hfinish⟩ | ⟨_, o, _, _, -, -, he, -⟩
  · exact .inl (hsame ▸ hlive)
  · exact .inl ((live_congr ((of_env a.1 henv).2.1 m)).trans hlive)
  · refine .inl ?_
    rw [hfinish]
    exact hlive
  · exact stays_of_did (did_of_exec he) hlive

/-- A parked retrain stays parked until the trainer has accepted its launch or a tick drops it,
and every tick that dropped one has said that its retry failed. -/
theorem parked_until_launched_or_told (cfg : Settings) (now : ℚ) (s s' : Sys)
    (h : Runs.Reachable (next cfg) Open (Sys.init now) s)
    (tr : List (Runs.Taken Sys Act)) (hrun : Runs.Trace (next cfg) s tr s')
    (hopen : ∀ t ∈ tr, Open t.src t.act) :
    s'.shared.history.unreported = [] ∧
      ∀ m, s.shared.live m = true → s'.shared.live m = true ∨
        ∃ t ∈ tr, t.src.shared.live m = true ∧
          (m ∈ t.src.shared.history.landing ∨ m ∈ t.dst.shared.history.dropped) := by
  refine ⟨?_, fun m hlive => ?_⟩
  · exact (inv_of_reachable (h.trans (reachable_of_trace hrun hopen))).unreported
  · induction hrun with
    | nil => exact .inl hlive
    | @snoc tr s₁ s₂ a htr hn ih =>
      rcases ih fun t ht => hopen t (List.mem_append_left _ ht) with hlive₁ | ⟨t, ht, hends⟩
      · rcases stays_of_next hn hlive₁ with hlive₂ | hends
        · exact .inl hlive₂
        · exact .inr ⟨_, List.mem_append_right _ (List.mem_singleton.mpr rfl), hlive₁, hends⟩
      · exact .inr ⟨t, List.mem_append_left _ ht, hends⟩

/-- No write is reported as failed and made, and the gateway does not stop. -/
def Plain (_ : Sys) (a : Act) : Prop := a.2 ≠ .fate .lost ∧ a.2 ≠ .restart

instance (s : Sys) (a : Act) : Decidable (Plain s a) :=
  inferInstanceAs (Decidable (_ ∧ _))

theorem open_of_plain {a : Act} (h : Plain s a) : Open s a :=
  ⟨fun _ hstop => absurd hstop h.2, fun _ _ _ _ _ => h.1⟩

/-- A breach meets a busy trainer, and its retrain is parked. -/
def parked : List Act := breached "m" .manual ++ [(scheduler, .launched .busy), done, done, done]

/-- The retry of the park fails for good. -/
def failed : List Act :=
  [(scheduler, .passes 100), (scheduler, .tick), done, done, done,
    (scheduler, .launched .failed)] ++ List.replicate 5 done

theorem plain_failed : ∀ a ∈ failed, a.2 ≠ .fate .lost ∧ a.2 ≠ .restart := by
  decide

/-- The park is gone, and the tick has told it. -/
theorem failed_told :
    ∃ s s' : Sys, ∃ tr, s.shared.live "m" = true ∧ s'.shared.live "m" = false ∧
      Runs.Trace (next .defaults) s tr s' ∧ s'.shared.history.unreported = [] ∧
      ∃ t ∈ tr, t.src.shared.live "m" = true ∧
        ("m" ∈ t.src.shared.history.landing ∨ "m" ∈ t.dst.shared.history.dropped) := by
  have hrun : ((Runs.run (next .defaults) Plain (Sys.init 1000) parked).bind fun s =>
      (Runs.run (next .defaults) Plain s failed).map fun s' =>
        decide (s.shared.live "m" = true ∧ s'.shared.live "m" = false)) = some true := by
    decide +kernel
  obtain ⟨s, hs, hp⟩ := Option.bind_eq_some_iff.mp hrun
  obtain ⟨s', hs', hp⟩ := Option.map_eq_some_iff.mp hp
  obtain ⟨hlive, hgone⟩ := of_decide_eq_true hp
  have hreach : Runs.Reachable (next .defaults) Open (Sys.init 1000) s :=
    (Runs.Reachable.init.run hs).mono fun _ _ => open_of_plain
  obtain ⟨tr, htr, hact⟩ := Runs.Trace.nil.run hs'
  have htr : Runs.Trace (next .defaults) s tr s' := by simpa using htr
  have hopen : ∀ t ∈ tr, Open t.src t.act := fun t ht =>
    open_of_plain (plain_failed t.act (hact ▸ List.mem_map_of_mem ht))
  obtain ⟨hunreported, hparks⟩ :=
    parked_until_launched_or_told .defaults 1000 s s' hreach tr htr hopen
  refine ⟨s, s', tr, hlive, hgone, htr, hunreported, ?_⟩
  rcases hparks "m" hlive with hlive' | hends
  · exact absurd (hgone.symm.trans hlive') Bool.false_ne_true
  · exact hends

end MlopsLite.Gateway.Policy.Parks
