import MlopsLite.Lib.Raising

/-!
# Session — a batch on the shared engine

`BatchSession.run` (`hostagent/batch_session.py`). Its seams are injected: a script
says which calls of them raise, and which promotions land in front of each. What is
raised says which call raised it.
-/

namespace MlopsLite.HostAgent.Batch

open Raising (raise read modify within ensure rescue raised)

/-- The places where `run` calls out; `log` is called at three of them. -/
inductive Call
  | jobHoldsGpu
  | snapshot
  | acquire
  | load
  | score
  | reread
  | changed
  | restore
  | report
  | release
  | loadReport
  deriving DecidableEq

/-- An `Exception`, or another `BaseException`. -/
inductive Kind
  | exception
  | base
  deriving DecidableEq

inductive Fault
  | refused
  | raised (call : Call) (kind : Kind)
  deriving DecidableEq

/-- What `except Exception` catches. -/
def Fault.ordinary : Fault → Bool
  | .refused => true
  | .raised _ kind => kind = .exception

variable {τ α : Type}

structure Turn (τ : Type) where
  promotions : List τ
  raises : Option Kind

/-- What the seams do: `holds` and `result` are the answers of `job_holds_gpu` and `score`. -/
structure Script (τ α : Type) where
  holds : Bool
  result : α
  turn : Call → Turn τ

/-- A call, with the state of things when it was made. -/
structure Event (τ : Type) where
  call : Call
  raises : Option Kind
  held : Bool
  engine : Option τ
  desired : τ

/-- The desired target, what is known of the engine's, whether the batch has the
exclusion, its variable `loaded`, and the calls that were made. -/
structure World (τ : Type) where
  desired : τ
  engine : Option τ
  held : Bool
  loaded : Bool
  events : List (Event τ)

/-- A promotion; its own reload waits while the exclusion is held. -/
def World.promote (w : World τ) (target : τ) : World τ :=
  { w with desired := target, engine := if w.held then w.engine else some target }

/-- The world in which a call is made. -/
def World.called (w : World τ) (c : Call) (turn : Turn τ) : World τ :=
  let w := turn.promotions.foldl World.promote w
  { w with events := w.events ++ [⟨c, turn.raises, w.held, w.engine, w.desired⟩] }

namespace Script

variable (s : Script τ α)

def fault (c : Call) : Option Fault := (s.turn c).raises.map (.raised c)

def call (c : Call) : Raising (World τ) Fault Unit := fun w =>
  match s.fault c with
  | none => (.ok (), w.called c (s.turn c))
  | some f => (.error f, w.called c (s.turn c))

/-- `desired.read`, at either place. -/
def readDesired (c : Call) : Raising (World τ) Fault τ := do
  s.call c
  let w ← read
  return w.desired

def acquire : Raising (World τ) Fault Unit := do
  s.call .acquire
  modify fun w => { w with held := true, loaded := false }

/-- `engine.load`, which disturbs the engine when it fails, and `loaded = True`. -/
def load (target : τ) : Raising (World τ) Fault Unit := do
  modify fun w => { w with engine := none }
  s.call .load
  modify fun w => { w with engine := some target, loaded := true }

def score : Raising (World τ) Fault α := do
  s.call .score
  return s.result

/-- `desired.restore`. -/
def restoreTo (target : τ) : Raising (World τ) Fault Unit := do
  modify fun w => { w with engine := none }
  s.call .restore
  modify fun w => { w with engine := some target }

/-- The body of the inner `try`. -/
def restore [DecidableEq τ] (prior : τ) : Raising (World τ) Fault Unit := do
  let desired ← s.readDesired .reread
  if desired ≠ prior then s.call .changed
  s.restoreTo desired

/-- Its `except`. -/
def report (failing : Bool) (exc : Fault) : Raising (World τ) Fault Unit := do
  s.call .report
  if !failing then raise exc

/-- Its `finally`. -/
def release : Raising (World τ) Fault Unit := do
  s.call .release
  modify fun w => { w with held := false }
  let w ← read
  if !w.loaded then s.call .loadReport

/-- The outer `finally`. -/
def cleanup [DecidableEq τ] (prior : τ) (failing : Bool) : Raising (World τ) Fault Unit :=
  ensure (rescue (s.restore prior) Fault.ordinary (s.report failing)) s.release

/-- `run`. -/
def run [DecidableEq τ] (target : τ) : Raising (World τ) Fault α := do
  s.call .jobHoldsGpu
  if s.holds then raise .refused
  let prior ← s.readDesired .snapshot
  s.acquire
  within (do s.load target; s.score) fun exc => s.cleanup prior exc.isSome

end Script

/-! ## What a session owes the engine -/

/-- Before a session. -/
def World.start (desired : τ) (engine : Option τ) : World τ := ⟨desired, engine, false, false, []⟩

/-- The exclusion is released once if it was acquired, and it is held where something is
loaded or scored; the target is resident where it is scored; a session that returns has
restored what is desired when it releases; a fault of the batch surfaces, and so does one
of the restore of a batch that succeeded. -/
structure Keeps (target : τ) (result : Except Fault α) (w : World τ) : Prop where
  released : (w.events.filter fun e => e.call = .release).length =
    (w.events.filter fun e => e.call = .acquire ∧ e.raises = none).length
  acquired : (w.events.filter fun e => e.call = .acquire).length ≤ 1
  held : ∀ e ∈ w.events, e.call = .load ∨ e.call = .score → e.held = true
  resident : ∀ e ∈ w.events, e.call = .score → e.engine = some target
  restored : raised result = none → ∀ e ∈ w.events, e.call = .release → e.engine = some e.desired
  batch : ∀ e ∈ w.events, e.call = .load ∨ e.call = .score → ∀ kind ∈ e.raises,
    raised result = some (.raised e.call kind)
  restore : (∃ e ∈ w.events, e.call = .score ∧ e.raises = none) →
    ∀ e ∈ w.events, e.call = .reread ∨ e.call = .restore → ∀ kind ∈ e.raises,
      raised result = some (.raised e.call kind)

/-! ## When it does -/

namespace Script

variable (s : Script τ α)

/-- The exclusion is acquired. -/
def Starts : Prop :=
  s.fault .jobHoldsGpu = none ∧ s.holds = false ∧ s.fault .snapshot = none ∧ s.fault .acquire = none

/-- What is desired after the promotions in front of some calls. -/
def landed (d : τ) (calls : List Call) : τ :=
  (calls.flatMap fun c => (s.turn c).promotions).foldl (fun _ target => target) d

/-- What the snapshot reads, if `d` is desired at first. -/
def prior (d : τ) : τ := s.landed d [.jobHoldsGpu, .snapshot]

/-- What the second read reads. -/
def latest (d : τ) : τ :=
  s.landed (s.prior d)
    ([.acquire, .load] ++ (if s.fault .load = none then [.score] else []) ++ [.reread])

def batchFault : Option Fault := (s.fault .load).or (s.fault .score)

/-- Nothing is raised behind the inner `try`. -/
def Quiet : Prop :=
  s.fault .release = none ∧ (s.fault .load ≠ none → s.fault .loadReport = none)

variable [DecidableEq τ]

/-- What is desired at a release, behind a restore. -/
def atRelease (d : τ) : τ :=
  s.landed (s.latest d)
    ((if s.latest d ≠ s.prior d then [.changed] else []) ++ [.restore, .release])

def changedFault (d : τ) : Option Fault :=
  if s.latest d ≠ s.prior d then s.fault .changed else none

def restoreFault (d : τ) : Option Fault :=
  (s.fault .reread).or ((s.changedFault d).or (s.fault .restore))

/-- No promotion gets lost, and no fault takes the place of another. -/
def Harmless (d : τ) : Prop :=
  match s.batchFault, s.restoreFault d with
  | none, none => s.fault .release = none → s.atRelease d = s.latest d
  | none, some f =>
      (s.fault .reread).or (s.fault .restore) = some f →
        s.Quiet ∧ (f.ordinary = true → s.fault .report = none)
  | some _, none => s.Quiet
  | some _, some f => s.Quiet ∧ f.ordinary = true ∧ s.fault .report = none

end Script

/-! ## One call -/

section

variable {w : World τ} {c : Call} {turn : Turn τ} {ts : List τ}

theorem promotions_eq (ts : List τ) (w : World τ) : ts.foldl World.promote w =
    { w with
      desired := ts.foldl (fun _ target => target) w.desired
      engine := if w.held then w.engine else (ts.getLast?).or w.engine } := by
  induction ts generalizing w with
  | nil => simp
  | cons t ts ih =>
    rw [List.foldl_cons, ih]
    by_cases h : w.held = true
    · simp [World.promote, h]
    · cases ts with
      | nil => simp [World.promote, h]
      | cons t' ts => simp [World.promote, h, List.getLast?_cons]

@[simp] theorem called_held : (w.called c turn).held = w.held := by
  simp [World.called, promotions_eq]

@[simp] theorem called_loaded : (w.called c turn).loaded = w.loaded := by
  simp [World.called, promotions_eq]

@[simp] theorem called_desired :
    (w.called c turn).desired = turn.promotions.foldl (fun _ target => target) w.desired := by
  simp [World.called, promotions_eq]

/-- While the exclusion is held no promotion reaches the engine. -/
theorem called_engine (h : w.held = true) : (w.called c turn).engine = w.engine := by
  simp [World.called, promotions_eq, h]

theorem called_events (w : World τ) (c : Call) (turn : Turn τ) : ∃ e : Event τ,
    (w.called c turn).events = w.events ++ [e] ∧ e.call = c ∧ e.raises = turn.raises ∧
      e.held = w.held ∧ e.engine = (w.called c turn).engine ∧
      e.desired = (w.called c turn).desired := by
  simp [World.called, promotions_eq]

end

section

variable {s : Script τ α} {w w' w'' : World τ} {c : Call} {f : Fault} {d prior : τ}

theorem fault_eq_some : s.fault c = some f ↔ ∃ kind, (s.turn c).raises = some kind ∧
    f = .raised c kind := by
  simp [Script.fault, eq_comm]

theorem fault_eq_none : s.fault c = none ↔ (s.turn c).raises = none := Option.map_eq_none_iff

theorem call_of_none (h : s.fault c = none) : s.call c w = (.ok (), w.called c (s.turn c)) := by
  simp [Script.call, h]

theorem call_of_some (h : s.fault c = some f) : s.call c w = (.error f, w.called c (s.turn c)) := by
  simp [Script.call, h]

theorem landed_append (cs cs' : List Call) :
    s.landed d (cs ++ cs') = s.landed (s.landed d cs) cs' := by
  simp [Script.landed]

theorem called_desired_eq : (w.called c (s.turn c)).desired = s.landed w.desired [c] := by
  simp [Script.landed]

/-- Between two worlds these calls were made; the exclusion and `loaded` are the same. -/
structure Made (s : Script τ α) (w w' : World τ) (calls : List Call) : Prop where
  events : ∃ es, w'.events = w.events ++ es ∧ es.map Event.call = calls ∧
    ∀ e ∈ es, e.raises = (s.turn e.call).raises
  held : w'.held = w.held
  loaded : w'.loaded = w.loaded

theorem made_refl : Made s w w [] := ⟨⟨[], by simp⟩, rfl, rfl⟩

theorem Made.trans {cs cs' : List Call} (h : Made s w w' cs) (h' : Made s w' w'' cs') :
    Made s w w'' (cs ++ cs') := by
  obtain ⟨es, hevents, hcalls, hraises⟩ := h.events
  obtain ⟨es', hevents', hcalls', hraises'⟩ := h'.events
  refine ⟨⟨es ++ es', ?_, ?_, ?_⟩, h'.held.trans h.held, h'.loaded.trans h.loaded⟩
  · rw [hevents', hevents, List.append_assoc]
  · rw [List.map_append, hcalls, hcalls']
  · intro e he
    rcases List.mem_append.mp he with he | he
    · exact hraises e he
    · exact hraises' e he

theorem made_called : Made s w (w.called c (s.turn c)) [c] := by
  obtain ⟨e, hevents, rfl, hr, -⟩ := called_events w c (s.turn c)
  exact ⟨⟨[e], hevents, rfl, by simp [hr]⟩, called_held, called_loaded⟩

/-! ## The `finally` -/

theorem restoreTo_spec :
    let r := s.restoreTo d w
    raised r.1 = s.fault .restore ∧ Made s w r.2 [.restore] ∧
      (raised r.1 = none → r.2.engine = some d ∧ r.2.desired = s.landed w.desired [.restore]) := by
  intro r
  have hmade : Made s w (World.called { w with engine := none } .restore (s.turn .restore))
      [.restore] := by
    have hcalled := made_called (s := s) (w := { w with engine := none }) (c := .restore)
    exact ⟨hcalled.events, hcalled.held, hcalled.loaded⟩
  cases hfault : s.fault .restore with
  | some f =>
    have hr : r =
        (.error f, World.called { w with engine := none } .restore (s.turn .restore)) := by
      simp [r, Script.restoreTo, call_of_some hfault]
    rw [hr]
    exact ⟨rfl, hmade, nofun⟩
  | none =>
    have hr : r = (.ok (), { World.called { w with engine := none } .restore (s.turn .restore) with
        engine := some d }) := by
      simp [r, Script.restoreTo, call_of_none hfault]
    rw [hr]
    refine ⟨rfl, ⟨hmade.events, hmade.held, hmade.loaded⟩, fun _ => ⟨rfl, ?_⟩⟩
    exact called_desired_eq

variable [DecidableEq τ]

/-- What is raised in front of the restore, and the calls made there. -/
theorem restore_spec (s : Script τ α) (prior : τ) (hheld : w.held = true)
    (hd : s.landed w.desired [.reread] = d) :
    let r := s.restore prior w
    raised r.1 = (s.fault .reread).or
        ((if d ≠ prior then s.fault .changed else none).or (s.fault .restore)) ∧
      (∃ cs, Made s w r.2 cs ∧ (∀ c ∈ cs, c ∈ [Call.reread, .changed, .restore]) ∧
        ∀ c, c = .reread ∨ c = .restore → ∀ kind,
          (c ∈ cs ∧ (s.turn c).raises = some kind ↔ raised r.1 = some (.raised c kind))) ∧
      (raised r.1 = none → r.2.engine = some d ∧
        r.2.desired = s.landed d ((if d ≠ prior then [.changed] else []) ++ [.restore])) := by
  intro r
  generalize hw₁ : w.called .reread (s.turn .reread) = w₁
  have hdesired : w₁.desired = d := by
    rw [← hw₁, called_desired_eq, hd]
  have hmade : Made s w w₁ [.reread] := hw₁ ▸ made_called
  have hheld₁ : w₁.held = true := hmade.held.trans hheld
  cases hreread : s.fault .reread with
  | some f =>
    have hr : r = (.error f, w₁) := by
      simp [r, Script.restore, Script.readDesired, call_of_some hreread, hw₁]
    rw [hr]
    obtain ⟨kind, hkind, rfl⟩ := fault_eq_some.mp hreread
    refine ⟨rfl, ⟨_, hmade, by simp, ?_⟩, nofun⟩
    rintro c (rfl | rfl) kind'
    · simp [raised, hkind]
    · simp [raised]
  | none =>
    have hreturns : (s.turn .reread).raises = none := fault_eq_none.mp hreread
    by_cases hsame : d = prior
    · -- nothing to report: only the restore is left
      have hr : r = s.restoreTo d w₁ := by
        simp [r, Script.restore, Script.readDesired, call_of_none hreread, hw₁, hdesired, hsame]
      obtain ⟨hraised, hcalls, hok⟩ := restoreTo_spec (s := s) (w := w₁) (d := d)
      rw [hr, if_neg (not_not.mpr hsame), if_neg (not_not.mpr hsame)]
      refine ⟨hraised, ⟨_, hmade.trans hcalls, by simp, ?_⟩, ?_⟩
      · rintro c (rfl | rfl) kind
        · simp [hraised, Script.fault, hreturns]
        · simp [hraised, Script.fault]
      · rwa [hdesired] at hok
    · have hchangedMade : Made s w₁ (w₁.called .changed (s.turn .changed)) [.changed] := made_called
      rw [if_pos hsame, if_pos hsame]
      cases hchanged : s.fault .changed with
      | some f =>
        have hr : r = (.error f, w₁.called .changed (s.turn .changed)) := by
          simp [r, Script.restore, Script.readDesired, call_of_none hreread, hw₁, hdesired, hsame,
            call_of_some hchanged]
        obtain ⟨kind, hkind, rfl⟩ := fault_eq_some.mp hchanged
        rw [hr]
        refine ⟨rfl, ⟨_, hmade.trans hchangedMade, by simp, ?_⟩, nofun⟩
        rintro c (rfl | rfl) kind'
        · simp [raised, hreturns]
        · simp [raised]
      | none =>
        have hr : r = s.restoreTo d (w₁.called .changed (s.turn .changed)) := by
          simp [r, Script.restore, Script.readDesired, call_of_none hreread, hw₁, hdesired, hsame,
            call_of_none hchanged]
        obtain ⟨hraised, hcalls, hok⟩ :=
          restoreTo_spec (s := s) (w := w₁.called .changed (s.turn .changed)) (d := d)
        rw [hr]
        refine ⟨hraised, ⟨_, (hmade.trans hchangedMade).trans hcalls, by simp, ?_⟩, ?_⟩
        · rintro c (rfl | rfl) kind
          · simp [hraised, Script.fault, hreturns]
          · simp [hraised, Script.fault]
        · rwa [called_desired_eq, hdesired, ← landed_append] at hok

/-- What the `except` leaves of a fault of the restore. -/
def Script.surfacing (s : Script τ α) (failing : Bool) (f : Fault) : Option Fault :=
  if f.ordinary then (s.fault .report).or (if failing then none else some f) else some f

/-- The inner `try` with its `except`. -/
theorem rescue_spec (s : Script τ α) (w : World τ) (prior : τ) (failing : Bool) :
    let restored := s.restore prior w
    let r := rescue (s.restore prior) Fault.ordinary (s.report failing) w
    raised r.1 = (raised restored.1).bind (s.surfacing failing) ∧
      (∃ cs, Made s restored.2 r.2 cs ∧ ∀ c ∈ cs, c = .report) ∧
      (raised restored.1 = none → r.2 = restored.2) := by
  intro restored r
  cases hraised : raised restored.1 with
  | none =>
    have hr : r = restored :=
      Raising.rescue_of_not_caught fun e he => nomatch hraised.symm.trans he
    rw [hr]
    exact ⟨hraised, ⟨[], made_refl, by simp⟩, fun _ => rfl⟩
  | some f =>
    rw [Option.bind_some, Script.surfacing]
    by_cases hordinary : f.ordinary = true
    · have hr : r = s.report failing f restored.2 := Raising.rescue_of_caught hraised hordinary
      rw [hr, if_pos hordinary]
      cases hreport : s.fault .report with
      | some g =>
        simp only [Script.report, Raising.bind_apply, call_of_some hreport]
        exact ⟨rfl, ⟨_, made_called, by simp⟩, nofun⟩
      | none =>
        simp only [Script.report, Raising.bind_apply, call_of_none hreport]
        cases failing
        · exact ⟨rfl, ⟨_, made_called, by simp⟩, nofun⟩
        · exact ⟨rfl, ⟨_, made_called, by simp⟩, nofun⟩
    · have hr : r = restored := by
        refine Raising.rescue_of_not_caught ?_
        intro e he
        cases hraised.symm.trans he
        simpa using hordinary
      rw [hr, if_neg hordinary]
      exact ⟨hraised, ⟨[], made_refl, by simp⟩, nofun⟩

omit [DecidableEq τ] in
theorem release_spec (hheld : w.held = true) :
    let r := s.release w
    raised r.1 = (s.fault .release).or (if w.loaded then none else s.fault .loadReport) ∧
      ∃ e more, r.2.events = w.events ++ e :: more ∧ e.call = .release ∧
        e.raises = (s.turn .release).raises ∧ e.engine = w.engine ∧
        e.desired = s.landed w.desired [.release] ∧ ∀ e ∈ more, e.call = .loadReport := by
  intro r
  obtain ⟨e, hevents, hcall, hraises, -, hengine, hdesired⟩ :=
    called_events w .release (s.turn .release)
  rw [called_engine hheld] at hengine
  rw [called_desired_eq] at hdesired
  cases hrelease : s.fault .release with
  | some f =>
    have hr : r = (.error f, w.called .release (s.turn .release)) := by
      simp [r, Script.release, call_of_some hrelease]
    rw [hr]
    exact ⟨rfl, e, [], hevents, hcall, hraises, hengine, hdesired, by simp⟩
  | none =>
    cases hloaded : w.loaded with
    | true =>
      have hr : r = (.ok (), { w.called .release (s.turn .release) with held := false }) := by
        simp [r, Script.release, call_of_none hrelease, hloaded]
      rw [hr]
      exact ⟨rfl, e, [], hevents, hcall, hraises, hengine, hdesired, by simp⟩
    | false =>
      have hr : r =
          s.call .loadReport { w.called .release (s.turn .release) with held := false } := by
        simp [r, Script.release, call_of_none hrelease, hloaded]
      obtain ⟨e', hevents', hcall', -⟩ := called_events
        { w.called .release (s.turn .release) with held := false } .loadReport
        (s.turn .loadReport)
      have hall := hevents'.trans (congrArg (· ++ [e']) hevents)
      rw [List.append_assoc] at hall
      cases hreport : s.fault .loadReport with
      | some f =>
        rw [hr, call_of_some hreport]
        exact ⟨rfl, e, [e'], hall, hcall, hraises, hengine, hdesired, by simp [hcall']⟩
      | none =>
        rw [hr, call_of_none hreport]
        exact ⟨rfl, e, [e'], hall, hcall, hraises, hengine, hdesired, by simp [hcall']⟩

/-- The whole `finally`: what it raises, and what is recorded of it. -/
theorem cleanup_spec (s : Script τ α) (prior : τ) (hheld : w.held = true)
    (hd : s.landed w.desired [.reread] = d) (failing : Bool) :
    let r := s.cleanup prior failing w
    let restored := s.restore prior w
    raised r.1 = ((s.fault .release).or (if w.loaded then none else s.fault .loadReport)).or
        ((raised restored.1).bind (s.surfacing failing)) ∧
      ∃ es e more, r.2.events = w.events ++ (es ++ e :: more) ∧
        (∀ e ∈ es, e.call ∈ [Call.reread, .changed, .restore, .report]) ∧
        (∀ c, c = .reread ∨ c = .restore → ∀ kind,
          ((∃ e ∈ es, e.call = c ∧ e.raises = some kind) ↔
            raised restored.1 = some (.raised c kind))) ∧
        e.call = .release ∧ (∀ e ∈ more, e.call = .loadReport) ∧
        (raised restored.1 = none → e.engine = some d ∧ e.desired = s.landed d
          ((if d ≠ prior then [.changed] else []) ++ [.restore, .release])) := by
  intro r restored
  obtain ⟨-, ⟨cs, hmade, hcs, hiff⟩, hok⟩ := restore_spec s prior hheld hd
  obtain ⟨hrescued, ⟨cs', hmade', hcs'⟩, hsame⟩ :=
    rescue_spec s w prior failing
  have hboth := hmade.trans hmade'
  obtain ⟨es, hevents, hcalls, hraises⟩ := hboth.events
  obtain ⟨hreleased, e, more, hmore, hcall, -, hengine, hdesired, hlast⟩ :=
    release_spec (s := s) (hboth.held.trans hheld)
  have hmem : ∀ c, c ∈ cs ++ cs' ↔ ∃ e ∈ es, e.call = c := by
    intro c
    rw [← hcalls, List.mem_map]
  refine ⟨?_, es, e, more, ?_, ?_, ?_, hcall, hlast, ?_⟩
  · rw [← hboth.loaded, ← hrescued, ← hreleased]
    exact Raising.raised_ensure
  · rw [← List.append_assoc, ← hevents, ← hmore]
    exact congrArg World.events Raising.ensure_snd
  · intro e he
    rcases List.mem_append.mp ((hmem e.call).mpr ⟨e, he, rfl⟩) with h | h
    · have := hcs _ h
      simp only [List.mem_cons, List.not_mem_nil, or_false] at this ⊢
      tauto
    · simp [hcs' _ h]
  · intro c hc kind
    rw [← hiff c hc kind]
    constructor
    · rintro ⟨e, he, rfl, hkind⟩
      refine ⟨?_, (hraises e he).symm.trans hkind⟩
      rcases List.mem_append.mp ((hmem e.call).mpr ⟨e, he, rfl⟩) with h | h
      · exact h
      · have hreport := hcs' _ h
        rw [hreport] at hc
        simp at hc
    · rintro ⟨hmade, hkind⟩
      obtain ⟨e, he, rfl⟩ := (hmem c).mp (List.mem_append_left _ hmade)
      exact ⟨e, he, rfl, (hraises e he).trans hkind⟩
  · intro hnone
    have hw := hsame hnone
    obtain ⟨hengine', hdesired'⟩ := hok hnone
    rw [hengine, hdesired, hw, hengine', hdesired', ← landed_append, List.append_assoc]
    exact ⟨rfl, rfl⟩

/-! ## The batch -/

omit [DecidableEq τ] in
/-- The body of the outer `try`. -/
theorem body_spec (target : τ) (hheld : w.held = true) (hloaded : w.loaded = false) :
    let r := (do s.load target; s.score : Raising (World τ) Fault α) w
    raised r.1 = s.batchFault ∧ r.2.held = true ∧ (r.2.loaded = true ↔ s.fault .load = none) ∧
      r.2.desired =
        s.landed w.desired ([.load] ++ if s.fault .load = none then [.score] else []) ∧
      ∃ es, r.2.events = w.events ++ es ∧
        (∀ e ∈ es, (e.call = .load ∨ e.call = .score) ∧ e.held = true ∧
          (e.call = .score → e.engine = some target)) ∧
        (∀ c kind, (∃ e ∈ es, e.call = c ∧ e.raises = some kind) ↔
          s.batchFault = some (.raised c kind)) ∧
        ((∃ e ∈ es, e.call = .score ∧ e.raises = none) ↔ s.batchFault = none) := by
  intro r
  have hbatch : s.batchFault = (s.fault .load).or (s.fault .score) := rfl
  generalize hw₁ : World.called { w with engine := none } .load (s.turn .load) = w₁
  obtain ⟨e, hevents, hcall, hraises, hheld₁, -⟩ :=
    called_events { w with engine := none } .load (s.turn .load)
  have hloaded₁ : w₁.loaded = false := by
    rw [← hw₁, called_loaded, hloaded]
  have hdesired₁ : w₁.desired = s.landed w.desired [.load] := by
    rw [← hw₁]
    exact called_desired_eq
  have hkept : w₁.held = true := by
    rw [← hw₁, called_held, hheld]
  rw [hw₁] at hevents
  cases hload : s.fault .load with
  | some f =>
    obtain ⟨kind, hkind, rfl⟩ := fault_eq_some.mp hload
    have hr : r = (.error (.raised .load kind), w₁) := by
      simp [r, Script.load, call_of_some hload, hw₁]
    rw [hr, hbatch, hload]
    refine ⟨rfl, hkept, by simp [hloaded₁], by simpa using hdesired₁, [e], hevents, ?_, ?_, ?_⟩
    · simp [hcall, hheld₁, hheld]
    · simp [hcall, hraises, hkind]
    · simp [hcall]
  | none =>
    generalize hw₂ : ({ w₁ with engine := some target, loaded := true } : World τ) = w₂
    obtain ⟨e', hevents', hcall', hraises', hheld', hengine', -⟩ :=
      called_events w₂ .score (s.turn .score)
    have hheld₂ : w₂.held = true := by
      rw [← hw₂]
      exact hkept
    rw [called_engine hheld₂] at hengine'
    have hengine₂ : w₂.engine = some target := by
      rw [← hw₂]
    have hall : (w₂.called .score (s.turn .score)).events = w.events ++ [e, e'] := by
      rw [hevents', ← hw₂, hevents, List.append_assoc]
      rfl
    have hdesired₂ : (w₂.called .score (s.turn .score)).desired =
        s.landed w.desired [.load, .score] := by
      rw [called_desired_eq, ← hw₂]
      show s.landed w₁.desired [.score] = _
      rw [hdesired₁, ← landed_append]
      rfl
    have hloaded₂ : w₂.loaded = true := by
      rw [← hw₂]
    have hboth : ∀ x ∈ [e, e'], (x.call = .load ∨ x.call = .score) ∧ x.held = true ∧
        (x.call = .score → x.engine = some target) := by
      simp [hcall, hcall', hheld₁, hheld, hheld', hheld₂, hengine', hengine₂]
    have hloadReturns := fault_eq_none.mp hload
    cases hscore : s.fault .score with
    | some f =>
      obtain ⟨kind, hkind, rfl⟩ := fault_eq_some.mp hscore
      have hr : r = (.error (.raised .score kind), w₂.called .score (s.turn .score)) := by
        simp [r, Script.load, Script.score, call_of_none hload, call_of_some hscore, hw₁, hw₂]
      rw [hr, hbatch, hload, hscore]
      refine ⟨rfl, ?_, by simp [hloaded₂], by simpa using hdesired₂, _, hall, hboth, ?_, ?_⟩
      · rw [called_held, hheld₂]
      · simp [hcall, hcall', hraises, hraises', hkind, hloadReturns]
      · simp [hcall, hcall', hraises', hkind]
    | none =>
      have hr : r = (.ok s.result, w₂.called .score (s.turn .score)) := by
        simp [r, Script.load, Script.score, call_of_none hload, call_of_none hscore, hw₁, hw₂]
      have hscoreReturns := fault_eq_none.mp hscore
      rw [hr, hbatch, hload, hscore]
      refine ⟨rfl, ?_, by simp [hloaded₂], by simpa using hdesired₂, _, hall, hboth, ?_, ?_⟩
      · rw [called_held, hheld₂]
      · simp [hcall, hcall', hraises, hraises', hloadReturns, hscoreReturns]
      · simp [hcall, hcall', hraises', hscoreReturns]

end

end MlopsLite.HostAgent.Batch
