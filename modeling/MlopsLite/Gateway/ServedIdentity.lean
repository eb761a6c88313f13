import MlopsLite.HostAgent.LlamaAdapter

/-!
# ServedIdentity — what a prediction is logged under

`/infer` and `/infer/stream` of the gateway (`routers/infer.py`,
`routers/stream.py`) against the llm engine of the agent, with its cold loads,
reloads, rebinds, unloads and swaps. The answer and the identity come from two
calls: `/infer` asks for the identity after the answer, a stream before it.
-/

namespace MlopsLite.Gateway.ServedIdentity

open HostAgent (LlamaAdapter.Config LlamaAdapter.Loaded LlamaAdapter.Binding LlamaAdapter.Child)

abbrev ThreadId := ℕ

abbrev Engine := HostAgent.LlamaAdapter.Shared

abbrev EnginePc := HostAgent.LlamaAdapter.Pc

abbrev EngineChoice := HostAgent.LlamaAdapter.Choice

/-- `serving_model` and `serving_version`. -/
structure Identity where
  model : String
  version : Option ℕ
  deriving DecidableEq

namespace Identity

def unknown : Identity := ⟨"unknown", none⟩

def ofLoaded (l : LlamaAdapter.Loaded) : Identity := ⟨l.modelName, l.registryVersion⟩

def ofBinding (b : LlamaAdapter.Binding) : Identity := ⟨b.modelAlias, b.registryVersion⟩

/-- `_identity_from_health` of a payload with these two fields. -/
def fromHealth (id : Identity) : Identity :=
  ⟨if id.model = "" then "unknown" else id.model, id.version⟩

/-- The version of the name's own `@serving` alias, if the agent gave none. -/
def orServing (served : Option ℕ) (id : Identity) : Identity :=
  if id.model ≠ "unknown" ∧ id.version = none then { id with version := served } else id

end Identity

/-- A call of the llm engine; `direct` is from another caller of the agent. A
stream has shown an identity before. -/
inductive Request
  | infer (preempt : Bool)
  | stream (preempt : Bool) (shown : Identity)
  | direct (preempt : Bool)

def Request.preempt : Request → Bool
  | infer p | stream p _ | direct p => p

/-- Who asks for the identity: `/infer` with its answer, a stream without. -/
inductive Reader
  | infer (child : LlamaAdapter.Child)
  | stream (preempt : Bool)

/-- A prediction logged: what the response or the metadata frame says, what the
row says, and the child that gave the answer. -/
structure Prediction where
  shown : Identity
  row : Identity
  child : LlamaAdapter.Child

inductive Pc
  | idle
  /-- a poll or a reload, in the agent -/
  | apart (k : EnginePc)
  | asking (r : Reader)
  | resident (r : Reader)
  | warm (r : Reader)
  | rebinding (r : Reader) (k : EnginePc)
  | naming (r : Reader)
  | versioning (r : Reader) (name : String)
  | told (r : Reader) (id : Identity)
  | queueing (q : Request)
  | posting (q : Request)
  | preempting (q : Request) (k : EnginePc)
  | loading (q : Request) (k : EnginePc)
  | forwarding (q : Request)
  | answered (q : Request) (child : LlamaAdapter.Child)

/-- `lock` is the runtime's, `gpuLock` the gateway's. -/
structure Shared where
  engine : Engine
  lock : Option ThreadId
  gpuLock : Option ThreadId
  predictions : List Prediction

inductive Choice
  | infer (preempt : Bool)
  | stream (preempt : Bool)
  | direct (preempt : Bool)
  | poll
  | reload
  | unloads
  | go
  | swap
  | refuse
  | ok (b : Bool)
  | engine (c : EngineChoice)
  | identity (reached : Bool) (served : Option ℕ)

/-! ## The engine -/

variable (cfg : LlamaAdapter.Config)

/-- A step of a load, with its rebind. -/
def loadStep (c : EngineChoice) (x : Engine) (k : EnginePc) : Option (Engine × EnginePc) :=
  (HostAgent.LlamaAdapter.rebind cfg c x k).or (HostAgent.LlamaAdapter.load cfg c x k)

/-- A step of a rebind, of a load or of a reload. -/
def engineStep (c : EngineChoice) (x : Engine) (k : EnginePc) : Option (Engine × EnginePc) :=
  (loadStep cfg c x k).or (HostAgent.LlamaAdapter.reload c x k)

/-- Inside `ensure_loaded`, past the check for a child that is ready. -/
def inLoad : EnginePc → Bool
  | .checking (.load _) | .resolving (.load _) | .writing _ (.load _) | .probing (.load _)
  | .estimating .. | .acquiring .. | .spawning .. | .starting .. | .waiting .. => true
  | _ => false

/-- The steps of a load that end it with a child. -/
def loads : EnginePc → EngineChoice → Bool
  | .ensuring _, .ok true | .waiting _ _, .ok true => true
  | _, _ => false

/-! ## The calls -/

namespace Shared

variable (x : Shared) (t : ThreadId)

def unlock : Shared := { x with lock := if x.lock = some t then none else x.lock }

/-- Both locks, of the agent and of the gateway. -/
def leave : Shared :=
  { x.unlock t with gpuLock := if x.gpuLock = some t then none else x.gpuLock }

end Shared

/-- `LlamaAdapter.health`, as `llm_identity` calls it: `_resident()`, then
`_loaded`; of a child its identity, else the binding's after a rebind. A payload
that cannot be built (`_loaded` is gone) is no payload. -/
def health (choice : Choice) (x : Shared) (k : Pc) : Option (Shared × Pc) :=
  match k, choice with
  | .asking r, .go =>
      some (x, if x.engine.serving.isSome then .resident r else .rebinding r (.checking .poll))
  | .resident r, .go =>
      some (x, if x.engine.fields.loaded.isSome then .warm r else .rebinding r (.checking .poll))
  | .warm r, .go => some (x, .told r (x.engine.fields.loaded.elim .unknown .ofLoaded))
  | .rebinding r k, .engine c =>
      (HostAgent.LlamaAdapter.rebind cfg c x.engine k).map fun (y, k') =>
        ({ x with engine := y }, match k' with | .idle => .naming r | k' => .rebinding r k')
  | .naming r, .go => some (x, .versioning r x.engine.fields.binding.modelAlias)
  | .versioning r name, .go => some (x, .told r ⟨name, x.engine.fields.binding.registryVersion⟩)
  | _, _ => none

/-- The identity as the route has it. -/
def identified (reached : Bool) (served : Option ℕ) (id : Identity) : Identity :=
  if reached then (Identity.fromHealth id).orServing served else .unknown

/-- The routes, around `health` and the call of the engine. -/
def route (t : ThreadId) (choice : Choice) (x : Shared) (k : Pc) : Option (Shared × Pc) :=
  match k, choice with
  | .idle, .infer preempt => some (x, .queueing (.infer preempt))
  | .idle, .stream preempt => some (x, .asking (.stream preempt))
  | .idle, .direct preempt => some (x, .posting (.direct preempt))
  | .told (.stream preempt) id, .identity reached served =>
      some (x, .queueing (.stream preempt (identified reached served id)))
  | .told (.infer child) id, .identity reached served =>
      let ident := identified reached served id
      some ({ x with predictions := ⟨ident, ident, child⟩ :: x.predictions }, .idle)
  | .queueing q, .go =>
      if x.gpuLock = none then some ({ x with gpuLock := some t }, .posting q) else none
  | .answered q child, .go =>
      match q with
      | .infer _ => some (x.leave t, .asking (.infer child))
      | .stream _ shown =>
          let y := x.leave t
          some ({ y with predictions := ⟨shown, shown, child⟩ :: y.predictions }, .idle)
      | .direct _ => some (x.leave t, .idle)
  | _, _ => none

/-- `_forward_under_lease` and `stream_frames`: the runtime's lock is held from
the load to the end of the answer. The child has to live to give it. -/
def forward (t : ThreadId) (choice : Choice) (x : Shared) (k : Pc) : Option (Shared × Pc) :=
  match k, choice with
  | .posting q, .go =>
      if x.lock = none then some ({ x with lock := some t }, .loading q (.ensuring .request)) else none
  -- `preempt_for`: the probe, then another tenant's eviction, then the load
  | .posting q, .swap =>
      if x.lock = none ∧ q.preempt then
        some ({ x with lock := some t }, .preempting q (.checking .poll))
      else none
  | .preempting q k, .engine c =>
      (HostAgent.LlamaAdapter.rebind cfg c x.engine k).map fun (y, k') =>
        ({ x with engine := y },
          match k' with | .idle => .loading q (.ensuring .request) | k' => .preempting q k')
  | .preempting _ _, .refuse => some (x.leave t, .idle)
  | .loading q k, .engine c =>
      (loadStep cfg c x.engine k).map fun (y, k') =>
        match k' with
        | .idle =>
            if loads k c then ({ x with engine := y }, .forwarding q)
            else ({ x with engine := y }.leave t, .idle)
        | k' => ({ x with engine := y }, .loading q k')
  | .forwarding q, .ok true => x.engine.serving.map fun child => (x, .answered q child)
  | .forwarding _, .ok false => some (x.leave t, .idle)
  | _, _ => none

/-- Polls, reloads and unloads. A reload takes the runtime's lock to load. -/
def others (t : ThreadId) (choice : Choice) (x : Shared) (k : Pc) : Option (Shared × Pc) :=
  match k, choice with
  | .idle, .poll => some (x, .apart (.checking .poll))
  | .idle, .reload => some (x, .apart (.snapshotting []))
  -- the idle reaper, an eviction, a hard cut, the child's own exit
  | .idle, .unloads => some ({ x with engine := { x.engine with serving := none } }, .idle)
  | .apart k, .engine c =>
      (engineStep cfg c x.engine k).bind fun (y, k') =>
        if inLoad k' then
          if x.lock = none ∨ x.lock = some t then
            some ({ x with engine := y, lock := some t }, .apart k')
          else none
        else some ({ x with engine := y }.unlock t, match k' with | .idle => .idle | k' => .apart k')
  | _, _ => none

def advance : Interleaving.Program ThreadId Shared Pc Choice := fun t choice x k =>
  (health cfg choice x k).or
    ((route t choice x k).or ((forward cfg t choice x k).or (others cfg t choice x k)))

abbrev Sys := Interleaving.State ThreadId Shared Pc

abbrev Act := ThreadId × Choice

abbrev next : Sys → Act → Option Sys := Interleaving.next (advance cfg)

def Sys.init : Sys :=
  ⟨⟨(HostAgent.LlamaAdapter.Sys.init cfg).shared, none, none, []⟩, fun _ => .idle⟩

/-! ## What is asked -/

/-- A prediction of a child spawned with a registry version, logged under a
model, is logged and shown under that child's. -/
def Prediction.Attributed (p : Prediction) : Prop :=
  p.child.loaded.registryVersion ≠ none → p.row.model ≠ "unknown" →
    p.row = .ofLoaded p.child.loaded ∧ p.shown = .ofLoaded p.child.loaded

def PredictionsAttributed (ok : Sys → Act → Prop) : Prop :=
  ∀ s, Runs.Reachable (next cfg) ok (Sys.init cfg) s →
    ∀ p ∈ s.shared.predictions, p.Attributed

/-- What the agent reports: of the child it has, else of the next. -/
def reported (x : Engine) : Identity :=
  match x.serving, x.fields.loaded with
  | some _, some l => .ofLoaded l
  | _, _ => .ofBinding x.fields.binding

/-- Between the two calls of a route: from the answer to the identity, from the
identity to the answer. -/
def Pc.between : Pc → Bool
  | asking (.infer _) | resident (.infer _) | warm (.infer _) | rebinding (.infer _) _
  | naming (.infer _) | versioning _ _ => true
  | told (.stream _) _ => true
  | queueing (.stream ..) | posting (.stream ..) | preempting (.stream ..) _
  | loading (.stream ..) _ | forwarding (.stream ..) => true
  | answered (.infer _) _ => true
  | _ => false

/-- A child is about to serve. -/
def starting : EnginePc → Bool
  | .starting .. | .waiting .. => true
  | _ => false

def Pc.starting : Pc → Bool
  | apart k | loading _ k => ServedIdentity.starting k
  | _ => false

/-- What the agent reports stays as it is between the two calls of a route; a
health call reads the fields that say it; and a reload that failed restores no
identity over that of a child that serves or is about to. -/
def Steady (s : Sys) (a : Act) : Prop :=
  (∀ s', next cfg s a = some s' → ∀ u, (s.pc u).between →
    reported s'.shared.engine = reported s.shared.engine) ∧
  match s.pc a.1, a.2 with
  | .warm _, .go =>
      ∀ l ∈ s.shared.engine.fields.loaded, Identity.ofLoaded l = reported s.shared.engine
  | .naming _, .go | .versioning _ _, .go =>
      Identity.ofBinding s.shared.engine.fields.binding = reported s.shared.engine
  | .apart (.restoring [] _), .engine (.now _) =>
      s.shared.engine.serving = none ∧ ∀ u, (s.pc u).starting = false
  | _, _ => True

/-! ## The engine's part -/

section

open HostAgent.LlamaAdapter (rebind load reload)

variable {cfg : LlamaAdapter.Config} {x y : Engine} {k k' : EnginePc} {c : EngineChoice}

/-- The child that serves is the one whose identity was captured. -/
def Serves (x : Engine) : Prop :=
  ∀ child, x.serving = some child → x.fields.loaded = some child.loaded

/-- A load stands where nothing serves yet. -/
def Clear (x : Engine) : EnginePc → Prop
  | .estimating .. | .acquiring .. | .spawning .. => x.serving = none
  | .starting _ child | .waiting _ child =>
      x.serving = none ∧ x.fields.loaded = some child.loaded
  | _ => True

/-- A step that spawns nothing and restores nothing. -/
structure Still (x y : Engine) : Prop where
  loaded : y.fields.loaded = x.fields.loaded
  serving : y.serving = x.serving ∨ y.serving = none

theorem Still.refl : Still x x := ⟨rfl, .inl rfl⟩

theorem Serves.still (h : Serves x) (hs : Still x y) : Serves y := by
  intro child hc
  rw [hs.loaded]
  rcases hs.serving with heq | hnone
  · exact h child (heq ▸ hc)
  · rw [hnone] at hc
    cases hc

theorem Clear.still (h : Clear x k) (hs : Still x y) : Clear y k := by
  have hserving : x.serving = none → y.serving = none := by
    intro hnone
    rcases hs.serving with heq | hnone'
    · exact heq.trans hnone
    · exact hnone'
  cases k with
  | estimating | acquiring | spawning => exact hserving h
  | starting _ child | waiting _ child => exact ⟨hserving h.1, hs.loaded.trans h.2⟩
  | _ => trivial

theorem Clear.of_not_inLoad (h : inLoad k = false) : Clear x k := by
  cases k <;> trivial

/-- A rebind touches neither the child nor what was captured; a load that
passes its probe has reaped a child that was not ready. -/
theorem rebind_still (h : rebind cfg c x k = some (y, k')) :
    Still x y ∧ Clear y k' := by
  unfold rebind at h
  split at h
  · rename_i w _
    cases h
    refine ⟨.refl, ?_⟩
    split
    · cases w <;> trivial
    · trivial
  · cases h
    exact ⟨⟨rfl, .inl rfl⟩, trivial⟩
  · rename_i w
    cases h
    exact ⟨.refl, by cases w <;> trivial⟩
  · cases h
    exact ⟨⟨by simp, .inl rfl⟩, trivial⟩
  · rename_i w filesOk
    dsimp only at h
    split at h
    · cases h
      exact ⟨.refl, trivial⟩
    · cases h
      exact ⟨.refl, by split <;> trivial⟩
    · cases h
      exact ⟨.refl, by split <;> trivial⟩
    · cases h
      exact ⟨.refl, by split <;> trivial⟩
    · split at h
      · cases h
        exact ⟨⟨rfl, .inr rfl⟩, rfl⟩
      · rename_i caller _
        cases h
        refine ⟨.refl, ?_⟩
        rcases caller with _ | _ | _
        · trivial
        · rename_i snap
          cases snap <;> trivial
        · trivial
  · cases h

theorem Clear.failed {caller : HostAgent.LlamaAdapter.Caller} : Clear x caller.failed := by
  rcases caller with _ | snap | _
  · trivial
  · cases snap <;> trivial
  · trivial

theorem Clear.loaded {caller : HostAgent.LlamaAdapter.Caller} {child : LlamaAdapter.Child} :
    Clear x (caller.loaded child) := by
  cases caller <;> trivial

/-- A load captures an identity where nothing serves and serves the child it
captured it for. -/
theorem load_serves (hx : Serves x) (hk : Clear x k) (h : load cfg c x k = some (y, k')) :
    Serves y ∧ Clear y k' := by
  unfold load at h
  split at h
  · cases h
    exact ⟨hx, .failed⟩
  · obtain ⟨child, -, heq⟩ := Option.map_eq_some_iff.mp h
    cases heq
    exact ⟨hx, .loaded⟩
  · cases h
    exact ⟨hx, trivial⟩
  · split at h <;> cases h
    exact ⟨hx, hk⟩
  · split at h <;> cases h
    exact ⟨hx, hk⟩
  · cases h
    refine ⟨hx, ?_⟩
    split
    · exact hk
    · exact .failed
  · split at h
    · cases h
      exact ⟨hx, hk⟩
    · cases h
      have hnone : x.serving = none := hk
      refine ⟨fun child hc => ?_, hnone, rfl⟩
      rw [show x.serving = some child from hc] at hnone
      cases hnone
  · split at h
    · cases h
      exact ⟨hx, hk⟩
    · cases h
      exact ⟨hx, .failed⟩
  · split at h
    · cases h
      refine ⟨fun child hc => ?_, .loaded⟩
      cases hc
      exact hk.2
    · cases h
      exact ⟨hx, .failed⟩
  · cases h

theorem load_still (hout : inLoad k = false) (h : load cfg c x k = some (y, k')) : Still x y := by
  unfold load at h
  split at h <;> try cases hout
  · cases h
    exact .refl
  · obtain ⟨child, -, heq⟩ := Option.map_eq_some_iff.mp h
    cases heq
    exact .refl
  · cases h
    exact .refl
  · cases h

theorem reload_clear (h : reload c x k = some (y, k')) : Clear y k' := by
  unfold reload at h
  split at h
  · split at h <;> cases h <;> trivial
  · split at h
    · cases h
      trivial
    · split at h <;> cases h
      trivial
    · split at h <;> cases h
      trivial
    · cases h
      trivial
  · split at h
    · cases h
      trivial
    · split at h <;> cases h
      trivial
  · split at h
    · cases h
    · split at h <;> cases h <;> trivial
  · split at h <;> cases h <;> trivial
  · split at h <;> cases h <;> trivial
  · cases h
    trivial
  · cases h
    trivial
  · cases h

theorem reload_still (hrestore : ∀ snap now, k = .restoring [] snap → c ≠ .now now)
    (h : reload c x k = some (y, k')) : Still x y := by
  unfold reload at h
  split at h
  · split at h <;> cases h <;> exact .refl
  · split at h
    · cases h
      exact .refl
    · split at h <;> cases h
      exact .refl
    · split at h <;> cases h
      exact .refl
    · cases h
      exact .refl
  · split at h
    · cases h
      exact .refl
    · split at h <;> cases h
      exact .refl
  · split at h
    · cases h
    · split at h <;> cases h
      · exact ⟨rfl, .inr rfl⟩
      · exact .refl
  · split at h <;> cases h <;> exact ⟨rfl, .inl rfl⟩
  · split at h <;> cases h <;> exact ⟨rfl, .inl rfl⟩
  · cases h
    exact ⟨by simp, .inl rfl⟩
  · rename_i snap now
    exact absurd rfl (hrestore snap now rfl)
  · cases h

/-- What was captured is restored where nothing serves. -/
theorem reload_serves (hx : Serves x)
    (hrestore : ∀ snap now, k = .restoring [] snap → c = .now now → x.serving = none)
    (h : reload c x k = some (y, k')) : Serves y := by
  by_cases hback : ∃ snap now, k = .restoring [] snap ∧ c = .now now
  · obtain ⟨snap, now, rfl, rfl⟩ := hback
    have hnone := hrestore snap now rfl rfl
    cases h
    intro child hc
    rw [show x.serving = some child from hc] at hnone
    cases hnone
  · refine hx.still (reload_still (fun snap now hk hc => ?_) h)
    exact hback ⟨snap, now, hk, hc⟩

theorem loadStep_serves (hx : Serves x) (hk : Clear x k)
    (h : loadStep cfg c x k = some (y, k')) : Serves y ∧ Clear y k' := by
  rcases Option.or_eq_some_iff.mp h with h | ⟨-, h⟩
  · obtain ⟨hstill, hclear⟩ := rebind_still h
    exact ⟨hx.still hstill, hclear⟩
  · exact load_serves hx hk h

/-- A step in the engine, of the thread that takes it. -/
theorem engineStep_serves (hx : Serves x) (hk : Clear x k)
    (hrestore : ∀ snap now, k = .restoring [] snap → c = .now now → x.serving = none)
    (h : engineStep cfg c x k = some (y, k')) : Serves y ∧ Clear y k' := by
  rcases Option.or_eq_some_iff.mp h with h | ⟨-, h⟩
  · exact loadStep_serves hx hk h
  · exact ⟨reload_serves hx hrestore h, reload_clear h⟩

/-- A step in the engine, for the others: outside a load nothing is spawned. -/
theorem engineStep_still (hout : inLoad k = false)
    (hrestore : ∀ snap now, k = .restoring [] snap → c ≠ .now now)
    (h : engineStep cfg c x k = some (y, k')) : Still x y := by
  rcases Option.or_eq_some_iff.mp h with h | ⟨-, h⟩
  · rcases Option.or_eq_some_iff.mp h with h | ⟨-, h⟩
    · exact (rebind_still h).1
    · exact load_still hout h
  · exact reload_still hrestore h

end

/-! ## The calls' part -/

section

variable {cfg : LlamaAdapter.Config} {t u : ThreadId} {x y : Shared} {k k' : Pc} {choice : Choice}

/-- An identity found is a child's with a registry version, or unknown. -/
def Identity.For (id real : Identity) : Prop :=
  id.model ≠ "unknown" → real.version ≠ none → id = real

/-- What a route knows between its two calls. -/
def Request.Knows (x : Engine) : Request → Prop
  | stream _ shown => shown.For (reported x)
  | _ => True

def Reader.Knows (x : Engine) : Reader → Prop
  | infer child => reported x = .ofLoaded child.loaded
  | stream _ => True

/-- What the answer to a health call says. -/
def Reader.Told (x : Engine) (id : Identity) : Reader → Prop
  | infer child => id = .ofLoaded child.loaded ∨ id.model = "unknown"
  | stream _ => id = reported x ∨ id.model = "unknown"

def Request.Answered (x : Engine) (child : LlamaAdapter.Child) : Request → Prop
  | infer _ => reported x = .ofLoaded child.loaded
  | stream _ shown => shown.For (.ofLoaded child.loaded)
  | direct _ => True

def Knows (x : Engine) : Pc → Prop
  | .asking r | .resident r | .warm r | .rebinding r _ | .naming r => r.Knows x
  | .versioning r name => r.Knows x ∧ name = (reported x).model
  | .told r id => r.Told x id
  | .queueing q | .posting q | .preempting q _ | .loading q _ | .forwarding q => q.Knows x
  | .answered q child => q.Answered x child
  | _ => True

/-- The steps of a thread that hold the runtime's lock. -/
def Pc.holds : Pc → Bool
  | apart k => inLoad k
  | preempting .. | loading .. | forwarding _ | answered .. => true
  | _ => false

/-- Where the thread stands in the engine. -/
def Pc.Clear (x : Engine) : Pc → Prop
  | apart k | loading _ k => ServedIdentity.Clear x k
  | _ => True

structure Local (t : ThreadId) (x : Shared) (k : Pc) : Prop where
  knows : Knows x.engine k
  lock : k.holds = true → x.lock = some t
  clear : k.Clear x.engine

structure Inv (x : Shared) : Prop where
  serves : Serves x.engine
  attributed : ∀ p ∈ x.predictions, p.Attributed

theorem Knows.stable {x y : Engine} (h : Knows x k)
    (hr : k.between = true → reported y = reported x) : Knows y k := by
  cases k with
  | asking r | resident r | warm r | rebinding r _ | naming r =>
    cases r with
    | infer child => exact (hr rfl).trans h
    | stream _ => trivial
  | versioning r name =>
    have heq := hr rfl
    refine ⟨?_, by rw [heq]; exact h.2⟩
    cases r with
    | infer child => exact heq.trans h.1
    | stream _ => trivial
  | told r id =>
    cases r with
    | infer child => exact h
    | stream _ =>
      show id = reported y ∨ _
      rw [hr rfl]
      exact h
  | queueing q | posting q | preempting q _ | loading q _ | forwarding q =>
    cases q with
    | stream _ shown =>
      show shown.For (reported y)
      rw [hr rfl]
      exact h
    | _ => trivial
  | answered q child =>
    cases q with
    | infer _ => exact (hr rfl).trans h
    | _ => exact h
  | _ => trivial

theorem reported_of_serving {x : Engine} {child : LlamaAdapter.Child} (hx : Serves x)
    (hc : x.serving = some child) : reported x = .ofLoaded child.loaded := by
  rw [reported, hc, hx child hc]

theorem Identity.For.identified {id real : Identity} {reached : Bool} {served : Option ℕ}
    (h : id = real ∨ id.model = "unknown") : (identified reached served id).For real := by
  intro hmodel hversion
  cases reached with
  | false => exact absurd rfl hmodel
  | true =>
    obtain ⟨v, hv⟩ := Option.ne_none_iff_exists'.mp hversion
    rcases h with rfl | hunknown
    · by_cases hempty : id.model = ""
      · simp [ServedIdentity.identified, Identity.fromHealth, Identity.orServing, hempty] at hmodel
      · have hsame : Identity.fromHealth id = id := by
          rw [Identity.fromHealth, if_neg hempty]
        simp [ServedIdentity.identified, hsame, Identity.orServing, hv]
    · simp [ServedIdentity.identified, Identity.fromHealth, Identity.orServing, hunknown] at hmodel

theorem attributed_of_for {id : Identity} {child : LlamaAdapter.Child}
    (h : id.For (.ofLoaded child.loaded)) : (Prediction.mk id id child).Attributed := by
  intro hversion hmodel
  have heq := h hmodel hversion
  exact ⟨heq, heq⟩

theorem Inv.log (hx : Inv x) {id : Identity} {child : LlamaAdapter.Child}
    (h : id.For (.ofLoaded child.loaded)) :
    ∀ p ∈ (⟨id, id, child⟩ :: x.predictions : List Prediction), p.Attributed := by
  intro p hp
  rcases List.mem_cons.mp hp with rfl | hp
  · exact attributed_of_for h
  · exact hx.attributed p hp

/-- What `Steady` says of a step of `t` from `k`. -/
structure Fits (x : Shared) (k : Pc) (choice : Choice) (y : Shared) : Prop where
  between : k.between = true → reported y.engine = reported x.engine
  warm : ∀ r, k = .warm r → choice = .go →
    ∀ l ∈ x.engine.fields.loaded, Identity.ofLoaded l = reported x.engine
  naming : ∀ r, k = .naming r → choice = .go →
    Identity.ofBinding x.engine.fields.binding = reported x.engine
  versioning : ∀ r name, k = .versioning r name → choice = .go →
    Identity.ofBinding x.engine.fields.binding = reported x.engine
  restoring : ∀ snap now, k = .apart (.restoring [] snap) → choice = .engine (.now now) →
    x.engine.serving = none

theorem health_keeps (hx : Inv x) (hk : Local t x k) (hfit : Fits x k choice y)
    (h : health cfg choice x k = some (y, k')) : Inv y ∧ Local t y k' := by
  have hknows := hk.knows
  unfold health at h
  split at h
  · rename_i r
    cases h
    refine ⟨hx, ?_, ?_, ?_⟩ <;> split <;> first | exact hknows | trivial | simp [Pc.holds]
  · rename_i r
    cases h
    refine ⟨hx, ?_, ?_, ?_⟩ <;> split <;> first | exact hknows | trivial | simp [Pc.holds]
  · rename_i r
    cases h
    refine ⟨hx, ?_, by simp [Pc.holds], trivial⟩
    have hwarm := hfit.warm r rfl rfl
    cases hl : x.engine.fields.loaded with
    | none =>
      cases r with
      | infer child => exact .inr rfl
      | stream p => exact .inr rfl
    | some l =>
      have heq := hwarm l hl
      cases r with
      | infer child => exact .inl (heq.trans hknows)
      | stream p => exact .inl heq
  · rename_i r k c
    obtain ⟨⟨e, k'⟩, hstep, heq⟩ := Option.map_eq_some_iff.mp h
    obtain ⟨rfl, rfl⟩ := Prod.mk.inj heq
    obtain ⟨hstill, -⟩ := rebind_still hstep
    refine ⟨⟨hx.serves.still hstill, hx.attributed⟩, ?_, ?_, ?_⟩
    · have hr : r.Knows e := by
        cases r with
        | infer child => exact (hfit.between rfl).trans hknows
        | stream p => trivial
      split <;> exact hr
    · split <;> simp [Pc.holds]
    · split <;> trivial
  · rename_i r
    cases h
    have heq := hfit.naming r rfl rfl
    refine ⟨hx, ⟨hknows, ?_⟩, by simp [Pc.holds], trivial⟩
    exact congrArg Identity.model heq
  · rename_i r name
    cases h
    have heq := hfit.versioning r name rfl rfl
    obtain ⟨hr, hname⟩ := hknows
    have hid : (⟨name, x.engine.fields.binding.registryVersion⟩ : Identity) = reported x.engine := by
      rw [hname]
      exact congrArg (Identity.mk (reported x.engine).model) (congrArg Identity.version heq)
    refine ⟨hx, ?_, by simp [Pc.holds], trivial⟩
    cases r with
    | infer child => exact .inl (hid.trans hr)
    | stream p => exact .inl hid
  · cases h

theorem route_keeps (hx : Inv x) (hk : Local t x k)
    (h : route t choice x k = some (y, k')) : Inv y ∧ Local t y k' := by
  have hknows := hk.knows
  unfold route at h
  split at h
  · cases h
    exact ⟨hx, trivial, by simp [Pc.holds], trivial⟩
  · cases h
    exact ⟨hx, trivial, by simp [Pc.holds], trivial⟩
  · cases h
    exact ⟨hx, trivial, by simp [Pc.holds], trivial⟩
  · cases h
    exact ⟨hx, Identity.For.identified hknows, by simp [Pc.holds], trivial⟩
  · cases h
    exact ⟨⟨hx.serves, hx.log (.identified hknows)⟩, trivial, by simp [Pc.holds], trivial⟩
  · rename_i q
    split at h <;> cases h
    exact ⟨⟨hx.serves, hx.attributed⟩, hknows, by simp [Pc.holds], trivial⟩
  · rename_i q child
    split at h
    · cases h
      exact ⟨⟨hx.serves, hx.attributed⟩, hknows, by simp [Pc.holds], trivial⟩
    · cases h
      exact ⟨⟨hx.serves, hx.log hknows⟩, trivial, by simp [Pc.holds], trivial⟩
    · cases h
      exact ⟨⟨hx.serves, hx.attributed⟩, trivial, by simp [Pc.holds], trivial⟩
  · cases h

theorem Request.Knows.of_between {q : Request} {x y : Engine} (h : q.Knows x)
    (hr : (∃ p shown, q = .stream p shown) → reported y = reported x) : q.Knows y := by
  cases q with
  | stream p shown =>
    show shown.For (reported y)
    rw [hr ⟨p, shown, rfl⟩]
    exact h
  | _ => trivial

theorem forward_keeps (hx : Inv x) (hk : Local t x k) (hfit : Fits x k choice y)
    (h : forward cfg t choice x k = some (y, k')) : Inv y ∧ Local t y k' := by
  have hknows := hk.knows
  unfold forward at h
  split at h
  · split at h <;> cases h
    exact ⟨⟨hx.serves, hx.attributed⟩, hknows, fun _ => rfl, trivial⟩
  · split at h <;> cases h
    exact ⟨⟨hx.serves, hx.attributed⟩, hknows, fun _ => rfl, trivial⟩
  · rename_i q k c
    obtain ⟨⟨e, k'⟩, hstep, heq⟩ := Option.map_eq_some_iff.mp h
    obtain ⟨rfl, rfl⟩ := Prod.mk.inj heq
    obtain ⟨hstill, -⟩ := rebind_still hstep
    have hq : q.Knows e := by
      refine Request.Knows.of_between hknows ?_
      rintro ⟨p, shown, rfl⟩
      exact hfit.between rfl
    have hlock := hk.lock rfl
    refine ⟨⟨hx.serves.still hstill, hx.attributed⟩, ?_, ?_, ?_⟩
    · split <;> exact hq
    · split <;> exact fun _ => hlock
    · split <;> trivial
  · cases h
    exact ⟨⟨hx.serves, hx.attributed⟩, trivial, by simp [Pc.holds], trivial⟩
  · rename_i q k c
    obtain ⟨⟨e, k'⟩, hstep, heq⟩ := Option.map_eq_some_iff.mp h
    obtain ⟨hserves, hclear⟩ := loadStep_serves hx.serves hk.clear hstep
    have hlock := hk.lock rfl
    have hq : reported y.engine = reported e → q.Knows e := by
      intro heng
      refine Request.Knows.of_between hknows ?_
      rintro ⟨p, shown, rfl⟩
      exact heng.symm.trans (hfit.between rfl)
    dsimp only at heq
    split at heq
    · split at heq
      · obtain ⟨rfl, rfl⟩ := Prod.mk.inj heq
        exact ⟨⟨hserves, hx.attributed⟩, hq rfl, fun _ => hlock, trivial⟩
      · obtain ⟨rfl, rfl⟩ := Prod.mk.inj heq
        exact ⟨⟨hserves, hx.attributed⟩, trivial, by simp [Pc.holds], trivial⟩
    · obtain ⟨rfl, rfl⟩ := Prod.mk.inj heq
      exact ⟨⟨hserves, hx.attributed⟩, hq rfl, fun _ => hlock, hclear⟩
  · rename_i q
    obtain ⟨child, hchild, heq⟩ := Option.map_eq_some_iff.mp h
    obtain ⟨rfl, rfl⟩ := Prod.mk.inj heq
    have hreported := reported_of_serving hx.serves hchild
    refine ⟨hx, ?_, fun _ => hk.lock rfl, trivial⟩
    cases q with
    | infer p => exact hreported
    | stream p shown =>
      have hshown : shown.For (reported x.engine) := hknows
      rwa [hreported] at hshown
    | direct p => trivial
  · cases h
    exact ⟨⟨hx.serves, hx.attributed⟩, trivial, by simp [Pc.holds], trivial⟩
  · cases h

theorem others_keeps (hx : Inv x) (hk : Local t x k) (hfit : Fits x k choice y)
    (h : others cfg t choice x k = some (y, k')) : Inv y ∧ Local t y k' := by
  unfold others at h
  split at h
  · cases h
    exact ⟨hx, trivial, by simp [Pc.holds, inLoad], trivial⟩
  · cases h
    exact ⟨hx, trivial, by simp [Pc.holds, inLoad], trivial⟩
  · cases h
    exact ⟨⟨hx.serves.still ⟨rfl, .inr rfl⟩, hx.attributed⟩, trivial, by simp [Pc.holds], trivial⟩
  · rename_i k c
    obtain ⟨⟨e, k'⟩, hstep, heq⟩ := Option.bind_eq_some_iff.mp h
    obtain ⟨hserves, hclear⟩ := engineStep_serves hx.serves hk.clear
      (fun snap now hk hc => hfit.restoring snap now (by rw [hk]) (by rw [hc])) hstep
    dsimp only at heq
    split at heq
    · split at heq <;> cases heq
      exact ⟨⟨hserves, hx.attributed⟩, trivial, fun _ => rfl, hclear⟩
    · rename_i hout
      cases heq
      refine ⟨⟨hserves, hx.attributed⟩, ?_, ?_, ?_⟩
      · split <;> trivial
      · split
        · simp [Pc.holds]
        · intro hin
          exact absurd hin hout
      · split
        · trivial
        · exact hclear
  · cases h

/-! ## The other threads -/

theorem Shared.unlock_lock (hu : u ≠ t) (hl : x.lock = some u) : (x.unlock t).lock = some u := by
  have hne : x.lock ≠ some t := by
    rw [hl]
    intro heq
    exact hu (Option.some_inj.mp heq)
  rw [unlock, if_neg hne]
  exact hl

theorem advance_eq (h : advance cfg t choice x k = some (y, k')) :
    health cfg choice x k = some (y, k') ∨ route t choice x k = some (y, k') ∨
      forward cfg t choice x k = some (y, k') ∨ others cfg t choice x k = some (y, k') := by
  simp only [advance, Option.or_eq_some_iff] at h
  tauto

/-- The runtime's lock stays with who has it. -/
theorem advance_lock (hu : u ≠ t) (hl : x.lock = some u)
    (h : advance cfg t choice x k = some (y, k')) : y.lock = some u := by
  have hheld : x.lock ≠ none := by simp [hl]
  rcases advance_eq h with h | h | h | h
  · unfold health at h
    split at h <;> try cases h
    all_goals first | exact hl | skip
    obtain ⟨⟨e, k'⟩, -, heq⟩ := Option.map_eq_some_iff.mp h
    cases heq
    exact hl
  · unfold route at h
    split at h <;> try cases h
    all_goals first | exact hl | skip
    · split at h <;> cases h
      exact hl
    · split at h <;> cases h
      · exact Shared.unlock_lock hu hl
      · exact Shared.unlock_lock hu hl
      · exact Shared.unlock_lock hu hl
  · unfold forward at h
    split at h <;> try cases h
    · rw [if_neg hheld] at h
      cases h
    · rw [if_neg fun hc => hheld hc.1] at h
      cases h
    · obtain ⟨⟨e, k'⟩, -, heq⟩ := Option.map_eq_some_iff.mp h
      cases heq
      exact hl
    · exact Shared.unlock_lock hu hl
    · obtain ⟨⟨e, k'⟩, -, heq⟩ := Option.map_eq_some_iff.mp h
      dsimp only at heq
      split at heq
      · split at heq <;> cases heq
        · exact hl
        · exact Shared.unlock_lock (x := { x with engine := e }) hu hl
      · cases heq
        exact hl
    · obtain ⟨child, -, heq⟩ := Option.map_eq_some_iff.mp h
      cases heq
      exact hl
    · exact Shared.unlock_lock hu hl
  · unfold others at h
    split at h <;> try cases h
    · exact hl
    · exact hl
    · exact hl
    · obtain ⟨⟨e, k'⟩, -, heq⟩ := Option.bind_eq_some_iff.mp h
      dsimp only at heq
      split at heq
      · rw [if_neg] at heq
        · cases heq
        · rintro (hnone | hself)
          · exact hheld hnone
          · rw [hl] at hself
            exact hu (Option.some_inj.mp hself)
      · cases heq
        exact Shared.unlock_lock (x := { x with engine := e }) hu hl

/-- While another thread holds the lock the engine's child is at most unloaded,
and what was captured at most restored. -/
theorem advance_still (hfree : k.holds = false) (h : advance cfg t choice x k = some (y, k')) :
    (y.engine.serving = x.engine.serving ∨ y.engine.serving = none) ∧
      ((∀ snap now, k = .apart (.restoring [] snap) → choice ≠ .engine (.now now)) →
        y.engine.fields.loaded = x.engine.fields.loaded) := by
  have hsame : ∀ {e : Engine}, Still x.engine e →
      (e.serving = x.engine.serving ∨ e.serving = none) ∧
        ((∀ snap now, k = .apart (.restoring [] snap) → choice ≠ .engine (.now now)) →
          e.fields.loaded = x.engine.fields.loaded) := fun hs => ⟨hs.serving, fun _ => hs.loaded⟩
  rcases advance_eq h with h | h | h | h
  · unfold health at h
    split at h <;> try cases h
    all_goals first | exact hsame .refl | skip
    obtain ⟨⟨e, k'⟩, hstep, heq⟩ := Option.map_eq_some_iff.mp h
    cases heq
    exact hsame (rebind_still hstep).1
  · unfold route at h
    split at h <;> try cases h
    all_goals first | exact hsame .refl | skip
    · split at h <;> cases h
      exact hsame .refl
    · split at h <;> cases h <;> exact hsame .refl
  · unfold forward at h
    split at h <;> try cases hfree
    · split at h <;> cases h
      exact hsame .refl
    · split at h <;> cases h
      exact hsame .refl
    · cases h
  · unfold others at h
    split at h <;> try cases h
    · exact hsame .refl
    · exact hsame .refl
    · exact hsame ⟨rfl, .inr rfl⟩
    · rename_i k c _
      obtain ⟨⟨e, k'⟩, hstep, heq⟩ := Option.bind_eq_some_iff.mp h
      have heng : y.engine = e := by
        dsimp only at heq
        split at heq
        · split at heq <;> cases heq
          rfl
        · cases heq
          rfl
      rw [heng]
      by_cases hback : ∃ snap now, k = .restoring [] snap ∧ c = .now now
      · obtain ⟨snap, now, rfl, rfl⟩ := hback
        cases hstep
        exact ⟨.inl rfl, fun hnot => absurd rfl (hnot snap now rfl)⟩
      · refine hsame (engineStep_still hfree (fun snap now hk hc => ?_) hstep)
        exact hback ⟨snap, now, hk, hc⟩

theorem Clear.calm {x y : Engine} {k : EnginePc} (h : ServedIdentity.Clear x k)
    (hserving : y.serving = x.serving ∨ y.serving = none)
    (hloaded : ServedIdentity.starting k = true → y.fields.loaded = x.fields.loaded) :
    ServedIdentity.Clear y k := by
  by_cases hs : ServedIdentity.starting k = true
  · exact h.still ⟨hloaded hs, hserving⟩
  · cases k with
    | estimating | acquiring | spawning =>
      rcases hserving with heq | hnone
      · exact heq.trans h
      · exact hnone
    | starting | waiting => exact absurd rfl hs
    | _ => trivial

/-- A step of `t` leaves what another thread stands on. -/
theorem Local.stable {k₀ : Pc} (h : Local u x k₀) (hk : Local t x k) (hu : u ≠ t)
    (hr : k₀.between = true → reported y.engine = reported x.engine)
    (hrestore : ∀ snap now, k = .apart (.restoring [] snap) → choice = .engine (.now now) →
      k₀.starting = false)
    (ha : advance cfg t choice x k = some (y, k')) : Local u y k₀ := by
  refine ⟨h.knows.stable hr, fun hholds => advance_lock hu (h.lock hholds) ha, ?_⟩
  have hclear := h.clear
  have hcalm : k₀.holds = true → (y.engine.serving = x.engine.serving ∨ y.engine.serving = none) ∧
      (k₀.starting = true → y.engine.fields.loaded = x.engine.fields.loaded) := by
    intro hholds
    have hfree : k.holds = false := by
      rw [Bool.eq_false_iff]
      intro hk'
      have heq := (h.lock hholds).symm.trans (hk.lock hk')
      exact hu (Option.some_inj.mp heq)
    obtain ⟨hserving, hloaded⟩ := advance_still hfree ha
    refine ⟨hserving, fun hs => hloaded fun snap now hk hc => ?_⟩
    rw [hrestore snap now hk hc] at hs
    cases hs
  cases k₀ with
  | apart e =>
    by_cases hin : inLoad e = true
    · obtain ⟨hserving, hloaded⟩ := hcalm hin
      exact Clear.calm hclear hserving hloaded
    · exact Clear.of_not_inLoad (Bool.eq_false_iff.mpr hin)
  | loading q e =>
    obtain ⟨hserving, hloaded⟩ := hcalm rfl
    exact Clear.calm hclear hserving hloaded
  | _ => trivial

/-! ## Runs -/

theorem Steady.fits {s : Sys} {x' : Shared} (h : Steady cfg s (t, choice))
    (ha : advance cfg t choice s.shared (s.pc t) = some (x', k')) :
    Fits s.shared (s.pc t) choice x' := by
  obtain ⟨hbetween, hreads⟩ := h
  refine ⟨fun hk => ?_, fun r hpc hc => ?_, fun r hpc hc => ?_, fun r name hpc hc => ?_,
    fun snap now hpc hc => ?_⟩
  · exact hbetween _ (Interleaving.next_eq_some.mpr ⟨x', k', ha, rfl⟩) t hk
  · simp only [hpc, hc] at hreads
    exact hreads
  · simp only [hpc, hc] at hreads
    exact hreads
  · simp only [hpc, hc] at hreads
    exact hreads
  · simp only [hpc, hc] at hreads
    exact hreads.1

theorem advance_keeps (hx : Inv x) (hk : Local t x k) (hfit : Fits x k choice y)
    (ha : advance cfg t choice x k = some (y, k')) : Inv y ∧ Local t y k' := by
  rcases advance_eq ha with h | h | h | h
  · exact health_keeps hx hk hfit h
  · exact route_keeps hx hk h
  · exact forward_keeps hx hk hfit h
  · exact others_keeps hx hk hfit h

theorem holds_next {s s' : Sys} {a : Act} (h : Interleaving.Holds Inv Local s)
    (hok : Steady cfg s a) (hn : next cfg s a = some s') : Interleaving.Holds Inv Local s' := by
  obtain ⟨t, choice⟩ := a
  refine h.next hn (fun x' k' ha => ?_) (fun x' k' ha u hu hL => ?_)
  · exact advance_keeps h.global (h.thread t) (hok.fits ha) ha
  · refine hL.stable (h.thread t) hu (fun hb => ?_) (fun snap now hpc hc => ?_) ha
    · exact hok.1 _ (Interleaving.next_eq_some.mpr ⟨x', k', ha, rfl⟩) u hb
    · have hreads := hok.2
      simp only [hpc, hc] at hreads
      exact hreads.2 u

theorem holds_init : Interleaving.Holds Inv Local (Sys.init cfg) where
  global := by
    refine ⟨fun child hc => ?_, fun p hp => ?_⟩
    · cases hc
    · cases hp
  thread t := by
    refine ⟨trivial, fun hh => ?_, trivial⟩
    cases hh

end

/-! ## Runs of one request -/

open HostAgent.LlamaAdapter (defaults served)

/-- `/infer` with a cold load, up to the answer. -/
def coldInfer : List Act :=
  ([(0, .infer false), (0, .go), (0, .go), (0, .engine .go), (0, .engine (.now 0)),
    (0, .engine (.answer (served "first" 1 "/models/first.gguf") 0))] : List Act) ++
    (List.replicate 8 (0, .engine .go) : List Act) ++
    ([(0, .engine (.probe true)), (0, .engine .go), (0, .engine .go),
      (0, .engine (.sizes fun _ => none)), (0, .engine (.ok true))] : List Act) ++
    (List.replicate 12 (0, .engine .go) : List Act) ++
    ([(0, .engine (.ok true)), (0, .engine (.ok true)), (0, .ok true), (0, .go)] : List Act)

/-- The identity of a child that is still there. -/
def identify : List Act := [(0, .go), (0, .go), (0, .go), (0, .identity true none)]

example : (Runs.run (next defaults) Runs.anyStep (Sys.init defaults) (coldInfer ++ identify)).map
    (fun s => s.shared.predictions.map fun p => (p.row, p.child.loaded.modelName)) =
      some [(⟨"first", some 1⟩, "first")] := by
  decide +kernel

/-- The child is unloaded before the identity is read, and the pointer has moved. -/
def identifyNext : List Act :=
  ([(1, .unloads), (0, .go), (0, .engine (.now 6)),
    (0, .engine (.answer (served "second" 1 "/models/second.gguf") 6))] : List Act) ++
    (List.replicate 8 (0, .engine .go) : List Act) ++
    ([(0, .engine (.probe true)), (0, .go), (0, .go), (0, .identity true none)] : List Act)

end MlopsLite.Gateway.ServedIdentity
