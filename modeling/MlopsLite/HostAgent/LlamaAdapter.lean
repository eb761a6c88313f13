import MlopsLite.Lib.Interleaving
import MlopsLite.HostAgent.ServingLlm

/-!
# LlamaAdapter — the binding, its readers and its writers

`rebind`, `available`, `estimate_vram`, `spawn` and the snapshot of
`LlamaAdapter` (`hostagent/adapters/llama.py`), as `ensure_loaded`
(`hostagent/lifecycle.py`) and `reload_serving_llm` (`hostagent/swap.py`) use
them. Every read and every write of a field is a step of its own. One thread
loads; the others poll, and a poll may rebind.
-/

namespace MlopsLite.HostAgent.LlamaAdapter

open ServingLlm (Target)

abbrev ThreadId := ℕ

abbrev Time := ℚ

/-- The four fields that say what the next spawn serves. -/
structure Binding where
  model : String
  lora : Option String
  modelAlias : String
  registryVersion : Option ℕ
  deriving DecidableEq

structure Config where
  envModel : String
  envLora : Option String
  envAlias : String
  rebindTtlS : Time
  vramBudgetGb : ℚ
  expanduser : String → String

def Config.env (cfg : Config) : Binding := ⟨cfg.envModel, cfg.envLora, cfg.envAlias, none⟩

/-- What `spawn` captures. -/
structure Loaded where
  modelName : String
  registryVersion : Option ℕ
  base : String
  adapter : Option String
  basePath : String
  adapterPath : Option String
  deriving DecidableEq

structure Fields where
  binding : Binding
  bindError : Option String
  bindNote : Option String
  boundAt : Option Time
  loaded : Option Loaded

/-! ## Rebinding -/

inductive Answer
  | target (t : Option Target)
  | unresolvable (message : String)
  | unavailable (message : String)
  | fails (message : String)

/-- One assignment. -/
inductive Write
  | model (v : String)
  | lora (v : Option String)
  | modelAlias (v : String)
  | registryVersion (v : Option ℕ)
  | bindError (v : Option String)
  | bindNote (v : Option String)
  | boundAt (v : Time)

def Write.apply (f : Fields) : Write → Fields
  | model v => { f with binding := { f.binding with model := v } }
  | lora v => { f with binding := { f.binding with lora := v } }
  | modelAlias v => { f with binding := { f.binding with modelAlias := v } }
  | registryVersion v => { f with binding := { f.binding with registryVersion := v } }
  | bindError v => { f with bindError := v }
  | bindNote v => { f with bindNote := v }
  | boundAt v => { f with boundAt := some v }

/-- A string or `None` as a condition takes it. -/
def truthy (v : Option String) : Option String := v.filter fun s => s ≠ ""

namespace Config

variable (cfg : Config)

/-- `_bind_to_env`. -/
def bindToEnv (note : Option String) : List Write :=
  [.model cfg.envModel, .lora cfg.envLora, .modelAlias cfg.envAlias, .registryVersion none,
    .bindError none, .bindNote note]

def bindingOf (t : Target) : Binding where
  model := cfg.expanduser t.baseGguf
  lora := (truthy t.adapterGguf).map cfg.expanduser
  modelAlias := t.modelName
  registryVersion := some t.version

/-- What a rebind assigns, in order. -/
def rebindWrites (now : Time) : Answer → List Write
  | .unresolvable e => [.bindError (some e), .bindNote none, .boundAt now]
  | .unavailable e => cfg.bindToEnv (some e) ++ [.boundAt now]
  | .fails e => cfg.bindToEnv (some ("unexpected resolution failure: " ++ e)) ++ [.boundAt now]
  | .target none => .bindError none :: cfg.bindToEnv none ++ [.boundAt now]
  | .target (some t) =>
      let b := cfg.bindingOf t
      [.bindError none, .model b.model, .lora b.lora, .modelAlias b.modelAlias,
        .registryVersion b.registryVersion, .bindNote none, .boundAt now]

/-- What an answer resolves to; an unresolvable target leaves the binding. -/
def resolution : Answer → Option Binding
  | .unresolvable _ => none
  | .unavailable _ | .fails _ | .target none => some cfg.env
  | .target (some t) => some (cfg.bindingOf t)

/-- The binding is fresh. -/
def fresh (now : Time) (f : Fields) : Bool := f.boundAt.any fun boundAt => now - boundAt < cfg.rebindTtlS

/-- `estimate_vram` of two paths; `sizes` is `os.path.getsize`, if the file is there. -/
def estimateVram (sizes : String → Option ℚ) (base : String) (lora : Option String) : ℚ :=
  let weights := match truthy lora with
    | none => sizes base
    | some l => (sizes base).bind fun b => (sizes l).map (b + ·)
  match weights with
  | none => cfg.vramBudgetGb * 0.95
  | some bytes => bytes / 1024 ^ 3 * 1.2 + 1

end Config

/-! ## A load -/

/-- An estimate with the paths it is of. -/
structure Estimate where
  basePath : String
  adapterPath : Option String
  gb : ℚ

/-- A child: what stands on its command line (`--lora` if there is one, with
its argument), the identity captured at its spawn, and the estimate it was
admitted with. -/
structure Child where
  model : String
  lora : Option (Option String)
  modelAlias : String
  loaded : Loaded
  estimate : Estimate

def basename (p : String) : String := String.ofList (p.toList.rtakeWhile fun c => c ≠ '/')

/-- The fields as one read after the other found them; each read is of one field. -/
abbrev Reads := List Fields

namespace Reads

variable (got : Reads) (i : ℕ)

def model : Option String := got[i]?.map fun f => f.binding.model

def lora : Option String := got[i]?.bind fun f => f.binding.lora

def modelAlias : Option String := got[i]?.map fun f => f.binding.modelAlias

def registryVersion : Option ℕ := got[i]?.bind fun f => f.binding.registryVersion

end Reads

def Estimate.ofReads (cfg : Config) (sizes : String → Option ℚ) (got : Reads) : Estimate :=
  let base := (got.model 0).getD ""
  ⟨base, got.lora 1, cfg.estimateVram sizes base (got.lora 1)⟩

/-- The reads of `spawn`: model, alias and the adapter twice for the command
line; alias, version, model, the adapter twice, model and adapter for
`_loaded`. The second of each pair is made only where the first found one. -/
def Child.ofReads (estimate : Estimate) (got : Reads) : Child where
  model := (got.model 0).getD ""
  modelAlias := (got.modelAlias 1).getD ""
  lora := if (truthy (got.lora 2)).isSome then some (got.lora 3) else none
  loaded := {
    modelName := (got.modelAlias 4).getD ""
    registryVersion := got.registryVersion 5
    base := basename ((got.model 6).getD "")
    adapter := if (truthy (got.lora 7)).isSome then (got.lora 8).map basename else none
    basePath := (got.model 9).getD ""
    adapterPath := got.lora 10 }
  estimate := estimate

/-- Who loads: a request, a reload (with its snapshot, if it restores after a
failure), or the reload that restores. -/
inductive Caller
  | request
  | reload (snap : Option Reads)
  | recovery

/-- Where a rebind stands: in a poll, in `reload_serving_llm` (forced, then in
its probe), in the probe of `preempt_for`, in that of a load. -/
inductive Within
  | poll
  | forced (snap : Reads)
  | target (snap : Reads)
  | preempt
  | load (c : Caller)

inductive Pc
  | idle
  | snapshotting (got : Reads)
  | checking (w : Within)
  | resolving (w : Within)
  | writing (todo : List Write) (w : Within)
  | probing (w : Within)
  | deciding (snap : Reads)
  | comparing (snap : Reads) (got : Reads)
  | naming (got : Reads)
  | ensuring (c : Caller)
  | estimating (c : Caller) (got : Reads)
  | acquiring (c : Caller) (est : Estimate)
  | spawning (c : Caller) (est : Estimate) (got : Reads)
  | starting (c : Caller) (child : Child)
  | waiting (c : Caller) (child : Child)
  | reporting (child : Child) (got : Reads)
  | restoring (todo : List Write) (snap : Reads)

/-- The answer of a reload, and the child it is about. -/
structure Result where
  modelName : String
  registryVersion : Option ℕ
  child : Option Child

/-- `serving` is the child that has become ready and lives. The rest is
history: what has been resolved, the children spawned, the answers given. -/
structure Shared where
  fields : Fields
  serving : Option Child
  resolutions : List Binding
  spawned : List Child
  results : List Result

inductive Decision
  | refuse
  | cold
  | preempt
  | compare

inductive Choice
  | poll
  | dies
  | request
  | reload
  | now (t : Time)
  | answer (a : Answer) (now : Time)
  | go
  | probe (filesOk : Bool)
  | decide (d : Decision)
  | sizes (sizes : String → Option ℚ)
  | ok (b : Bool)

/-- The one thread that loads. -/
def loader : ThreadId := 0

/-- `restore_binding`, up to `_loaded`. -/
def restoreWrites (snap : Reads) : List Write :=
  [.model ((snap.model 0).getD ""), .lora (snap.lora 1), .modelAlias ((snap.modelAlias 2).getD ""),
    .registryVersion (snap.registryVersion 3),
    .bindError (snap[4]?.bind Fields.bindError), .bindNote (snap[5]?.bind Fields.bindNote)]

/-- Where a load that fails returns. -/
def Caller.failed : Caller → Pc
  | request => .idle
  | reload none => .idle
  | reload (some snap) => .restoring (restoreWrites snap) snap
  | recovery => .idle

/-- Where a load that succeeds returns. -/
def Caller.loaded (child : Child) : Caller → Pc
  | reload _ => .reporting child []
  | _ => .idle

/-- Where the rebind of `w` is over. -/
def Within.bound : Within → Pc
  | forced snap => .checking (.target snap)
  | w => .probing w

variable (cfg : Config)

/-- The steps of a rebind and of the probe around it. -/
def rebind (choice : Choice) (x : Shared) (k : Pc) : Option (Shared × Pc) :=
  match k, choice with
  | .checking w, .now t => some (x, if cfg.fresh t x.fields then w.bound else .resolving w)
  | .resolving w, .answer a now =>
      some ({ x with resolutions := (cfg.resolution a).toList ++ x.resolutions },
        .writing (cfg.rebindWrites now a) w)
  | .writing [] w, .go => some (x, w.bound)
  | .writing (write :: todo) w, .go =>
      some ({ x with fields := write.apply x.fields }, .writing todo w)
  | .probing w, .probe filesOk =>
      let ok := (truthy x.fields.bindError).isNone && filesOk
      match w with
      | .poll => some (x, .idle)
      | .forced snap | .target snap => some (x, if ok then .deciding snap else .idle)
      | .preempt => some (x, if ok then .ensuring (.reload none) else .idle)
      | .load c =>
          -- a resident child that is not ready is reaped before the estimate
          if ok then some ({ x with serving := none }, .estimating c []) else some (x, c.failed)
  | _, _ => none

/-- The steps of `ensure_loaded` after its probe. -/
def load (choice : Choice) (x : Shared) (k : Pc) : Option (Shared × Pc) :=
  match k, choice with
  -- disabled or wedged; resident and ready; or neither
  | .ensuring c, .ok false => some (x, c.failed)
  | .ensuring c, .ok true => x.serving.map fun child => (x, c.loaded child)
  | .ensuring c, .go => some (x, .checking (.load c))
  | .estimating c got, .go =>
      if got.length < 2 then some (x, .estimating c (got ++ [x.fields])) else none
  | .estimating c got, .sizes sizes =>
      if got.length = 2 then some (x, .acquiring c (.ofReads cfg sizes got)) else none
  | .acquiring c est, .ok granted => some (x, if granted then .spawning c est [] else c.failed)
  | .spawning c est got, .go =>
      if got.length < 11 then some (x, .spawning c est (got ++ [x.fields]))
      else
        let child := Child.ofReads est got
        some ({ x with fields := { x.fields with loaded := some child.loaded } },
          .starting c child)
  | .starting c child, .ok started =>
      -- `Popen` takes no `None` for an argument
      if started ∧ child.lora ≠ some none then
        some ({ x with spawned := child :: x.spawned }, .waiting c child)
      else some (x, c.failed)
  | .waiting c child, .ok ready =>
      if ready then some ({ x with serving := some child }, c.loaded child)
      else some (x, c.failed)
  | _, _ => none

/-- `loaded_identity() == bound_identity()`, the second as it was read. -/
def alreadyLoaded (x : Shared) (got : Reads) : Bool :=
  x.fields.loaded.any fun l =>
    some l.modelName = got.modelAlias 0 ∧ l.registryVersion = got.registryVersion 1

/-- The steps of `reload_serving_llm` around the load. The llm engine holds the
slot while its child serves. -/
def reload (choice : Choice) (x : Shared) (k : Pc) : Option (Shared × Pc) :=
  match k, choice with
  | .snapshotting got, .go =>
      if got.length < 7 then some (x, .snapshotting (got ++ [x.fields]))
      else some (x, .resolving (.forced got))
  | .deciding snap, .decide d =>
      match d with
      | .refuse => some (x, .idle)
      | .cold => if x.serving.isNone then some (x, .ensuring (.reload none)) else none
      | .preempt => if x.serving.isNone then some (x, .checking .preempt) else none
      | .compare => some (x, .comparing snap [])
  | .comparing snap got, .go =>
      if got.length < 2 then some (x, .comparing snap (got ++ [x.fields]))
      else if alreadyLoaded x got then some (x, .naming []) else none
  | .comparing snap got, .ok unloads =>
      if got.length < 2 ∨ alreadyLoaded x got then none
      else if unloads then some ({ x with serving := none }, .ensuring (.reload (some snap)))
      else some (x, .idle)
  | .naming got, .go =>
      if got.length < 2 then some (x, .naming (got ++ [x.fields]))
      else some ({ x with
        results := ⟨(got.modelAlias 0).getD "", got.registryVersion 1, x.serving⟩ :: x.results }, .idle)
  | .reporting child got, .go =>
      if got.length < 2 then some (x, .reporting child (got ++ [x.fields]))
      else some ({ x with
        results := ⟨(got.modelAlias 0).getD "", got.registryVersion 1, some child⟩ :: x.results }, .idle)
  | .restoring (write :: todo) snap, .go =>
      some ({ x with fields := write.apply x.fields }, .restoring todo snap)
  | .restoring [] snap, .now t =>
      some ({ x with fields := { x.fields with
        loaded := snap[6]?.bind Fields.loaded
        boundAt := some t } }, .ensuring .recovery)
  | _, _ => none

def advance : Interleaving.Program ThreadId Shared Pc Choice := fun t choice x k =>
  match k, choice with
  | .idle, .poll => some (x, .checking .poll)
  | .idle, .dies => some ({ x with serving := none }, .idle)
  | .idle, .request => if t = loader then some (x, .ensuring .request) else none
  | .idle, .reload => if t = loader then some (x, .snapshotting []) else none
  | k, choice =>
      match rebind cfg choice x k with
      | some r => some r
      | none =>
          match load cfg choice x k with
          | some r => some r
          | none => reload choice x k

abbrev Sys := Interleaving.State ThreadId Shared Pc

abbrev Act := ThreadId × Choice

abbrev next : Sys → Act → Option Sys := Interleaving.next (advance cfg)

def Sys.init : Sys :=
  ⟨⟨⟨cfg.env, none, none, none, none⟩, none, [cfg.env], [], []⟩, fun _ => .idle⟩

/-! ## What is asked -/

def Loaded.of (r : Binding) : Loaded where
  modelName := r.modelAlias
  registryVersion := r.registryVersion
  base := basename r.model
  adapter := (truthy r.lora).map basename
  basePath := r.model
  adapterPath := r.lora

/-- An estimate computed for a resolution. -/
structure Estimate.For (cfg : Config) (r : Binding) (est : Estimate) : Prop where
  basePath : est.basePath = r.model
  adapterPath : est.adapterPath = r.lora
  gb : ∃ sizes, est.gb = cfg.estimateVram sizes r.model r.lora

/-- A child of one resolution: its command line, its identity, its estimate. -/
structure Child.Of (cfg : Config) (r : Binding) (c : Child) : Prop where
  model : c.model = r.model
  lora : c.lora = (truthy r.lora).map some
  modelAlias : c.modelAlias = r.modelAlias
  loaded : c.loaded = Loaded.of r
  estimate : c.estimate.For cfg r

/-- The child spawned is the one resolved, admitted and reported. -/
structure Faithful (x : Shared) : Prop where
  spawned : ∀ c ∈ x.spawned, ∃ r ∈ x.resolutions, c.Of cfg r
  serving : ∀ c, x.serving = some c → c ∈ x.spawned ∧ x.fields.loaded = some c.loaded
  results : ∀ r ∈ x.results, ∀ c, r.child = some c →
    r.modelName = c.loaded.modelName ∧ r.registryVersion = c.loaded.registryVersion

/-- Where the loader is between two reads of the binding that must agree. -/
def Pc.reads : Pc → Bool
  | naming _ | estimating .. | acquiring .. | spawning .. | reporting .. => true
  | starting (.reload _) _ | waiting (.reload _) _ => true
  | _ => false

def Loaded.Names (l : Loaded) (b : Binding) : Prop :=
  l.modelName = b.modelAlias ∧ l.registryVersion = b.registryVersion

instance (l : Loaded) (b : Binding) : Decidable (l.Names b) := inferInstanceAs (Decidable (_ ∧ _))

/-- No poll's assignment changes the binding between two such reads; a load
passes its probe with a binding that is one resolution's; and a reload that
finds its target loaded finds it in the binding as it stands. -/
def Steady (s : Sys) (a : Act) : Prop :=
  match s.pc a.1, a.2 with
  | .writing (w :: _) _, .go =>
      a.1 ≠ loader → (s.pc loader).reads = true →
        (w.apply s.shared.fields).binding = s.shared.fields.binding
  | .probing (.load _), .probe _ =>
      truthy s.shared.fields.bindError = none → s.shared.fields.binding ∈ s.shared.resolutions
  | .comparing _ got, .go =>
      alreadyLoaded s.shared got = true →
        ∀ l ∈ s.shared.fields.loaded, l.Names s.shared.fields.binding
  | _, _ => True

instance (s : Sys) (a : Act) : Decidable (Steady s a) := by
  unfold Steady
  exact Interleaving.pointwise (s.pc a.1) a.2 fun pc choice => by split <;> infer_instance

/-! ## Reads that agree -/

variable {cfg} {x y : Shared} {got : Reads} {r : Binding} {i : ℕ}

/-- All reads found one binding. -/
def Reads.All (got : Reads) (r : Binding) : Prop := ∀ f ∈ got, f.binding = r

theorem Reads.All.get (h : got.All r) (hi : i < got.length) : ∃ f, got[i]? = some f ∧ f.binding = r :=
  ⟨got[i], List.getElem?_eq_getElem hi, h _ (List.getElem_mem hi)⟩

theorem Reads.All.model (h : got.All r) (hi : i < got.length) : got.model i = some r.model := by
  obtain ⟨f, hf, rfl⟩ := h.get hi
  rw [Reads.model, hf]
  rfl

theorem Reads.All.lora (h : got.All r) (hi : i < got.length) : got.lora i = r.lora := by
  obtain ⟨f, hf, rfl⟩ := h.get hi
  rw [Reads.lora, hf]
  rfl

theorem Reads.All.modelAlias (h : got.All r) (hi : i < got.length) :
    got.modelAlias i = some r.modelAlias := by
  obtain ⟨f, hf, rfl⟩ := h.get hi
  rw [Reads.modelAlias, hf]
  rfl

theorem Reads.All.registryVersion (h : got.All r) (hi : i < got.length) :
    got.registryVersion i = r.registryVersion := by
  obtain ⟨f, hf, rfl⟩ := h.get hi
  rw [Reads.registryVersion, hf]
  rfl

theorem Reads.All.nil : Reads.All [] r := fun _ hf => absurd hf List.not_mem_nil

theorem Reads.All.concat (h : got.All x.fields.binding) :
    Reads.All (got ++ [x.fields]) x.fields.binding := by
  intro f hf
  obtain hf | hf := List.mem_append.mp hf
  · exact h f hf
  · rw [List.mem_singleton.mp hf]

theorem Estimate.for_ofReads {sizes : String → Option ℚ} (h : got.All r) (hlen : got.length = 2) :
    (Estimate.ofReads cfg sizes got).For cfg r := by
  have hbase : (got.model 0).getD "" = r.model := by rw [h.model (by omega)]; rfl
  have hlora : got.lora 1 = r.lora := h.lora (by omega)
  constructor
  · exact hbase
  · exact hlora
  · refine ⟨sizes, ?_⟩
    show cfg.estimateVram sizes ((got.model 0).getD "") (got.lora 1) = _
    rw [hbase, hlora]

theorem truthy_map_some (v : Option String) :
    (if (truthy v).isSome then some v else none) = (truthy v).map some := by
  cases v with
  | none => rfl
  | some s =>
    by_cases hs : s = ""
    · simp [truthy, hs]
    · simp [truthy, hs]

theorem truthy_map (v : Option String) (f : String → String) :
    (if (truthy v).isSome then v.map f else none) = (truthy v).map f := by
  cases v with
  | none => rfl
  | some s =>
    by_cases hs : s = ""
    · simp [truthy, hs]
    · simp [truthy, hs]

theorem Child.of_ofReads {est : Estimate} (h : got.All r) (hlen : got.length = 11)
    (hest : est.For cfg r) : (Child.ofReads est got).Of cfg r := by
  constructor
  · show (got.model 0).getD "" = _
    rw [h.model (by omega)]
    rfl
  · show (if (truthy (got.lora 2)).isSome then some (got.lora 3) else none) = _
    rw [h.lora (by omega), h.lora (by omega), truthy_map_some]
  · show (got.modelAlias 1).getD "" = _
    rw [h.modelAlias (by omega)]
    rfl
  · simp only [Child.ofReads, Loaded.of, Loaded.mk.injEq]
    rw [h.modelAlias (by omega), h.registryVersion (by omega), h.model (by omega),
      h.lora (by omega), h.lora (by omega), h.model (by omega), h.lora (by omega), truthy_map]
    exact ⟨rfl, rfl, rfl, rfl, rfl, rfl⟩
  · exact hest

/-! ## The invariant -/

/-- A reload loads where nothing serves. -/
def Caller.Down (x : Shared) : Caller → Prop
  | request => True
  | _ => x.serving = none

def Within.Down (x : Shared) : Within → Prop
  | load c => c.Down x
  | preempt => x.serving = none
  | _ => True

/-- A reload is about to name its child. -/
def Caller.Names (x : Shared) (child : Child) : Caller → Prop
  | reload _ => child.loaded.Names x.fields.binding
  | _ => True

/-- What the loader knows where it stands. -/
def Loading (cfg : Config) (x : Shared) : Pc → Prop
  | .checking w | .resolving w | .writing _ w | .probing w => w.Down x
  | .ensuring c => c.Down x
  | .estimating _ got => x.serving = none ∧ x.fields.binding ∈ x.resolutions ∧
      got.All x.fields.binding
  | .acquiring _ est => x.serving = none ∧ x.fields.binding ∈ x.resolutions ∧
      est.For cfg x.fields.binding
  | .spawning _ est got => x.serving = none ∧ x.fields.binding ∈ x.resolutions ∧
      est.For cfg x.fields.binding ∧ got.All x.fields.binding ∧ got.length ≤ 11
  | .starting c child => x.serving = none ∧ x.fields.loaded = some child.loaded ∧
      (∃ r ∈ x.resolutions, child.Of cfg r) ∧ c.Names x child
  | .waiting c child => x.serving = none ∧ x.fields.loaded = some child.loaded ∧
      child ∈ x.spawned ∧ c.Names x child
  | .reporting child got => child.loaded.Names x.fields.binding ∧ got.All x.fields.binding
  | .naming got => (∀ l ∈ x.fields.loaded, l.Names x.fields.binding) ∧ got.All x.fields.binding
  | .restoring _ _ => x.serving = none
  | _ => True

/-- Where a thread that polls can stand. -/
def Polling : Pc → Prop
  | .idle | .checking .poll | .resolving .poll | .writing _ .poll | .probing .poll => True
  | _ => False

structure Inv (cfg : Config) (s : Sys) : Prop where
  faithful : Faithful cfg s.shared
  loads : Loading cfg s.shared (s.pc loader)
  polls : ∀ u, u ≠ loader → Polling (s.pc u)

/-! ## Steps -/

/-- A step that spawns nothing and reports nothing. -/
structure Quiet (x y : Shared) : Prop where
  resolutions : ∀ r ∈ x.resolutions, r ∈ y.resolutions
  loaded : y.fields.loaded = x.fields.loaded
  spawned : y.spawned = x.spawned
  results : y.results = x.results
  serving : y.serving = x.serving ∨ y.serving = none

theorem Quiet.refl : Quiet x x := ⟨fun _ h => h, rfl, rfl, rfl, .inl rfl⟩

@[simp] theorem Write.apply_loaded (w : Write) (f : Fields) : (w.apply f).loaded = f.loaded := by
  cases w <;> rfl

theorem Quiet.write (w : Write) : Quiet x { x with fields := w.apply x.fields } :=
  ⟨fun _ h => h, w.apply_loaded x.fields, rfl, rfl, .inl rfl⟩

theorem Quiet.down (hserving : y.serving = none) (hx : y = { x with serving := none }) :
    Quiet x y := by
  subst hx
  exact ⟨fun _ h => h, rfl, rfl, rfl, .inr hserving⟩

theorem Faithful.quiet (h : Faithful cfg x) (hq : Quiet x y) : Faithful cfg y where
  spawned := by
    intro c hc
    rw [hq.spawned] at hc
    obtain ⟨r, hr, hof⟩ := h.spawned c hc
    exact ⟨r, hq.resolutions r hr, hof⟩
  serving := by
    intro c hc
    rw [hq.spawned, hq.loaded]
    obtain hsame | hnone := hq.serving
    · exact h.serving c (hsame ▸ hc)
    · rw [hnone] at hc
      cases hc
  results := by
    rw [hq.results]
    exact h.results

theorem Caller.Down.quiet {c : Caller} (h : c.Down x) (hq : Quiet x y) : c.Down y := by
  cases c with
  | request => trivial
  | reload snap => exact hq.serving.elim (fun hsame => hsame.trans h) id
  | recovery => exact hq.serving.elim (fun hsame => hsame.trans h) id

theorem Within.Down.quiet {w : Within} (h : w.Down x) (hq : Quiet x y) : w.Down y := by
  cases w with
  | load c => exact Caller.Down.quiet h hq
  | preempt => exact hq.serving.elim (fun hsame => hsame.trans h) id
  | _ => trivial

/-- A poll's step leaves what the loader knows, if it leaves the binding where
the loader reads it. -/
theorem Loading.quiet {k : Pc} (h : Loading cfg x k) (hq : Quiet x y)
    (hb : k.reads = true → y.fields.binding = x.fields.binding) : Loading cfg y k := by
  have hserving : x.serving = none → y.serving = none := fun hnone =>
    hq.serving.elim (fun hsame => hsame.trans hnone) id
  cases k with
  | checking w | resolving w | writing _ w | probing w => exact Within.Down.quiet h hq
  | ensuring c => exact Caller.Down.quiet h hq
  | estimating c got =>
    obtain ⟨hnone, hmem, hall⟩ := h
    rw [Loading, hb rfl]
    exact ⟨hserving hnone, hq.resolutions _ hmem, hall⟩
  | acquiring c est =>
    obtain ⟨hnone, hmem, hest⟩ := h
    rw [Loading, hb rfl]
    exact ⟨hserving hnone, hq.resolutions _ hmem, hest⟩
  | spawning c est got =>
    obtain ⟨hnone, hmem, hrest⟩ := h
    rw [Loading, hb rfl]
    exact ⟨hserving hnone, hq.resolutions _ hmem, hrest⟩
  | starting c child =>
    obtain ⟨hnone, hloaded, ⟨r, hr, hof⟩, hnames⟩ := h
    refine ⟨hserving hnone, hq.loaded.trans hloaded, ⟨r, hq.resolutions r hr, hof⟩, ?_⟩
    cases c with
    | reload snap =>
      rw [Caller.Names, hb rfl]
      exact hnames
    | _ => trivial
  | waiting c child =>
    obtain ⟨hnone, hloaded, hmem, hnames⟩ := h
    refine ⟨hserving hnone, hq.loaded.trans hloaded, hq.spawned ▸ hmem, ?_⟩
    cases c with
    | reload snap =>
      rw [Caller.Names, hb rfl]
      exact hnames
    | _ => trivial
  | reporting child got =>
    rw [Loading, hb rfl]
    exact h
  | naming got =>
    rw [Loading, hb rfl, hq.loaded]
    exact h
  | restoring todo snap => exact hserving h
  | _ => trivial

theorem Loading.failed {c : Caller} (h : c.Down x) : Loading cfg x c.failed := by
  cases c with
  | request => trivial
  | reload snap =>
    cases snap with
    | none => trivial
    | some snap => exact h
  | recovery => trivial

theorem Loading.bound {w : Within} (h : w.Down x) : Loading cfg x w.bound := by
  cases w <;> exact h

theorem Caller.Down.of_none {c : Caller} (h : x.serving = none) : c.Down x := by
  cases c with
  | request => trivial
  | reload _ => exact h
  | recovery => exact h

/-- The steps of a rebind, in the loader. -/
theorem rebind_keeps {k k' : Pc} {choice : Choice} (h : Loading cfg x k)
    (hprobe : ∀ c, k = .probing (.load c) → truthy x.fields.bindError = none →
      x.fields.binding ∈ x.resolutions)
    (ha : rebind cfg choice x k = some (y, k')) : Quiet x y ∧ Loading cfg y k' := by
  unfold rebind at ha
  split at ha
  · cases ha
    refine ⟨.refl, ?_⟩
    split
    · exact .bound h
    · exact h
  · cases ha
    have hq : Quiet x { x with resolutions := (cfg.resolution ‹Answer›).toList ++ x.resolutions } :=
      ⟨fun _ hr => List.mem_append_right _ hr, rfl, rfl, rfl, .inl rfl⟩
    exact ⟨hq, Within.Down.quiet h hq⟩
  · cases ha
    exact ⟨.refl, .bound h⟩
  · cases ha
    exact ⟨.write _, Within.Down.quiet h (.write _)⟩
  · rename_i w filesOk
    dsimp only at ha
    split at ha
    · cases ha
      exact ⟨.refl, trivial⟩
    · cases ha
      exact ⟨.refl, by split <;> trivial⟩
    · cases ha
      exact ⟨.refl, by split <;> trivial⟩
    · cases ha
      refine ⟨.refl, ?_⟩
      split
      · exact h
      · trivial
    · rename_i c
      split at ha
      · rename_i hok
        cases ha
        have herror : truthy x.fields.bindError = none :=
          Option.isNone_iff_eq_none.mp (Bool.and_eq_true_iff.mp hok).1
        exact ⟨.down rfl rfl, rfl, hprobe c rfl herror, .nil⟩
      · cases ha
        exact ⟨.refl, .failed h⟩
  · cases ha

/-- `_loaded` is assigned where nothing serves. -/
theorem Faithful.capture (h : Faithful cfg x) (hnone : x.serving = none) (f : Fields) :
    Faithful cfg { x with fields := f } :=
  { h with
    serving := fun c hc => by
      rw [show x.serving = some c from hc] at hnone
      cases hnone }

theorem Faithful.spawn (h : Faithful cfg x) {child : Child} (hnone : x.serving = none)
    (hof : ∃ r ∈ x.resolutions, child.Of cfg r) :
    Faithful cfg { x with spawned := child :: x.spawned } :=
  { h with
    spawned := by
      intro c hc
      obtain rfl | hc := List.mem_cons.mp hc
      · exact hof
      · exact h.spawned c hc
    serving := fun c hc => by
      rw [show x.serving = some c from hc] at hnone
      cases hnone }

theorem Faithful.serve (h : Faithful cfg x) {child : Child} (hmem : child ∈ x.spawned)
    (hloaded : x.fields.loaded = some child.loaded) :
    Faithful cfg { x with serving := some child } :=
  { h with
    serving := fun c hc => by
      cases hc
      exact ⟨hmem, hloaded⟩ }

theorem Faithful.report (h : Faithful cfg x) {r : Result}
    (hr : ∀ c, r.child = some c →
      r.modelName = c.loaded.modelName ∧ r.registryVersion = c.loaded.registryVersion) :
    Faithful cfg { x with results := r :: x.results } :=
  { h with
    results := by
      intro r' hr'
      obtain rfl | hr' := List.mem_cons.mp hr'
      · exact hr
      · exact h.results r' hr' }

/-- The steps of a load. -/
theorem load_keeps {k k' : Pc} {choice : Choice} (hf : Faithful cfg x) (h : Loading cfg x k)
    (ha : load cfg choice x k = some (y, k')) : Faithful cfg y ∧ Loading cfg y k' := by
  unfold load at ha
  split at ha
  · cases ha
    exact ⟨hf, .failed h⟩
  · rename_i c
    obtain ⟨child, hserving, heq⟩ := Option.map_eq_some_iff.mp ha
    cases heq
    refine ⟨hf, ?_⟩
    -- only a request finds a child that serves
    cases c with
    | request => trivial
    | reload snap =>
      rw [show x.serving = none from h] at hserving
      cases hserving
    | recovery => trivial
  · cases ha
    exact ⟨hf, h⟩
  · obtain ⟨hnone, hmem, hall⟩ := h
    split at ha
    · cases ha
      exact ⟨hf, hnone, hmem, hall.concat⟩
    · cases ha
  · obtain ⟨hnone, hmem, hall⟩ := h
    split at ha
    · rename_i hlen
      cases ha
      exact ⟨hf, hnone, hmem, Estimate.for_ofReads hall hlen⟩
    · cases ha
  · obtain ⟨hnone, hmem, hest⟩ := h
    cases ha
    refine ⟨hf, ?_⟩
    split
    · exact ⟨hnone, hmem, hest, .nil, Nat.zero_le _⟩
    · exact .failed (.of_none hnone)
  · rename_i c est got
    obtain ⟨hnone, hmem, hest, hall, hle⟩ := h
    split at ha
    · rename_i hlt
      cases ha
      refine ⟨hf, hnone, hmem, hest, hall.concat, ?_⟩
      rw [List.length_append, List.length_singleton]
      omega
    · rename_i hlen
      cases ha
      have hof : (Child.ofReads est got).Of cfg x.fields.binding :=
        Child.of_ofReads hall (by omega) hest
      refine ⟨hf.capture hnone _, hnone, rfl, ⟨_, hmem, hof⟩, ?_⟩
      cases c with
      | reload snap =>
        show (Child.ofReads est got).loaded.Names x.fields.binding
        rw [hof.loaded]
        exact ⟨rfl, rfl⟩
      | _ => trivial
  · rename_i c child started
    obtain ⟨hnone, hloaded, hof, hnames⟩ := h
    split at ha
    · cases ha
      exact ⟨hf.spawn hnone hof, hnone, hloaded, List.mem_cons_self, hnames⟩
    · cases ha
      exact ⟨hf, .failed (.of_none hnone)⟩
  · rename_i c child ready
    obtain ⟨hnone, hloaded, hmem, hnames⟩ := h
    split at ha
    · cases ha
      refine ⟨hf.serve hmem hloaded, ?_⟩
      cases c with
      | reload snap => exact ⟨hnames, .nil⟩
      | _ => trivial
    · cases ha
      exact ⟨hf, .failed (.of_none hnone)⟩
  · cases ha

/-- A name read from the binding is the one captured. -/
theorem Loaded.Names.of_reads {l : Loaded} {b : Binding} (h : l.Names b) (hall : got.All b)
    (hlen : 2 ≤ got.length) :
    (got.modelAlias 0).getD "" = l.modelName ∧ got.registryVersion 1 = l.registryVersion := by
  rw [hall.modelAlias (by omega), hall.registryVersion (by omega)]
  exact ⟨h.1.symm, h.2.symm⟩

/-- The steps of a reload around it. -/
theorem reload_keeps {k k' : Pc} {choice : Choice} (hf : Faithful cfg x) (h : Loading cfg x k)
    (hcompare : ∀ snap got, k = .comparing snap got → choice = .go →
      alreadyLoaded x got = true → ∀ l ∈ x.fields.loaded, l.Names x.fields.binding)
    (ha : reload choice x k = some (y, k')) : Faithful cfg y ∧ Loading cfg y k' := by
  unfold reload at ha
  split at ha
  · split at ha <;> cases ha <;> exact ⟨hf, trivial⟩
  · split at ha
    · cases ha
      exact ⟨hf, trivial⟩
    · split at ha
      · rename_i hnone
        cases ha
        exact ⟨hf, Option.isNone_iff_eq_none.mp hnone⟩
      · cases ha
    · split at ha
      · rename_i hnone
        cases ha
        exact ⟨hf, Option.isNone_iff_eq_none.mp hnone⟩
      · cases ha
    · cases ha
      exact ⟨hf, trivial⟩
  · rename_i snap got
    split at ha
    · cases ha
      exact ⟨hf, trivial⟩
    · split at ha
      · rename_i hsame
        cases ha
        exact ⟨hf, hcompare snap got rfl rfl hsame, .nil⟩
      · cases ha
  · split at ha
    · cases ha
    · split at ha
      · cases ha
        exact ⟨hf.quiet (.down rfl rfl), rfl⟩
      · cases ha
        exact ⟨hf, trivial⟩
  · rename_i got
    obtain ⟨hnames, hall⟩ := h
    split at ha
    · cases ha
      exact ⟨hf, hnames, hall.concat⟩
    · rename_i hlen
      cases ha
      refine ⟨hf.report fun c hc => ?_, trivial⟩
      exact (hnames c.loaded (hf.serving c hc).2).of_reads hall (by omega)
  · rename_i child got
    obtain ⟨hnames, hall⟩ := h
    split at ha
    · cases ha
      exact ⟨hf, hnames, hall.concat⟩
    · rename_i hlen
      cases ha
      refine ⟨hf.report fun c hc => ?_, trivial⟩
      rw [← Option.some_inj.mp hc]
      exact hnames.of_reads hall (by omega)
  · cases ha
    exact ⟨hf.quiet (.write _), h⟩
  · cases ha
    exact ⟨hf.capture h _, h⟩
  · cases ha

/-- A step of a poll. -/
theorem rebind_polls {k k' : Pc} {choice : Choice} (h : Polling k)
    (ha : rebind cfg choice x k = some (y, k')) :
    Quiet x y ∧ Polling k' ∧
      (y.fields.binding = x.fields.binding ∨
        ∃ w todo, k = .writing (w :: todo) .poll ∧ choice = .go ∧ y.fields = w.apply x.fields) := by
  unfold rebind at ha
  split at ha
  · cases ha
    rename_i w _
    cases w with
    | poll => exact ⟨.refl, by split <;> trivial, .inl rfl⟩
    | _ => cases h
  · cases ha
    rename_i w _ _
    cases w with
    | poll =>
      exact ⟨⟨fun _ hr => List.mem_append_right _ hr, rfl, rfl, rfl, .inl rfl⟩, trivial, .inl rfl⟩
    | _ => cases h
  · cases ha
    rename_i w
    cases w with
    | poll => exact ⟨.refl, trivial, .inl rfl⟩
    | _ => cases h
  · cases ha
    rename_i write todo w
    cases w with
    | poll => exact ⟨.write write, h, .inr ⟨write, todo, rfl, rfl, rfl⟩⟩
    | _ => cases h
  · rename_i w _
    cases w with
    | poll =>
      cases ha
      exact ⟨.refl, trivial, .inl rfl⟩
    | _ => cases h
  · cases ha

theorem load_eq_none {k : Pc} {choice : Choice} (h : Polling k) : load cfg choice x k = none := by
  unfold load
  split <;> first | rfl | cases h

theorem reload_eq_none {k : Pc} {choice : Choice} (h : Polling k) : reload choice x k = none := by
  unfold reload
  split <;> first | rfl | cases h

/-- A step of a thread that is not the loader. -/
theorem advance_polls {t : ThreadId} {k k' : Pc} {choice : Choice} (ht : t ≠ loader)
    (h : Polling k) (ha : advance cfg t choice x k = some (y, k')) :
    Quiet x y ∧ Polling k' ∧
      (y.fields.binding = x.fields.binding ∨
        ∃ w todo, k = .writing (w :: todo) .poll ∧ choice = .go ∧ y.fields = w.apply x.fields) := by
  unfold advance at ha
  split at ha
  · cases ha
    exact ⟨.refl, trivial, .inl rfl⟩
  · cases ha
    exact ⟨.down rfl rfl, trivial, .inl rfl⟩
  · rw [if_neg ht] at ha
    cases ha
  · rw [if_neg ht] at ha
    cases ha
  · split at ha
    · rename_i hr
      cases ha
      exact rebind_polls h hr
    · rw [load_eq_none h, reload_eq_none h] at ha
      cases ha

/-- A step of the loader. -/
theorem advance_loads {k k' : Pc} {choice : Choice} (hf : Faithful cfg x) (h : Loading cfg x k)
    (hprobe : ∀ c filesOk, k = .probing (.load c) → choice = .probe filesOk →
      truthy x.fields.bindError = none → x.fields.binding ∈ x.resolutions)
    (hcompare : ∀ snap got, k = .comparing snap got → choice = .go →
      alreadyLoaded x got = true → ∀ l ∈ x.fields.loaded, l.Names x.fields.binding)
    (ha : advance cfg loader choice x k = some (y, k')) : Faithful cfg y ∧ Loading cfg y k' := by
  unfold advance at ha
  split at ha
  · cases ha
    exact ⟨hf, trivial⟩
  · cases ha
    exact ⟨hf.quiet (.down rfl rfl), trivial⟩
  · cases ha
    exact ⟨hf, trivial⟩
  · cases ha
    exact ⟨hf, trivial⟩
  · split at ha
    · rename_i hr
      cases ha
      have hbind : ∀ c, k = .probing (.load c) → truthy x.fields.bindError = none →
          x.fields.binding ∈ x.resolutions := by
        rintro c rfl herror
        cases choice with
        | probe filesOk => exact hprobe c filesOk rfl rfl herror
        | _ => cases hr
      obtain ⟨hq, hloading⟩ := rebind_keeps h hbind hr
      exact ⟨hf.quiet hq, hloading⟩
    · split at ha
      · rename_i hr
        cases ha
        exact load_keeps hf h hr
      · exact reload_keeps hf h hcompare ha

/-! ## Runs -/

theorem inv_init : Inv cfg (Sys.init cfg) where
  faithful := {
    spawned := fun _ hc => absurd hc List.not_mem_nil
    serving := fun _ hc => by cases hc
    results := fun _ hr => absurd hr List.not_mem_nil }
  loads := trivial
  polls := fun _ _ => trivial

theorem inv_next {s s' : Sys} {a : Act} (h : Inv cfg s) (hok : Steady s a)
    (hn : next cfg s a = some s') : Inv cfg s' := by
  obtain ⟨t, choice⟩ := a
  obtain ⟨ha, hothers⟩ := Interleaving.of_next hn
  by_cases ht : t = loader
  · subst ht
    have hstep := advance_loads h.faithful h.loads ?_ ?_ ha
    · refine ⟨hstep.1, hstep.2, fun u hu => ?_⟩
      rw [hothers u hu]
      exact h.polls u hu
    · intro c filesOk hk hchoice herror
      have hok : Steady s (loader, choice) := hok
      unfold Steady at hok
      rw [hk, hchoice] at hok
      exact hok herror
    · intro snap got hk hchoice hsame
      have hok : Steady s (loader, choice) := hok
      unfold Steady at hok
      rw [hk, hchoice] at hok
      exact hok hsame
  · obtain ⟨hq, hpolling, hbinding⟩ := advance_polls ht (h.polls t ht) ha
    have hloader : s'.pc loader = s.pc loader := hothers loader (Ne.symm ht)
    refine ⟨h.faithful.quiet hq, ?_, fun u hu => ?_⟩
    · rw [hloader]
      refine h.loads.quiet hq fun hreads => ?_
      obtain hsame | ⟨w, todo, hk, hchoice, hfields⟩ := hbinding
      · exact hsame
      · have hok : Steady s (t, choice) := hok
        unfold Steady at hok
        rw [hk, hchoice] at hok
        rw [hfields]
        exact hok ht hreads
    · by_cases hut : u = t
      · rw [hut]
        exact hpolling
      · rw [hothers u hut]
        exact h.polls u hu

/-- In every state of a run of a kind. -/
def ServedIsResolved (cfg : Config) (ok : Sys → Act → Prop) : Prop :=
  ∀ s, Runs.Reachable (next cfg) ok (Sys.init cfg) s → Faithful cfg s.shared

/-- The child spawned is the one resolved, admitted and reported, in the runs in
which no poll moves the binding under a load. -/
theorem servedIsResolved (cfg : Config) : ServedIsResolved cfg Steady := by
  intro s hs
  exact (hs.invariant inv_init fun s a s' _ h hok hn => inv_next h hok hn).faithful

/-! ## Runs of one load -/

def defaults : Config where
  envModel := "/models/gguf/Qwen2.5-7B-Instruct-Q4_K_M.gguf"
  envLora := none
  envAlias := "qwen2.5-7b-instruct-q4_k_m"
  rebindTtlS := 5
  vramBudgetGb := 8
  expanduser := id

def served (name : String) (version : ℕ) (base : String) : Answer :=
  .target (some ⟨name, version, .full, base, none, none⟩)

example : (Runs.run (next defaults) Steady (Sys.init defaults)
    (([(0, .reload)] : List Act) ++ (List.replicate 8 (0, .go) : List Act) ++
      ([(0, .answer (served "first" 1 "/models/first.gguf") 0)] : List Act) ++
      (List.replicate 8 (0, .go) : List Act) ++
      ([(0, .now 1), (0, .probe true), (0, .decide .cold), (0, .go), (0, .now 2),
        (0, .probe true), (0, .go), (1, .poll), (1, .now 6),
        (1, .answer (served "first" 1 "/models/first.gguf") 6)] : List Act) ++
      (List.replicate 7 (1, .go) : List Act) ++
      ([(0, .go), (0, .sizes fun _ => some 0), (0, .ok true)] : List Act) ++
      (List.replicate 12 (0, .go) : List Act) ++
      ([(0, .ok true), (0, .ok true), (0, .go), (0, .go), (0, .go)] : List Act))).map
    (fun s => s.shared.results.map fun r =>
      (r.modelName, r.registryVersion, r.child.map Child.model)) =
      some [("first", some 1, some "/models/first.gguf")] := by
  decide +kernel

/-- A cold load of one model; the pointer moves to another, and after the TTL a
poll rebinds between the read of the model's path and that of its alias. -/
def pollDuringSpawn : List Act :=
  ([(0, .request), (0, .go), (0, .now 0),
      (0, .answer (served "first" 1 "/models/first.gguf") 0)] : List Act) ++
    (List.replicate 8 (0, .go) : List Act) ++
    ([(0, .probe true), (0, .go), (0, .go), (0, .sizes fun _ => none), (0, .ok true), (0, .go),
      (1, .poll), (1, .now 6),
      (1, .answer (served "second" 1 "/models/second.gguf") 6)] : List Act) ++
    (List.replicate 7 (1, .go) : List Act) ++ (List.replicate 11 (0, .go) : List Act) ++
    ([(0, .ok true)] : List Act)

theorem spawn_mixes : ¬ ∀ cfg, ServedIsResolved cfg Runs.anyStep := by
  intro h
  have hrun : (Runs.run (next defaults) Runs.anyStep (Sys.init defaults) pollDuringSpawn).map
      (fun s => s.shared.spawned.any fun c => s.shared.resolutions.all fun r =>
        decide ¬ (c.model = r.model ∧ c.modelAlias = r.modelAlias)) = some true := by
    decide +kernel
  obtain ⟨s, hs, hp⟩ := Runs.exists_reachable hrun
  obtain ⟨c, hc, hnone⟩ := List.any_eq_true.mp hp
  obtain ⟨r, hr, hof⟩ := (h defaults s hs).spawned c hc
  exact of_decide_eq_true (List.all_eq_true.mp hnone r hr) ⟨hof.model, hof.modelAlias⟩

end MlopsLite.HostAgent.LlamaAdapter
