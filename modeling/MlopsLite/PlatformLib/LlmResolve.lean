import MlopsLite.Lib.Dict

/-!
# LlmResolve — the serving LLM in the registry

`platformlib/llmresolve.py` over a model registry: the kind and the task of a
version, the base of an adapter, the record of what an alias serves, and the
model that is adopted where none is selected. The registry answers as the
client of the tests does; which reads fail is open.
-/

namespace MlopsLite.PlatformLib.LlmResolve

abbrev Tags := Dict String String

structure ModelVersion where
  name : String
  version : ℕ
  source : String
  tags : Tags

/-- The registered models, their versions as a search gives them, and the
`@serving` aliases. -/
structure Registry where
  models : List String
  versions : List ModelVersion
  serving : Dict String ℕ
  nodup : models.Nodup
  nonempty : ∀ name ∈ models, name ≠ ""
  distinct : versions.Pairwise fun a b => (a.name, a.version) ≠ (b.name, b.version)

/-- `RESOURCE_DOES_NOT_EXIST`, and any other failure. -/
inductive ClientError
  | notFound
  | other
  deriving DecidableEq

inductive Read
  | models
  | version (name : String) (version : ℕ)
  | alias (name : String)
  | named (name : String)
  | tagged (baseId : String)
  deriving DecidableEq

/-- A client: what it says to an alias that is not set, how many models a
listing has, and the reads that fail. -/
structure Client where
  registry : Registry
  noAlias : ClientError
  page : ℕ
  fails : Read → Bool

namespace Registry

variable (r : Registry)

def version? (name : String) (version : ℕ) : Option ModelVersion :=
  r.versions.find? fun mv => mv.name = name && mv.version = version

/-- The version under the alias. -/
def served? (name : String) : Option ModelVersion := (r.serving.get? name).bind (r.version? name)

def named (name : String) : List ModelVersion := r.versions.filter fun mv => mv.name = name

/-- `tags.base_id = …`. -/
def tagged (baseId : String) : List ModelVersion :=
  r.versions.filter fun mv => mv.tags.get? "base_id" = some baseId

/-- `set_registered_model_alias(name, "serving", version)`. -/
def promote (name : String) (version : ℕ) : Registry :=
  { r with serving := r.serving.insert name version }

end Registry

/-- The registry refuses such a model name. -/
def badName (name : String) : Bool := name.toList.any fun ch => ch = '/' || ch = ':'

namespace Client

variable (c : Client)

def getModelVersion (name : String) (version : ℕ) : Except ClientError ModelVersion :=
  if c.fails (.version name version) || badName name then .error .other
  else
    match c.registry.version? name version with
    | some mv => .ok mv
    | none => .error .notFound

def getModelVersionByAlias (name : String) : Except ClientError ModelVersion :=
  if c.fails (.alias name) || badName name then .error .other
  else
    match c.registry.serving.get? name with
    | none => .error c.noAlias
    | some version =>
        match c.registry.version? name version with
        | some mv => .ok mv
        | none => .error .notFound

def searchNamed (name : String) : Except ClientError (List ModelVersion) :=
  if c.fails (.named name) then .error .other else .ok (c.registry.named name)

def searchTagged (baseId : String) : Except ClientError (List ModelVersion) :=
  if c.fails (.tagged baseId) then .error .other else .ok (c.registry.tagged baseId)

/-- The first page of the models, each with its `@serving` version. -/
def searchRegisteredModels : Except ClientError (List (String × Option ℕ)) :=
  if c.fails .models then .error .other
  else .ok ((c.registry.models.take c.page).map fun name => (name, c.registry.serving.get? name))

def promote (name : String) (version : ℕ) : Client :=
  { c with registry := c.registry.promote name version }

/-- No read fails. -/
def readable : Client := { c with fails := fun _ => false }

end Client

/-! ## Kinds and tasks -/

inductive Kind
  | full
  | adapter
  deriving DecidableEq

/-- A tag that is there and not empty. -/
def Tags.text (tags : Tags) (key : String) : Option String := (tags.get? key).filter (· ≠ "")

def effectiveKind (tags : Tags) : Kind :=
  if tags.get? "kind" = some "full-model" then .full
  else if tags.get? "kind" = some "lora-adapter" then .adapter
  else if (Tags.text tags "base_model").isSome ∧ tags.get? "format" = some "gguf" then .adapter
  else .full

def textGeneration : String := "text-generation"

def taskFromKind (tags : Tags) : Option String :=
  if tags.get? "kind" = some "lora-adapter" ∨ tags.get? "format" = some "gguf" then
    some textGeneration
  else none

/-- `tags.get(TASK_TAG) or task_from_kind(tags)`. -/
def taskOf (tags : Tags) : Option String := (Tags.text tags "task").or (taskFromKind tags)

/-! ## Adoption -/

/-- One entry of the listing. -/
def promotedName (c : Client) (m : String × Option ℕ) : Option String :=
  match m.2 with
  | none => none
  | some version =>
      match c.getModelVersion m.1 version with
      | .error _ => none
      | .ok mv => if taskOf mv.tags = some textGeneration then some m.1 else none

/-- The models of the listing whose `@serving` version is read and is an LLM. -/
def promotedLlmNames (c : Client) : List String :=
  match c.searchRegisteredModels with
  | .error _ => []
  | .ok models => models.filterMap (promotedName c)

def adoptActiveLlm (c : Client) : Option String :=
  match promotedLlmNames c with
  | [name] => some name
  | _ => none

/-! ## Resolution -/

/-- `LLMResolutionError`, by its text. -/
inductive LLMResolutionError
  | noServing (name : String)
  | noLineage (name : String) (version : ℕ)
  | onlyAdapters (baseRef : String)
  | unregistered (baseRef : String)
  deriving DecidableEq

inductive Failure
  | resolution (e : LLMResolutionError)
  | client (e : ClientError)
  deriving DecidableEq

/-- `_by_alias`. -/
def byAlias (c : Client) (name : String) : Except ClientError (Option ModelVersion) :=
  match c.getModelVersionByAlias name with
  | .ok mv => .ok (some mv)
  | .error .notFound => .ok none
  | .error .other => .error .other

/-- Newest first; versions of one number stay in the order they came. -/
def newestFirst (versions : List ModelVersion) : List ModelVersion :=
  versions.insertionSort fun a b => b.version ≤ a.version

/-- The candidates by name; a reference that cannot be a name has none. -/
def namedCandidates (c : Client) (baseRef : String) : Except ClientError (List ModelVersion) :=
  if badName baseRef then .ok []
  else do
    let aliased ← byAlias c baseRef
    let named ← c.searchNamed baseRef
    return aliased.toList ++ newestFirst named

def baseCandidates (c : Client) (baseRef : String) : Except ClientError (List ModelVersion) := do
  let candidates ← namedCandidates c baseRef
  if candidates.isEmpty then
    let tagged ← c.searchTagged baseRef
    return newestFirst tagged
  else return candidates

def resolveBaseVersion (c : Client) (baseRef : String) : Except Failure ModelVersion :=
  match baseCandidates c baseRef with
  | .error e => .error (.client e)
  | .ok candidates =>
      match candidates.find? fun mv => effectiveKind mv.tags = .full with
      | some mv => .ok mv
      | none =>
          .error (.resolution (if candidates.isEmpty then .unregistered baseRef
            else .onlyAdapters baseRef))

structure Base where
  name : String
  version : ℕ
  source : String
  deriving DecidableEq

def ModelVersion.base (mv : ModelVersion) : Base := ⟨mv.name, mv.version, mv.source⟩

structure ServingRecord where
  modelName : String
  version : ℕ
  kind : Kind
  source : String
  tags : Tags
  base : Option Base

def resolveServingRecord (c : Client) (modelName : String) : Except Failure ServingRecord :=
  match byAlias c modelName with
  | .error e => .error (.client e)
  | .ok none => .error (.resolution (.noServing modelName))
  | .ok (some mv) =>
      let record : ServingRecord :=
        ⟨mv.name, mv.version, effectiveKind mv.tags, mv.source, mv.tags, none⟩
      match effectiveKind mv.tags with
      | .full => .ok record
      | .adapter =>
          match Tags.text mv.tags "base_model" with
          | none => .error (.resolution (.noLineage modelName mv.version))
          | some baseRef =>
              match resolveBaseVersion c baseRef with
              | .error e => .error e
              | .ok base => .ok { record with base := some base.base }

/-! ## What a registry resolves to -/

variable {r : Registry} {c : Client} {name baseRef : String} {version : ℕ} {mv : ModelVersion}

theorem Registry.of_version? (h : r.version? name version = some mv) :
    mv ∈ r.versions ∧ mv.name = name ∧ mv.version = version := by
  have hmv := List.find?_some h
  rw [Bool.and_eq_true] at hmv
  exact ⟨List.mem_of_find?_eq_some h, of_decide_eq_true hmv.1, of_decide_eq_true hmv.2⟩

/-- A name and a number are one version. -/
theorem Registry.unique {a b : ModelVersion} (ha : a ∈ r.versions) (hb : b ∈ r.versions)
    (hname : a.name = b.name) (hversion : a.version = b.version) : a = b := by
  by_contra hne
  have : Std.Symm fun a b : ModelVersion => (a.name, a.version) ≠ (b.name, b.version) :=
    ⟨fun _ _ h heq => h heq.symm⟩
  exact r.distinct.forall ha hb hne (by rw [hname, hversion])

/-- The alias of the model is set, or the client says that it is not. -/
def Client.Answers (c : Client) (name : String) : Prop :=
  (c.registry.serving.get? name).isSome ∨ c.noAlias = .notFound

theorem byAlias_ok {found : Option ModelVersion} (h : byAlias c name = .ok found) :
    badName name = false ∧ c.Answers name ∧ found = c.registry.served? name := by
  unfold byAlias Client.getModelVersionByAlias at h
  split_ifs at h with hbad
  rw [Bool.or_eq_true, not_or, Bool.not_eq_true, Bool.not_eq_true] at hbad
  refine ⟨hbad.2, ?_⟩
  unfold Client.Answers Registry.served?
  cases hserving : c.registry.serving.get? name with
  | none =>
    rw [hserving] at h
    cases hno : c.noAlias with
    | notFound =>
      simp only [hno, Except.ok.injEq] at h
      exact ⟨.inr rfl, h.symm⟩
    | other =>
      simp only [hno, reduceCtorEq] at h
  | some v =>
    rw [hserving] at h
    refine ⟨.inl rfl, ?_⟩
    rw [Option.bind_some]
    cases hmv : c.registry.version? name v with
    | none =>
      simp only [hmv, Except.ok.injEq] at h
      exact h.symm
    | some mv =>
      simp only [hmv, Except.ok.injEq] at h
      exact h.symm

theorem byAlias_readable (hbad : badName name = false) (h : c.Answers name) :
    byAlias c.readable name = .ok (c.registry.served? name) := by
  unfold byAlias Client.getModelVersionByAlias Registry.served?
  simp only [Client.readable, hbad, Bool.or_self, Bool.false_eq_true, if_false]
  cases hserving : c.registry.serving.get? name with
  | none =>
    have hno : c.noAlias = .notFound := by
      refine h.resolve_left fun hsome => ?_
      rw [hserving] at hsome
      cases hsome
    simp only [hno, Option.bind_none]
  | some v =>
    simp only [Option.bind_some]
    cases c.registry.version? name v with
    | none => rfl
    | some mv => rfl

/-- The candidates for the base of an adapter, by name … -/
def Registry.byName (r : Registry) (baseRef : String) : List ModelVersion :=
  if badName baseRef then [] else (r.served? baseRef).toList ++ newestFirst (r.named baseRef)

/-- … or else by tag. -/
def Registry.candidates (r : Registry) (baseRef : String) : List ModelVersion :=
  if (r.byName baseRef).isEmpty then newestFirst (r.tagged baseRef) else r.byName baseRef

def Registry.base? (r : Registry) (baseRef : String) : Option ModelVersion :=
  (r.candidates baseRef).find? fun mv => effectiveKind mv.tags = .full

theorem baseCandidates_ok {found : List ModelVersion} (h : baseCandidates c baseRef = .ok found) :
    found = c.registry.candidates baseRef ∧ (badName baseRef = true ∨ c.Answers baseRef) := by
  have hnamed : ∀ l, namedCandidates c baseRef = .ok l →
      l = c.registry.byName baseRef ∧ (badName baseRef = true ∨ c.Answers baseRef) := by
    intro l hl
    unfold namedCandidates at hl
    unfold Registry.byName
    split_ifs at hl with hbad
    · cases hl
      exact ⟨(if_pos hbad).symm, .inl hbad⟩
    · cases haliased : byAlias c baseRef with
      | error e =>
        rw [haliased] at hl
        cases hl
      | ok aliased =>
        obtain ⟨-, hanswers, rfl⟩ := byAlias_ok haliased
        rw [haliased] at hl
        unfold Client.searchNamed at hl
        split_ifs at hl
        · cases hl
        · cases hl
          exact ⟨(if_neg hbad).symm, .inr hanswers⟩
  unfold baseCandidates at h
  cases hl : namedCandidates c baseRef with
  | error e =>
    rw [hl] at h
    cases h
  | ok l =>
    obtain ⟨hl', hanswers⟩ := hnamed l hl
    refine ⟨?_, hanswers⟩
    rw [hl] at h
    simp only [bind, Except.bind] at h
    unfold Registry.candidates
    rw [← hl']
    split_ifs at h with hempty
    · unfold Client.searchTagged at h
      split_ifs at h
      cases h
      exact (if_pos hempty).symm
    · cases h
      exact (if_neg hempty).symm

theorem baseCandidates_readable (h : badName baseRef = true ∨ c.Answers baseRef) :
    baseCandidates c.readable baseRef = .ok (c.registry.candidates baseRef) := by
  have hnamed : namedCandidates c.readable baseRef = .ok (c.registry.byName baseRef) := by
    unfold namedCandidates Registry.byName
    split_ifs with hbad
    · rfl
    · have hanswers := h.resolve_left hbad
      rw [byAlias_readable (Bool.not_eq_true _ ▸ hbad) hanswers]
      rfl
  unfold baseCandidates Registry.candidates
  rw [hnamed]
  simp only [bind, Except.bind]
  split_ifs <;> rfl

theorem resolveBaseVersion_ok (h : resolveBaseVersion c baseRef = .ok mv) :
    c.registry.base? baseRef = some mv ∧ (badName baseRef = true ∨ c.Answers baseRef) := by
  unfold resolveBaseVersion at h
  cases hcand : baseCandidates c baseRef with
  | error e =>
    rw [hcand] at h
    cases h
  | ok found =>
    obtain ⟨rfl, hanswers⟩ := baseCandidates_ok hcand
    rw [hcand] at h
    refine ⟨?_, hanswers⟩
    unfold Registry.base?
    dsimp only at h
    split at h
    · rename_i hfind
      cases h
      exact hfind
    · cases h

theorem resolveBaseVersion_readable (h : badName baseRef = true ∨ c.Answers baseRef)
    (hbase : c.registry.base? baseRef = some mv) :
    resolveBaseVersion c.readable baseRef = .ok mv := by
  unfold resolveBaseVersion
  rw [baseCandidates_readable h]
  unfold Registry.base? at hbase
  dsimp only
  rw [hbase]

end MlopsLite.PlatformLib.LlmResolve
