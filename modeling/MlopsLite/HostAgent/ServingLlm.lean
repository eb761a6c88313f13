import MlopsLite.Gateway.Registry

/-!
# ServingLlm — what the agent serves

`resolve` (`hostagent/serving_llm.py`) beside the gateway's
`active_serving_llm_name`: both take the pointer, or else adopt the one promoted
LLM of the listing. `agree_iff` says when that one is the only one.
-/

namespace MlopsLite.HostAgent.ServingLlm

open PlatformLib.LlmResolve Gateway.Registry

/-- What `_materialize` raises. -/
inductive MaterializeError
  | resolution
  | unavailable
  | other
  deriving DecidableEq

inductive ResolveError
  | resolution
  | unavailable
  deriving DecidableEq

structure Target where
  modelName : String
  version : ℕ
  kind : Kind
  baseGguf : String
  adapterGguf : Option String
  base : Option Base

abbrev Materialize := String → Except MaterializeError String

/-- The record and its artifacts. -/
def bind (c : Client) (materialize : Materialize) (name : String) :
    Except (Failure ⊕ MaterializeError) Target :=
  match resolveServingRecord c name with
  | .error e => .error (.inl e)
  | .ok record =>
      match record.kind, record.base with
      | .adapter, none => .error (.inr .other)
      | .adapter, some base =>
          match materialize base.source, materialize record.source with
          | .ok baseGguf, .ok adapterGguf => .ok ⟨record.modelName, record.version, record.kind,
              baseGguf, some adapterGguf, record.base⟩
          | .error e, _ => .error (.inr e)
          | .ok _, .error e => .error (.inr e)
      | .full, _ =>
          match materialize record.source with
          | .ok baseGguf => .ok ⟨record.modelName, record.version, record.kind, baseGguf, none,
              record.base⟩
          | .error e => .error (.inr e)

/-- `resolve`. -/
def resolve (pointer : Pointer) (client : Option Client) (materialize : Materialize) :
    Except ResolveError (Option Target) :=
  match pointer with
  | .error _ => .error .unavailable
  | .ok selected =>
      match client with
      | none => if selected.isNone then .ok none else .error .unavailable
      | some c =>
          match selected.or (adoptActiveLlm c) with
          | none => .ok none
          | some name =>
              match bind c materialize name with
              | .ok target => .ok (some target)
              | .error (.inl (.resolution _)) | .error (.inr .resolution) =>
                  if selected.isNone then .ok none else .error .resolution
              | .error (.inl (.client _)) | .error (.inr .unavailable) | .error (.inr .other) =>
                  .error .unavailable

/-! ## The model they take -/

variable {c : Client} {name : String} {record : ServingRecord} {materialize : Materialize}

/-- The artifacts of a record are there. -/
def Present (materialize : Materialize) (record : ServingRecord) : Prop :=
  (∃ path, materialize record.source = .ok path) ∧
    ∀ base, record.base = some base → ∃ path, materialize base.source = .ok path

/-- A record is of its model, and an adapter's has a base. -/
theorem of_record (h : resolveServingRecord c name = .ok record) :
    record.modelName = name ∧ (record.kind = .adapter → record.base ≠ none) := by
  unfold resolveServingRecord at h
  cases halias : byAlias c name with
  | error e =>
    rw [halias] at h
    cases h
  | ok found =>
    obtain ⟨-, -, rfl⟩ := byAlias_ok halias
    cases hserved : c.registry.served? name with
    | none =>
      rw [halias, hserved] at h
      cases h
    | some mv =>
      obtain ⟨v, -, hmv⟩ := Option.bind_eq_some_iff.mp hserved
      obtain ⟨-, hname, -⟩ := PlatformLib.LlmResolve.Registry.of_version? hmv
      rw [halias, hserved] at h
      dsimp only at h
      cases hkind : effectiveKind mv.tags with
      | full =>
        simp only [hkind, Except.ok.injEq] at h
        subst h
        exact ⟨hname, fun hadapter => by cases hadapter⟩
      | adapter =>
        simp only [hkind] at h
        split at h
        · cases h
        · split at h
          · cases h
          · cases h
            exact ⟨hname, fun _ => by simp⟩

theorem bind_ok (h : resolveServingRecord c name = .ok record)
    (hpresent : Present materialize record) :
    ∃ target, bind c materialize name = .ok target ∧ target.modelName = name := by
  obtain ⟨⟨path, hpath⟩, hbases⟩ := hpresent
  obtain ⟨hname, hbase⟩ := of_record h
  unfold bind
  rw [h]
  dsimp only
  split
  · rename_i hkind hnone
    exact absurd hnone (hbase hkind)
  · rename_i base hkind hsome
    obtain ⟨path', hpath'⟩ := hbases base hsome
    rw [hpath, hpath']
    exact ⟨_, rfl, hname⟩
  · rw [hpath]
    exact ⟨_, rfl, hname⟩

/-- The model selected or adopted. -/
def taken (selected : Option String) (c : Client) : Option String := selected.or (adoptActiveLlm c)

/-- Its `@serving` version is an LLM. -/
def Promoted (r : PlatformLib.LlmResolve.Registry) (name : String) : Prop :=
  name ∈ r.models ∧ ∃ mv, r.served? name = some mv ∧ taskOf mv.tags = some textGeneration

/-- The listing has it, and its version is read. -/
def Seen (c : Client) (name : String) : Prop :=
  c.fails .models = false ∧ name ∈ c.registry.models.take c.page ∧ badName name = false ∧
    ∀ version, c.registry.serving.get? name = some version →
      c.fails (.version name version) = false

theorem getModelVersion_eq_ok {version : ℕ} {mv : ModelVersion} :
    c.getModelVersion name version = .ok mv ↔ c.fails (.version name version) = false ∧
      badName name = false ∧ c.registry.version? name version = some mv := by
  unfold Client.getModelVersion
  split_ifs with hbad
  · simp only [false_iff]
    rintro ⟨hfails, hname, -⟩
    rw [hfails, hname] at hbad
    cases hbad
  · rw [Bool.or_eq_true, not_or, Bool.not_eq_true, Bool.not_eq_true] at hbad
    cases c.registry.version? name version <;> simp [hbad]

theorem promotedName_eq_some {n : String} :
    promotedName c (n, c.registry.serving.get? n) = some name ↔
      n = name ∧ badName name = false ∧
        (∃ mv, c.registry.served? name = some mv ∧ taskOf mv.tags = some textGeneration) ∧
        ∀ version, c.registry.serving.get? name = some version →
          c.fails (.version name version) = false := by
  unfold promotedName PlatformLib.LlmResolve.Registry.served?
  dsimp only
  cases hserving : c.registry.serving.get? n with
  | none =>
    simp only [false_iff, reduceCtorEq]
    rintro ⟨rfl, -, ⟨mv, hmv, -⟩, -⟩
    rw [hserving] at hmv
    cases hmv
  | some version =>
    constructor
    · intro h
      dsimp only at h
      split at h
      · cases h
      · rename_i mv hget
        obtain ⟨hfails, hbad, hmv⟩ := getModelVersion_eq_ok.mp hget
        split_ifs at h with htask
        cases h
        refine ⟨rfl, hbad, ⟨mv, ?_, htask⟩, ?_⟩
        · rw [hserving]
          exact hmv
        · intro version' hversion'
          cases hserving.symm.trans hversion'
          exact hfails
    · rintro ⟨rfl, hbad, ⟨mv, hmv, htask⟩, hfails⟩
      rw [hserving] at hmv
      have hget := getModelVersion_eq_ok.mpr ⟨hfails version hserving, hbad, hmv⟩
      simp only [hget, htask, if_true]

/-- The names found are the promoted LLMs that are seen. -/
theorem mem_promotedLlmNames :
    name ∈ promotedLlmNames c ↔ Promoted c.registry name ∧ Seen c name := by
  unfold promotedLlmNames Client.searchRegisteredModels Promoted Seen
  split_ifs with hfails
  · simp [hfails]
  · simp only [List.mem_filterMap, List.mem_map, exists_exists_and_eq_and, promotedName_eq_some]
    constructor
    · rintro ⟨n, hn, rfl, hbad, hmv, hread⟩
      exact ⟨⟨List.mem_of_mem_take hn, hmv⟩, Bool.not_eq_true _ ▸ hfails, hn, hbad, hread⟩
    · rintro ⟨⟨-, hmv⟩, -, hn, hbad, hread⟩
      exact ⟨name, hn, rfl, hbad, hmv, hread⟩

theorem nodup_promotedLlmNames : (promotedLlmNames c).Nodup := by
  unfold promotedLlmNames Client.searchRegisteredModels
  split_ifs with hfails
  · exact List.nodup_nil
  · dsimp only
    rw [List.filterMap_map]
    refine List.Nodup.filterMap ?_ (c.registry.nodup.sublist (List.take_sublist ..))
    intro n n' name hn hn'
    exact (promotedName_eq_some.mp hn).1.trans (promotedName_eq_some.mp hn').1.symm

/-- One is adopted when exactly one is seen. -/
theorem adoptActiveLlm_eq_some : adoptActiveLlm c = some name ↔
    (Promoted c.registry name ∧ Seen c name) ∧
      ∀ other, Promoted c.registry other → Seen c other → other = name := by
  have hnodup := nodup_promotedLlmNames (c := c)
  have hiff : adoptActiveLlm c = some name ↔ promotedLlmNames c = [name] := by
    unfold adoptActiveLlm
    split
    · rename_i n hn
      rw [hn]
      simp
    · rename_i hne
      simp only [reduceCtorEq, false_iff]
      exact hne name
  rw [hiff, ← mem_promotedLlmNames]
  constructor
  · intro h
    refine ⟨h ▸ List.mem_singleton_self name, fun other hother hseen => ?_⟩
    have hmem := mem_promotedLlmNames.mpr ⟨hother, hseen⟩
    rw [h] at hmem
    exact List.mem_singleton.mp hmem
  · rintro ⟨hmem, hall⟩
    have hperm := List.perm_ext_iff_of_nodup hnodup (List.nodup_singleton name)
    refine List.perm_singleton.mp (hperm.mpr ?_)
    intro other
    rw [List.mem_singleton]
    constructor
    · intro hother
      obtain ⟨hpromoted, hseen⟩ := mem_promotedLlmNames.mp hother
      exact hall other hpromoted hseen
    · rintro rfl
      exact hmem

/-! ## Agreement -/

/-- The only promoted LLM of the registry. -/
def Sole (r : PlatformLib.LlmResolve.Registry) (name : String) : Prop :=
  Promoted r name ∧ ∀ other, Promoted r other → other = name

/-- One promoted LLM is seen, and another is not. -/
def HalfSeen (c : Client) : Prop :=
  ∃ name, (Promoted c.registry name ∧ Seen c name) ∧
    (∀ other, Promoted c.registry other → Seen c other → other = name) ∧
    ∃ other, Promoted c.registry other ∧ ¬ Seen c other

/-- An adopted model is the only one unless one is seen of several. -/
theorem adopted_sole_iff :
    (∀ name, adoptActiveLlm c = some name → Sole c.registry name) ↔ ¬ HalfSeen c := by
  constructor
  · rintro hsole ⟨name, hname, hall, other, hother, hunseen⟩
    have hadopt := adoptActiveLlm_eq_some.mpr ⟨hname, hall⟩
    rw [(hsole name hadopt).2 other hother] at hunseen
    exact hunseen hname.2
  · intro hnot name hadopt
    obtain ⟨hname, hall⟩ := adoptActiveLlm_eq_some.mp hadopt
    refine ⟨hname.1, fun other hother => ?_⟩
    by_contra hne
    refine hnot ⟨name, hname, hall, other, hother, fun hseen => ?_⟩
    exact hne (hall other hother hseen)

theorem resolve_eq {selected : Option String} (htaken : taken selected c = none) :
    resolve (.ok selected) (some c) materialize = .ok none := by
  unfold taken at htaken
  simp only [resolve, htaken]

theorem resolve_eq_some {selected : Option String} {target : Target}
    (htaken : taken selected c = some name) (hbind : bind c materialize name = .ok target) :
    resolve (.ok selected) (some c) materialize = .ok (some target) := by
  unfold taken at htaken
  simp only [resolve, htaken, hbind]

/-- The gateway names what is selected or adopted. -/
theorem activeServingLlmName_eq (default : String) (selected : Option String) :
    activeServingLlmName default (.ok selected) (some c) = (taken selected c).getD default := by
  cases selected with
  | some name => rfl
  | none =>
    show ((adoptActiveLlm c).filter (· ≠ "")).getD default = (adoptActiveLlm c).getD default
    cases hadopt : adoptActiveLlm c with
    | none => rfl
    | some name =>
      have hne := c.registry.nonempty name (adoptActiveLlm_eq_some.mp hadopt).1.1.1
      rw [Option.filter_some_pos (by simpa using hne)]

/-- Where the record of the model selected or adopted resolves and its artifacts
are there, the agent serves what the gateway names; and what is adopted is the
only promoted LLM, unless one is seen of several. -/
theorem agree_iff (default : String) :
    (∀ c selected materialize,
      (∀ name, taken selected c = some name → ∃ record, resolveServingRecord c name = .ok record ∧
        Present materialize record) →
      ∃ target, resolve (.ok selected) (some c) materialize = .ok target ∧
        activeServingLlmName default (.ok selected) (some c) =
          (target.map Target.modelName).getD default) ∧
    ∀ c, (∀ name, adoptActiveLlm c = some name → Sole c.registry name) ↔ ¬ HalfSeen c := by
  refine ⟨?_, fun c => adopted_sole_iff⟩
  intro c selected materialize hresolves
  rw [activeServingLlmName_eq]
  cases htaken : taken selected c with
  | none => exact ⟨none, resolve_eq htaken, rfl⟩
  | some name =>
    obtain ⟨record, hrecord, hpresent⟩ := hresolves name htaken
    obtain ⟨target, hbind, hname⟩ := bind_ok hrecord hpresent
    refine ⟨some target, resolve_eq_some htaken hbind, ?_⟩
    rw [← hname]
    rfl

/-- The agent serves the adopted model, which is the only one. -/
theorem oneBase_agree : ∃ target, resolve (.ok none) (some oneBase) (fun source => .ok source) =
    .ok target ∧ activeServingLlmName "base" (.ok none) (some oneBase) =
      (target.map Target.modelName).getD "base" ∧
    adoptActiveLlm oneBase = some "chat" ∧ Sole oneBase.registry "chat" := by
  have hadopt : adoptActiveLlm oneBase = some "chat" := rfl
  have hseen : Seen oneBase "chat" := ⟨rfl, by decide, rfl, fun _ _ => rfl⟩
  have hnot : ¬ HalfSeen oneBase := by
    rintro ⟨-, -, -, other, ⟨hmem, -⟩, hunseen⟩
    rw [List.mem_singleton.mp hmem] at hunseen
    exact hunseen hseen
  obtain ⟨target, hresolve, hname⟩ :=
    (agree_iff "base").1 oneBase none (fun source => .ok source) fun name hname => by
      cases hadopt.symm.trans hname
      exact ⟨_, rfl, ⟨_, rfl⟩, fun _ hbase => by cases hbase⟩
  exact ⟨target, hresolve, hname, hadopt, ((agree_iff "base").2 oneBase).mpr hnot "chat" hadopt⟩

/-! ## One read fails -/

/-- Two promoted LLMs, one of which is not read. -/
def halfRead : Client where
  registry := {
    models := ["chat", "code"]
    versions := [⟨"chat", 1, "a.gguf", fullTags⟩, ⟨"code", 1, "b.gguf", fullTags⟩]
    serving := (Dict.empty.insert "chat" 1).insert "code" 1
    nodup := by decide
    nonempty := by decide
    distinct := by decide }
  noAlias := .notFound
  page := 100
  fails r := r = .version "chat" 1

/-- The other is adopted. -/
theorem halfRead_adopts : ¬ ∀ c name, adoptActiveLlm c = some name → Sole c.registry name := by
  intro hclaim
  have hadopt : adoptActiveLlm halfRead = some "code" := rfl
  have hpromoted : Promoted halfRead.registry "chat" := ⟨by decide, _, rfl, rfl⟩
  exact absurd ((hclaim halfRead "code" hadopt).2 "chat" hpromoted) (by decide)

end MlopsLite.HostAgent.ServingLlm
