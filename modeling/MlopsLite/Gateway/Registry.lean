import MlopsLite.PlatformLib.LlmResolve

/-!
# Registry — targets of a promotion

`llm_target_info` and `active_serving_llm_name` (`gateway/app/registry.py`).
The check before a promotion resolves an adapter's base while the alias is
still on another version: `targetInfo_predicts` says when that is the base the
agent resolves afterwards.
-/

namespace MlopsLite.Gateway.Registry

open PlatformLib.LlmResolve

structure TargetInfo where
  task : String
  kind : Kind
  base : Option Base
  error : Option LLMResolutionError

/-- `llm_target_info`; what the client raises is raised as `RegistryError`. -/
def llmTargetInfo (c : Client) (name : String) (version : ℕ) :
    Except ClientError (Option TargetInfo) :=
  match c.getModelVersion name version with
  | .error e => .error e
  | .ok mv =>
      if taskOf mv.tags ≠ some textGeneration then .ok none
      else
        let info : TargetInfo := ⟨textGeneration, effectiveKind mv.tags, none, none⟩
        match effectiveKind mv.tags with
        | .full => .ok (some info)
        | .adapter =>
            match Tags.text mv.tags "base_model" with
            | none => .ok (some { info with error := some (.noLineage name version) })
            | some baseRef =>
                match resolveBaseVersion c baseRef with
                | .ok base => .ok (some { info with base := some base.base })
                | .error (.resolution e) => .ok (some { info with error := some e })
                | .error (.client e) => .error e

/-- The pointer: the model selected, if one is; or the store is not read. -/
abbrev Pointer := Except Unit (Option String)

/-- `active_serving_llm_name`; the registry's client may not be made. -/
def activeServingLlmName (default : String) (pointer : Pointer) (client : Option Client) : String :=
  match pointer with
  | .error _ => default
  | .ok (some name) => name
  | .ok none => ((client.bind adoptActiveLlm).filter (· ≠ "")).getD default

/-! ## Before and after the alias moves -/

/-- The adapter names its own model as its base, the alias is on a full version
of it, and a newer full version is there. -/
def ServedBase (r : PlatformLib.LlmResolve.Registry) (name : String) (version : ℕ) : Prop :=
  ∃ mv cur, r.version? name version = some mv ∧ effectiveKind mv.tags = .adapter ∧
    Tags.text mv.tags "base_model" = some name ∧ r.served? name = some cur ∧
    effectiveKind cur.tags = .full ∧
    ∃ other ∈ r.versions, other.name = name ∧ effectiveKind other.tags = .full ∧
      cur.version < other.version

/-- After the alias has moved, the agent's record is that of the check. -/
def Predicted (c : Client) (name : String) (version : ℕ) (info : TargetInfo) : Prop :=
  ∃ record, resolveServingRecord (c.promote name version).readable name = .ok record ∧
    record.modelName = name ∧ record.version = version ∧ record.kind = info.kind ∧
    record.base = info.base

variable {r : PlatformLib.LlmResolve.Registry} {c : Client} {name baseRef : String} {version : ℕ}
  {mv cur top : ModelVersion} {info : TargetInfo}

theorem getModelVersion_ok (h : c.getModelVersion name version = .ok mv) :
    badName name = false ∧ c.registry.version? name version = some mv := by
  unfold Client.getModelVersion at h
  split_ifs at h with hbad
  rw [Bool.or_eq_true, not_or, Bool.not_eq_true, Bool.not_eq_true] at hbad
  refine ⟨hbad.2, ?_⟩
  cases hmv : c.registry.version? name version with
  | none =>
    rw [hmv] at h
    cases h
  | some mv' =>
    rw [hmv] at h
    cases h
    rfl

theorem served?_promote (h : r.version? name version = some mv) :
    (r.promote name version).served? name = some mv := by
  unfold PlatformLib.LlmResolve.Registry.served?
  show ((r.serving.insert name version).get? name).bind (r.version? name) = some mv
  rw [Dict.get?_insert_self]
  exact h

theorem served?_promote_ne (h : baseRef ≠ name) :
    (r.promote name version).served? baseRef = r.served? baseRef := by
  unfold PlatformLib.LlmResolve.Registry.served?
  show ((r.serving.insert name version).get? baseRef).bind (r.version? baseRef) = _
  rw [Dict.get?_insert_ne _ _ h]

/-- The first full version of the newest first is the newest full version. -/
theorem newest_of_find? {versions : List ModelVersion}
    (h : (newestFirst versions).find? (fun mv => effectiveKind mv.tags = .full) = some top) :
    top ∈ versions ∧ effectiveKind top.tags = .full ∧
      ∀ other ∈ versions, effectiveKind other.tags = .full → other.version ≤ top.version := by
  obtain ⟨hfull, before, after, hsplit, hbefore⟩ := List.find?_eq_some_iff_append.mp h
  have hperm : (newestFirst versions).Perm versions := List.perm_insertionSort ..
  have hsorted : (newestFirst versions).Pairwise fun a b => b.version ≤ a.version :=
    have : IsTrans ModelVersion fun a b => b.version ≤ a.version :=
      ⟨fun _ _ _ hab hbc => hbc.trans hab⟩
    have : Std.Total fun a b : ModelVersion => b.version ≤ a.version :=
      ⟨fun a b => le_total b.version a.version⟩
    List.pairwise_insertionSort ..
  refine ⟨hperm.mem_iff.mp (List.mem_of_find?_eq_some h), of_decide_eq_true hfull, ?_⟩
  intro other hother hotherfull
  rw [← hperm.mem_iff, hsplit, List.mem_append, List.mem_cons] at hother
  rw [hsplit] at hsorted
  rcases hother with hin | rfl | hin
  · have hnot := hbefore other hin
    simp [hotherfull] at hnot
  · exact le_rfl
  · exact (List.pairwise_cons.mp (List.pairwise_append.mp hsorted).2.1).1 other hin

/-- The newest full version of a model. -/
def newestFull (r : PlatformLib.LlmResolve.Registry) (name : String) : Option ModelVersion :=
  (newestFirst (r.named name)).find? fun mv => effectiveKind mv.tags = .full

theorem mem_named {other : ModelVersion} :
    other ∈ r.named name ↔ other ∈ r.versions ∧ other.name = name := by
  simp [PlatformLib.LlmResolve.Registry.named]

/-- A model with versions is the candidate for its own name. -/
theorem candidates_self (hbad : badName name = false) (h : r.version? name version = some mv) :
    r.candidates name = (r.served? name).toList ++ newestFirst (r.named name) := by
  obtain ⟨hmem, hname, -⟩ := PlatformLib.LlmResolve.Registry.of_version? h
  have hin : mv ∈ newestFirst (r.named name) :=
    (List.mem_insertionSort _).mpr (mem_named.mpr ⟨hmem, hname⟩)
  have hby : r.byName name = (r.served? name).toList ++ newestFirst (r.named name) := by
    unfold PlatformLib.LlmResolve.Registry.byName
    rw [hbad]
    rfl
  unfold PlatformLib.LlmResolve.Registry.candidates
  rw [hby, if_neg]
  intro hempty
  have hnil := (List.append_eq_nil_iff.mp (List.isEmpty_iff.mp hempty)).2
  rw [hnil] at hin
  cases hin

/-- Its base is what the alias is on, or else its newest full version … -/
theorem base?_self (hbad : badName name = false) (h : r.version? name version = some mv) :
    r.base? name = ((r.served? name).filter fun cur => effectiveKind cur.tags = .full).or
      (newestFull r name) := by
  unfold PlatformLib.LlmResolve.Registry.base? newestFull
  rw [candidates_self hbad h, List.find?_append]
  cases r.served? name with
  | none => rfl
  | some cur =>
    by_cases hfull : effectiveKind cur.tags = .full <;> simp [Option.filter, hfull]

/-- … and this once the alias is on an adapter of it. -/
theorem base?_promote_self (hbad : badName name = false) (h : r.version? name version = some mv)
    (hkind : effectiveKind mv.tags = .adapter) :
    (r.promote name version).base? name = newestFull r name := by
  have h' : (r.promote name version).version? name version = some mv := h
  rw [base?_self hbad h', served?_promote h, Option.filter_some_neg (by simp [hkind])]
  rfl

theorem base?_promote_ne (h : badName baseRef = true ∨ baseRef ≠ name) :
    (r.promote name version).base? baseRef = r.base? baseRef := by
  have hby : (r.promote name version).byName baseRef = r.byName baseRef := by
    unfold PlatformLib.LlmResolve.Registry.byName
    by_cases hbad : badName baseRef = true
    · rw [if_pos hbad, if_pos hbad]
    · rw [if_neg hbad, if_neg hbad, served?_promote_ne (h.resolve_left hbad)]
      rfl
  unfold PlatformLib.LlmResolve.Registry.base? PlatformLib.LlmResolve.Registry.candidates
  rw [hby]
  rfl

/-- The newest full version is the one the alias is on, if no other is newer. -/
theorem newestFull_eq (hcur : r.served? name = some cur)
    (hfull : effectiveKind cur.tags = .full) :
    newestFull r name = some cur ↔ ¬ ∃ other ∈ r.versions, other.name = name ∧
      effectiveKind other.tags = .full ∧ cur.version < other.version := by
  obtain ⟨v, -, hv⟩ := Option.bind_eq_some_iff.mp hcur
  obtain ⟨hmem, hname, -⟩ := PlatformLib.LlmResolve.Registry.of_version? hv
  constructor
  · rintro htop ⟨other, hother, hon, hofull, hlt⟩
    obtain ⟨-, -, hmax⟩ := newest_of_find? htop
    exact absurd hlt (not_lt.mpr (hmax other (mem_named.mpr ⟨hother, hon⟩) hofull))
  · intro hnone
    cases htop : newestFull r name with
    | none =>
      have hnot := List.find?_eq_none.mp htop cur
        ((List.mem_insertionSort _).mpr (mem_named.mpr ⟨hmem, hname⟩))
      simp [hfull] at hnot
    | some top =>
      obtain ⟨htop, htopfull, hmax⟩ := newest_of_find? htop
      obtain ⟨htop, htopname⟩ := mem_named.mp htop
      have hle := hmax cur (mem_named.mpr ⟨hmem, hname⟩) hfull
      have hge : top.version ≤ cur.version := by
        by_contra hlt
        exact hnone ⟨top, htop, htopname, htopfull, not_le.mp hlt⟩
      rw [r.unique htop hmem (htopname.trans hname.symm) (le_antisymm hge hle)]

/-- What a check without an error has found. -/
theorem of_targetInfo (h : llmTargetInfo c name version = .ok (some info))
    (herr : info.error = none) : ∃ mv, badName name = false ∧
      c.registry.version? name version = some mv ∧ info.kind = effectiveKind mv.tags ∧
      ((effectiveKind mv.tags = .full ∧ info.base = none) ∨
        ∃ baseRef base, effectiveKind mv.tags = .adapter ∧
          Tags.text mv.tags "base_model" = some baseRef ∧ info.base = some base.base ∧
          resolveBaseVersion c baseRef = .ok base) := by
  unfold llmTargetInfo at h
  cases hget : c.getModelVersion name version with
  | error e =>
    rw [hget] at h
    cases h
  | ok mv =>
    obtain ⟨hbad, hmv⟩ := getModelVersion_ok hget
    refine ⟨mv, hbad, hmv, ?_⟩
    rw [hget] at h
    dsimp only at h
    split_ifs at h
    · cases h
    cases hkind : effectiveKind mv.tags with
    | full =>
      simp only [hkind, Except.ok.injEq, Option.some.injEq] at h
      subst h
      exact ⟨rfl, .inl ⟨rfl, rfl⟩⟩
    | adapter =>
      cases href : Tags.text mv.tags "base_model" with
      | none =>
        simp only [hkind, href, Except.ok.injEq, Option.some.injEq] at h
        subst h
        cases herr
      | some baseRef =>
        simp only [hkind, href] at h
        split at h
        · rename_i base hbase
          cases h
          exact ⟨rfl, .inr ⟨baseRef, base, rfl, rfl, rfl, hbase⟩⟩
        · cases h
          cases herr
        · cases h

/-- The record the agent resolves once the alias has moved. -/
theorem record_promote (hbad : badName name = false)
    (h : c.registry.version? name version = some mv) :
    byAlias (c.promote name version).readable name = .ok (some mv) := by
  have hanswers : (c.promote name version).Answers name := by
    left
    show ((c.registry.serving.insert name version).get? name).isSome
    rw [Dict.get?_insert_self]
    rfl
  rw [byAlias_readable hbad hanswers]
  exact congrArg Except.ok (served?_promote h)

/-- A check without an error gives the kind and the base that the agent
resolves once the alias has moved, except for an adapter of its own model whose
alias is on a full version that is not the newest. -/
theorem targetInfo_predicts (h : llmTargetInfo c name version = .ok (some info))
    (herr : info.error = none) :
    Predicted c name version info ↔ ¬ ServedBase c.registry name version := by
  obtain ⟨mv, hbad, hmv, hinfo, hbase⟩ := of_targetInfo h herr
  obtain ⟨hmem, hname, hversion⟩ := PlatformLib.LlmResolve.Registry.of_version? hmv
  have halias := record_promote hbad hmv
  rcases hbase with ⟨hkind, hnone⟩ | ⟨baseRef, base, hkind, href, hsome, hresolve⟩
  · refine iff_of_true ⟨⟨mv.name, mv.version, .full, mv.source, mv.tags, none⟩, ?_, hname,
      hversion, (hinfo.trans hkind).symm, hnone.symm⟩ ?_
    · unfold resolveServingRecord
      simp only [halias, hkind]
    · rintro ⟨mv', -, hmv', hadapter, -⟩
      cases hmv.symm.trans hmv'
      cases hkind.symm.trans hadapter
  obtain ⟨hbefore, hanswers⟩ := resolveBaseVersion_ok hresolve
  -- what the agent resolves, given its own base
  have hagent : ∀ {base' : ModelVersion},
      (c.registry.promote name version).base? baseRef = some base' →
      (Predicted c name version info ↔ base'.base = base.base) := by
    intro base' hbase'
    have hanswers' : badName baseRef = true ∨ (c.promote name version).Answers baseRef := by
      refine hanswers.imp id fun hans => hans.imp (fun hset => ?_) id
      show ((c.registry.serving.insert name version).get? baseRef).isSome
      by_cases heq : baseRef = name
      · rw [heq, Dict.get?_insert_self]
        rfl
      · rwa [Dict.get?_insert_ne _ _ heq]
    have hresolve' := resolveBaseVersion_readable hanswers' hbase'
    have hrecord : resolveServingRecord (c.promote name version).readable name =
        .ok ⟨mv.name, mv.version, .adapter, mv.source, mv.tags, some base'.base⟩ := by
      unfold resolveServingRecord
      simp only [halias, hkind, href, hresolve']
    unfold Predicted
    rw [hrecord]
    constructor
    · rintro ⟨record, heq, -, -, -, hb⟩
      cases heq
      rw [hsome] at hb
      exact Option.some.inj hb
    · intro heq
      exact ⟨_, rfl, hname, hversion, hinfo.symm ▸ hkind.symm ▸ rfl, by rw [hsome, heq]⟩
  by_cases hself : baseRef = name
  · subst hself
    rw [base?_self hbad hmv] at hbefore
    have hafter := base?_promote_self hbad hmv hkind
    have hserved : ∀ cur, ServedBase c.registry baseRef version →
        c.registry.served? baseRef = some cur → effectiveKind cur.tags = .full ∧
          ∃ other ∈ c.registry.versions, other.name = baseRef ∧ effectiveKind other.tags = .full ∧
            cur.version < other.version := by
      rintro cur ⟨-, cur', -, -, -, hcur', hfull, hnewer⟩ hcur
      cases hcur.symm.trans hcur'
      exact ⟨hfull, hnewer⟩
    cases hcur : c.registry.served? baseRef with
    | none =>
      rw [hcur] at hbefore
      refine iff_of_true ((hagent (hafter.trans hbefore)).mpr rfl) ?_
      rintro ⟨-, cur, -, -, -, hcur', -⟩
      cases hcur.symm.trans hcur'
    | some cur =>
      by_cases hfull : effectiveKind cur.tags = .full
      · -- the check has taken the version that serves now
        rw [hcur, Option.filter_some_pos (by simpa using hfull), Option.some_or] at hbefore
        obtain rfl : cur = base := Option.some.inj hbefore
        have hnewest := newestFull_eq hcur hfull
        have hiff : ServedBase c.registry baseRef version ↔
            ∃ other ∈ c.registry.versions, other.name = baseRef ∧
              effectiveKind other.tags = .full ∧ cur.version < other.version :=
          ⟨fun h => (hserved cur h hcur).2, fun h => ⟨mv, cur, hmv, hkind, href, hcur, hfull, h⟩⟩
        rw [hiff, ← hnewest]
        obtain ⟨v, -, hv⟩ := Option.bind_eq_some_iff.mp hcur
        obtain ⟨hcurmem, hcurname, -⟩ := PlatformLib.LlmResolve.Registry.of_version? hv
        cases htop : newestFull c.registry baseRef with
        | none =>
          have hnot := List.find?_eq_none.mp htop cur
            ((List.mem_insertionSort _).mpr (mem_named.mpr ⟨hcurmem, hcurname⟩))
          simp [hfull] at hnot
        | some top =>
          obtain ⟨htopmem, -⟩ := mem_named.mp (newest_of_find? htop).1
          rw [hagent (hafter.trans htop), Option.some.injEq]
          constructor
          · intro heq
            obtain ⟨hn, hver, -⟩ := Base.mk.inj heq
            exact c.registry.unique htopmem hcurmem hn hver
          · rintro rfl
            rfl
      · rw [hcur, Option.filter_some_neg (by simpa using hfull), Option.none_or] at hbefore
        refine iff_of_true ((hagent (hafter.trans hbefore)).mpr rfl) fun h => ?_
        exact hfull (hserved cur h hcur).1
  · rw [← base?_promote_ne (.inr hself)] at hbefore
    refine iff_of_true ((hagent hbefore).mpr rfl) ?_
    rintro ⟨mv', -, hmv', -, href', -⟩
    cases hmv.symm.trans hmv'
    exact hself (Option.some.inj (href.symm.trans href'))

/-! ## An adapter of its own model -/

def fullTags : Tags := (Dict.empty.insert "kind" "full-model").insert "format" "gguf"

def adapterTags : Tags := (Dict.empty.insert "kind" "lora-adapter").insert "base_model" "chat"

/-- A model with these versions, the first of them served. -/
def chatModel (versions : List ModelVersion)
    (distinct : versions.Pairwise fun a b => (a.name, a.version) ≠ (b.name, b.version)) : Client where
  registry := {
    models := ["chat"]
    versions := versions
    serving := Dict.empty.insert "chat" 1
    nodup := by decide
    nonempty := by decide
    distinct := distinct }
  noAlias := .notFound
  page := 100
  fails _ := false

/-- An adapter of the only full version, which is served. -/
def oneBase : Client :=
  chatModel [⟨"chat", 1, "a.gguf", fullTags⟩, ⟨"chat", 2, "b.gguf", adapterTags⟩] (by decide)

theorem oneBase_predicted : ∃ info, llmTargetInfo oneBase "chat" 2 = .ok (some info) ∧
    info.kind = .adapter ∧ info.base = some ⟨"chat", 1, "a.gguf"⟩ ∧
    Predicted oneBase "chat" 2 info := by
  refine ⟨_, rfl, rfl, rfl, (targetInfo_predicts rfl rfl).mpr ?_⟩
  rintro ⟨-, cur, -, -, -, hcur, hfull, hnewer⟩
  refine (newestFull_eq hcur hfull).mp ?_ hnewer
  rw [← hcur]
  rfl

/-- The same with a newer full version. -/
def twoBases : Client :=
  chatModel [⟨"chat", 1, "a.gguf", fullTags⟩, ⟨"chat", 2, "b.gguf", fullTags⟩,
    ⟨"chat", 3, "c.gguf", adapterTags⟩] (by decide)

/-- The check finds the version served now, the agent the newer one. -/
theorem twoBases_mispredicted : ¬ ∀ c name version info,
    llmTargetInfo c name version = .ok (some info) → info.error = none →
      Predicted c name version info := by
  intro hclaim
  obtain ⟨record, hrecord, -, -, -, hbase⟩ := hclaim twoBases "chat" 3 _ rfl rfl
  have hagent : resolveServingRecord (twoBases.promote "chat" 3).readable "chat" =
      .ok ⟨"chat", 3, .adapter, "c.gguf", adapterTags, some ⟨"chat", 2, "b.gguf"⟩⟩ := rfl
  cases hagent.symm.trans hrecord
  exact absurd hbase (by decide)

end MlopsLite.Gateway.Registry
