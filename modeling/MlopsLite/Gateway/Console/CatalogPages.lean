import MlopsLite.Gateway.Console.Endpoints

/-!
# Catalog — rows, pages and lookups

`platform_model` (`gateway/app/console/catalog.py`), `list_models` and
`list_versions` (`gateway/app/registry.py`), `model_versions`
(`gateway/app/console/sources.py`) and the routes `console_catalog` and
`console_catalog_detail` (`gateway/app/routers/console.py`). The registry's client
gives a page of each search and is not asked for another; `model_versions` stops
at `MODEL_LIMIT` rows. All reads succeed.
-/

namespace MlopsLite.Gateway.Console.CatalogPages

/-- The page sizes the client has when it is not told one. -/
structure PageSizes where
  models : ℕ
  versions : ℕ
  experiments : ℕ

/-! ## The registry -/

/-- A version as the client gives it. -/
structure RegistryVersion where
  version : ℕ
  source : Option String
  runId : Option String
  tags : Dict String String
  createdAt : Option ℚ

/-- A registered model, with its versions in the order of a search. -/
structure RegisteredModel where
  name : String
  serving : Option String
  versions : List RegistryVersion

/-- A row of `model_versions`. -/
structure VersionRow where
  name : String
  version : String
  source : Option String
  runId : Option String
  tags : Dict String String
  serving : Bool
  createdAt : Option ℚ
  servingVersion : Option String
  modality : Option String

def RegisteredModel.row (m : RegisteredModel) (v : RegistryVersion) : VersionRow where
  name := m.name
  version := toString v.version
  source := v.source
  runId := v.runId
  tags := v.tags
  serving := m.serving = some (toString v.version)
  createdAt := v.createdAt
  servingVersion := m.serving
  modality := v.tags.get? "task"

/-- The registered models, in the order of a search. -/
abbrev Registry := List RegisteredModel

/-- `list_versions`: a page, the greatest version first. -/
def listVersions (sizes : PageSizes) (m : RegisteredModel) : List RegistryVersion :=
  (m.versions.take sizes.versions).insertionSort fun a b => b.version ≤ a.version

/-- `list_models`. -/
def listModels (sizes : PageSizes) (registry : Registry) : List RegisteredModel :=
  registry.take sizes.models

/-- `model_versions`, before it stops. -/
def readVersions (sizes : PageSizes) (registry : Registry) : List VersionRow :=
  (listModels sizes registry).flatMap fun m => (listVersions sizes m).map m.row

/-- `model_versions`. -/
def modelVersions (sizes : PageSizes) (registry : Registry) : List VersionRow :=
  (readVersions sizes registry).take Endpoints.modelLimit

/-- Every version there is. -/
def allVersions (registry : Registry) : List VersionRow :=
  registry.flatMap fun m => m.versions.map m.row

/-! ## A row of the catalog -/

/-- `MODALITIES`. -/
def modalities : List String :=
  ["text-generation", "image-classification", "embedding", "asr", "tabular", "unknown"]

def modalityOf (tags : Dict String String) : String :=
  ((tags.get? "task").filter (· ∈ modalities)).getD "unknown"

structure PlatformModel where
  id : String
  name : String
  version : String
  modality : String
  registeredModelName : String
  aliases : List String
  sourceRunId : Option String
  artifactUri : Option String
  artifactDigest : Option String
  artifactSizeBytes : Option ℕ
  artifactPresent : Option Bool
  evaluationState : String
  deploymentIds : List String
  baseModel : Option String
  baseResolvable : Bool
  parentRunId : Option String
  tags : Dict String String
  serving : Bool

/-- `platform_model`, as the routes call it: no evaluation, and no deployments of its
own. -/
def platformModel (v : VersionRow) (artifactPresent : Option Bool) : PlatformModel where
  id := v.name ++ ":" ++ v.version
  name := v.name
  version := v.version
  modality := modalityOf v.tags
  registeredModelName := v.name
  aliases := if v.serving then ["serving"] else []
  sourceRunId := v.runId
  artifactUri := v.source
  artifactDigest := v.tags.get? "artifact_digest"
  artifactSizeBytes := none
  artifactPresent := artifactPresent
  evaluationState := if v.serving then "incomplete" else "not-evaluated"
  deploymentIds := if v.serving then [v.name ++ "@serving"] else []
  baseModel := v.tags.get? "base_model"
  baseResolvable := Endpoints.baseResolvable v.tags
  parentRunId := v.runId
  tags := v.tags
  serving := v.serving

/-! ## The routes -/

/-- What `console_catalog` is asked for; `present` is what the object store says of an
artifact. -/
structure CatalogQuery where
  modality : Option String
  evaluationState : Option String
  deployed : Option Bool
  verifyArtifacts : Bool
  present : Option String → Option Bool

namespace CatalogQuery

variable (q : CatalogQuery)

def row (v : VersionRow) : PlatformModel :=
  platformModel v (if q.verifyArtifacts then q.present v.source else none)

/-- The three filters. -/
def takes (r : PlatformModel) : Bool :=
  (q.modality.all fun m => m = "" ∨ r.modality = m) &&
    (q.evaluationState.all fun e => e = "" ∨ r.evaluationState = e) &&
    q.deployed.all fun d => !r.deploymentIds.isEmpty = d

end CatalogQuery

structure CatalogPage where
  models : List PlatformModel
  total : ℕ
  offset : ℕ
  limit : ℕ

/-- The rows of a query, before they are cut into pages. -/
def catalogRows (q : CatalogQuery) (versions : List VersionRow) : List PlatformModel :=
  (versions.map q.row).filter q.takes

/-- `console_catalog`. -/
def consoleCatalog (sizes : PageSizes) (registry : Registry) (q : CatalogQuery)
    (limit offset : ℕ) : CatalogPage :=
  let rows := catalogRows q (modelVersions sizes registry)
  ⟨(rows.drop offset).take limit, rows.length, offset, limit⟩

/-- `match[0]`, in the lookups of a version. -/
def matching (versions : List VersionRow) (name version : String) : Option VersionRow :=
  versions.find? fun v => v.name = name && v.version = version

/-- `console_catalog_detail`. -/
def consoleCatalogDetail (sizes : PageSizes) (registry : Registry)
    (present : Option String → Option Bool) (name version : String) (verifyArtifact : Bool) :
    Option PlatformModel :=
  (matching (modelVersions sizes registry) name version).map fun v =>
    platformModel v (if verifyArtifact then present v.source else none)

/-- The registry as `console_compatibility` reads it. -/
def readModels (sizes : PageSizes) (registry : Registry) : List Endpoints.Model :=
  (listModels sizes registry).map fun m =>
    ⟨m.name, m.serving, (listVersions sizes m).map fun v => ⟨toString v.version, v.tags⟩⟩

/-- The lookup of `console_compatibility`. -/
def compatibilityMatch (sizes : PageSizes) (registry : Registry) (name version : String) :
    Option (String × Endpoints.ModelVersion) :=
  (Endpoints.modelVersions (readModels sizes registry)).find? fun v =>
    v.1 = name && v.2.version = version

/-! ## What is read -/

variable {sizes : PageSizes} {registry : Registry}

/-- No page and no limit leaves a version out. -/
structure Fits (sizes : PageSizes) (registry : Registry) : Prop where
  models : ∀ m ∈ registry.drop sizes.models, m.versions = []
  versions : ∀ m ∈ registry, m.versions.length ≤ sizes.versions
  limit : (allVersions registry).length ≤ Endpoints.modelLimit

theorem listVersions_perm (m : RegisteredModel) :
    (listVersions sizes m).Perm (m.versions.take sizes.versions) := List.perm_insertionSort ..

theorem length_allVersions :
    (allVersions registry).length = (registry.map fun m => m.versions.length).sum := by
  simp [allVersions, List.length_flatMap]

theorem length_readVersions : (readVersions sizes registry).length =
    ((registry.take sizes.models).map fun m => min sizes.versions m.versions.length).sum := by
  simp only [readVersions, listModels, List.length_flatMap, List.length_map,
    (listVersions_perm _).length_eq, List.length_take]

/-- Each version is read, where it fits. -/
theorem readVersions_perm (h : Fits sizes registry) :
    (readVersions sizes registry).Perm (allVersions registry) := by
  have hrest : (registry.drop sizes.models).flatMap (fun m => m.versions.map m.row) = [] := by
    rw [List.flatMap_eq_nil_iff]
    intro m hm
    rw [h.models m hm]
    rfl
  have hall : allVersions registry =
      (registry.take sizes.models).flatMap fun m => m.versions.map m.row := by
    conv_lhs => rw [allVersions, ← List.take_append_drop sizes.models registry]
    rw [List.flatMap_append, hrest, List.append_nil]
  rw [hall]
  refine List.Perm.flatMap_left _ fun m hm => ?_
  have hperm : (listVersions sizes m).Perm (m.versions.take sizes.versions) :=
    listVersions_perm m
  rw [List.take_of_length_le (h.versions m (List.mem_of_mem_take hm))] at hperm
  exact hperm.map m.row

theorem modelVersions_perm (h : Fits sizes registry) :
    (modelVersions sizes registry).Perm (allVersions registry) := by
  have hperm := readVersions_perm h
  rw [modelVersions, List.take_of_length_le (hperm.length_eq.trans_le h.limit)]
  exact hperm

/-- As many are read as there are exactly if they fit. -/
theorem fits_of_length (h : (modelVersions sizes registry).length = (allVersions registry).length) :
    Fits sizes registry := by
  have hread : (readVersions sizes registry).length ≤
      ((registry.take sizes.models).map fun m => m.versions.length).sum := by
    rw [length_readVersions]
    exact List.sum_le_sum fun m _ => min_le_right ..
  have hsplit : (allVersions registry).length =
      ((registry.take sizes.models).map fun m => m.versions.length).sum +
        ((registry.drop sizes.models).map fun m => m.versions.length).sum := by
    rw [length_allVersions, ← List.sum_append, ← List.map_append, List.take_append_drop]
  rw [modelVersions, List.length_take] at h
  have hdrop : ((registry.drop sizes.models).map fun m => m.versions.length).sum = 0 := by omega
  have hnone : ∀ m ∈ registry.drop sizes.models, m.versions = [] := by
    intro m hm
    have hzero := List.sum_eq_zero_iff.mp hdrop _ (List.mem_map_of_mem hm)
    exact List.length_eq_zero_iff.mp hzero
  refine ⟨hnone, fun m hm => ?_, by omega⟩
  by_contra hlong
  -- a model on the page of which not every version is read
  have hmem : m ∈ registry.take sizes.models := by
    rw [← List.take_append_drop sizes.models registry] at hm
    rcases List.mem_append.mp hm with hm | hm
    · exact hm
    · rw [hnone m hm] at hlong
      exact absurd (Nat.zero_le _) hlong
  have hless : (readVersions sizes registry).length <
      ((registry.take sizes.models).map fun m => m.versions.length).sum := by
    rw [length_readVersions]
    refine List.sum_lt_sum _ _ (fun m _ => min_le_right ..) ⟨m, hmem, ?_⟩
    exact min_lt_of_left_lt (not_le.mp hlong)
  omega

/-- What `console_compatibility` looks through are the same rows. -/
theorem endpoints_modelVersions : Endpoints.modelVersions (readModels sizes registry) =
    (modelVersions sizes registry).map fun r => (r.name, ⟨r.version, r.tags⟩) := by
  rw [Endpoints.modelVersions, modelVersions, List.map_take, readVersions, readModels,
    List.flatMap_map, List.map_flatMap]
  simp only [List.map_map]
  rfl

theorem isSome_matching {versions : List VersionRow} {name version : String} :
    (matching versions name version).isSome = true ↔
      ∃ v ∈ versions, v.name = name ∧ v.version = version := by
  simp [matching, List.find?_isSome]

/-- Both lookups have the same rows to find a version in. -/
theorem isSome_compatibilityMatch {name version : String} :
    (compatibilityMatch sizes registry name version).isSome = true ↔
      ∃ v ∈ modelVersions sizes registry, v.name = name ∧ v.version = version := by
  simp [compatibilityMatch, endpoints_modelVersions, List.find?_isSome]

/-! ## Pages -/

/-- The first `n` pages of a walk over the offset. -/
def walk (sizes : PageSizes) (registry : Registry) (q : CatalogQuery) (limit n : ℕ) :
    List PlatformModel :=
  (List.range n).flatMap fun k => (consoleCatalog sizes registry q limit (k * limit)).models

/-- Pages one after another are the list. -/
theorem flatMap_pages {α : Type} (rows : List α) (limit n : ℕ) :
    ((List.range n).flatMap fun k => (rows.drop (k * limit)).take limit) =
      rows.take (n * limit) := by
  induction n with
  | zero => simp
  | succ n ih =>
    rw [List.range_succ, List.flatMap_append, ih, List.flatMap_singleton, Nat.succ_mul,
      List.take_add]

theorem walk_eq (q : CatalogQuery) (limit n : ℕ) : walk sizes registry q limit n =
    (catalogRows q (modelVersions sizes registry)).take (n * limit) :=
  flatMap_pages _ _ _

/-- The catalog's lookups find what the registry has, and its walks end with every
version that matches. -/
structure CatalogComplete (sizes : PageSizes) (registry : Registry) : Prop where
  detail : ∀ present name version verify,
    (consoleCatalogDetail sizes registry present name version verify).isSome = true ↔
      ∃ v ∈ allVersions registry, v.name = name ∧ v.version = version
  compatibility : ∀ name version,
    (compatibilityMatch sizes registry name version).isSome = true ↔
      ∃ v ∈ allVersions registry, v.name = name ∧ v.version = version
  total : ∀ q limit offset, (consoleCatalog sizes registry q limit offset).total =
    (catalogRows q (allVersions registry)).length
  pages : ∀ q limit n, 1 ≤ limit → limit ≤ 500 →
    (consoleCatalog sizes registry q limit 0).total ≤ n * limit →
    (walk sizes registry q limit n).Perm (catalogRows q (allVersions registry))

theorem catalogComplete_iff : CatalogComplete sizes registry ↔ Fits sizes registry := by
  constructor
  · intro h
    -- a query without filters takes every row
    let q : CatalogQuery := ⟨none, none, none, false, fun _ => none⟩
    have hall : ∀ versions, (catalogRows q versions).length = versions.length := by
      intro versions
      have hself : (versions.map q.row).filter q.takes = versions.map q.row :=
        List.filter_eq_self.mpr fun _ _ => rfl
      rw [catalogRows, hself, List.length_map]
    have htotal := h.total q 100 0
    rw [hall] at htotal
    exact fits_of_length ((hall _).symm.trans htotal)
  · intro h
    have hperm := modelVersions_perm h
    have hfound : ∀ name version, (∃ v ∈ modelVersions sizes registry,
        v.name = name ∧ v.version = version) ↔
        ∃ v ∈ allVersions registry, v.name = name ∧ v.version = version := by
      intro name version
      simp only [hperm.mem_iff]
    have hrows : ∀ q, (catalogRows q (modelVersions sizes registry)).Perm
        (catalogRows q (allVersions registry)) := fun q => (hperm.map q.row).filter q.takes
    refine ⟨fun present name version verify => ?_, fun name version => ?_, ?_, ?_⟩
    · rw [consoleCatalogDetail, Option.isSome_map, isSome_matching]
      exact hfound name version
    · rw [isSome_compatibilityMatch]
      exact hfound name version
    · intro q limit offset
      exact (hrows q).length_eq
    · intro q limit n _ _ htotal
      rw [walk_eq, List.take_of_length_le htotal]
      exact hrows q

end MlopsLite.Gateway.Console.CatalogPages
