import MlopsLite.Gateway.Policy.Declarations
import MlopsLite.Lib.Fallible

/-!
# Policy — whether a stored declaration can be checked

What the validator accepts, as rules on the fields; and what is then left for
the scheduler to stumble over. A knob that is there as `null` is skipped by the
validator and read by the check, a text may stand for an infinity or `nan`, and
an integer may be larger than any float.
-/

namespace MlopsLite.Gateway.Policy.Declarations

open Conversions (Numerals Fault floatLimit)
open Fallible (Returns)

/-! ## What a declaration must be -/

/-- The monitors that are objects. -/
def objects : Doc → List Members
  | .arr items => items.filterMap fun
    | .obj mon => some mon
    | _ => none
  | _ => []

section

variable (b : Builtins)

structure MonitorDeclared (mon : Members) : Prop where
  kind : kindOf mon ≠ none
  reference : kindOf mon ≠ some .inputDrift ∨ isReference (get mon "reference") = true
  knobs : ∀ k ∈ knobs, ∀ v, k.given mon = some v → ∃ x, k.cast.run b v = .ok x ∧ k.ok x = true

/-- A retrain of a dataset, for the policy's own model. -/
structure BreachDeclared (p : ModelPolicy) (breach params : Members) : Prop where
  shape : p.onBreach = .obj breach
  action : get breach "action" = .str "retrain"
  dataset : truthy (get breach "dataset") = true
  object : orElse (get breach "params") (.obj []) = .obj params
  datasetName : truthy (get params "dataset_name") = true
  outputName : orElse (get params "output_name") (.str p.modelName) = .str p.modelName

structure Declared (p : ModelPolicy) : Prop where
  name : p.modelName ≠ ""
  modality : ∃ m ∈ finetuneModalities, p.modality = .str m
  interval : ∃ n : ℤ, 60 ≤ n ∧ p.checkIntervalS = .num (.int n)
  enabled : ∃ x, p.enabled = .bool x
  monitors : ∃ mons : List Members, mons ≠ [] ∧ p.monitors = .arr (mons.map .obj) ∧
    ∀ mon ∈ mons, MonitorDeclared b mon
  onBreach : ∃ breach params, BreachDeclared p breach params
  promotionMode : ∃ m ∈ promotionModes, p.promotionMode = .str m

/-- A conversion that raises what the validator does not catch. -/
def Escapes (k : Knob) (v : Doc) : Prop :=
  ∃ fault, k.cast.run b v = .error fault ∧ fault ≠ .type ∧ fault ≠ .value

/-- The validator comes to an end on a monitor. -/
def Tame (item : Doc) : Prop :=
  ∀ mon, item = .obj mon → kindOf mon ≠ none →
    ∀ k ∈ knobs, ∀ v, k.given mon = some v → ¬ Escapes b k v

/-- It comes to an end on all of them. -/
def Readable (p : ModelPolicy) : Prop :=
  ∃ items, iter p.monitors = .ok items ∧ ∀ item ∈ items, Tame b item

end

section

variable {b : Builtins} {p : ModelPolicy} {mon : Members} {k : Knob} {v : Doc} {s : String}

theorem isText_iff : isText s v = true ↔ v = .str s := by
  cases v <;> simp [isText]

theorem any_isText_iff {texts : List String} :
    (texts.any fun m => isText m v) = true ↔ ∃ m ∈ texts, v = .str m := by
  simp only [List.any_eq_true, isText_iff]

theorem isInterval_iff : isInterval v = true ↔ ∃ n : ℤ, 60 ≤ n ∧ v = .num (.int n) := by
  cases v with
  | num n => cases n <;> simp [isInterval]
  | _ => simp [isInterval]

theorem isBool_iff : isBool v = true ↔ ∃ x, v = .bool x := by
  cases v <;> simp [isBool]

theorem require_eq_nil {ok : Bool} {e : FieldError} : require ok e = [] ↔ ok = true := by
  cases ok <;> simp [require]

/-! ### Knobs -/

theorem given_eq_some : k.given mon = some v ↔ mon.lookup k.key = some v ∧ v ≠ .null := by
  rw [Knob.given]
  cases h : mon.lookup k.key with
  | none => simp
  | some w => cases w <;> simp <;> rintro rfl <;> simp

theorem errors_eq_nil_iff {i : ℕ} :
    k.errors b i mon = .ok [] ↔
      ∀ v, k.given mon = some v → ∃ x, k.cast.run b v = .ok x ∧ k.ok x = true := by
  rw [Knob.errors]
  cases k.given mon with
  | none => simp
  | some v =>
    cases hcast : k.cast.run b v with
    | ok x => simp [hcast, require_eq_nil]
    | error fault => cases fault <;> simp [hcast]

theorem returns_errors_iff {i : ℕ} :
    Returns (k.errors b i mon) ↔ ∀ v, k.given mon = some v → ¬ Escapes b k v := by
  rw [Knob.errors]
  cases k.given mon with
  | none => simp [Fallible.returns_ok]
  | some v =>
    cases hcast : k.cast.run b v with
    | ok x => simp [Fallible.returns_ok, Escapes, hcast]
    | error fault =>
      cases fault <;> simp [Fallible.returns_ok, Fallible.not_returns_error, Escapes, hcast]

/-! ### Monitors -/

theorem monitorErrors_eq_nil_iff {i : ℕ} {item : Doc} :
    monitorErrors b i item = .ok [] ↔ ∃ mon, item = .obj mon ∧ MonitorDeclared b mon := by
  cases item with
  | obj mon =>
    simp only [monitorErrors, Json.obj.injEq, exists_eq_left']
    by_cases hkind : kindOf mon = none
    · rw [if_pos hkind]
      constructor
      · simp
      · intro h
        exact absurd hkind h.kind
    · rw [if_neg hkind, Fallible.map_eq_ok]
      constructor
      · rintro ⟨found, hfound, hnil⟩
        obtain ⟨hreference, hflat⟩ := List.append_eq_nil_iff.mp hnil
        refine ⟨hkind, by simpa [referenceErrors, require_eq_nil] using hreference, ?_⟩
        intro k hk
        exact errors_eq_nil_iff.mp ((Fallible.flatten_mapM_eq_nil hfound).mp hflat k hk)
      · intro h
        have hknobs : ∀ k ∈ knobs, Knob.errors b k i mon = .ok [] := fun k hk =>
          errors_eq_nil_iff.mpr (h.knobs k hk)
        obtain ⟨found, hfound⟩ :=
          Fallible.returns_mapM.mpr fun k hk => (⟨[], hknobs k hk⟩ : Returns (Knob.errors b k i mon))
        refine ⟨found, hfound, ?_⟩
        rw [(Fallible.flatten_mapM_eq_nil hfound).mpr hknobs, List.append_nil, referenceErrors,
          require_eq_nil, decide_eq_true_iff]
        exact h.reference
  | _ => simp [monitorErrors]

theorem returns_monitorErrors_iff {i : ℕ} {item : Doc} :
    Returns (monitorErrors b i item) ↔ Tame b item := by
  cases item with
  | obj mon =>
    simp only [monitorErrors, Tame, Json.obj.injEq, forall_eq']
    by_cases hkind : kindOf mon = none
    · simp [hkind, Fallible.returns_ok]
    · rw [if_neg hkind, Fallible.returns_map, Fallible.returns_mapM]
      simp only [returns_errors_iff, ne_eq, hkind, not_false_eq_true, true_implies]
  | _ => simp [monitorErrors, Tame, Fallible.returns_ok]

theorem forall_zipIdx {α : Type} {P : α → Prop} {items : List α} :
    (∀ m ∈ items.zipIdx, P m.1) ↔ ∀ item ∈ items, P item := by
  conv_rhs => rw [← List.zipIdx_map_fst 0 items, List.forall_mem_map]

/-! ### The whole -/

theorem paramsErrors_eq_nil_iff {v : Doc} :
    paramsErrors b p v = [] ↔ ∃ params, v = .obj params ∧
      truthy (get params "dataset_name") = true ∧
        orElse (get params "output_name") (.str p.modelName) = .str p.modelName := by
  cases v with
  | obj params =>
    simp only [paramsErrors, Json.obj.injEq, exists_eq_left']
    by_cases hname : truthy (get params "dataset_name") = true
    · rw [if_neg (by simp [hname]), ← isText_iff]
      split_ifs with houtput
      · simp [hname, houtput]
      · simp [hname, houtput]
    · simp [hname]
  | _ => simp [paramsErrors]

theorem breachErrors_eq_nil_iff :
    breachErrors b p = [] ↔ ∃ breach params, BreachDeclared p breach params := by
  rw [breachErrors]
  cases hbreach : p.onBreach with
  | obj breach =>
    dsimp only
    constructor
    · intro h
      split_ifs at h with haction hdataset
      obtain ⟨params, hparams, hname, houtput⟩ := paramsErrors_eq_nil_iff.mp h
      exact ⟨breach, params, hbreach, isText_iff.mp (by simpa using haction),
        by simpa using hdataset, hparams, hname, houtput⟩
    · rintro ⟨breach', params, h⟩
      cases hbreach.symm.trans h.shape
      rw [if_neg (by simp [isText_iff.mpr h.action]), if_neg (by simp [h.dataset])]
      exact paramsErrors_eq_nil_iff.mpr ⟨params, h.object, h.datasetName, h.outputName⟩
  | _ =>
    simp only [List.cons_ne_self, false_iff]
    rintro ⟨breach, params, h⟩
    cases hbreach.symm.trans h.shape

theorem forall_obj_iff {items : List Doc} {P : Members → Prop} :
    (∀ item ∈ items, ∃ mon, item = .obj mon ∧ P mon) ↔
      ∃ mons : List Members, items = mons.map .obj ∧ ∀ mon ∈ mons, P mon := by
  induction items with
  | nil => simp
  | cons item items ih =>
    rw [List.forall_mem_cons, ih]
    constructor
    · rintro ⟨⟨mon, rfl, hmon⟩, mons, rfl, hmons⟩
      exact ⟨mon :: mons, rfl, List.forall_mem_cons.mpr ⟨hmon, hmons⟩⟩
    · rintro ⟨mons, hitems, hall⟩
      obtain ⟨mon, mons, rfl, rfl, rfl⟩ := List.map_eq_cons_iff.mp hitems.symm
      obtain ⟨hmon, hmons⟩ := List.forall_mem_cons.mp hall
      exact ⟨⟨mon, rfl, hmon⟩, mons, rfl, hmons⟩

/-- What is no list gives no object, or nothing. -/
theorem monitors_iff {P : Members → Prop} :
    (truthy v = true ∧ ∃ items, iter v = .ok items ∧ ∀ item ∈ items, ∃ mon, item = .obj mon ∧ P mon)
      ↔ ∃ mons : List Members, mons ≠ [] ∧ v = .arr (mons.map .obj) ∧ ∀ mon ∈ mons, P mon := by
  cases v with
  | arr items =>
    simp only [iter, Except.ok.injEq, exists_eq_left', forall_obj_iff, Json.arr.injEq]
    constructor
    · rintro ⟨hne, mons, rfl, hmons⟩
      exact ⟨mons, by simpa [truthy] using hne, rfl, hmons⟩
    · rintro ⟨mons, hne, rfl, hmons⟩
      exact ⟨by simpa [truthy] using hne, mons, rfl, hmons⟩
  | obj members => cases members <;> simp [truthy, iter]
  | str s =>
    cases hs : s.toList with
    | nil => simp [truthy, String.toList_eq_nil_iff.mp hs]
    | cons c rest => simp [iter, hs]
  | _ => simp [iter]

theorem returns_validate_iff : Returns (p.validate b) ↔ Readable b p := by
  rw [ModelPolicy.validate, Fallible.returns_bind, Readable]
  refine exists_congr fun items => and_congr_right fun _ => ?_
  have hmonitors : Returns (items.zipIdx.mapM fun m => monitorErrors b m.2 m.1) ↔
      ∀ item ∈ items, Tame b item := by
    rw [Fallible.returns_mapM]
    exact (forall₂_congr fun m _ => returns_monitorErrors_iff).trans forall_zipIdx
  rw [← hmonitors, Fallible.returns_bind]
  simp only [Fallible.returns_pure, and_true]
  rfl

/-- The loop over the monitors finds nothing. -/
theorem monitors_flatten_iff {items : List Doc} {found : List (List FieldError)}
    (h : (items.zipIdx.mapM fun m => monitorErrors b m.2 m.1) = .ok found) :
    found.flatten = [] ↔ ∀ item ∈ items, ∃ mon, item = .obj mon ∧ MonitorDeclared b mon := by
  rw [Fallible.flatten_mapM_eq_nil h]
  exact (forall₂_congr fun m _ => monitorErrors_eq_nil_iff).trans
    (forall_zipIdx (P := fun item => ∃ mon, item = Json.obj mon ∧ MonitorDeclared b mon))

/-- The validator accepts exactly what follows the rules. -/
theorem validate_eq_nil_iff : p.validate b = .ok [] ↔ Declared b p := by
  simp only [ModelPolicy.validate, Fallible.bind_eq_ok, pure, Except.pure, Except.ok.injEq,
    List.append_eq_nil_iff, nameErrors, modalityErrors, intervalErrors, enabledErrors, noMonitors,
    modeErrors, require_eq_nil, decide_eq_true_iff, any_isText_iff, isInterval_iff, isBool_iff,
    breachErrors_eq_nil_iff]
  constructor
  · rintro ⟨items, hitems, found, hfound, ⟨⟨⟨⟨⟨⟨hname, hmodality⟩, hinterval⟩, henabled⟩, hsome⟩,
      hflat⟩, hbreach⟩, hmode⟩
    have hmonitors := monitors_iff.mp ⟨hsome, items, hitems, (monitors_flatten_iff hfound).mp hflat⟩
    exact ⟨hname, hmodality, hinterval, henabled, hmonitors, hbreach, hmode⟩
  · intro h
    obtain ⟨hsome, items, hitems, hall⟩ := monitors_iff.mpr h.monitors
    have hreturns : Returns (items.zipIdx.mapM fun m => monitorErrors b m.2 m.1) := by
      rw [Fallible.returns_mapM]
      intro m hm
      exact ⟨[], monitorErrors_eq_nil_iff.mpr (forall_zipIdx.mpr hall m hm)⟩
    obtain ⟨found, hfound⟩ := hreturns
    exact ⟨items, hitems, found, hfound, ⟨⟨⟨⟨⟨⟨h.name, h.modality⟩, h.interval⟩, h.enabled⟩, hsome⟩,
      (monitors_flatten_iff hfound).mpr hall⟩, h.onBreach⟩, h.promotionMode⟩

end

/-! ## What the scheduler needs -/

section

variable (b : Builtins)

/-- Every check of the policy and its next due time can be computed, and every
number in it is finite and in its range. -/
structure Monitored (p : ModelPolicy) : Prop where
  checks : ∃ items, iter p.monitors = .ok items ∧
    ∀ item ∈ items, ∀ s, Returns (check b s p item)
  due : ∀ now, Returns (nextDue b now p)
  knobs : ∀ mon ∈ objects p.monitors, ∀ k ∈ knobs, ∀ v, k.given mon = some v →
    ∃ q, k.cast.run b v = .ok (.fin q) ∧ k.ok (.fin q) = true
  finite : ∀ v ∈ p.values, isFinite v = true

/-- The knobs that a check converts even if they are `null`. -/
def Kind.reads : Kind → List Knob
  | .quality => [windowN, dropPct]
  | .inputDrift => [threshold]

/-- What the rules leave open. -/
structure Kept (store : Store) (p : ModelPolicy) : Prop where
  takes : store.takes p = true
  interval : ∀ n : ℤ, p.checkIntervalS = .num (.int n) → (n : ℚ) < floatLimit
  read : ∀ mon ∈ objects p.monitors, ∀ kind, kindOf mon = some kind →
    ∀ k ∈ kind.reads, mon.lookup k.key ≠ some .null
  finite : ∀ mon ∈ objects p.monitors, ∀ k ∈ knobs, ∀ v, k.given mon = some v →
    ∀ x, k.cast.run b v = .ok x → ∃ q, x = .fin q

end

section

variable {b : Builtins} {p : ModelPolicy} {store : Store} {mon : Members} {k : Knob} {v : Doc}
  {s : Surroundings}

/-! ### Checks -/

theorem returns_castGet_iff {α : Type} {cast : Doc → Except Fault α} {key : String} {default : α} :
    Returns (castGet cast mon key default) ↔ ∀ v, mon.lookup key = some v → Returns (cast v) := by
  rw [castGet]
  cases mon.lookup key with
  | none => simp [Fallible.returns_ok]
  | some v => simp [Fallible.returns_mapError]

theorem returns_castBaseline_iff :
    Returns (castBaseline b mon) ↔ ∀ v, baseline.given mon = some v → Returns (b.float v) := by
  rw [castBaseline]
  cases baseline.given mon with
  | none => simp [Fallible.returns_ok]
  | some v => simp [Fallible.returns_mapError, Fallible.returns_map]

theorem returns_checkQuality_iff :
    Returns (checkQuality b s p mon) ↔ s.servingVersion = none ∨
      Returns (modalityTask p.modality) ∧ Returns (castGet b.int mon "window_n" s.windowN) ∧
        Returns (castGet b.float mon "drop_pct" s.dropPct) ∧ Returns (castBaseline b mon) := by
  rw [checkQuality]
  cases s.servingVersion with
  | none => simp [Fallible.returns_ok]
  | some version =>
    simp only [Fallible.returns_bind, Fallible.returns_pure, and_true, reduceCtorEq, false_or]
    simp only [Returns, exists_and_right]

theorem returns_checkDrift_iff :
    Returns (checkDrift b s p mon) ↔ ∃ ref, index (.obj mon) "reference" = .ok ref ∧
      Returns (currentName p mon) ∧ Returns (index ref "name") ∧ Returns (index ref "version") ∧
        Returns (castGet b.float mon "threshold" s.threshold) := by
  simp only [checkDrift, Fallible.returns_bind, Fallible.returns_pure, and_true]
  simp only [Returns, exists_and_right]

theorem check_eq {kind : Kind} (h : kindOf mon = some kind) :
    check b s p (.obj mon) =
      match kind with
      | .quality => checkQuality b s p mon
      | .inputDrift => checkDrift b s p mon := by
  unfold kindOf at h
  split at h
  · cases h
    simp [check, index, *, isText, bind, Except.bind]
  · cases h
    simp [check, index, *, isText, bind, Except.bind]
  · cases h

theorem not_returns_null : ¬ Returns (k.cast.run b .null) := by
  rw [Cast.run.eq_def]
  cases k.cast with
  | int => rw [Fallible.returns_map]; exact Fallible.not_returns_error
  | float => exact Fallible.not_returns_error

/-- A knob of an accepted monitor is converted unless it is `null`. -/
theorem returns_cast_iff (h : MonitorDeclared b mon) (hk : k ∈ knobs) :
    (∀ v, mon.lookup k.key = some v → Returns (k.cast.run b v)) ↔ mon.lookup k.key ≠ some .null := by
  constructor
  · intro hall hnull
    exact not_returns_null (hall _ hnull)
  · intro hnull v hv
    have hne : v ≠ .null := by
      rintro rfl
      exact hnull hv
    obtain ⟨x, hx, -⟩ := h.knobs k hk v (given_eq_some.mpr ⟨hv, hne⟩)
    exact ⟨x, hx⟩

theorem returns_baseline (h : MonitorDeclared b mon) : Returns (castBaseline b mon) := by
  rw [returns_castBaseline_iff]
  intro v hv
  obtain ⟨x, hx, -⟩ := h.knobs baseline (by simp [knobs]) v hv
  exact ⟨x, hx⟩

theorem returns_modalityTask (h : Declared b p) : Returns (modalityTask p.modality) := by
  obtain ⟨m, hm, heq⟩ := h.modality
  rw [heq]
  simp only [finetuneModalities, List.mem_cons, List.not_mem_nil, or_false] at hm
  rcases hm with rfl | rfl | rfl | rfl | rfl <;> exact Fallible.returns_ok

theorem index_obj {members : Members} {key : String} (h : truthy (get members key) = true) :
    index (.obj members) key = .ok (get members key) := by
  rw [index, get]
  cases hlookup : members.lookup key with
  | none => simp [get, hlookup, truthy] at h
  | some v => rfl

theorem returns_currentName (h : Declared b p) : Returns (currentName p mon) := by
  obtain ⟨breach, params, hbreach⟩ := h.onBreach
  rw [currentName]
  split_ifs
  · exact Fallible.returns_ok
  · have hparams : index p.onBreach "params" = .ok (.obj params) := by
      have hobject := hbreach.object
      rw [orElse] at hobject
      split_ifs at hobject with htruthy
      · rw [hbreach.shape, index_obj htruthy, hobject]
      · cases hobject
        simpa [get, truthy] using hbreach.datasetName
    rw [hparams]
    exact ⟨_, index_obj hbreach.datasetName⟩

theorem returns_int_iff (h : MonitorDeclared b mon) (n : ℤ) :
    Returns (castGet b.int mon "window_n" n) ↔ mon.lookup windowN.key ≠ some .null := by
  rw [returns_castGet_iff, ← returns_cast_iff h (by simp [knobs])]
  refine forall₂_congr fun v _ => ?_
  show _ ↔ Returns ((b.int v).map fun n : ℤ => Number.fin n)
  rw [Fallible.returns_map]

/-- A knob that is read with `float`. -/
theorem returns_float_iff (h : MonitorDeclared b mon) (hk : k ∈ knobs) (hcast : k.cast = .float)
    (x : Number) : Returns (castGet b.float mon k.key x) ↔ mon.lookup k.key ≠ some .null := by
  rw [returns_castGet_iff, ← returns_cast_iff h hk, hcast]
  rfl

/-- The checks of an accepted monitor run unless a knob that they read is `null`. -/
theorem returns_check_iff (hp : Declared b p) (h : MonitorDeclared b mon) {kind : Kind}
    (hkind : kindOf mon = some kind) :
    (∀ s, Returns (check b s p (.obj mon))) ↔
      ∀ k ∈ kind.reads, mon.lookup k.key ≠ some .null := by
  simp only [check_eq hkind]
  cases kind with
  | quality =>
    simp only [Kind.reads, List.forall_mem_cons, List.not_mem_nil, false_implies, implies_true,
      and_true]
    constructor
    · intro hall
      have hserved := hall ⟨0, .fin 0, .fin 0, some "", fun _ => ""⟩
      rcases returns_checkQuality_iff.mp hserved with hnone | ⟨-, hwindow, hdrop, -⟩
      · cases hnone
      · exact ⟨(returns_int_iff h _).mp hwindow,
          (returns_float_iff h (by simp [knobs]) rfl _).mp hdrop⟩
    · rintro ⟨hwindow, hdrop⟩ s
      exact returns_checkQuality_iff.mpr (.inr ⟨returns_modalityTask hp,
        (returns_int_iff h _).mpr hwindow,
        (returns_float_iff (k := dropPct) h (by simp [knobs]) rfl _).mpr hdrop, returns_baseline h⟩)
  | inputDrift =>
    simp only [Kind.reads, List.forall_mem_cons, List.not_mem_nil, false_implies, implies_true,
      and_true]
    constructor
    · intro hall
      have hchecked := hall ⟨0, .fin 0, .fin 0, none, fun _ => ""⟩
      obtain ⟨-, -, -, -, -, hthreshold⟩ := returns_checkDrift_iff.mp hchecked
      exact (returns_float_iff h (by simp [knobs]) rfl _).mp hthreshold
    · intro hthreshold s
      obtain ⟨ref, href, hname, hversion⟩ : ∃ ref : Members, get mon "reference" = .obj ref ∧
          truthy (get ref "name") = true ∧ truthy (get ref "version") = true := by
        have hreference := h.reference.resolve_left (by simp [hkind])
        cases hget : get mon "reference" with
        | obj ref =>
          rw [hget] at hreference
          exact ⟨ref, rfl, by simpa [isReference] using hreference⟩
        | _ =>
          rw [hget] at hreference
          cases hreference
      have htruthy : truthy (get mon "reference") = true := by
        rw [href]
        cases ref with
        | nil => simp [get, truthy] at hname
        | cons m rest => rfl
      refine returns_checkDrift_iff.mpr ⟨.obj ref, by rw [index_obj htruthy, href],
        returns_currentName hp, ⟨_, index_obj hname⟩, ⟨_, index_obj hversion⟩, ?_⟩
      exact (returns_float_iff (k := threshold) h (by simp [knobs]) rfl _).mpr hthreshold

/-! ### The due time -/

theorem returns_nextDue_iff (now : ℚ) {n : ℤ} (h : p.checkIntervalS = .num (.int n)) (hn : 60 ≤ n) :
    Returns (nextDue b now p) ↔ (n : ℚ) < floatLimit := by
  have hpos : |(n : ℚ)| = n := abs_of_nonneg (by exact_mod_cast (by omega : (0 : ℤ) ≤ n))
  rw [nextDue, Fallible.returns_mapError, Fallible.returns_map, h]
  show Returns (if |(n : ℚ)| < floatLimit then Except.ok (Number.fin n)
    else Except.error Fault.overflow) ↔ _
  rw [hpos]
  split_ifs with hlimit
  · exact iff_of_true Fallible.returns_ok hlimit
  · exact iff_of_false Fallible.not_returns_error hlimit

/-! ### A stored policy -/

theorem objects_map (mons : List Members) : objects (.arr (mons.map .obj)) = mons := by
  rw [objects, List.filterMap_map]
  exact List.filterMap_some

/-- An accepted policy can be checked exactly if nothing that the rules leave open stops it. -/
theorem monitored_iff (h : Declared b p) :
    store.takes p = true ∧ Monitored b p ↔ Kept b store p := by
  obtain ⟨mons, -, hmonitors, hdeclared⟩ := h.monitors
  obtain ⟨n, hn, hinterval⟩ := h.interval
  have hobjects : objects p.monitors = mons := by rw [hmonitors, objects_map]
  constructor
  · rintro ⟨htakes, hm⟩
    refine ⟨htakes, ?_, ?_, ?_⟩
    · intro n' hn'
      cases hinterval.symm.trans hn'
      exact (returns_nextDue_iff 0 hinterval hn).mp (hm.due 0)
    · intro mon hmon kind hkind
      rw [hobjects] at hmon
      obtain ⟨items, hitems, hall⟩ := hm.checks
      rw [hmonitors, iter] at hitems
      cases hitems
      exact (returns_check_iff h (hdeclared mon hmon) hkind).mp
        (hall _ (List.mem_map_of_mem hmon))
    · intro mon hmon k hk v hv x hx
      obtain ⟨q, hq, -⟩ := hm.knobs mon hmon k hk v hv
      exact ⟨q, Except.ok.inj (hx.symm.trans hq)⟩
  · intro hkept
    refine ⟨hkept.takes, ⟨_, by rw [hmonitors, iter], ?_⟩, ?_, ?_, store.finite p hkept.takes⟩
    · intro item hitem
      obtain ⟨mon, hmon, rfl⟩ := List.mem_map.mp hitem
      obtain ⟨kind, hkind⟩ := Option.ne_none_iff_exists'.mp (hdeclared mon hmon).kind
      exact (returns_check_iff h (hdeclared mon hmon) hkind).mpr
        (hkept.read mon (hobjects ▸ hmon) kind hkind)
    · intro now
      exact (returns_nextDue_iff now hinterval hn).mpr (hkept.interval n hinterval)
    · intro mon hmon k hk v hv
      obtain ⟨x, hx, hok⟩ := (hdeclared mon (hobjects ▸ hmon)).knobs k hk v hv
      obtain ⟨q, rfl⟩ := hkept.finite mon hmon k hk v hv x hx
      exact ⟨q, hx, hok⟩

end

/-! ## Putting a policy -/

/-- The document is refused and nothing is stored, or it is stored and can be
checked. -/
def Safe (b : Builtins) (rows : Rows) (modelName : String) : Outcome × Rows → Prop
  | (.refused _, rows') => rows' = rows
  | (.stored p, rows') => rows' = rows.insert modelName p ∧ Monitored b p
  | _ => False

/-- The document is a dict of which the validator comes to an end, and where it
follows the rules, nothing that they leave open stops its checks. -/
def Sufficient (b : Builtins) (store : Store) (modelName : String) (doc : Doc) (now : ℚ)
    (updatedBy : String) : Prop :=
  ∃ fields, dictOf doc = .ok fields ∧
    let p := ModelPolicy.ofFields modelName now updatedBy fields
    Readable b p ∧ (Declared b p → Kept b store p)

def plain : Builtins := ⟨Conversions.ascii, fun s => s⟩

/-- A database that refuses nothing else. -/
def finiteStore : Store where
  takes p := p.values.all isFinite
  finite _ h := List.all_eq_true.mp h

def nullMonitor : Doc := .obj [("kind", .str "quality"), ("drop_pct", .null)]

def nullMembers : Members := [("modality", .str "llm"), ("monitors", .arr [nullMonitor]),
  ("on_breach", .obj [("action", .str "retrain"), ("dataset", .str "latest"),
    ("params", .obj [("dataset_name", .str "d")])])]

def nullKnob : Doc := .obj nullMembers

/-- The policy as it is stored. -/
def nullPolicy : ModelPolicy :=
  .ofFields "m" 0 "operator" (nullMembers.map fun m => (some m.1, m.2))

end MlopsLite.Gateway.Policy.Declarations
