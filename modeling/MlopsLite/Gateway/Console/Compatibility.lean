import MlopsLite.Gateway.Console.Catalog
import MlopsLite.HostAgent.Coordinator.Sections

/-!
# Catalog — against stage 1

The verdict is computed from figures rounded to two decimals, and a model
fits alone on the whole usable budget where stage 1 asks for the headroom
as well. So the two agree for a size that lies in neither gap: between the
exact room and the room shown, and between the two limits of a model alone
(`agrees_iff_clear`).
-/

namespace MlopsLite.Gateway.Console

open HostAgent

variable {gpu : Gpu} {co : Coordinator} {m : ModelKey} {est : Bytes} {op : OpId} {free : ℚ}
  {rest : Inputs}

/-- The other inputs rule nothing out. -/
structure Favourable (i : Inputs) : Prop where
  engine : i.engineAvailable ≠ some false
  artifact : i.artifactAvailable ≠ some false
  host : i.hostCompatible ≠ some false
  base : i.baseResolvable = true

/-- The inputs with a size and the view of a coordinator. -/
def at' (gpu : Gpu) (co : Coordinator) (free : ℚ) (est : Bytes) (rest : Inputs) : Inputs :=
  { rest with
    estimatedGb := some (est / gib)
    admission := some (snapshotFromCoordinator gpu co free) }

/-- The rule by which stage 1 refuses a size for good. -/
def tooLarge (gpu : Gpu) (est : Bytes) : Prop :=
  (gpu.usableCapacity : ℚ) - gpu.config.safetyHeadroomBytes < est

/-- The verdict and stage 1 agree on a model that is not resident. -/
structure Agrees (gpu : Gpu) (co : Coordinator) (m : ModelKey) (est : Bytes) (op : OpId)
    (free : ℚ) (rest : Inputs) : Prop where
  eligible : (compatibility (at' gpu co free est rest)).verdict = .eligible →
    ∃ e, (co.stage1 gpu m est op free free).1 = .load e
  fitsAlone : (compatibility (at' gpu co free est rest)).fitsAlone = some false ↔ tooLarge gpu est

/-- The room both bounds leave, in GiB. -/
def exactRoom (gpu : Gpu) (co : Coordinator) (free : ℚ) : ℚ :=
  min ((gpu.usableCapacity : ℚ) - co.accounted)
    (free - co.unmaterialized - gpu.config.safetyHeadroomBytes) / gib

/-- The room the figures of a view leave. -/
def shownRoom (a : AdmissionView) : ℚ :=
  min (a.usableBudgetGb - a.accountedResidentGb - a.reservedGb)
    (a.liveFreeGb - a.unmaterializedGb - a.headroomGb)

/-- Above the one and not above the other. -/
def Between (a b x : ℚ) : Prop := min a b < x ∧ x ≤ max a b

/-- The size lies in neither gap. -/
structure Clear (gpu : Gpu) (co : Coordinator) (est : Bytes) (free : ℚ) : Prop where
  room : co.barred = false →
    ¬ (exactRoom gpu co free < est / gib ∧
        (est : ℚ) / gib ≤ shownRoom (snapshotFromCoordinator gpu co free))
  alone : ¬ Between ((gpu.usableCapacity - gpu.config.safetyHeadroomBytes) / gib)
    (gb (gpu.usableCapacity / gib)) (est / gib)

theorem gib_pos : 0 < gib := by
  unfold gib
  norm_num

/-! ## The verdict -/

theorem accountedResidentGb_nonneg (gpu : Gpu) (co : Coordinator) (free : ℚ) :
    0 ≤ (snapshotFromCoordinator gpu co free).accountedResidentGb :=
  Rounding.roundTo_nonneg (div_nonneg (NNRat.cast_nonneg _) gib_pos.le)

theorem reservedGb_nonneg (gpu : Gpu) (co : Coordinator) (free : ℚ) :
    0 ≤ (snapshotFromCoordinator gpu co free).reservedGb :=
  Rounding.roundTo_nonneg (div_nonneg (NNRat.cast_nonneg _) gib_pos.le)

theorem jobExclusive_at (gpu : Gpu) (co : Coordinator) (free : ℚ) (est : Bytes) (rest : Inputs) :
    (at' gpu co free est rest).jobExclusive = co.barred := by
  simp [Inputs.jobExclusive, at', snapshotFromCoordinator, Coordinator.barred]

/-- Eligible: no job, and the size is within the room shown. -/
theorem eligible_iff (h : Favourable rest) :
    (compatibility (at' gpu co free est rest)).verdict = .eligible ↔
      co.barred = false ∧
        (est : ℚ) / gib ≤ shownRoom (snapshotFromCoordinator gpu co free) := by
  have hacc := accountedResidentGb_nonneg gpu co free
  have hres := reservedGb_nonneg gpu co free
  have hengine : (at' gpu co free est rest).engineAvailable = rest.engineAvailable := rfl
  have hartifact : (at' gpu co free est rest).artifactAvailable = rest.artifactAvailable := rfl
  have hhost : (at' gpu co free est rest).hostCompatible = rest.hostCompatible := rfl
  have hbase : (at' gpu co free est rest).baseResolvable = true := h.base
  have hadm : (at' gpu co free est rest).admission =
    some (snapshotFromCoordinator gpu co free) := rfl
  have hjob := jobExclusive_at gpu co free est rest
  have hbudget : (at' gpu co free est rest).budgetOk = some (decide
    ((est : ℚ) / gib + (snapshotFromCoordinator gpu co free).accountedResidentGb +
      (snapshotFromCoordinator gpu co free).reservedGb ≤
        (snapshotFromCoordinator gpu co free).usableBudgetGb)) := rfl
  have hlive : (at' gpu co free est rest).liveOk = some (decide
    ((est : ℚ) / gib + (snapshotFromCoordinator gpu co free).headroomGb ≤
      (snapshotFromCoordinator gpu co free).liveFreeGb -
        (snapshotFromCoordinator gpu co free).unmaterializedGb)) := rfl
  have halone : (at' gpu co free est rest).fitsAlone = some (decide
    ((est : ℚ) / gib ≤ (snapshotFromCoordinator gpu co free).usableBudgetGb)) := rfl
  generalize snapshotFromCoordinator gpu co free = a at *
  simp only [compatibility, Inputs.verdict, hengine, hartifact, hhost, hbase, hadm, hjob, hbudget,
    hlive, halone, h.engine, h.artifact, h.host, shownRoom, le_min_iff]
  constructor
  · intro hv
    split_ifs at hv with hstructural hunknown htransient
    simp only [Bool.or_eq_true, not_or, Option.some.injEq, decide_eq_true_eq,
      decide_eq_false_iff_not, not_not, Bool.not_eq_true] at htransient
    refine ⟨htransient.1.1, ?_, ?_⟩
    · linarith [htransient.1.2]
    · linarith [htransient.2]
  · rintro ⟨hfree, hb, hl⟩
    have hb' : (est : ℚ) / gib + a.accountedResidentGb + a.reservedGb ≤ a.usableBudgetGb := by
      linarith
    have hl' : (est : ℚ) / gib + a.headroomGb ≤ a.liveFreeGb - a.unmaterializedGb := by linarith
    have halone' : (est : ℚ) / gib ≤ a.usableBudgetGb := by linarith
    simp [hfree, hb', hl', halone']

/-- A model fits alone up to the budget shown. -/
theorem fitsAlone_iff : (compatibility (at' gpu co free est rest)).fitsAlone = some false ↔
    gb (gpu.usableCapacity / gib) < est / gib := by
  simp [compatibility, Inputs.fitsAlone, at', snapshotFromCoordinator]

/-! ## Stage 1 -/

/-- Stage 1 admits at once: no job, and the size is within the room. -/
theorem load_iff (hm : co.residents.get? m = none) (hop : co.evictIntent.get? op = none) :
    (∃ e, (co.stage1 gpu m est op free free).1 = .load e) ↔
      co.barred = false ∧ (est : ℚ) / gib ≤ exactRoom gpu co free := by
  have hroom : (est : ℚ) / gib ≤ exactRoom gpu co free ↔
      co.fitsBudget gpu est = true ∧ co.fitsLive gpu free est = true := by
    have hbudget : co.fitsBudget gpu est = true ↔
        (est : ℚ) ≤ (gpu.usableCapacity : ℚ) - co.accounted := by
      rw [Coordinator.fitsBudget, decide_eq_true_eq, ← NNRat.cast_le (K := ℚ), NNRat.cast_add,
        le_sub_iff_add_le']
    have hlive : co.fitsLive gpu free est = true ↔
        (est : ℚ) ≤ free - co.unmaterialized - gpu.config.safetyHeadroomBytes := by
      rw [Coordinator.fitsLive, decide_eq_true_eq]
    rw [hbudget, hlive, exactRoom, div_le_div_iff_of_pos_right gib_pos, le_min_iff]
  rw [hroom]
  cases hb : co.barred with
  | true => simp [Coordinator.stage1, hb]
  | false =>
    cases hfits : co.fitsBudget gpu est && co.fitsLive gpu free est with
    | true =>
      obtain ⟨hbudget, hlive⟩ := Bool.and_eq_true_iff.mp hfits
      simp [Coordinator.stage1, hb, hm, hop, hbudget, hlive]
    | false =>
      have hno : ¬ (co.fitsBudget gpu est = true ∧ co.fitsLive gpu free est = true) := by
        rintro ⟨h₁, h₂⟩
        simp [h₁, h₂] at hfits
      simp only [Coordinator.stage1, hb, hm, hfits, hno, and_false, iff_false, not_exists]
      intro e
      simp only [Bool.false_eq_true, if_false]
      split
      · split <;> simp
      · simp

/-- Where nothing can be evicted, a refusal for good is the rule's. -/
theorem needsTooMuch_iff (hm : co.residents.get? m = none) (hjob : co.barred = false)
    (hfits : (co.fitsBudget gpu est && co.fitsLive gpu free est) = false)
    (hv : co.selectVictims gpu m free est = []) :
    (co.stage1 gpu m est op free free).1 = .done (.refuse .needsTooMuch) ↔ tooLarge gpu est := by
  simp only [Coordinator.stage1, hjob, hm, hfits, hv, Bool.false_eq_true, if_false, tooLarge]
  split <;> simp_all

/-- For a model that is not resident the console and stage 1 agree exactly on
the sizes in neither gap. -/
theorem agrees_iff_clear (gpu : Gpu) (co : Coordinator) (m : ModelKey) (est : Bytes) (op : OpId)
    (free : ℚ) (rest : Inputs) (hm : co.residents.get? m = none)
    (hop : co.evictIntent.get? op = none) (h : Favourable rest) :
    Agrees gpu co m est op free rest ↔ Clear gpu co est free := by
  have hverdict : (compatibility (at' gpu co free est rest)).verdict = .eligible ↔ _ := eligible_iff h
  have hload : (∃ e, (co.stage1 gpu m est op free free).1 = .load e) ↔ _ := load_iff hm hop
  have hlarge : tooLarge gpu est ↔
      ((gpu.usableCapacity : ℚ) - gpu.config.safetyHeadroomBytes) / gib < est / gib := by
    rw [tooLarge, div_lt_div_iff_of_pos_right gib_pos]
  constructor
  · intro hagrees
    constructor
    · rintro hfree ⟨hover, hshown⟩
      obtain ⟨-, hroom⟩ := hload.mp (hagrees.eligible (hverdict.mpr ⟨hfree, hshown⟩))
      exact absurd hroom (not_le.mpr hover)
    · rintro ⟨habove, hbelow⟩
      have hiff := fitsAlone_iff.symm.trans (hagrees.fitsAlone.trans hlarge)
      rcases min_lt_iff.mp habove with ha | hb
      · have hb := hiff.mpr ha
        rcases le_max_iff.mp hbelow with ha' | hb'
        · exact absurd ha (not_lt.mpr ha')
        · exact absurd hb (not_lt.mpr hb')
      · have ha := hiff.mp hb
        rcases le_max_iff.mp hbelow with ha' | hb'
        · exact absurd ha (not_lt.mpr ha')
        · exact absurd hb (not_lt.mpr hb')
  · intro hclear
    constructor
    · intro helig
      obtain ⟨hfree, hshown⟩ := hverdict.mp helig
      refine hload.mpr ⟨hfree, ?_⟩
      by_contra hover
      exact hclear.room hfree ⟨not_le.mp hover, hshown⟩
    · rw [fitsAlone_iff, hlarge]
      constructor
      · intro hb
        by_contra ha
        exact hclear.alone ⟨min_lt_iff.mpr (.inr hb), le_max_iff.mpr (.inl (not_lt.mp ha))⟩
      · intro ha
        by_contra hb
        exact hclear.alone ⟨min_lt_iff.mpr (.inl ha), le_max_iff.mpr (.inr (not_lt.mp hb))⟩

/-- A card of 12 GiB with the default tunables: 11 GiB usable, half a GiB of
headroom. -/
def laptop : Gpu where
  config :=
    { safetyReserveBytes := gib, safetyHeadroomBytes := gib / 2, maxAdmissionAttempts := 3,
      configuredBudgetBytes := none }
  totalBytes := 12 * gib

/-- The same card under a budget of 10.996 GiB, shown as 11.00. -/
def budgeted : Gpu :=
  { laptop with config := { laptop.config with configuredBudgetBytes := some (10996 / 1000 * gib) } }

/-- Nothing asked of the host but the memory. -/
def memoryOnly : Inputs where
  estimatedGb := none
  admission := none
  engines := none
  requiredEngine := none
  acceleratorRequired := true
  artifactAvailable := none
  hostCompatible := none
  requiredComputeCapability := none
  baseResolvable := true

def gibs (n : ℕ) : Bytes := (n * 1073741824 : ℕ)

theorem favourable_memoryOnly : Favourable memoryOnly := by
  constructor <;> decide

theorem fourGib_agrees :
    Agrees laptop Coordinator.init "llm" (gibs 4) 1 (11 * gib) memoryOnly := by
  refine (agrees_iff_clear laptop Coordinator.init "llm" (gibs 4) 1 (11 * gib) memoryOnly rfl rfl
    favourable_memoryOnly).mpr ⟨fun _ => ?_, ?_⟩
  · decide +kernel
  · unfold Between
    decide +kernel

/-- Neither half of the agreement holds: under the budget of 10.996 GiB a
model of 11 GiB is eligible and not admitted, and on the idle laptop it fits
alone where stage 1 refuses it for good. -/
theorem elevenGib_disagrees :
    (¬ ∀ (gpu : Gpu) (co : Coordinator) (m : ModelKey) (est : Bytes) (op : OpId) (free : ℚ)
      (rest : Inputs), co.residents.get? m = none → co.evictIntent.get? op = none →
      Favourable rest → (compatibility (at' gpu co free est rest)).verdict = .eligible →
      ∃ e, (co.stage1 gpu m est op free free).1 = .load e) ∧
    ¬ ∀ (gpu : Gpu) (co : Coordinator) (est : Bytes) (free : ℚ) (rest : Inputs), Favourable rest →
      ((compatibility (at' gpu co free est rest)).fitsAlone = some false ↔ tooLarge gpu est) := by
  constructor
  · intro hall
    obtain ⟨e, he⟩ := hall budgeted Coordinator.init "llm" (gibs 11) 1 (12 * gib) memoryOnly rfl rfl
      favourable_memoryOnly (by decide +kernel)
    have hrefused : (Coordinator.init.stage1 budgeted "llm" (gibs 11) 1 (12 * gib) (12 * gib)).1 =
        .done (.refuse .needsTooMuch) := by decide +kernel
    cases hrefused.symm.trans he
  · intro hall
    have hlarge : tooLarge laptop (gibs 11) := by
      unfold tooLarge
      decide +kernel
    have hshown : (compatibility
        (at' laptop Coordinator.init (45 / 4 * gib) (gibs 11) memoryOnly)).fitsAlone = some true := by
      decide +kernel
    cases hshown.symm.trans ((hall _ _ _ _ _ favourable_memoryOnly).mpr hlarge)

end MlopsLite.Gateway.Console
