import MlopsLite.HostAgent.Coordinator.State
import MlopsLite.Lib.Rounding

/-!
# Admission log — the view of a coordinator

`Coordinator.snapshot` and `snapshot_from_coordinator`
(`hostagent/admissionlog.py`): the terms of both bounds, in GiB at two
decimals. The ring of past decisions is left out.
-/

namespace MlopsLite.HostAgent

/-- `1024 ** 3`. -/
def gib : ℚ := 1073741824

/-- `_gb`. -/
def gb (value : ℚ) : ℚ := Rounding.roundTo 2 value

structure ResidentView where
  modelKey : ModelKey
  vramGb : ℚ
  state : ResidentState
  activeRequests : ℕ

/-- The body of `GET /runtime/admission`. -/
structure AdmissionView where
  residents : List ResidentView
  usableBudgetGb : ℚ
  accountedResidentGb : ℚ
  reservedGb : ℚ
  unmaterializedGb : ℚ
  liveFreeGb : ℚ
  headroomGb : ℚ
  jobBarrier : Bool
  activeJob : Option ExclusiveJob

/-- `snapshot_from_coordinator`; `free` is the reading of the free memory. -/
def snapshotFromCoordinator (gpu : Gpu) (co : Coordinator) (free : ℚ) : AdmissionView where
  residents := co.residents.items.map fun kv =>
    ⟨kv.1, gb (kv.2.vramAccountedBytes / gib), kv.2.state, kv.2.activeRequests⟩
  usableBudgetGb := gb (gpu.usableCapacity / gib)
  accountedResidentGb := gb ((co.residents.total fun _ r => r.vramAccountedBytes : Bytes) / gib)
  reservedGb := gb ((co.reservations.total fun _ r => r.estBytes : Bytes) / gib)
  unmaterializedGb := gb (co.unmaterialized / gib)
  liveFreeGb := gb (free / gib)
  headroomGb := gb (gpu.config.safetyHeadroomBytes / gib)
  jobBarrier := co.jobBarrier
  activeJob := co.exclusiveJob

end MlopsLite.HostAgent
