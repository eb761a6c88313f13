import MlopsLite.HostAgent.AdmissionLog

/-!
# Catalog — the compatibility verdict

`compatibility` and `_verdict` of `gateway/app/console/catalog.py`. A figure
the agent did not give, or a check whose inputs were not all readable, is
`none`.
-/

namespace MlopsLite.Gateway.Console

open HostAgent (AdmissionView)

/-- `_check`. -/
inductive Check
  | unknown
  | pass
  | fail
  deriving DecidableEq, Repr

inductive Verdict
  | incompatible
  | unknown
  | notCurrentlyEligible
  | eligible
  deriving DecidableEq, Repr

/-- One constructor for each text of `reasons`, with the figures in it. -/
inductive Reason
  | budget (estimated accounted reserved budget : ℚ)
  | liveVram (estimated headroom liveFree unmaterialized : ℚ)
  | cannotFitAlone (estimated budget : ℚ)
  | engineUnavailable (engine : String)
  | artifactMissing
  | computeCapability (required : Option String)
  | baseUnresolved
  | jobExclusive
  deriving DecidableEq

/-- What `compatibility` is called with; `engines` are their ids. -/
structure Inputs where
  estimatedGb : Option ℚ
  admission : Option AdmissionView
  engines : Option (List String)
  requiredEngine : Option String
  acceleratorRequired : Bool
  artifactAvailable : Option Bool
  hostCompatible : Option Bool
  requiredComputeCapability : Option String
  baseResolvable : Bool

/-- `RuntimeCompatibility`; its inputs are repeated in it. -/
structure RuntimeCompatibility where
  inputs : Inputs
  budgetCheck : Check
  liveVramCheck : Check
  fitsAlone : Option Bool
  jobExclusive : Bool
  verdict : Verdict
  reasons : List Reason

def Check.of : Option Bool → Check
  | none => .unknown
  | some true => .pass
  | some false => .fail

namespace Inputs

/-- Check 1, the accounted budget. -/
def budgetOk (i : Inputs) : Option Bool :=
  match i.estimatedGb, i.admission with
  | some est, some a => some (decide (est + a.accountedResidentGb + a.reservedGb ≤ a.usableBudgetGb))
  | _, _ => none

/-- Check 2, the measured free memory. -/
def liveOk (i : Inputs) : Option Bool :=
  match i.estimatedGb, i.admission with
  | some est, some a => some (decide (est + a.headroomGb ≤ a.liveFreeGb - a.unmaterializedGb))
  | _, _ => none

def fitsAlone (i : Inputs) : Option Bool :=
  match i.estimatedGb, i.admission with
  | some est, some a => some (decide (est ≤ a.usableBudgetGb))
  | _, _ => none

def jobExclusive (i : Inputs) : Bool :=
  i.admission.any fun a => a.jobBarrier || a.activeJob.isSome

def engineAvailable (i : Inputs) : Option Bool :=
  match i.engines, i.requiredEngine with
  | some engines, some required => if required = "" then none else some (required ∈ engines)
  | _, _ => none

/-- `_verdict`: structural first, then unknown, then transient. -/
def verdict (i : Inputs) : Verdict :=
  if i.engineAvailable = some false || i.artifactAvailable = some false ||
      i.hostCompatible = some false || !i.baseResolvable || i.fitsAlone = some false then
    .incompatible
  else if i.admission.isNone || i.budgetOk.isNone || i.liveOk.isNone then .unknown
  else if i.jobExclusive || i.budgetOk = some false || i.liveOk = some false then
    .notCurrentlyEligible
  else .eligible

/-- The reasons of the three memory checks. -/
def memoryReasons (i : Inputs) : List Reason :=
  match i.estimatedGb, i.admission with
  | some est, some a =>
      (if i.budgetOk = some false
        then [.budget est a.accountedResidentGb a.reservedGb a.usableBudgetGb] else []) ++
      (if i.liveOk = some false
        then [.liveVram est a.headroomGb a.liveFreeGb a.unmaterializedGb] else []) ++
      (if i.fitsAlone = some false then [.cannotFitAlone est a.usableBudgetGb] else [])
  | _, _ => []

def reasons (i : Inputs) : List Reason :=
  i.memoryReasons ++
  (if i.engineAvailable = some false
    then [.engineUnavailable (i.requiredEngine.getD "")] else []) ++
  (if i.artifactAvailable = some false then [.artifactMissing] else []) ++
  (if i.hostCompatible = some false
    then [.computeCapability i.requiredComputeCapability] else []) ++
  (if i.baseResolvable then [] else [.baseUnresolved]) ++
  (if i.jobExclusive then [.jobExclusive] else [])

end Inputs

/-- `compatibility`. -/
def compatibility (i : Inputs) : RuntimeCompatibility where
  inputs := i
  budgetCheck := .of i.budgetOk
  liveVramCheck := .of i.liveOk
  fitsAlone := i.fitsAlone
  jobExclusive := i.jobExclusive
  verdict := i.verdict
  reasons := i.reasons

end MlopsLite.Gateway.Console
