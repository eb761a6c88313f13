import MlopsLite.HostAgent.Lifecycle.Children

/-!
# Admission — the single slot

`Admission` (`hostagent/admission.py`): one holder, and the target a swap
has reserved the slot for. Each method is one section under `lock`. The
times and the estimate it records decide nothing and are left out.
-/

namespace MlopsLite.HostAgent

open Lifecycle

/-- `_holder`; its `kind` is the tenant's. -/
structure Holder where
  tenant : Tenant
  childPid : Option ChildRef

structure Admission where
  holder : Option Holder
  swapTarget : Option EngineId

/-- The budget, and what each tenant estimates. -/
structure SlotConfig where
  vramBudgetGb : ℚ
  estGb : Tenant → ℚ

namespace Admission

/-- An admission as constructed. -/
def init : Admission := ⟨none, none⟩

def budgetSafety : ℚ := 95 / 100

/-- Against the free memory, or the static budget when it cannot be read. -/
def fits (cfg : SlotConfig) (d : Tenant) : Option ℚ → Bool
  | some free => cfg.estGb d ≤ free
  | none => cfg.estGb d ≤ cfg.vramBudgetGb * budgetSafety

def tenant (a : Admission) : Option Tenant := a.holder.map Holder.tenant

/-- The reservation of a swap keeps `d` out. -/
def reservedFrom (a : Admission) (d : Tenant) : Bool :=
  a.swapTarget.any fun target => Tenant.engine target ≠ d

def acquire (cfg : SlotConfig) (a : Admission) (d : Tenant) (free : Option ℚ) : Admission × Ret :=
  match a.holder with
  | some h => (a, if h.tenant = d then .ok else .raised)
  | none =>
      if a.reservedFrom d then (a, .raised)
      else if fits cfg d free then ({ a with holder := some ⟨d, none⟩ }, .ok)
      else (a, .raised)

def setChild (a : Admission) (e : EngineId) (c : ChildRef) : Admission :=
  if a.tenant = some (.engine e)
  then { a with holder := a.holder.map fun h => { h with childPid := some c } } else a

/-- Own-tenant only. -/
def release (a : Admission) (d : Tenant) : Admission :=
  if a.tenant = some d then { a with holder := none } else a

/-- `none`: raises `Held`, a swap being in flight. -/
def beginSwap (a : Admission) (target : EngineId) : Option Admission :=
  match a.swapTarget with
  | some _ => none
  | none => some { a with swapTarget := some target }

def endSwap (a : Admission) (target : EngineId) : Admission :=
  if a.swapTarget = some target then { a with swapTarget := none } else a

def retargetSwap (a : Admission) (old new : EngineId) : Admission :=
  if a.swapTarget = some old then { a with swapTarget := some new } else a

/-! ## As the runtimes' admission -/

inductive AcquireAt
  | acquire (d : Tenant)
  | setChild (e : EngineId) (c : ChildRef)
  deriving DecidableEq

/-- A choice is the reading of the free memory. -/
def surface (cfg : SlotConfig) : AdmissionSurface Admission AcquireAt Tenant (Option ℚ) where
  acquire := .acquire
  setChild := .setChild
  acquireStep _ free _ a
    | .acquire d => some ((a.acquire cfg d free).1, .ret (a.acquire cfg d free).2)
    | .setChild e c => some (a.setChild e c, .ret .ok)
  release d := d
  releaseStep _ _ _ a d := some (a.release d, .done)
  beginSwap target a := a.beginSwap target
  endSwap target a := a.endSwap target
  retargetSwap old new a := a.retargetSwap old new
  holder := tenant

variable {cfg : SlotConfig} {a : Admission} {d : Tenant} {free : Option ℚ}

/-! ## What a section does to the holder -/

theorem tenant_acquire (cfg : SlotConfig) (a : Admission) (d : Tenant) (free : Option ℚ) :
    (a.acquire cfg d free).1.tenant = a.tenant ∨
      a.tenant = none ∧ a.reservedFrom d = false ∧ (a.acquire cfg d free).1.tenant = some d := by
  unfold acquire
  split
  · exact .inl rfl
  · rename_i hnone
    cases hr : a.reservedFrom d with
    | true => exact .inl (by simp)
    | false =>
      by_cases hf : fits cfg d free
      · exact .inr ⟨by simp [tenant, hnone], rfl, by simp [hf, tenant]⟩
      · exact .inl (by simp [hf])

theorem tenant_of_acquired (h : (a.acquire cfg d free).2 = .ok) :
    (a.acquire cfg d free).1.tenant = some d := by
  unfold acquire at h ⊢
  split at h
  · rename_i holder hh
    by_cases hd : holder.tenant = d
    · simp [tenant, hh, hd]
    · simp [hd] at h
  · split at h
    · cases h
    · rename_i hr
      split at h
      · rename_i hf
        simp [hr, hf, tenant]
      · cases h

/-- A refusal changes nothing. -/
theorem acquire_of_refused (h : (a.acquire cfg d free).2 ≠ .ok) :
    (a.acquire cfg d free).1 = a := by
  unfold acquire at h ⊢
  split
  · rfl
  · rename_i hnone
    rw [hnone] at h
    split
    · rfl
    · rename_i hr
      by_cases hf : fits cfg d free
      · simp [hr, hf] at h
      · simp [hf]

theorem tenant_setChild (e : EngineId) (c : ChildRef) : (a.setChild e c).tenant = a.tenant := by
  unfold setChild
  split
  · cases hh : a.holder <;> simp [tenant, hh]
  · rfl

theorem tenant_release : (a.release d).tenant = if a.tenant = some d then none else a.tenant := by
  unfold release
  split
  · simp [tenant]
  · rfl

theorem tenant_endSwap (target : EngineId) : (a.endSwap target).tenant = a.tenant := by
  unfold endSwap
  split <;> rfl

theorem tenant_retargetSwap (old new : EngineId) :
    (a.retargetSwap old new).tenant = a.tenant := by
  unfold retargetSwap
  split <;> rfl

theorem of_beginSwap {target : EngineId} {a' : Admission} (h : a.beginSwap target = some a') :
    a.swapTarget = none ∧ a' = { a with swapTarget := some target } := by
  unfold beginSwap at h
  split at h
  · cases h
  · exact ⟨‹_›, (Option.some.inj h).symm⟩

/-- The engines rely on the slot: its holder is the engine that holds it. -/
def holding (cfg : SlotConfig) : Holding (surface cfg) where
  held a e := a.tenant = some (.engine e)
  asks k e := k = .acquire (.engine e)
  drops k d := k = d
  asks_acquire _ := rfl
  drops_release _ := rfl
  keeps {_ free _ a k a' r} h e he := by
    cases k with
    | acquire d =>
      cases h
      rcases tenant_acquire _ a d free with heq | ⟨hnone, -⟩
      · exact heq.trans he
      · simp [hnone] at he
    | setChild f c =>
      cases h
      exact (tenant_setChild f c).trans he
  asks_goto {_ _ _ _ k _ _ _} h := by cases k <;> cases h
  asks_unload {_ _ _ _ k _ _ _ _} h := by cases k <;> cases h
  granted {_ _ _ a k a' e} h hk := by
    subst hk
    simp only [surface, Option.some.injEq, Prod.mk.injEq, Admit.ret.injEq] at h
    obtain ⟨rfl, hr⟩ := h
    exact tenant_of_acquired hr
  drops_goto h := by cases h
  own_only {_ _ _ a k a' r d} h hd e hne he := by
    subst hd
    cases h
    rw [tenant_release, if_neg]
    · exact he
    · rw [he]
      simpa using Ne.symm hne
  beginSwap h f hf := by
    obtain ⟨-, rfl⟩ := of_beginSwap h
    exact hf
  endSwap e a f hf := (tenant_endSwap e).trans hf
  retargetSwap e e' a f hf := (tenant_retargetSwap e e').trans hf

/-! ## The system -/

abbrev Sys := Lifecycle.Sys Admission AcquireAt Tenant

abbrev Act := ThreadId × Lifecycle.Choice (Option ℚ)

/-- The agent in single-slot mode; `final` bounds what a process grows to. -/
abbrev next (cfg : SlotConfig) (final : EngineId → Bytes) : Sys → Act → Option Sys :=
  Lifecycle.next (surface cfg) final

def Sys.init : Sys := Lifecycle.Sys.init Admission.init

/-- A card of 8 GB and tenants of 4 GB. -/
def eightGb : SlotConfig := { vramBudgetGb := 8, estGb := fun _ => 4 }

def fourGb (_ : EngineId) : Bytes := 4

end Admission

end MlopsLite.HostAgent
