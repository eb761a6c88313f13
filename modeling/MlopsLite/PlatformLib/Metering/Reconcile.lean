import MlopsLite.PlatformLib.Metering.Writes

/-!
# Metering — ledger and reservations agree

A settle reads the reservation in one statement and writes the two tables in
the next two; release and the sweep may commit in between. `SettlesReserved`
rules that out, and then the tables agree row by row in every committed
state (`reconciled`). Without it a released reservation gets a ledger row
(`lateRelease`).
-/

namespace MlopsLite.PlatformLib

namespace Store

/-- The identity of `reconciliation`, row by row. -/
structure Reconciled (x : Store) : Prop where
  row : ∀ op l, x.ledger.get? op = some l →
    ∃ r, x.reservations.get? op = some r ∧ r.state = .settled ∧
      r.settledGpuSeconds = some l.gpuSeconds ∧ r.windowStart = l.windowStart ∧
      r.tenantId = l.tenantId
  settled : ∀ op r, x.reservations.get? op = some r → r.state = .settled →
    ∃ l, x.ledger.get? op = some l
  released : ∀ op r, x.reservations.get? op = some r → r.state = .released →
    x.ledger.get? op = none

/-- A settle whose transaction has inserted the ledger row finds the
reservation still `reserved` when it updates it. -/
def SettlesReserved (s : Sys) (a : Act) : Prop :=
  match s.pc a.1, a.2 with
  | .settleUpdate op _ _ true, .go => s.shared.isReserved op = true
  | _, _ => True

instance (s : Sys) (a : Act) : Decidable (SettlesReserved s a) := by
  unfold SettlesReserved
  exact Interleaving.pointwise (s.pc a.1) a.2 fun pc c => by split <;> infer_instance

/-- The two statements of a settle write both rows or neither. -/
def Paired : StorePc → Prop
  | .settleCommit _ _ _ inserted updated => inserted = updated
  | _ => True

variable {trunc : Window → Time → Time} {t : CallId} {x x' : Store} {pc pc' : StorePc}

/-! ## One statement -/

theorem Reconciled.ledger_none (h : x.Reconciled) {op : OpKey} {r : UsageReservation}
    (hr : x.reservations.get? op = some r) (hstate : r.state ≠ .settled) :
    x.ledger.get? op = none := by
  cases hl : x.ledger.get? op with
  | none => rfl
  | some l =>
    obtain ⟨r', hr', hsettled, -⟩ := h.row op l hl
    cases hr.symm.trans hr'
    exact absurd hsettled hstate

theorem Reconciled.reserves (h : x.Reconciled) {q : ReserveRequest} {w : Authority}
    (hnew : x.reservations.get? q.op = none)
    (hr : x'.reservations = x.reservations.insert q.op (newReservation q w))
    (hl : x'.ledger = x.ledger) : x'.Reconciled := by
  have hget : ∀ op, op ≠ q.op → x'.reservations.get? op = x.reservations.get? op := by
    intro op hop
    rw [hr, Dict.get?_insert_ne _ _ hop]
  have hself : x'.reservations.get? q.op = some (newReservation q w) := by
    rw [hr, Dict.get?_insert_self]
  have hnone : x'.ledger.get? q.op = none := by
    rw [hl]
    cases hled : x.ledger.get? q.op with
    | none => rfl
    | some l =>
      obtain ⟨r, hr', -⟩ := h.row q.op l hled
      exact nomatch hnew.symm.trans hr'
  refine ⟨fun op l hled => ?_, fun op r hrow hstate => ?_, fun op r hrow hstate => ?_⟩
  · have hop : op ≠ q.op := by
      rintro rfl
      exact nomatch hnone.symm.trans hled
    rw [hget op hop]
    exact h.row op l (hl ▸ hled)
  · by_cases hop : op = q.op
    · subst hop
      cases hself.symm.trans hrow
      cases hstate
    · rw [hl]
      exact h.settled op r (hget op hop ▸ hrow) hstate
  · by_cases hop : op = q.op
    · subst hop
      exact hnone
    · rw [hl]
      exact h.released op r (hget op hop ▸ hrow) hstate

theorem Reconciled.settles (h : x.Reconciled) {op : OpKey} {actual : ℚ} {r : UsageReservation}
    (hknown : x.Known op r)
    (hr : x'.reservations = x.reservations.modify op (Store.settled actual))
    (hl : x'.ledger = x.ledger.insert op (ledgerRow r actual)) : x'.Reconciled := by
  obtain ⟨r', hrow, hstamp⟩ := hknown
  obtain ⟨htenant, hwindow, -⟩ := fields_of_stamp hstamp
  have hself : x'.reservations.get? op = some (Store.settled actual r') := by
    simp [hr, hrow]
  have hself' : x'.ledger.get? op = some (ledgerRow r actual) := by
    rw [hl, Dict.get?_insert_self]
  have hget : ∀ k, k ≠ op → x'.reservations.get? k = x.reservations.get? k ∧
      x'.ledger.get? k = x.ledger.get? k := by
    intro k hk
    rw [hr, hl, Dict.get?_modify_ne _ _ hk, Dict.get?_insert_ne _ _ hk]
    exact ⟨rfl, rfl⟩
  refine ⟨fun k l hled => ?_, fun k r₁ hrow₁ hstate => ?_, fun k r₁ hrow₁ hstate => ?_⟩
  · by_cases hk : k = op
    · subst hk
      cases hself'.symm.trans hled
      exact ⟨_, hself, rfl, rfl, hwindow, htenant⟩
    · rw [(hget k hk).1]
      exact h.row k l ((hget k hk).2 ▸ hled)
  · by_cases hk : k = op
    · subst hk
      exact ⟨_, hself'⟩
    · rw [(hget k hk).2]
      exact h.settled k r₁ ((hget k hk).1 ▸ hrow₁) hstate
  · by_cases hk : k = op
    · subst hk
      cases hself.symm.trans hrow₁
      cases hstate
    · rw [(hget k hk).2]
      exact h.released k r₁ ((hget k hk).1 ▸ hrow₁) hstate

theorem Reconciled.releases (h : x.Reconciled) {f : OpKey → UsageReservation → Bool}
    (hf : ∀ op r, x.reservations.get? op = some r → f op r = true → r.state = .reserved)
    (hr : x'.reservations = x.reservations.map fun op r => if f op r then Store.released r else r)
    (hl : x'.ledger = x.ledger) : x'.Reconciled := by
  have hget : ∀ op r, x'.reservations.get? op = some r →
      ∃ r₀, x.reservations.get? op = some r₀ ∧
        ((f op r₀ = true ∧ r = Store.released r₀) ∨ (f op r₀ = false ∧ r = r₀)) := by
    intro op r hrow
    rw [hr, Dict.get?_map] at hrow
    obtain ⟨r₀, hr₀, rfl⟩ := Option.map_eq_some_iff.mp hrow
    refine ⟨r₀, hr₀, ?_⟩
    cases f op r₀ <;> simp
  refine ⟨fun op l hled => ?_, fun op r hrow hstate => ?_, fun op r hrow hstate => ?_⟩
  · obtain ⟨r, hrow, hstate, hrest⟩ := h.row op l (hl ▸ hled)
    have hfalse : f op r = false := by
      by_contra htrue
      have := hf op r hrow (by simpa using htrue)
      exact nomatch hstate.symm.trans this
    refine ⟨r, ?_, hstate, hrest⟩
    simp [hr, hrow, hfalse]
  · rw [hl]
    obtain ⟨r₀, hr₀, ⟨-, rfl⟩ | ⟨-, rfl⟩⟩ := hget op r hrow
    · cases hstate
    · exact h.settled op r hr₀ hstate
  · rw [hl]
    obtain ⟨r₀, hr₀, ⟨htrue, -⟩ | ⟨-, rfl⟩⟩ := hget op r hrow
    · have hres := hf op r₀ hr₀ htrue
      exact h.ledger_none hr₀ (by simp [hres])
    · exact h.released op r hr₀ hstate

theorem Reconciled.next (h : x.Reconciled) (hw : Writes t pc x x') (hs : x.Standing pc)
    (hp : Paired pc) : x'.Reconciled := by
  cases hw with
  | nothing hr hl =>
    refine ⟨?_, ?_, ?_⟩ <;> rw [hr, hl]
    · exact h.row
    · exact h.settled
    · exact h.released
  | reserves hpc hr hl =>
    subst hpc
    exact h.reserves (hs.2 rfl) hr hl
  | @settles op actual r inserted updated hpc hr hl =>
    subst hpc
    obtain rfl : inserted = updated := hp
    cases inserted with
    | true => exact h.settles hs.1 hr hl
    | false =>
      refine ⟨?_, ?_, ?_⟩ <;> rw [hr, hl]
      · exact h.row
      · exact h.settled
      · exact h.released
  | releases f hf hr hl => exact h.releases (fun op r hr hfr => (hf op r hr hfr).1) hr hl

theorem Paired.own (hst : Statement trunc t x pc x' pc') (hs : x.Standing pc) (h : x.Reconciled)
    (hok : ∀ op actual r inserted updated, pc = .settleUpdate op actual r true →
      pc' = .settleCommit op actual r inserted updated → x.isReserved op = true) :
    Paired pc' := by
  cases hst with
  | enter c =>
    cases c <;> simp only [enter] <;> (repeat' split) <;> trivial
  | @updateReservation op actual r inserted hx _ =>
    obtain ⟨r₀, hr₀, hstate⟩ := isReserved_iff.mp hx
    have hnone := h.ledger_none hr₀ (by simp [hstate])
    exact hs.2.mpr hnone
  | @notReserved op actual r inserted hx =>
    cases inserted with
    | false => rfl
    | true =>
      have := hok op actual r true false rfl rfl
      simp [hx] at this
  | refused hpc => rcases hpc with rfl | rfl <;> trivial
  | _ => trivial

/-! ## Runs -/

theorem reconciled_init : Store.init.Reconciled :=
  ⟨fun _ _ h => (by cases h), fun _ _ h => (by cases h), fun _ _ h => (by cases h)⟩

structure Agreed (s : Sys) : Prop where
  rows : s.shared.Reconciled
  paired : ∀ t, Paired (s.pc t)

theorem agreed_of_reachable {s : Sys}
    (h : Runs.Reachable (next trunc) SettlesReserved Sys.init s) : Agreed s := by
  have h0 : Agreed Sys.init := ⟨reconciled_init, fun _ => trivial⟩
  refine h.invariant h0 ?_
  intro s a s' hr hI hok hn
  obtain ⟨hst, hothers⟩ := statement_of_next hn
  have hs := (sound_of_reachable hr).standing a.1
  refine ⟨hI.rows.next hst.writes hs (hI.paired a.1), fun u => ?_⟩
  by_cases hu : u = a.1
  · subst hu
    refine Paired.own hst hs hI.rows ?_
    intro op actual r inserted updated hpc hpc'
    obtain ⟨x, k, ha, rfl⟩ := Interleaving.next_eq_some.mp hn
    rw [hpc] at ha
    have hk : k = .settleCommit op actual r inserted updated := by simpa using hpc'
    subst hk
    have hgo := go_of_advance (.inr ⟨op, actual, r, true, rfl⟩) ha nofun
    simpa [SettlesReserved, hpc, hgo] using hok
  · rw [hothers u hu]
    exact hI.paired u

/-- Every ledger row has its reservation, settled, with its seconds and its
window; every settled reservation has its ledger row, a released one none. -/
theorem reconciled (trunc : Window → Time → Time) (s : Sys)
    (h : Runs.Reachable (next trunc) SettlesReserved Sys.init s) : s.shared.Reconciled :=
  (agreed_of_reachable h).rows

/-! ## A run -/

def job (op : OpKey) (est : ℚ) (budget : Option ℚ) : ReserveRequest :=
  { op, tenant := "acme", est, kind := .inference, modality := "llm", defaultBudget := budget }

/-- The calls of `t` for a reserve that is granted. -/
def reserving (t : CallId) (q : ReserveRequest) : List Act :=
  [(t, .call (.reserve q)), (t, .go), (t, .now 0), (t, .go), (t, .go), (t, .go), (t, .go)]

def settling (t : CallId) (op : OpKey) (actual : ℚ) : List Act :=
  [(t, .call (.settle op actual)), (t, .go), (t, .go), (t, .go), (t, .go)]

/-- Call 1 settles what call 0 reserved. -/
def plainSettle : List Act := reserving 0 (job "op" 5 none) ++ settling 1 "op" 3

theorem plainSettle_reconciled :
    ∃ s : Sys, (∃ l, s.shared.ledger.get? "op" = some l ∧ l.gpuSeconds = 3) ∧
      s.shared.Reconciled := by
  have hrun : (Runs.run (next midnight) SettlesReserved Sys.init plainSettle).map
      (fun s => (s.shared.ledger.get? "op").any fun l => l.gpuSeconds = 3) = some true := by
    decide +kernel
  obtain ⟨s, hs, hp⟩ := Runs.exists_reachable hrun
  obtain ⟨l, hl, hseconds⟩ := (Option.any_eq_true _ _).mp hp
  exact ⟨s, ⟨l, hl, of_decide_eq_true hseconds⟩, reconciled midnight s hs⟩

/-- Call 2 releases the reservation after call 1 has read it. -/
def lateRelease : List Act :=
  reserving 0 (job "op" 5 none) ++
    [(1, .call (.settle "op" 3)), (2, .call (.release "op")), (2, .go), (1, .go), (1, .go),
      (1, .go)]

theorem lateRelease_not_reconciled :
    ¬ ∀ s, Runs.Reachable (next midnight) Runs.anyStep Sys.init s → s.shared.Reconciled := by
  have hrun : (Runs.run (next midnight) Runs.anyStep Sys.init lateRelease).map
      (fun s => (s.shared.reservations.get? "op").any (fun r => r.state = .released) &&
        (s.shared.ledger.get? "op").isSome) = some true := by
    decide +kernel
  obtain ⟨s, hs, hp⟩ := Runs.exists_reachable hrun
  obtain ⟨hreleased, hrow⟩ := Bool.and_eq_true_iff.mp hp
  obtain ⟨r, hr, hstate⟩ := (Option.any_eq_true _ _).mp hreleased
  intro hall
  have hnone := (hall s hs).released "op" r hr (of_decide_eq_true hstate)
  simp [hnone] at hrow

end Store

end MlopsLite.PlatformLib
