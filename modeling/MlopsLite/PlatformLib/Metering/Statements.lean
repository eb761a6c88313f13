import MlopsLite.PlatformLib.Metering.Store

/-!
# Metering — what a statement can do

`Statement` lists every outcome of a step, guards included;
`statement_of_advance` says the list is complete. The locks are read off the
control points (`holds`), whoever runs.
-/

namespace MlopsLite.PlatformLib

/-- The rows a call holds between two statements. -/
def StorePc.holds : StorePc → Row → Prop
  | .reserveWindow q locked _ _, k => locked = true ∧ k = .quota q.tenant
  | .reserveCheck q w, k | .reserveInsert q w, k => w.locked = true ∧ k = .quota q.tenant
  | .reserveCommit q w inserted, k =>
      w.locked = true ∧ k = .quota q.tenant ∨ inserted = true ∧ k = .reservation q.op
  | .settleUpdate op _ _ inserted, k => inserted = true ∧ k = .ledger op
  | .settleCommit op _ _ inserted updated, k =>
      inserted = true ∧ k = .ledger op ∨ updated = true ∧ k = .reservation op
  | _, _ => False

namespace Store

/-- `Statement trunc t x pc x' pc'`: call `t`, standing at `pc`, can take the
store from `x` to `x'` and stand at `pc'`. -/
inductive Statement (trunc : Window → Time → Time) (t : CallId) :
    Store → StorePc → Store → StorePc → Prop
  | enter {x} (c : StoreCall) : Statement trunc t x .idle x (x.enter c)
  | lockNone {x q} (hq : x.quotas.get? q.tenant = none) :
      Statement trunc t x (.reserveLock q) x (.reserveWindow q false .daily q.defaultBudget)
  | lockRow {x q quota} (hq : x.quotas.get? q.tenant = some quota)
      (hf : RowLocks.free x.locks (.quota q.tenant) t = true) :
      Statement trunc t x (.reserveLock q)
        { x with locks := RowLocks.take x.locks (.quota q.tenant) t }
        (.reserveWindow q true quota.window (some quota.budgetGpuSeconds))
  | window {x q locked window budget} (at' : Time) :
      Statement trunc t x (.reserveWindow q locked window budget) x
        (.reserveCheck q ⟨locked, at', trunc window at', budget⟩)
  | fits {x q w} (hfit : x.fitsBudget q w = true) :
      Statement trunc t x (.reserveCheck q w) x (.reserveInsert q w)
  | exhausted {x q w} (hfit : x.fitsBudget q w = false) :
      Statement trunc t x (.reserveCheck q w) (x.unlock t) .refused
  | insertReservation {x} {q : ReserveRequest} {w} (hx : x.reservations.get? q.op = none)
      (hf : RowLocks.free x.locks (.reservation q.op) t = true) :
      Statement trunc t x (.reserveInsert q w)
        { x with locks := RowLocks.take x.locks (.reservation q.op) t } (.reserveCommit q w true)
  | reservationExists {x q w} (hx : (x.reservations.get? q.op).isSome) :
      Statement trunc t x (.reserveInsert q w) x (.reserveCommit q w false)
  | commitReserve {x q w inserted} :
      Statement trunc t x (.reserveCommit q w inserted)
        ((x.commitReserve q w inserted).unlock t) (.reserveReturn q.op inserted)
  | granted {x op} (hx : (x.reservations.get? op).isSome) :
      Statement trunc t x (.reserveReturn op true) x (.granted op)
  | refused {x op inserted pc'} (hpc : pc' = .refused ∨ pc' = .raised) :
      Statement trunc t x (.reserveReturn op inserted) x pc'
  | insertLedger {x op actual r} (hx : x.ledger.get? op = none)
      (hf : RowLocks.free x.locks (.ledger op) t = true) :
      Statement trunc t x (.settleInsert op actual r)
        { x with locks := RowLocks.take x.locks (.ledger op) t } (.settleUpdate op actual r true)
  | ledgerExists {x op actual r} (hx : (x.ledger.get? op).isSome) :
      Statement trunc t x (.settleInsert op actual r) x (.settleUpdate op actual r false)
  | updateReservation {x op actual r inserted} (hx : x.isReserved op = true)
      (hf : RowLocks.free x.locks (.reservation op) t = true) :
      Statement trunc t x (.settleUpdate op actual r inserted)
        { x with locks := RowLocks.take x.locks (.reservation op) t }
        (.settleCommit op actual r inserted true)
  | notReserved {x op actual r inserted} (hx : x.isReserved op = false) :
      Statement trunc t x (.settleUpdate op actual r inserted) x
        (.settleCommit op actual r inserted false)
  | commitSettle {x op actual r inserted updated} :
      Statement trunc t x (.settleCommit op actual r inserted updated)
        ((x.commitSettle op actual r inserted updated).unlock t) (.reread op)
  | release {x op} (hf : RowLocks.free x.locks (.reservation op) t = true) :
      Statement trunc t x (.release op) (x.release op) (.reread op)
  | reread {x op} : Statement trunc t x (.reread op) x
      (.finished ((x.reservations.get? op).map UsageReservation.state))
  | sweep {x kind olderThan} (now : Time) (hs : x.sweepable t kind olderThan now = true) :
      Statement trunc t x (.sweep kind olderThan) (x.sweep kind olderThan now) (.finished none)
  | setQuota {x tenant window budget}
      (hf : RowLocks.free x.locks (.quota tenant) t = true) :
      Statement trunc t x (.setQuota tenant window budget)
        { x with quotas := x.quotas.insert tenant ⟨window, budget⟩ } (.finished none)
  | fails {x pc} (hpc : pc.over = false) : Statement trunc t x pc (x.unlock t) .raised

variable {trunc : Window → Time → Time} {t : CallId} {x x' : Store} {pc pc' : StorePc}

theorem statement_of_advance {ch : StoreChoice} (h : advance trunc t ch x pc = some (x', pc')) :
    Statement trunc t x pc x' pc' := by
  cases ch with
  | call c => cases pc <;> cases h; exact .enter c
  | now at' =>
    cases pc <;> simp only [advance, reduceCtorEq, Option.some.injEq, Prod.mk.injEq] at h
    · obtain ⟨rfl, rfl⟩ := h
      exact .window at'
    · split at h
      · rename_i hs
        cases h
        exact .sweep at' hs
      · cases h
  | fails =>
    have hover : pc.over = false ∧ (x.unlock t, StorePc.raised) = (x', pc') := by
      cases pc <;> simp_all [advance, StorePc.over]
    obtain ⟨hpc, heq⟩ := hover
    cases heq
    exact .fails hpc
  | go =>
    cases pc with
    | reserveLock q =>
      simp only [advance, reserveLock] at h
      split at h
      · rename_i hq
        cases h
        exact .lockNone hq
      · rename_i quota hq
        split at h
        · rename_i hf
          cases h
          exact .lockRow hq hf
        · cases h
    | reserveCheck q w =>
      simp only [advance] at h
      split at h
      · rename_i hfit
        cases h
        exact .fits hfit
      · rename_i hfit
        cases h
        exact .exhausted (by simpa using hfit)
    | reserveInsert q w =>
      simp only [advance, reserveInsert] at h
      split at h
      · rename_i hf
        split at h
        · rename_i r hr
          cases h
          exact .reservationExists (by simp [hr])
        · rename_i hr
          cases h
          exact .insertReservation hr hf
      · cases h
    | reserveCommit q w inserted =>
      cases h
      exact .commitReserve
    | reserveReturn op inserted =>
      simp only [advance, Option.some.injEq, Prod.mk.injEq] at h
      obtain ⟨rfl, rfl⟩ := h
      split
      · exact .refused (.inr rfl)
      · rename_i r hr
        cases inserted with
        | true => exact .granted (by simp [hr])
        | false => exact .refused (.inl rfl)
    | settleInsert op actual r =>
      simp only [advance, settleInsert] at h
      split at h
      · rename_i hf
        split at h
        · rename_i row hrow
          cases h
          exact .ledgerExists (by simp [hrow])
        · rename_i hrow
          cases h
          exact .insertLedger hrow hf
      · cases h
    | settleUpdate op actual r inserted =>
      simp only [advance, settleUpdate] at h
      split at h
      · rename_i hf
        split at h
        · rename_i hx
          cases h
          exact .updateReservation hx hf
        · rename_i hx
          cases h
          exact .notReserved (by simpa using hx)
      · cases h
    | settleCommit op actual r inserted updated =>
      cases h
      exact .commitSettle
    | release op =>
      simp only [advance] at h
      split at h
      · rename_i hf
        cases h
        exact .release hf
      · cases h
    | reread op =>
      cases h
      exact .reread
    | setQuota tenant window budget =>
      simp only [advance] at h
      split at h
      · rename_i hf
        cases h
        exact .setQuota hf
      · cases h
    | idle | reserveWindow | sweep | granted | refused | finished | raised => cases h

theorem call_of_idle {ch : StoreChoice} (h : advance trunc t ch x .idle = some (x', pc')) :
    ∃ c, ch = .call c ∧ pc' = x.enter c := by
  cases ch with
  | call c =>
    cases h
    exact ⟨c, rfl, rfl⟩
  | go | now | fails => cases h

/-- Only a statement that runs takes a call past its locking read or its
guarded update. -/
theorem go_of_advance {ch : StoreChoice}
    (hpc : (∃ q, pc = .reserveLock q) ∨
      ∃ op actual r inserted, pc = .settleUpdate op actual r inserted)
    (h : advance trunc t ch x pc = some (x', pc')) (hr : pc' ≠ .raised) : ch = .go := by
  rcases hpc with ⟨q, rfl⟩ | ⟨op, actual, r, inserted, rfl⟩
  · cases ch with
    | go => rfl
    | call | now => cases h
    | fails =>
      cases h
      exact absurd rfl hr
  · cases ch with
    | go => rfl
    | call | now => cases h
    | fails =>
      cases h
      exact absurd rfl hr

theorem statement_of_next {s s' : Sys} {a : Act} (h : next trunc s a = some s') :
    Statement trunc a.1 s.shared (s.pc a.1) s'.shared (s'.pc a.1) ∧
      ∀ u, u ≠ a.1 → s'.pc u = s.pc u := by
  obtain ⟨t, ch⟩ := a
  obtain ⟨x, k, ha, rfl⟩ := Interleaving.next_eq_some.mp h
  refine ⟨by simpa using statement_of_advance ha, ?_⟩
  intro u hu
  exact Function.update_of_ne hu ..

/-! ## Locks -/

theorem holds_enter (c : StoreCall) (k : Row) : ¬ (x.enter c).holds k := by
  cases c with
  | reserve q =>
    simp only [enter]
    split
    · simp [StorePc.holds]
    · split <;> simp [StorePc.holds]
  | settle op actual =>
    simp only [enter]
    split
    · simp [StorePc.holds]
    · split
      · simp [StorePc.holds]
      · split <;> simp [StorePc.holds]
  | setQuota tenant window budget =>
    simp only [enter]
    split <;> simp [StorePc.holds]
  | release | sweep => simp [enter, StorePc.holds]

theorem Statement.locks (h : Statement trunc t x pc x' pc') :
    RowLocks.Moves t x.locks x'.locks pc.holds pc'.holds := by
  cases h with
  | enter c => exact .keep rfl fun k => iff_of_false (holds_enter c k) (by simp [StorePc.holds])
  | lockRow _ hf => exact .take _ hf rfl fun j => by simp [StorePc.holds]
  | insertReservation _ hf =>
    exact .take _ hf rfl fun j => by simp [StorePc.holds, or_comm]
  | insertLedger _ hf => exact .take _ hf rfl fun j => by simp [StorePc.holds]
  | updateReservation _ hf =>
    exact .take _ hf rfl fun j => by simp [StorePc.holds, or_comm]
  | exhausted | fails => exact .drop rfl fun k => by simp [StorePc.holds]
  | @commitReserve q w inserted =>
    refine .drop ?_ fun k => by simp [StorePc.holds]
    cases inserted <;> rfl
  | commitSettle => exact .drop rfl fun k => by simp [StorePc.holds]
  | @release op _ =>
    refine .keep ?_ fun k => by simp [StorePc.holds]
    unfold Store.release
    split <;> rfl
  | refused hpc => rcases hpc with rfl | rfl <;> exact .keep rfl fun k => by simp [StorePc.holds]
  | _ => exact .keep rfl fun k => by simp [StorePc.holds]

variable {ok : Sys → Act → Prop} {s : Sys}

theorem locks_exact (h : Runs.Reachable (next trunc) ok Sys.init s) :
    RowLocks.Exact Store.locks StorePc.holds s := by
  refine h.invariant (fun t k => by simp [Sys.init, Store.init, StorePc.holds]) ?_
  intro s a s' _ hI _ hn
  obtain ⟨hst, hothers⟩ := statement_of_next hn
  exact hI.next hothers hst.locks

end Store

end MlopsLite.PlatformLib
