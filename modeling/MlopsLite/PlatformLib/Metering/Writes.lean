import MlopsLite.PlatformLib.Metering.Statements

/-!
# Metering — what a statement writes

`Writes` sums a statement up by the rows it changes: the row of a reserve
that commits, the two rows of a settle, the rows that release or the sweep
set free, or none. `Standing` is what each control point knows of the
tables; the row locks keep it true while other calls run.
-/

namespace MlopsLite.PlatformLib

/-- What a reservation keeps for good. -/
def UsageReservation.stamp (r : UsageReservation) : UsageReservation :=
  { r with state := .reserved, settledGpuSeconds := none }

namespace Store

@[simp] theorem stamp_released (r : UsageReservation) : (released r).stamp = r.stamp := rfl

@[simp] theorem stamp_settled (a : ℚ) (r : UsageReservation) : (settled a r).stamp = r.stamp := rfl

theorem fields_of_stamp {r r' : UsageReservation} (h : r'.stamp = r.stamp) :
    r'.tenantId = r.tenantId ∧ r'.windowStart = r.windowStart ∧
      r'.estGpuSeconds = r.estGpuSeconds := by
  have ht := congrArg UsageReservation.tenantId h
  have hw := congrArg UsageReservation.windowStart h
  have he := congrArg UsageReservation.estGpuSeconds h
  exact ⟨ht, hw, he⟩

/-- A reservation of `op` is recorded, and `r` is a reading of it. -/
def Known (x : Store) (op : OpKey) (r : UsageReservation) : Prop :=
  ∃ r', x.reservations.get? op = some r' ∧ r'.stamp = r.stamp

theorem isReserved_iff {x : Store} {op : OpKey} :
    x.isReserved op = true ↔ ∃ r, x.reservations.get? op = some r ∧ r.state = .reserved := by
  unfold isReserved
  cases x.reservations.get? op <;> simp

/-! ## The rows a statement changes -/

inductive Writes (t : CallId) (pc : StorePc) (x x' : Store) : Prop
  | nothing (hr : x'.reservations = x.reservations) (hl : x'.ledger = x.ledger)
  | reserves {q : ReserveRequest} {w : Authority} (hpc : pc = .reserveCommit q w true)
      (hr : x'.reservations = x.reservations.insert q.op (newReservation q w))
      (hl : x'.ledger = x.ledger)
  | settles {op : OpKey} {actual : ℚ} {r : UsageReservation} {inserted updated : Bool}
      (hpc : pc = .settleCommit op actual r inserted updated)
      (hr : x'.reservations =
        if updated then x.reservations.modify op (settled actual) else x.reservations)
      (hl : x'.ledger = if inserted then x.ledger.insert op (ledgerRow r actual) else x.ledger)
  | releases (f : OpKey → UsageReservation → Bool)
      (hf : ∀ op r, x.reservations.get? op = some r → f op r = true →
        r.state = .reserved ∧ RowLocks.free x.locks (.reservation op) t = true)
      (hr : x'.reservations = x.reservations.map fun op r => if f op r then released r else r)
      (hl : x'.ledger = x.ledger)

variable {trunc : Window → Time → Time} {t u : CallId} {x x' : Store} {pc pc' : StorePc}

theorem writes_release {op : OpKey} (hf : RowLocks.free x.locks (.reservation op) t = true) :
    Writes t (.release op) x (x.release op) := by
  unfold Store.release
  split
  · rename_i hres
    refine .releases (fun k _ => k = op) ?_ ?_ rfl
    · intro k r hr hk
      obtain rfl : k = op := by simpa using hk
      obtain ⟨r', hr', hstate⟩ := isReserved_iff.mp hres
      cases hr.symm.trans hr'
      exact ⟨hstate, hf⟩
    · simp [Dict.modify]
  · exact .nothing rfl rfl

theorem writes_sweep {kind : UsageKind} {olderThan now : ℚ}
    (hs : x.sweepable t kind olderThan now = true) :
    Writes t (.sweep kind olderThan) x (x.sweep kind olderThan now) := by
  refine .releases (fun _ r => stale kind olderThan now r) ?_ rfl rfl
  intro op r hr hstale
  have hstate : r.kind = kind ∧ r.state = .reserved ∧ r.createdAt < now - olderThan := by
    simpa [stale] using hstale
  have hrow := List.all_eq_true.mp hs (op, r) (Dict.mem_items.mpr hr)
  exact ⟨hstate.2.1, by simpa [hstale] using hrow⟩

theorem Statement.writes (h : Statement trunc t x pc x' pc') : Writes t pc x x' := by
  cases h with
  | @commitReserve q w inserted =>
    cases inserted with
    | true => exact .reserves rfl rfl rfl
    | false => exact .nothing rfl rfl
  | commitSettle => exact .settles rfl rfl rfl
  | release hf => exact writes_release hf
  | sweep now hs => exact writes_sweep hs
  | _ => exact .nothing rfl rfl

/-! ## Rows another call has locked -/

theorem free_of_locked {k : Row} (hl : x.locks k = some u) (hne : u ≠ t) :
    RowLocks.free x.locks k t = false := by
  simp [RowLocks.free, hl, hne]

theorem Writes.reservation_of_locked (hw : Writes t pc x x')
    (hown : ∀ k, pc.holds k → x.locks k = some t) {op : OpKey}
    (hl : x.locks (.reservation op) = some u) (hne : u ≠ t) :
    x'.reservations.get? op = x.reservations.get? op := by
  have hnot : ¬ pc.holds (.reservation op) := fun h =>
    hne (Option.some.inj (hl.symm.trans (hown _ h)))
  cases hw with
  | nothing hr _ => rw [hr]
  | @reserves q w hpc hr _ =>
    have hop : op ≠ q.op := by
      rintro rfl
      exact hnot (by simp [hpc, StorePc.holds])
    rw [hr, Dict.get?_insert_ne _ _ hop]
  | @settles op' actual r inserted updated hpc hr _ =>
    rw [hr]
    split
    · rename_i hup
      have hop : op ≠ op' := by
        rintro rfl
        exact hnot (by simp [hpc, StorePc.holds, hup])
      exact Dict.get?_modify_ne _ _ hop
    · rfl
  | releases f hf hr _ =>
    rw [hr, Dict.get?_map]
    cases hget : x.reservations.get? op with
    | none => rfl
    | some r =>
      have hfalse : f op r = false := by
        cases hfr : f op r with
        | false => rfl
        | true =>
          have := (hf op r hget hfr).2
          rw [free_of_locked hl hne] at this
          cases this
      simp [hfalse]

theorem Writes.ledger_of_locked (hw : Writes t pc x x')
    (hown : ∀ k, pc.holds k → x.locks k = some t) {op : OpKey}
    (hl : x.locks (.ledger op) = some u) (hne : u ≠ t) :
    x'.ledger.get? op = x.ledger.get? op := by
  have hnot : ¬ pc.holds (.ledger op) := fun h =>
    hne (Option.some.inj (hl.symm.trans (hown _ h)))
  cases hw with
  | nothing _ hled | reserves _ _ hled | releases _ _ _ hled => rw [hled]
  | @settles op' actual r inserted updated hpc _ hled =>
    rw [hled]
    split
    · rename_i hins
      have hop : op ≠ op' := by
        rintro rfl
        exact hnot (by simp [hpc, StorePc.holds, hins])
      exact Dict.get?_insert_ne _ _ hop
    · rfl

/-! ## What a control point knows -/

/-- What the rows say to a call standing at a control point. -/
def Standing (x : Store) : StorePc → Prop
  | .reserveLock q | .reserveWindow q _ _ _ | .reserveCheck q _ | .reserveInsert q _ => 0 ≤ q.est
  | .reserveCommit q _ inserted =>
      0 ≤ q.est ∧ (inserted = true → x.reservations.get? q.op = none)
  | .settleInsert op _ r => x.Known op r
  | .settleUpdate op _ r inserted => x.Known op r ∧ (inserted = true ↔ x.ledger.get? op = none)
  | .settleCommit op _ r inserted updated =>
      x.Known op r ∧ (inserted = true ↔ x.ledger.get? op = none) ∧
        (updated = true → x.isReserved op = true)
  | _ => True

structure Sound (s : Sys) : Prop where
  locks : RowLocks.Exact Store.locks StorePc.holds s
  est : ∀ op r, s.shared.reservations.get? op = some r → 0 ≤ r.estGpuSeconds
  standing : ∀ t, s.shared.Standing (s.pc t)

theorem Known.next {op : OpKey} {r : UsageReservation} (hw : Writes t pc x x')
    (hs : x.Standing pc) (h : x.Known op r) : x'.Known op r := by
  obtain ⟨r', hr', hstamp⟩ := h
  cases hw with
  | nothing hr _ => exact ⟨r', hr ▸ hr', hstamp⟩
  | @reserves q w hpc hr _ =>
    subst hpc
    have hop : op ≠ q.op := by
      rintro rfl
      exact nomatch hr'.symm.trans (hs.2 rfl)
    exact ⟨r', by rw [hr, Dict.get?_insert_ne _ _ hop, hr'], hstamp⟩
  | @settles op' actual r₁ inserted updated hpc hr _ =>
    cases updated with
    | false => exact ⟨r', hr ▸ hr', hstamp⟩
    | true =>
      by_cases hop : op = op'
      · subst hop
        exact ⟨settled actual r', by simp [hr, hr'], hstamp⟩
      · exact ⟨r', by simp [hr, Dict.get?_modify_ne _ _ hop, hr'], hstamp⟩
  | releases f hf hr _ =>
    cases hfr : f op r' with
    | true => exact ⟨released r', by simp [hr, hr', hfr], hstamp⟩
    | false => exact ⟨r', by simp [hr, hr', hfr], hstamp⟩

/-- A ledger row stays. -/
theorem Writes.ledger_isSome {op : OpKey} (hw : Writes t pc x x')
    (h : x.ledger.get? op ≠ none) : x'.ledger.get? op ≠ none := by
  cases hw with
  | nothing _ hled | reserves _ _ hled | releases _ _ _ hled => rwa [hled]
  | @settles op' actual r inserted updated _ _ hled =>
    rw [hled]
    split
    · rw [Dict.get?_insert]
      split
      · simp
      · exact h
    · exact h

/-- Another call's statement leaves what a control point knows. -/
theorem Standing.other {k : StorePc} (h : x.Standing k) (hw : Writes t pc x x')
    (hs : x.Standing pc) (hown : ∀ row, pc.holds row → x.locks row = some t)
    (hlocks : ∀ row, k.holds row → x.locks row = some u) (hne : u ≠ t) : x'.Standing k := by
  have hledger : ∀ op inserted, (inserted = true → x.locks (.ledger op) = some u) →
      (inserted = true ↔ x.ledger.get? op = none) →
      (inserted = true ↔ x'.ledger.get? op = none) := by
    intro op inserted hlock hiff
    cases inserted with
    | true => rw [hw.ledger_of_locked hown (hlock rfl) hne]; exact hiff
    | false =>
      have hsome : x.ledger.get? op ≠ none := fun hnone => nomatch hiff.mpr hnone
      simpa using hw.ledger_isSome hsome
  cases k with
  | reserveCommit q w inserted =>
    refine ⟨h.1, fun hins => ?_⟩
    rw [hw.reservation_of_locked hown (hlocks _ (by simp [StorePc.holds, hins])) hne]
    exact h.2 hins
  | settleInsert op actual r => exact Known.next hw hs h
  | settleUpdate op actual r inserted =>
    obtain ⟨hknown, hled⟩ := h
    refine ⟨hknown.next hw hs, hledger op inserted (fun hins => ?_) hled⟩
    exact hlocks _ (by simp [StorePc.holds, hins])
  | settleCommit op actual r inserted updated =>
    obtain ⟨hknown, hled, hres⟩ := h
    refine ⟨hknown.next hw hs, hledger op inserted (fun hins => ?_) hled, fun hup => ?_⟩
    · exact hlocks _ (by simp [StorePc.holds, hins])
    · have hrow := hw.reservation_of_locked hown
        (hlocks (.reservation op) (by simp [StorePc.holds, hup])) hne
      rw [isReserved, hrow]
      exact hres hup
  | _ => exact h

theorem standing_enter (c : StoreCall) : x.Standing (x.enter c) := by
  cases c with
  | reserve q =>
    simp only [enter]
    split
    · trivial
    · rename_i hneg
      split
      · trivial
      · exact not_lt.mp hneg
  | settle op actual =>
    simp only [enter]
    split
    · trivial
    · split
      · trivial
      · rename_i r hr
        split
        · exact ⟨r, hr, rfl⟩
        · trivial
  | setQuota tenant window budget =>
    simp only [enter]
    split <;> trivial
  | release | sweep => trivial

/-- A call's own statement establishes what it knows next. -/
theorem Statement.standing (h : Statement trunc t x pc x' pc') (hs : x.Standing pc) :
    x'.Standing pc' := by
  cases h with
  | enter c => exact standing_enter c
  | lockNone | lockRow | window | fits => exact hs
  | insertReservation hx _ => exact ⟨hs, fun _ => hx⟩
  | reservationExists => exact ⟨hs, nofun⟩
  | insertLedger hx _ => exact ⟨hs, by simpa using hx⟩
  | ledgerExists hx =>
    refine ⟨hs, ?_⟩
    simpa [Option.isSome_iff_ne_none] using hx
  | updateReservation hx _ => exact ⟨hs.1, hs.2, fun _ => hx⟩
  | notReserved => exact ⟨hs.1, hs.2, nofun⟩
  | refused hpc => rcases hpc with rfl | rfl <;> trivial
  | _ => trivial

theorem Writes.est (hw : Writes t pc x x') (hs : x.Standing pc)
    (h : ∀ op r, x.reservations.get? op = some r → 0 ≤ r.estGpuSeconds) {op : OpKey}
    {r : UsageReservation} (hr' : x'.reservations.get? op = some r) : 0 ≤ r.estGpuSeconds := by
  cases hw with
  | nothing hr _ => exact h op r (hr ▸ hr')
  | @reserves q w hpc hr _ =>
    subst hpc
    rw [hr, Dict.get?_insert] at hr'
    split at hr'
    · cases hr'
      exact hs.1
    · exact h op r hr'
  | @settles op' actual r₁ inserted updated _ hr _ =>
    rw [hr] at hr'
    split at hr'
    · rw [Dict.get?_modify] at hr'
      split at hr'
      · obtain ⟨r₀, hr₀, rfl⟩ := Option.map_eq_some_iff.mp hr'
        exact h op r₀ hr₀
      · exact h op r hr'
    · exact h op r hr'
  | releases f _ hr _ =>
    rw [hr, Dict.get?_map] at hr'
    obtain ⟨r₀, hr₀, rfl⟩ := Option.map_eq_some_iff.mp hr'
    split
    · exact h op r₀ hr₀
    · exact h op r₀ hr₀

variable {ok : Sys → Act → Prop} {s s' : Sys}

theorem Sound.next {a : Act} (h : Sound s) (hlocks : RowLocks.Exact Store.locks StorePc.holds s')
    (hn : next trunc s a = some s') : Sound s' := by
  obtain ⟨hst, hothers⟩ := statement_of_next hn
  have hw := hst.writes
  have hown : ∀ u k, (s.pc u).holds k → s.shared.locks k = some u := fun u k => (h.locks u k).mpr
  refine ⟨hlocks, fun op r => hw.est (h.standing a.1) h.est, fun u => ?_⟩
  by_cases hu : u = a.1
  · subst hu
    exact hst.standing (h.standing _)
  · rw [hothers u hu]
    exact (h.standing u).other hw (h.standing a.1) (hown a.1) (hown u) hu

theorem sound_of_reachable (h : Runs.Reachable (next trunc) ok Sys.init s) : Sound s := by
  have h0 : Runs.Reachable (next trunc) ok Sys.init Sys.init := .init
  refine h.invariant (I := Sound) ⟨locks_exact h0, nofun, fun _ => trivial⟩ ?_
  intro s a s' hr hI hok hn
  exact hI.next (locks_exact (hr.step a hok hn)) hn

end Store

end MlopsLite.PlatformLib
