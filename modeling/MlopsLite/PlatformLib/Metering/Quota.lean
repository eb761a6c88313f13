import MlopsLite.PlatformLib.Metering.Reconcile

/-!
# Metering — a reserve stays within the budget it read

Two reserve transactions of one tenant exclude each other through the lock
on its quota row; a tenant without one has nothing to lock. `Serial` asks
that no such overlap happens. Under it what a tenant has consumed does not
grow between the overflow check of a reserve and its commit, so the commit
stays within the budget (`reserve_within_budget`).
-/

namespace MlopsLite.PlatformLib

/-- The tenant whose reserve transaction is open here. -/
def StorePc.reserving : StorePc → Option TenantId
  | .reserveWindow q _ _ _ | .reserveCheck q _ | .reserveInsert q _ | .reserveCommit q _ _ =>
      some q.tenant
  | _ => none

/-- The operation whose grant is on its way to the caller, or with it. -/
def StorePc.wins : StorePc → Option OpKey
  | .reserveReturn op true | .granted op => some op
  | _ => none

namespace Store

/-- Call `u` has no reserve transaction of the tenant open while another
begins one, unless it holds the lock on the quota row the other will wait
for. -/
def LockedAgainst (s : Sys) (a : Act) (u : CallId) : Prop :=
  match s.pc a.1, a.2 with
  | .reserveLock q, .go => u ≠ a.1 → (s.pc u).reserving = some q.tenant →
      (s.shared.quotas.get? q.tenant).isSome ∧ s.shared.locks (.quota q.tenant) = some u
  | _, _ => True

instance (s : Sys) (a : Act) (u : CallId) : Decidable (LockedAgainst s a u) := by
  unfold LockedAgainst
  exact Interleaving.pointwise (s.pc a.1) a.2 fun pc c => by split <;> infer_instance

/-- Overlapping reserve transactions of a tenant have its quota row to lock. -/
def Serial (s : Sys) (a : Act) : Prop := ∀ u, LockedAgainst s a u

/-- A settle is for at most the estimate of its reservation. -/
def WithinEstimate (s : Sys) (a : Act) : Prop :=
  match s.pc a.1, a.2 with
  | .idle, .call (.settle op actual) =>
      ∀ r ∈ s.shared.reservations.get? op, actual ≤ r.estGpuSeconds
  | _, _ => True

instance (s : Sys) (a : Act) : Decidable (WithinEstimate s a) := by
  unfold WithinEstimate
  exact Interleaving.pointwise (s.pc a.1) a.2 fun pc c => by split <;> infer_instance

/-- What the three conditions leave of a settle. -/
def Charges : StorePc → Prop
  | .settleInsert _ actual r | .settleUpdate _ actual r _ => actual ≤ r.estGpuSeconds
  | .settleCommit _ actual r inserted updated =>
      actual ≤ r.estGpuSeconds ∧ (inserted = true → updated = true)
  | _ => True

/-- Past its overflow check a reserve fits. -/
def Room (x : Store) : StorePc → Prop
  | .reserveInsert q w | .reserveCommit q w _ =>
      ∀ b, w.budget = some b → x.consumed q.tenant w.windowStart + q.est ≤ b
  | _ => True

variable {trunc : Window → Time → Time} {t u : CallId} {x x' : Store} {pc pc' : StorePc}

/-! ## What a tenant has consumed -/

/-- What one reservation adds to the seconds outstanding. -/
def outstandingOf (tenant : TenantId) (ws : Time) (r : UsageReservation) : ℚ :=
  if r.tenantId = tenant ∧ r.windowStart = ws ∧ r.state = .reserved then r.estGpuSeconds else 0

/-- What one ledger row adds to the seconds settled. -/
def settledOf (tenant : TenantId) (ws : Time) (l : LedgerRow) : ℚ :=
  if l.tenantId = tenant ∧ l.windowStart = ws then l.gpuSeconds else 0

theorem outstandingSeconds_eq (tenant : TenantId) (ws : Time) :
    x.outstandingSeconds tenant ws = x.reservations.total fun _ r => outstandingOf tenant ws r :=
  rfl

theorem settledSeconds_eq (tenant : TenantId) (ws : Time) :
    x.settledSeconds tenant ws = x.ledger.total fun _ l => settledOf tenant ws l :=
  rfl

theorem outstandingOf_nonneg (tenant : TenantId) (ws : Time) {r : UsageReservation}
    (h : 0 ≤ r.estGpuSeconds) : 0 ≤ outstandingOf tenant ws r := by
  unfold outstandingOf
  split
  · exact h
  · exact le_rfl

@[simp] theorem outstandingOf_released (tenant : TenantId) (ws : Time) (r : UsageReservation) :
    outstandingOf tenant ws (released r) = 0 := by
  simp [outstandingOf, released]

@[simp] theorem outstandingOf_settled (tenant : TenantId) (ws : Time) (a : ℚ)
    (r : UsageReservation) : outstandingOf tenant ws (settled a r) = 0 := by
  simp [outstandingOf, settled]

/-- A settle charges no more than the reservation held. -/
theorem settledOf_le (tenant : TenantId) (ws : Time) {actual : ℚ} {r r' : UsageReservation}
    (hstamp : r'.stamp = r.stamp) (hstate : r'.state = .reserved)
    (hle : actual ≤ r.estGpuSeconds) :
    settledOf tenant ws (ledgerRow r actual) ≤ outstandingOf tenant ws r' := by
  obtain ⟨htenant, hwindow, hest⟩ := fields_of_stamp hstamp
  simp only [settledOf, outstandingOf, ledgerRow, htenant, hwindow, hest, hstate, and_true]
  by_cases hmatch : r.tenantId = tenant ∧ r.windowStart = ws
  · simpa [hmatch] using hle
  · simp [hmatch]

/-- What one commit does to a tenant's consumption, unless it is the reserve
of that tenant. -/
theorem consumed_le (hw : Writes t pc x x') (hs : x.Standing pc) (hc : Charges pc)
    (hest : ∀ op r, x.reservations.get? op = some r → 0 ≤ r.estGpuSeconds) {tenant : TenantId}
    (hne : pc.reserving ≠ some tenant) (ws : Time) :
    x'.consumed tenant ws ≤ x.consumed tenant ws := by
  simp only [consumed, outstandingSeconds_eq, settledSeconds_eq]
  cases hw with
  | nothing hr hl => rw [hr, hl]
  | @reserves q w hpc hr hl =>
    subst hpc
    have hother : outstandingOf tenant ws (newReservation q w) = 0 := by
      have htenant : q.tenant ≠ tenant := fun h => hne (by simp [StorePc.reserving, h])
      simp [outstandingOf, newReservation, htenant]
    rw [hr, hl, Dict.total_insert _ _ (hs.2 rfl), hother, add_zero]
  | @settles op actual r inserted updated hpc hr hl =>
    subst hpc
    obtain ⟨hknown, hledger, hreserved⟩ := hs
    cases updated with
    | false =>
      have hins : inserted = false := by
        cases inserted with
        | false => rfl
        | true => exact (hc.2 rfl).symm
      subst hins
      rw [hr, hl]
      exact le_rfl
    | true =>
      obtain ⟨r₀, hr₀, hstate⟩ := isReserved_iff.mp (hreserved rfl)
      obtain ⟨r', hr', hstamp⟩ := hknown
      cases hr₀.symm.trans hr'
      have hdrop := Dict.total_modify_add (settled actual)
        (fun _ r => outstandingOf tenant ws r) hr₀
      simp only [outstandingOf_settled, add_zero] at hdrop
      cases inserted with
      | false =>
        have hpos := outstandingOf_nonneg tenant ws (hest op r₀ hr₀)
        rw [hr, hl]
        simp only [if_true, if_false, Bool.false_eq_true]
        linarith
      | true =>
        have hcharge := settledOf_le tenant ws hstamp hstate hc.1
        rw [hr, hl]
        simp only [if_true]
        rw [Dict.total_insert _ _ (hledger.mp rfl)]
        linarith
  | releases f hf hr hl =>
    rw [hr, hl, Dict.total_map]
    refine add_le_add le_rfl (Dict.total_le_total fun op r hrow => ?_)
    cases hfr : f op r with
    | true => simpa using outstandingOf_nonneg _ _ (hest op r hrow)
    | false => simp

/-! ## One reserve of a tenant at a time -/

/-- A reserve transaction begins with its locking read. -/
theorem Statement.reserving (h : Statement trunc t x pc x' pc') {tenant : TenantId}
    (hin : pc'.reserving = some tenant) :
    pc.reserving = some tenant ∨
      ∃ q, pc = .reserveLock q ∧ q.tenant = tenant ∧
        (x.quotas.get? tenant = none ∨ RowLocks.free x.locks (.quota tenant) t = true) := by
  cases h with
  | enter c =>
    have hout : (x.enter c).reserving = none := by
      cases c <;> simp only [Store.enter] <;> (repeat' split) <;> rfl
    rw [hout] at hin
    cases hin
  | @lockNone q hq =>
    obtain rfl : q.tenant = tenant := Option.some.inj hin
    exact .inr ⟨q, rfl, rfl, .inl hq⟩
  | @lockRow q quota hq hf =>
    obtain rfl : q.tenant = tenant := Option.some.inj hin
    exact .inr ⟨q, rfl, rfl, .inr hf⟩
  | window | fits | insertReservation | reservationExists => exact .inl hin
  | refused hpc => rcases hpc with rfl | rfl <;> cases hin
  | _ => cases hin

/-- The open reserve transactions are of distinct tenants. -/
def Alone (s : Sys) : Prop :=
  ∀ t u tenant, (s.pc t).reserving = some tenant → (s.pc u).reserving = some tenant → t = u

variable {s s' : Sys}

/-- What a reserve that opens its transaction finds. -/
theorem no_other_of_serial {a : Act} (hok : Serial s a)
    (hn : next trunc s a = some s') {tenant : TenantId}
    (hout : (s.pc a.1).reserving ≠ some tenant) (hin : (s'.pc a.1).reserving = some tenant)
    (hu : u ≠ a.1) : (s.pc u).reserving ≠ some tenant := by
  intro hres
  obtain ⟨t, ch⟩ := a
  obtain ⟨x, k, ha, rfl⟩ := Interleaving.next_eq_some.mp hn
  have hk : k.reserving = some tenant := by simpa using hin
  obtain hstay | ⟨q, hpc, htenant, hfree⟩ := (statement_of_advance ha).reserving hk
  · exact hout hstay
  · have hgo : ch = .go := by
      refine go_of_advance (.inl ⟨q, hpc⟩) ha ?_
      rintro rfl
      cases hk
    subst htenant
    have hlock := hok u
    simp only [LockedAgainst] at hlock
    rw [hpc, hgo] at hlock
    obtain ⟨hrow, hheld⟩ := hlock hu hres
    rcases hfree with hnone | hfree
    · simp [hnone] at hrow
    · rw [free_of_locked hheld hu] at hfree
      cases hfree

theorem Alone.next {a : Act} (hI : Alone s) (hok : Serial s a)
    (hn : next trunc s a = some s') : Alone s' := by
  have hothers := (statement_of_next hn).2
  have key : ∀ u tenant, u ≠ a.1 → (s'.pc a.1).reserving = some tenant →
      (s'.pc u).reserving = some tenant → False := by
    intro u tenant hu hin hres
    rw [hothers u hu] at hres
    by_cases hout : (s.pc a.1).reserving = some tenant
    · exact hu (hI u a.1 tenant hres hout)
    · exact no_other_of_serial hok hn hout hin hu hres
  intro t u tenant ht hu
  by_cases hta : t = a.1
  · subst hta
    by_contra hne
    exact key u tenant (Ne.symm hne) ht hu
  · by_cases hua : u = a.1
    · subst hua
      exact (key t tenant hta hu ht).elim
    · rw [hothers t hta] at ht
      rw [hothers u hua] at hu
      exact hI t u tenant ht hu

/-! ## The conditions along a run -/

/-- The three conditions together. -/
structure InOrder (s : Sys) (a : Act) : Prop where
  serial : Serial s a
  reserved : SettlesReserved s a
  within : WithinEstimate s a

structure Metered (s : Sys) : Prop where
  alone : Alone s
  charges : ∀ t, Charges (s.pc t)
  room : ∀ t, s.shared.Room (s.pc t)

theorem charges_enter {c : StoreCall}
    (hok : ∀ op actual, c = .settle op actual →
      ∀ r ∈ x.reservations.get? op, actual ≤ r.estGpuSeconds) : Charges (x.enter c) := by
  cases c with
  | settle op actual =>
    simp only [enter]
    split
    · trivial
    · split
      · trivial
      · rename_i r hr
        split
        · exact hok op actual rfl r hr
        · trivial
  | reserve | setQuota => simp only [enter]; (repeat' split) <;> trivial
  | release | sweep => trivial

theorem Charges.next {a : Act} (hI : Charges (s.pc a.1)) (hok : InOrder s a)
    (hn : next trunc s a = some s') : Charges (s'.pc a.1) := by
  obtain ⟨t, ch⟩ := a
  obtain ⟨x, k, ha, rfl⟩ := Interleaving.next_eq_some.mp hn
  simp only [Function.update_self]
  have hres := hok.reserved
  have hwithin := hok.within
  simp only [SettlesReserved, WithinEstimate] at hres hwithin
  generalize hpc : s.pc t = pc at *
  cases statement_of_advance ha with
  | enter =>
    obtain ⟨c, rfl, hk⟩ := call_of_idle ha
    rw [hk]
    refine charges_enter fun op actual hc r hr => ?_
    subst hc
    exact hwithin r hr
  | insertLedger | ledgerExists => exact hI
  | updateReservation => exact ⟨hI, fun _ => rfl⟩
  | @notReserved op actual r inserted hx =>
    refine ⟨hI, fun hins => ?_⟩
    subst hins
    obtain rfl := go_of_advance (.inr ⟨op, actual, r, true, rfl⟩) ha (by simp)
    simp [hx] at hres
  | refused hpc' => rcases hpc' with rfl | rfl <;> trivial
  | _ => trivial

theorem room_of_fits {q : ReserveRequest} {w : Authority} (h : x.fitsBudget q w = true) :
    x.Room (.reserveInsert q w) := by
  intro b hb
  have hfit : q.est ≤ b - x.consumed q.tenant w.windowStart := by
    simpa [fitsBudget, hb] using h
  linarith

theorem Room.own (h : Statement trunc t x pc x' pc') (hI : x.Room pc) : x'.Room pc' := by
  cases h with
  | enter c => cases c <;> simp only [enter] <;> (repeat' split) <;> trivial
  | fits hfit => exact room_of_fits hfit
  | insertReservation | reservationExists => exact hI
  | refused hpc => rcases hpc with rfl | rfl <;> trivial
  | _ => trivial

/-- A reserve keeps its room while another call commits. -/
theorem Room.other {k : StorePc} (hI : x.Room k) (hw : Writes t pc x x') (hs : x.Standing pc)
    (hc : Charges pc) (hest : ∀ op r, x.reservations.get? op = some r → 0 ≤ r.estGpuSeconds)
    (halone : ∀ tenant, k.reserving = some tenant → pc.reserving ≠ some tenant) :
    x'.Room k := by
  cases k with
  | reserveInsert q w | reserveCommit q w =>
    intro b hb
    have hle := consumed_le hw hs hc hest (halone q.tenant rfl) w.windowStart
    have hroom := hI b hb
    linarith
  | _ => trivial

theorem Metered.next {a : Act} (hI : Metered s) (h : Sound s) (hok : InOrder s a)
    (hn : next trunc s a = some s') : Metered s' := by
  obtain ⟨hst, hothers⟩ := statement_of_next hn
  refine ⟨hI.alone.next hok.serial hn, fun u => ?_, fun u => ?_⟩
  · by_cases hu : u = a.1
    · subst hu
      exact (hI.charges _).next hok hn
    · rw [hothers u hu]
      exact hI.charges u
  · by_cases hu : u = a.1
    · subst hu
      exact (hI.room _).own hst
    · rw [hothers u hu]
      refine (hI.room u).other hst.writes (h.standing _) (hI.charges _) h.est ?_
      intro tenant hres hown
      exact hu (hI.alone u a.1 tenant hres hown)

theorem metered_of_reachable (h : Runs.Reachable (next trunc) InOrder Sys.init s) :
    Metered s := by
  have h0 : Metered Sys.init := ⟨fun _ _ _ hres => (by cases hres), fun _ => trivial, fun _ => trivial⟩
  refine h.invariant h0 ?_
  intro s a s' hr hI hok hn
  exact hI.next (sound_of_reachable hr) hok hn

/-- Once its row is in, a reserve has used the room it had. -/
theorem consumed_commitReserve {q : ReserveRequest} {w : Authority}
    (hnew : x.reservations.get? q.op = none) :
    ((x.commitReserve q w true).unlock t).consumed q.tenant w.windowStart
      = x.consumed q.tenant w.windowStart + q.est := by
  have hself : outstandingOf q.tenant w.windowStart (newReservation q w) = q.est := by
    simp [outstandingOf, newReservation]
  show x.settledSeconds q.tenant w.windowStart +
    (x.reservations.insert q.op (newReservation q w)).total
      (fun _ r => outstandingOf q.tenant w.windowStart r) = _
  rw [Dict.total_insert _ _ hnew, hself, ← add_assoc]
  rfl

/-! ## One grant for an operation -/

structure Grants (s : Sys) : Prop where
  recorded : ∀ t op, (s.pc t).wins = some op → ∃ r, s.shared.Known op r
  unique : ∀ t u op, (s.pc t).wins = some op → (s.pc u).wins = some op → t = u

/-- A reserve wins by the commit that inserts its row. -/
theorem Statement.wins (h : Statement trunc t x pc x' pc') (hs : x.Standing pc) {op : OpKey}
    (hwin : pc'.wins = some op) :
    (pc.wins = some op ∧ x' = x) ∨
      (x.reservations.get? op = none ∧ ∃ r, x'.Known op r) := by
  cases h with
  | enter c =>
    have hout : (x.enter c).wins = none := by
      cases c <;> simp only [Store.enter] <;> (repeat' split) <;> rfl
    rw [hout] at hwin
    cases hwin
  | @commitReserve q w inserted =>
    cases inserted with
    | false => cases hwin
    | true =>
      obtain rfl : q.op = op := Option.some.inj hwin
      have hrow : ((x.commitReserve q w true).unlock t).reservations.get? q.op
          = some (newReservation q w) := Dict.get?_insert_self ..
      exact .inr ⟨hs.2 rfl, newReservation q w, _, hrow, rfl⟩
  | granted => exact .inl ⟨hwin, rfl⟩
  | refused hpc => rcases hpc with rfl | rfl <;> cases hwin
  | _ => cases hwin

theorem Grants.next {a : Act} (hI : Grants s) (h : Sound s) (hn : next trunc s a = some s') :
    Grants s' := by
  obtain ⟨hst, hothers⟩ := statement_of_next hn
  have hs := h.standing a.1
  have hrec : ∀ u op, u ≠ a.1 → (s'.pc u).wins = some op →
      (s.pc u).wins = some op ∧ ∃ r, s.shared.Known op r := by
    intro u op hu hwin
    rw [hothers u hu] at hwin
    exact ⟨hwin, hI.recorded u op hwin⟩
  have halone : ∀ u op, u ≠ a.1 → (s'.pc a.1).wins = some op → (s'.pc u).wins = some op →
      False := by
    intro u op hu hown hwin
    obtain ⟨hold, r, r', hr', -⟩ := hrec u op hu hwin
    rcases hst.wins hs hown with ⟨hown, -⟩ | ⟨hnone, -⟩
    · exact hu (hI.unique u a.1 op hold hown)
    · exact nomatch hnone.symm.trans hr'
  refine ⟨fun u op hwin => ?_, fun t u op ht hu => ?_⟩
  · by_cases hu : u = a.1
    · subst hu
      rcases hst.wins hs hwin with ⟨hold, hx⟩ | ⟨-, hknown⟩
      · rw [hx]
        exact hI.recorded _ op hold
      · exact hknown
    · obtain ⟨-, r, hknown⟩ := hrec u op hu hwin
      exact ⟨r, hknown.next hst.writes hs⟩
  · by_cases hta : t = a.1
    · subst hta
      by_contra hne
      exact halone u op (Ne.symm hne) ht hu
    · by_cases hua : u = a.1
      · subst hua
        exact (halone t op hta hu ht).elim
      · exact hI.unique t u op (hrec t op hta ht).1 (hrec u op hua hu).1

theorem grants_of_reachable {ok : Sys → Act → Prop}
    (h : Runs.Reachable (next trunc) ok Sys.init s) : Grants s := by
  have h0 : Grants Sys.init := ⟨fun _ _ hwin => (by cases hwin), fun _ _ _ hwin => (by cases hwin)⟩
  refine h.invariant h0 ?_
  intro s a s' hr hI _ hn
  exact hI.next (sound_of_reachable hr) hn

/-- The commit of a reserve leaves its tenant within the budget it read, in
the window it read; and whatever the run, two calls are not granted one
operation. -/
theorem reserve_within_budget (trunc : Window → Time → Time) :
    (∀ s s' t q w b, Runs.Reachable (next trunc) InOrder Sys.init s →
      s.pc t = .reserveCommit q w true → w.budget = some b → next trunc s (t, .go) = some s' →
      s'.shared.consumed q.tenant w.windowStart ≤ b) ∧
    (∀ s t u op, Runs.Reachable (next trunc) Runs.anyStep Sys.init s →
      s.pc t = .granted op → s.pc u = .granted op → t = u) := by
  constructor
  · intro s s' t q w b h hpc hb hn
    have hs := (sound_of_reachable h).standing t
    have hroom := (metered_of_reachable h).room t
    rw [hpc] at hs hroom
    obtain ⟨x, k, ha, rfl⟩ := Interleaving.next_eq_some.mp hn
    rw [hpc] at ha
    cases ha
    show ((s.shared.commitReserve q w true).unlock t).consumed q.tenant w.windowStart ≤ b
    rw [consumed_commitReserve (hs.2 rfl)]
    exact hroom b hb
  · intro s t u op h ht hu
    exact (grants_of_reachable h).unique t u op (by simp [ht, StorePc.wins])
      (by simp [hu, StorePc.wins])

/-! ## Runs -/

/-- `InOrder` for a run of calls 0, 1 and 2. -/
def InOrderOfThree (s : Sys) (a : Act) : Prop :=
  a.1 < 3 ∧ (∀ u, u < 3 → LockedAgainst s a u) ∧ SettlesReserved s a ∧ WithinEstimate s a

instance (s : Sys) (a : Act) : Decidable (InOrderOfThree s a) :=
  inferInstanceAs (Decidable (_ ∧ _))

theorem inOrder_of_three (h : Runs.Reachable (next trunc) InOrderOfThree Sys.init s) :
    Runs.Reachable (next trunc) InOrder Sys.init s := by
  refine h.imp fun s a hr hok => ⟨fun u => ?_, hok.2.2.1, hok.2.2.2⟩
  by_cases hu : u < 3
  · exact hok.2.1 u hu
  · have hidle : s.pc u = .idle :=
      Interleaving.unmoved (fun v => v < 3) (fun _ _ hok => hok.1) hr u hu
    unfold LockedAgainst
    split
    · intro _ hres
      simp [hidle, StorePc.reserving] at hres
    · trivial

/-- Call 0 sets a budget of 10; calls 1 and 2 reserve 5 each, and 2 waits for
the row that 1 has locked. -/
def reservesInTurn : List Act :=
  [(0, .call (.setQuota "acme" .daily 10)), (0, .go),
    (1, .call (.reserve (job "a" 5 none))), (2, .call (.reserve (job "b" 5 none))),
    (1, .go), (1, .now 0), (1, .go), (1, .go), (1, .go),
    (2, .go), (2, .now 0), (2, .go), (2, .go)]

theorem reservesInTurn_within_budget :
    ∃ s s' : Sys, next midnight s (2, .go) = some s' ∧ s'.shared.consumed "acme" 0 ≤ 10 := by
  have hrun : ((Runs.run (next midnight) InOrderOfThree Sys.init reservesInTurn).bind fun s =>
      (next midnight s (2, .go)).map fun _ => decide (s.pc 2 =
        .reserveCommit (job "b" 5 none) ⟨true, 0, 0, some 10⟩ true)) = some true := by
    decide +kernel
  obtain ⟨s, s', hs, hn, hp⟩ := Runs.exists_step hrun
  have hpc := of_decide_eq_true hp
  have hle := (reserve_within_budget midnight).1 s s' 2 (job "b" 5 none) ⟨true, 0, 0, some 10⟩ 10
    (inOrder_of_three hs) hpc rfl hn
  exact ⟨s, s', hn, hle⟩

/-- Without a quota row, calls 0 and 1 both check a default budget of 10
before either commits its 10. -/
def bothReserve : List Act :=
  [(0, .call (.reserve (job "a" 10 (some 10)))), (1, .call (.reserve (job "b" 10 (some 10)))),
    (0, .go), (0, .now 0), (0, .go), (1, .go), (1, .now 0), (1, .go),
    (0, .go), (0, .go), (1, .go)]

theorem bothReserve_over_budget :
    ¬ ∀ s s' t q w b, Runs.Reachable (next midnight) WithinEstimate Sys.init s →
      s.pc t = .reserveCommit q w true → w.budget = some b → next midnight s (t, .go) = some s' →
      s'.shared.consumed q.tenant w.windowStart ≤ b := by
  have hrun : ((Runs.run (next midnight) WithinEstimate Sys.init bothReserve).bind fun s =>
      (next midnight s (1, .go)).map fun s' => decide (s.pc 1 =
        .reserveCommit (job "b" 10 (some 10)) ⟨false, 0, 0, some 10⟩ true ∧
        s'.shared.consumed "acme" 0 = 20)) = some true := by
    decide +kernel
  obtain ⟨s, s', hs, hn, hp⟩ := Runs.exists_step hrun
  obtain ⟨hpc, hsum⟩ := of_decide_eq_true hp
  intro hall
  have hle := hall s s' 1 (job "b" 10 (some 10)) ⟨false, 0, 0, some 10⟩ 10 hs hpc rfl hn
  have hten : (20 : ℚ) ≤ 10 := hsum ▸ hle
  norm_num at hten

end Store

end MlopsLite.PlatformLib
