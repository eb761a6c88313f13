import MlopsLite.Gateway.Settlement.Machine

/-!
# Settlement — what the store knows of a settlement

A call that serves a settlement or a release leaves the reservation resolved, and a row that it
writes has the seconds of that settlement. What is resolved stays so, whoever writes.
-/

namespace MlopsLite.Gateway.Settlement

open PlatformLib (CallId OpKey StoreCall StorePc Window)
open PlatformLib.Store (Statement Writes Standing isReserved_iff)

variable {repr : Outbox.FloatRepr} {trunc : Window → PlatformLib.Time → PlatformLib.Time}
  {t : CallId} {x x' : PlatformLib.Store} {pc pc' : StorePc} {f g : Finish repr} {op : OpKey}

/-- The reservation is there, settled or released. -/
def Resolved (x : PlatformLib.Store) (op : OpKey) : Prop :=
  ∃ r, x.reservations.get? op = some r ∧ r.state ≠ .reserved

/-- A call that stands there is one for `f`. -/
def Serves (x : PlatformLib.Store) (f : Finish repr) : StorePc → Prop
  | .settleInsert op actual _ | .settleUpdate op actual _ _ => f.op = op ∧ f.charge = some actual
  | .settleCommit op actual _ _ updated =>
      f.op = op ∧ f.charge = some actual ∧ (updated = true ∨ Resolved x op)
  | .release op => f.op = op
  | .reread op => f.op = op ∧ Resolved x op
  | .finished _ => Resolved x f.op
  | .raised => True
  | _ => False

/-- It is no settle and no release. -/
def Foreign : StorePc → Prop
  | .settleInsert .. | .settleUpdate .. | .settleCommit .. | .release _ | .reread _ => False
  | _ => True

/-- A call of another kind. -/
def Outside : StoreCall → Prop
  | .settle .. | .release _ => False
  | _ => True

/-! ## Resolved reservations -/

theorem resolved_of_modify {h : PlatformLib.UsageReservation → PlatformLib.UsageReservation}
    (hstate : ∀ r, (h r).state ≠ .reserved) (hr : (x.reservations.get? op).isSome = true)
    (hx' : x'.reservations = x.reservations.modify op h) : Resolved x' op := by
  obtain ⟨r, hr⟩ := Option.isSome_iff_exists.mp hr
  exact ⟨h r, by rw [hx', Dict.get?_modify_self, hr, Option.map_some], hstate r⟩

/-- What is not reserved is resolved. -/
theorem resolved_of_not_reserved (hr : (x.reservations.get? op).isSome = true)
    (hnot : x.isReserved op = false) : Resolved x op := by
  obtain ⟨r, hr⟩ := Option.isSome_iff_exists.mp hr
  refine ⟨r, hr, fun hstate => ?_⟩
  rw [isReserved_iff.mpr ⟨r, hr, hstate⟩] at hnot
  cases hnot

/-- No statement reserves again. -/
theorem Resolved.next (h : Resolved x op) (hw : Writes t pc x x') (hs : x.Standing pc) :
    Resolved x' op := by
  obtain ⟨r, hr, hstate⟩ := h
  cases hw with
  | nothing hres _ => exact ⟨r, hres ▸ hr, hstate⟩
  | @reserves q w hpc hres _ =>
    subst hpc
    have hne : op ≠ q.op := by
      rintro rfl
      rw [hs.2 rfl] at hr
      cases hr
    exact ⟨r, by rw [hres, Dict.get?_insert_ne _ _ hne, hr], hstate⟩
  | @settles op' actual r' inserted updated hpc hres _ =>
    cases updated with
    | false => exact ⟨r, hres ▸ hr, hstate⟩
    | true =>
      by_cases hop : op = op'
      · subst hop
        exact resolved_of_modify (by simp [PlatformLib.Store.settled]) (by simp [hr]) hres
      · exact ⟨r, by rw [hres, if_pos rfl, Dict.get?_modify_ne _ _ hop, hr], hstate⟩
  | releases p hp hres _ =>
    have hfalse : p op r = false := by
      by_contra htrue
      exact hstate (hp op r hr (by simpa using htrue)).1
    exact ⟨r, by rw [hres, Dict.get?_map, hr, Option.map_some, hfalse, if_neg (by simp)], hstate⟩

/-! ## Calls that serve a settlement -/

theorem Serves.mono (hsame : ∀ op, Resolved x op → Resolved x' op) (h : Serves x f pc) :
    Serves x' f pc := by
  cases pc with
  | settleCommit op actual r inserted updated => exact ⟨h.1, h.2.1, h.2.2.imp_right (hsame op)⟩
  | reread op => exact ⟨h.1, hsame op h.2⟩
  | finished state => exact hsame f.op h
  | _ => exact h

/-- Where the call begins. -/
theorem serves_enter (hr : (x.reservations.get? f.op).isSome = true) :
    Serves x f (x.enter f.storeCall) := by
  obtain ⟨r, hr⟩ := Option.isSome_iff_exists.mp hr
  cases f with
  | settle op actual time =>
    have hr : x.reservations.get? op = some r := hr
    simp only [Finish.storeCall, PlatformLib.Store.enter, if_neg (not_lt.mpr actual.nonneg), hr]
    split_ifs with hstate
    · exact ⟨rfl, rfl⟩
    · exact ⟨r, hr, hstate⟩
  | release op time => rfl

/-- A statement of the call keeps it one for `f`. -/
theorem Serves.own (h : Serves x f pc) (hst : Statement trunc t x pc x' pc')
    (hs : x.Standing pc) (hr : (x.reservations.get? f.op).isSome = true) : Serves x' f pc' := by
  cases hst with
  | enter c => exact h.elim
  | insertLedger | ledgerExists => exact h
  | updateReservation hx hf => exact ⟨h.1, h.2, .inl rfl⟩
  | notReserved hx =>
    obtain ⟨rfl, hcharge⟩ := h
    exact ⟨rfl, hcharge, .inr (resolved_of_not_reserved hr hx)⟩
  | @commitSettle op actual r inserted updated =>
    obtain ⟨rfl, -, hupdated⟩ := h
    refine ⟨rfl, ?_⟩
    cases updated with
    | true =>
      exact resolved_of_modify (h := PlatformLib.Store.settled actual)
        (by simp [PlatformLib.Store.settled]) hr rfl
    | false => exact hupdated.resolve_left (by simp)
  | @release op hf =>
    obtain rfl := h
    refine ⟨rfl, ?_⟩
    cases hreserved : x.isReserved f.op with
    | true =>
      refine resolved_of_modify (h := PlatformLib.Store.released)
        (by simp [PlatformLib.Store.released]) hr ?_
      rw [PlatformLib.Store.release, if_pos hreserved]
    | false =>
      rw [PlatformLib.Store.release, if_neg (by simp [hreserved])]
      exact resolved_of_not_reserved hr hreserved
  | reread =>
    obtain ⟨rfl, h⟩ := h
    exact h
  | fails => trivial
  | _ => exact h.elim

theorem foreign_enter {q : StoreCall} (h : Outside q) : Foreign (x.enter q) := by
  cases q with
  | reserve q =>
    simp only [PlatformLib.Store.enter]
    split_ifs
    · trivial
    · split <;> trivial
  | settle | release => exact h.elim
  | sweep => trivial
  | setQuota =>
    simp only [PlatformLib.Store.enter]
    split_ifs <;> trivial

/-- A call of another kind stays one. -/
theorem Foreign.own (h : Foreign pc) (hst : Statement trunc t x pc x' pc') (hpc : pc ≠ .idle) :
    Foreign pc' := by
  cases hst with
  | enter c => exact absurd rfl hpc
  | refused hpc' => rcases hpc' with rfl | rfl <;> trivial
  | insertLedger | ledgerExists | updateReservation | notReserved | commitSettle | release
  | reread => exact h.elim
  | _ => trivial

/-! ## The store -/

/-- The reservations, the rows and the calls belong to the operations of `finishes`. -/
structure Books (trunc : Window → PlatformLib.Time → PlatformLib.Time)
    (finishes : List (Finish repr)) (s : PlatformLib.Store.Sys) : Prop where
  reached : Runs.Reachable (PlatformLib.Store.next trunc) Runs.anyStep PlatformLib.Store.Sys.init s
  known : ∀ f ∈ finishes, (s.shared.reservations.get? f.op).isSome = true
  unique : (finishes.map Finish.op).Nodup
  calls : ∀ c, Foreign (s.pc c) ∨ ∃ f ∈ finishes, Serves s.shared f (s.pc c)
  rows : ∀ op l, s.shared.ledger.get? op = some l →
    ∃ f ∈ finishes, f.op = op ∧ f.charge = some l.gpuSeconds
  paid : ∀ op r, s.shared.reservations.get? op = some r → r.state = .settled →
    (s.shared.ledger.get? op).isSome = true

/-- What a step of the store leaves as it was. -/
structure Later (finishes : List (Finish repr)) (s s' : PlatformLib.Store.Sys) : Prop where
  resolved : ∀ op, Resolved s.shared op → Resolved s'.shared op
  serves : ∀ f ∈ finishes, ∀ c, Serves s.shared f (s.pc c) → Serves s'.shared f (s'.pc c)

section

variable {finishes : List (Finish repr)} {s s' : PlatformLib.Store.Sys} {c : CallId}
  {choice : PlatformLib.StoreChoice}

theorem Later.refl : Later finishes s s := ⟨fun _ h => h, fun _ _ _ h => h⟩

theorem isSome_next (hw : Writes t pc x x') (hs : x.Standing pc)
    (h : (x.reservations.get? op).isSome = true) : (x'.reservations.get? op).isSome = true := by
  obtain ⟨r, hr⟩ := Option.isSome_iff_exists.mp h
  obtain ⟨r', hr', -⟩ := PlatformLib.Store.Known.next hw hs ⟨r, hr, rfl⟩
  rw [hr']
  rfl

theorem Books.later (h : Books trunc finishes s)
    (hn : PlatformLib.Store.next trunc s (c, choice) = some s') : Later finishes s s' := by
  obtain ⟨hst, hothers⟩ := PlatformLib.Store.statement_of_next hn
  have hs := (PlatformLib.Store.sound_of_reachable h.reached).standing c
  have hresolved : ∀ op, Resolved s.shared op → Resolved s'.shared op :=
    fun op hop => hop.next hst.writes hs
  refine ⟨hresolved, fun f hf u hu => ?_⟩
  by_cases huc : u = c
  · subst huc
    exact hu.own hst hs (h.known f hf)
  · rw [hothers u huc]
    exact hu.mono hresolved

/-- A call's first step. -/
theorem enter_of_idle (hn : PlatformLib.Store.next trunc s (c, choice) = some s')
    (hidle : s.pc c = .idle) :
    ∃ q, choice = .call q ∧ s'.shared = s.shared ∧ s'.pc c = s.shared.enter q := by
  obtain ⟨y, k, ha, rfl⟩ := Interleaving.next_eq_some.mp hn
  rw [hidle] at ha
  obtain ⟨q, rfl, rfl⟩ := PlatformLib.Store.call_of_idle ha
  cases ha
  exact ⟨q, rfl, rfl, Function.update_self ..⟩

theorem enter_of_call {q : StoreCall}
    (hn : PlatformLib.Store.next trunc s (c, .call q) = some s') :
    s'.shared = s.shared ∧ s'.pc c = s.shared.enter q := by
  obtain ⟨y, k, ha, rfl⟩ := Interleaving.next_eq_some.mp hn
  cases hpc : s.pc c with
  | idle =>
    rw [hpc] at ha
    cases ha
    exact ⟨rfl, Function.update_self ..⟩
  | _ =>
    rw [hpc] at ha
    cases ha

theorem Books.calls_next (h : Books trunc finishes s)
    (hn : PlatformLib.Store.next trunc s (c, choice) = some s')
    (hcall : ∀ q, choice = .call q → Outside q ∨ ∃ f ∈ finishes, q = f.storeCall) (u : CallId) :
    Foreign (s'.pc u) ∨ ∃ f ∈ finishes, Serves s'.shared f (s'.pc u) := by
  obtain ⟨hst, hothers⟩ := PlatformLib.Store.statement_of_next hn
  rcases h.calls u with hforeign | ⟨f, hf, hserves⟩
  · by_cases huc : u = c
    · subst huc
      by_cases hidle : s.pc u = .idle
      · obtain ⟨q, hchoice, hshared, hpc⟩ := enter_of_idle hn hidle
        rw [hpc, hshared]
        rcases hcall q hchoice with houtside | ⟨f, hf, rfl⟩
        · exact .inl (foreign_enter houtside)
        · exact .inr ⟨f, hf, serves_enter (h.known f hf)⟩
      · exact .inl (hforeign.own hst hidle)
    · rw [hothers u huc]
      exact .inl hforeign
  · exact .inr ⟨f, hf, (h.later hn).serves f hf u hserves⟩

/-- A row that is written has the seconds of the settlement that its call serves. -/
theorem Books.rows_next (h : Books trunc finishes s) (hw : Writes c (s.pc c) s.shared s'.shared)
    {l : PlatformLib.LedgerRow} (hl : s'.shared.ledger.get? op = some l) :
    ∃ f ∈ finishes, f.op = op ∧ f.charge = some l.gpuSeconds := by
  cases hw with
  | nothing _ hledger | reserves _ _ hledger | releases _ _ _ hledger =>
    exact h.rows op l (hledger ▸ hl)
  | @settles op' actual r inserted updated hpc _ hledger =>
    cases inserted with
    | false =>
      rw [hledger, if_neg Bool.false_ne_true] at hl
      exact h.rows op l hl
    | true =>
      rw [hledger, if_pos rfl, Dict.get?_insert] at hl
      split_ifs at hl with hop
      · cases hl
        have hcalls := h.calls c
        rw [hpc] at hcalls
        obtain ⟨f, hf, hfop, hcharge, -⟩ := hcalls.resolve_left id
        exact ⟨f, hf, hfop.trans hop.symm, hcharge⟩
      · exact h.rows op l hl

/-- A reservation that becomes settled has its row. -/
theorem Books.paid_next (h : Books trunc finishes s) (hs : s.shared.Standing (s.pc c))
    (hw : Writes c (s.pc c) s.shared s'.shared) {r : PlatformLib.UsageReservation}
    (hr : s'.shared.reservations.get? op = some r) (hstate : r.state = .settled) :
    (s'.shared.ledger.get? op).isSome = true := by
  have hstays : ∀ {op}, (s.shared.ledger.get? op).isSome = true →
      (s'.shared.ledger.get? op).isSome = true := by
    intro op hsome
    rw [Option.isSome_iff_ne_none] at hsome ⊢
    exact hw.ledger_isSome hsome
  cases hw with
  | nothing hres _ => exact hstays (h.paid op r (hres ▸ hr) hstate)
  | @reserves q w hpc hres _ =>
    rw [hres, Dict.get?_insert] at hr
    split_ifs at hr with hop
    · cases hr
      cases hstate
    · exact hstays (h.paid op r hr hstate)
  | @settles op' actual r' inserted updated hpc hres hledger =>
    cases updated with
    | false =>
      rw [hres, if_neg Bool.false_ne_true] at hr
      exact hstays (h.paid op r hr hstate)
    | true =>
      by_cases hop : op = op'
      · subst hop
        rw [hpc] at hs
        cases inserted with
        | true => rw [hledger, if_pos rfl, Dict.get?_insert_self]; rfl
        | false =>
          refine hstays ?_
          rw [Option.isSome_iff_ne_none]
          exact fun hnone => Bool.false_ne_true (hs.2.1.mpr hnone)
      · rw [hres, if_pos rfl, Dict.get?_modify_ne _ _ hop] at hr
        exact hstays (h.paid op r hr hstate)
  | releases p hp hres _ =>
    rw [hres, Dict.get?_map] at hr
    obtain ⟨r₀, hr₀, rfl⟩ := Option.map_eq_some_iff.mp hr
    split_ifs at hstate with hp'
    · cases hstate
    · exact hstays (h.paid op r₀ hr₀ hstate)

theorem Books.next (h : Books trunc finishes s)
    (hn : PlatformLib.Store.next trunc s (c, choice) = some s')
    (hcall : ∀ q, choice = .call q → Outside q ∨ ∃ f ∈ finishes, q = f.storeCall) :
    Books trunc finishes s' := by
  have hw := (PlatformLib.Store.statement_of_next hn).1.writes
  have hs := (PlatformLib.Store.sound_of_reachable h.reached).standing c
  exact {
    reached := h.reached.step _ trivial hn
    known := fun f hf => isSome_next hw hs (h.known f hf)
    unique := h.unique
    calls := h.calls_next hn hcall
    rows := fun _ _ hl => h.rows_next hw hl
    paid := fun _ _ hr hstate => h.paid_next hs hw hr hstate }

/-- A settlement or a release of a reservation that is there. -/
theorem Books.finish (h : Books trunc finishes s)
    (hr : (s.shared.reservations.get? f.op).isSome = true) (hnew : ∀ g ∈ finishes, g.op ≠ f.op) :
    Books trunc (finishes ++ [f]) s := by
  refine { h with known := ?_, unique := ?_, calls := fun u => ?_, rows := fun op l hl => ?_ }
  · intro g hg
    rcases List.mem_append.mp hg with hg | hg
    · exact h.known g hg
    · obtain rfl := List.mem_singleton.mp hg
      exact hr
  · rw [List.map_append, List.map_singleton, List.nodup_append]
    refine ⟨h.unique, List.nodup_singleton _, ?_⟩
    rintro _ ha _ hb
    obtain ⟨g, hg, rfl⟩ := List.mem_map.mp ha
    rw [List.mem_singleton.mp hb]
    exact hnew g hg
  · exact (h.calls u).imp_right fun ⟨g, hg, hserves⟩ => ⟨g, List.mem_append_left _ hg, hserves⟩
  · obtain ⟨g, hg, hrow⟩ := h.rows op l hl
    exact ⟨g, List.mem_append_left _ hg, hrow⟩

theorem books_init : Books trunc ([] : List (Finish repr)) PlatformLib.Store.Sys.init where
  reached := .init
  known f hf := by cases hf
  unique := List.nodup_nil
  calls _ := .inl trivial
  rows _ _ h := by cases h
  paid _ _ h := by cases h

/-- The row of an operation has its seconds. -/
theorem Books.charged (h : Books trunc finishes s) (hf : f ∈ finishes)
    {l : PlatformLib.LedgerRow} (hl : s.shared.ledger.get? f.op = some l) :
    f.charge = some l.gpuSeconds := by
  obtain ⟨g, hg, hop, hcharge⟩ := h.rows f.op l hl
  obtain rfl := List.inj_on_of_nodup_map h.unique hg hf hop
  exact hcharge

/-- What is resolved has its row, or it has been released. -/
theorem Books.settled (h : Books trunc finishes s) (hf : f ∈ finishes)
    (hresolved : Resolved s.shared f.op) {q : ℚ} (hq : f.charge = some q) :
    (∃ l, s.shared.ledger.get? f.op = some l ∧ l.gpuSeconds = q) ∨
      ∃ r, s.shared.reservations.get? f.op = some r ∧ r.state = .released := by
  obtain ⟨r, hr, hstate⟩ := hresolved
  cases hcases : r.state with
  | reserved => exact absurd hcases hstate
  | released => exact .inr ⟨r, hr, hcases⟩
  | settled =>
    obtain ⟨l, hl⟩ := Option.isSome_iff_exists.mp (h.paid f.op r hr hcases)
    have hcharge := h.charged hf hl
    rw [hq] at hcharge
    exact .inl ⟨l, hl, (Option.some.inj hcharge).symm⟩

end

end MlopsLite.Gateway.Settlement
