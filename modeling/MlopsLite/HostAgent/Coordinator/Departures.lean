import MlopsLite.HostAgent.Coordinator.Entries
import MlopsLite.HostAgent.Coordinator.Cleanup

/-!
# Coordinator — who takes an entry down

The source records no owner for an entry that is loading or departing. A
history does: the operation that last gave the entry its state, and the
children unloaded so far. As long as an `evict` starts on nothing that
another operation has marked, and a failed drain reverts its own marks
only, every entry is unloaded, reverted and removed by its owner.
-/

namespace MlopsLite.HostAgent

/-- The entry an operation is in charge of, by model, and by id where it
keeps one, with the state it left it in. -/
def Pc.tenure? : Pc → Option (ModelKey × Option EntryId × ResidentState)
  | .gate m _ e | .load m _ e | .reconcile m e _ _ | .commit m e _ _ | .loadFailed m e _ =>
      some (m, some e, .loading)
  | .rollback m e _ _ _ _ | .rolledBack m e _ _ _ => some (m, some e, .rollingBack)
  | .draining m _ => some (m, none, .draining)
  | .evicting m e _ _ _ | .evicted m e _ _ => some (m, some e, .evicting)
  | _ => none

theorem Pc.tenure?_ne_resident {pc : Pc} {m : ModelKey} {e? : Option EntryId}
    {rs : ResidentState} (h : pc.tenure? = some (m, e?, rs)) : rs ≠ .resident := by
  unfold Pc.tenure? at h
  split at h <;> simp_all
  all_goals
    obtain ⟨-, -, rfl⟩ := h
    simp

/-- The child an operation carries, with the entry it was loaded for. -/
def Pc.child? : Pc → Option (EntryId × Child)
  | .reconcile _ e child _ | .commit _ e child _ | .rollback _ e _ child _ _
  | .failedUnload _ e child _ => some (e, child)
  | .loadFailed _ e child | .evicting _ e _ child _ => child.map fun c => (e, c)
  | _ => none

theorem Pc.child?_of_unloads {pc : Pc} {e : EntryId} {c : Child}
    (h : pc.unloads? = some (e, some c)) : pc.child? = some (e, c) := by
  unfold Pc.unloads? at h
  split at h <;> simp_all [Pc.child?]

@[simp] theorem Pc.tenure?_resume (k : Caller) (ok : Bool) : (k.resume ok).tenure? = none := by
  cases k with
  | direct => rfl
  | victims m est n rest => cases rest <;> rfl
  | drain j rest => cases rest <;> rfl

@[simp] theorem Pc.child?_resume (k : Caller) (ok : Bool) : (k.resume ok).child? = none := by
  cases k with
  | direct => rfl
  | victims m est n rest => cases rest <;> rfl
  | drain j rest => cases rest <;> rfl

@[simp] theorem Pc.tenure?_afterFailure (m : ModelKey) (e : EntryId) (ws : List WaiterId)
    (child : Option Child) : (Pc.afterFailure m e ws child).tenure? = none := by
  cases child <;> rfl

theorem Pc.child?_afterFailure (m : ModelKey) (e : EntryId) (ws : List WaiterId)
    (child : Option Child) : (Pc.afterFailure m e ws child).child? = child.map fun c => (e, c) := by
  cases child <;> rfl

namespace Coordinator

variable {gpu : Gpu} {op : OpId} {co co' : Coordinator} {pc pc' : Pc} {m : ModelKey} {e : EntryId}

/-! ## The history -/

/-- The state of the entry with id `e`, as long as it is resident. -/
def entryState (co : Coordinator) (e : EntryId) : Option ResidentState :=
  (co.residents.values.find? fun x => x.eid = e).map ResidentModel.state

theorem entryState_of_get? (hw : co.slots.WellFormed) {x : ResidentModel}
    (hx : co.residents.get? m = some x) : co.entryState x.eid = some x.state := by
  have hmem : x ∈ co.residents.values := Dict.mem_values.mpr ⟨m, hx⟩
  cases hf : co.residents.values.find? fun y => y.eid = x.eid with
  | none => simpa using List.find?_eq_none.mp hf x hmem
  | some y =>
    have hye : y.eid = x.eid := by simpa using List.find?_some hf
    obtain ⟨m', hy⟩ := Dict.mem_values.mp (List.mem_of_find?_eq_some hf)
    obtain rfl : m' = m := hw.inj m' m x.eid (by simp [slots, hy, hye]) (by simp [slots, hx])
    obtain rfl := Option.some.inj (hx.symm.trans hy)
    simp [entryState, hf]

theorem get?_of_entryState {st : ResidentState} (h : co.entryState e = some st) :
    ∃ m x, co.residents.get? m = some x ∧ x.eid = e ∧ x.state = st := by
  obtain ⟨x, hf, hs⟩ := Option.map_eq_some_iff.mp h
  obtain ⟨m, hx⟩ := Dict.mem_values.mp (List.mem_of_find?_eq_some hf)
  exact ⟨m, x, hx, by simpa using List.find?_some hf, hs⟩

structure Ledger where
  /-- Who last gave the entry its state; nobody, if that is `resident`. -/
  owner : EntryId → Option OpId
  /-- The `admit_job` that last raised the barrier. -/
  job : OpId
  /-- The entry a child was loaded for, by its `ref`. -/
  born : Nat → EntryId
  /-- The entries an unload was issued for. -/
  issued : List EntryId
  /-- The children unloaded. -/
  unloaded : List Child

def Ledger.init : Ledger := ⟨fun _ => none, 0, fun _ => 0, [], []⟩

/-- An `evict` that times out under the barrier hands its entry to the job. -/
def handsOver (co : Coordinator) (pc pc' : Pc) (e : EntryId) : Bool :=
  match pc with
  | .draining m _ => pc' ≠ pc && co.barred &&
      (co.residents.get? m).any fun x => x.eid = e && 0 < x.activeRequests
  | _ => false

def Ledger.record (op : OpId) (co : Coordinator) (pc : Pc) (h : Ledger) (co' : Coordinator)
    (pc' : Pc) : Ledger where
  owner e := match co'.entryState e with
    | none => h.owner e
    | some st =>
        if co.entryState e = some st
        then if co.handsOver pc pc' e then some h.job else h.owner e
        else if st = .resident then none else some op
  job := if !co.jobBarrier && co'.jobBarrier then op else h.job
  born := match pc with
    | .load _ _ e => Function.update h.born co.nextChild e
    | _ => h.born
  issued := match pc.unloads? with
    | some (e, _) => e :: h.issued
    | none => h.issued
  unloaded := match pc.unloads? with
    | some (_, some child) => child :: h.unloaded
    | _ => h.unloaded

abbrev LoggedSys := Interleaving.State OpId (Coordinator × Ledger) Pc

def LoggedSys.init : LoggedSys := ⟨(.init, .init), fun _ => .idle⟩

abbrev loggedNext (gpu : Gpu) : LoggedSys → Act → Option LoggedSys :=
  Interleaving.next (Interleaving.withHistory (advance gpu) Ledger.record)

/-! ## The side condition -/

/-- No `forget`. An `evict` starts on nothing, on an entry in state
`resident` or on one its own operation marked; a job about to close finds no
`draining` entry but its own. -/
def FindsNoOther (s : LoggedSys) (a : Act) : Prop :=
  match s.pc a.1, a.2 with
  | .idle, .start (.forget _) => False
  | .evict m _, _ => ∀ x ∈ s.shared.1.residents.get? m, x.state = .resident ∨
      x.state = .draining ∧ s.shared.2.owner x.eid = some a.1
  | .jobClose _ _, _ => ∀ x ∈ s.shared.1.residents.values, x.state = .draining →
      s.shared.2.owner x.eid = some a.1
  | _, _ => True

instance (s : LoggedSys) (a : Act) : Decidable (FindsNoOther s a) := by
  unfold FindsNoOther
  exact Interleaving.pointwise (s.pc a.1) a.2 fun pc c => by split <;> infer_instance

/-- The runs of the coordinator without `forget` whose steps all meet the
condition. -/
abbrev Undisturbed (gpu : Gpu) : LoggedSys → Prop :=
  Runs.Reachable (loggedNext gpu) FindsNoOther LoggedSys.init

/-! ## The invariants -/

/-- What the ledger says of the resident set. -/
structure Books (st : Coordinator × Ledger) : Prop where
  slots : st.1.slots.WellFormed
  owned : ∀ m x, st.1.residents.get? m = some x →
    ((st.2.owner x.eid).isSome ↔ x.state ≠ .resident)
  spent : ∀ m x, st.1.residents.get? m = some x → x.eid ∈ st.2.issued →
    x.state = .evicting ∨ x.state = .rollingBack
  child : ∀ m x c, st.1.residents.get? m = some x → x.child = some c →
    c.ref < st.1.nextChild ∧ st.2.born c.ref = x.eid
  oldOwner : ∀ e o, st.2.owner e = some o → e < st.1.nextEntry
  oldIssued : ∀ e, e ∈ st.2.issued → e < st.1.nextEntry
  nodup : (st.2.unloaded.map Child.ref).Nodup
  unloaded : ∀ c ∈ st.2.unloaded, c.ref < st.1.nextChild ∧ st.2.born c.ref ∈ st.2.issued

/-- What an operation may rely on: the entry it is in charge of is there and
its own, and what it is about to unload has not been unloaded. -/
structure Tenure (op : OpId) (st : Coordinator × Ledger) (pc : Pc) : Prop where
  holds : ∀ m e? rs, pc.tenure? = some (m, e?, rs) → ∃ x, st.1.residents.get? m = some x ∧
    x.state = rs ∧ st.2.owner x.eid = some op ∧ ∀ e, e? = some e → x.eid = e
  issues : ∀ e c, pc.unloads? = some (e, c) → st.2.owner e = some op ∧ e ∉ st.2.issued
  gone : ∀ m e child ws, pc = .failedUnload m e child ws →
    ∀ m' x, st.1.residents.get? m' = some x → x.eid ≠ e
  child : ∀ e c, pc.child? = some (e, c) → c.ref < st.1.nextChild ∧ st.2.born c.ref = e

/-- What a section leaves to the other operations. -/
structure Spares (op : OpId) (st st' : Coordinator × Ledger) : Prop where
  owner : ∀ e o, o ≠ op → st.2.owner e = some o → st'.2.owner e = some o
  entry : ∀ m x o, o ≠ op → st.1.residents.get? m = some x → st.2.owner x.eid = some o →
    ∃ x', st'.1.residents.get? m = some x' ∧ x'.eid = x.eid ∧ x'.state = x.state
  fresh : ∀ m x', st'.1.residents.get? m = some x' →
    (∃ x, st.1.residents.get? m = some x ∧ x.eid = x'.eid) ∨ x'.eid = st.1.nextEntry
  issued : ∀ e, e ∈ st'.2.issued → e ∈ st.2.issued ∨ st.2.owner e = some op
  born : ∀ r, r < st.1.nextChild → r < st'.1.nextChild ∧ st'.2.born r = st.2.born r

theorem Tenure.stable {o : OpId} {st st' : Coordinator × Ledger} (h : Tenure o st pc)
    (hb : Books st) (hr : Spares op st st') (ho : o ≠ op) : Tenure o st' pc := by
  refine ⟨?_, ?_, ?_, ?_⟩
  · intro m e? rs hp
    obtain ⟨x, hx, hs, hown, he⟩ := h.holds m e? rs hp
    obtain ⟨x', hx', heid, hs'⟩ := hr.entry m x o ho hx hown
    exact ⟨x', hx', hs'.trans hs, heid ▸ hr.owner _ o ho hown, heid ▸ he⟩
  · intro e c hp
    obtain ⟨hown, hnew⟩ := h.issues e c hp
    refine ⟨hr.owner e o ho hown, fun hin => ?_⟩
    rcases hr.issued e hin with hin | hop
    · exact hnew hin
    · exact ho (Option.some.inj (hown.symm.trans hop))
  · intro m e child ws hp m' x' hx'
    have hown := (h.issues e (some child) (by rw [hp]; rfl)).1
    rcases hr.fresh m' x' hx' with ⟨x, hx, heq⟩ | hnew
    · exact heq ▸ h.gone m e child ws hp m' x hx
    · exact hnew ▸ (Nat.ne_of_lt (hb.oldOwner e o hown)).symm
  · intro e c hp
    obtain ⟨hlt, hborn⟩ := h.child e c hp
    obtain ⟨hlt', heq⟩ := hr.born c.ref hlt
    exact ⟨hlt', heq.trans hborn⟩

/-! ## One section -/

section

variable {h : Ledger} {x x' : ResidentModel} {y : Option ResidentModel}

/-- The entry in an operation's charge, when it has kept its id. -/
theorem Tenure.own (hT : Tenure op (co, h) pc) {e? : Option EntryId} {rs : ResidentState}
    (hp : pc.tenure? = some (m, e?, rs)) (hx : co.residents.get? m = some x) :
    x.state = rs ∧ h.owner x.eid = some op ∧ ∀ e, e? = some e → x.eid = e := by
  obtain ⟨y, hy, hs, hown, he⟩ := hT.holds m e? rs hp
  obtain rfl := Option.some.inj (hx.symm.trans hy)
  exact ⟨hs, hown, he⟩

/-- What a section may do to an entry, by its state and its owner. -/
theorem Touch.owned (ht : Touch gpu op co m x pc pc' y) (hT : Tenure op (co, h) pc)
    (hx : co.residents.get? m = some x) (hidle : pc = .idle → y ≠ none)
    (hclose : ∀ j d, pc = .jobClose j d → x.state = .draining → h.owner x.eid = some op) :
    (∃ x', y = some x' ∧ x'.state = x.state) ∨ x.state = .resident ∨ h.owner x.eid = some op := by
  cases ht with
  | keep | release => exact .inl ⟨_, rfl, rfl⟩
  | mark hs | share hs => exact .inr (.inl hs)
  | unmark hs => exact .inr (.inr (hclose _ _ rfl hs))
  | forget => exact absurd rfl (hidle rfl)
  | rollBack | commit | drained | revert | failed | rolledBack | evicted =>
    exact .inr (.inr (hT.own rfl hx).2.1)

/-- A departing entry is not called back. -/
theorem Touch.departing (ht : Touch gpu op co m x pc pc' (some x')) (hT : Tenure op (co, h) pc)
    (hx : co.residents.get? m = some x) (hs : x.state = .evicting ∨ x.state = .rollingBack) :
    x'.state = .evicting ∨ x'.state = .rollingBack := by
  cases ht with
  | keep | release => exact hs
  | mark hs' | share hs' | unmark hs' => simp [hs'] at hs
  | rollBack | commit | drained | revert => simp [(hT.own rfl hx).1] at hs

/-- The child of an entry: its own, or the one its load returned. -/
theorem Touch.child (ht : Touch gpu op co m x pc pc' (some x')) (hT : Tenure op (co, h) pc)
    (hx : co.residents.get? m = some x) {c : Child} (hc : x'.child = some c) :
    x.child = some c ∨ pc.child? = some (x.eid, c) := by
  cases ht with
  | keep | mark | unmark | share | release | rollBack | drained | revert => exact .inl hc
  | commit =>
    have he := (hT.own rfl hx).2.2 _ rfl
    obtain rfl := Option.some.inj hc
    exact .inr (by rw [he]; rfl)

theorem handsOver_own (hT : Tenure op (co, h) pc) (ho : co.handsOver pc pc' e = true) :
    h.owner e = some op ∧ ∃ m x, co.residents.get? m = some x ∧ x.eid = e ∧
      x.state = .draining := by
  cases pc with
  | draining m k =>
    simp only [handsOver, Bool.and_eq_true, Option.any_eq_true] at ho
    obtain ⟨-, x, hx, he⟩ := ho
    obtain rfl : x.eid = e := by simpa using he.1
    obtain ⟨hs, hown, -⟩ := hT.own rfl hx
    exact ⟨hown, m, x, hx, rfl, hs⟩
  | idle | attempt | awaitLoad | awaitTransient | clearIntent | gate | load | reconcile | commit
  | rollback | rolledBack | loadFailed | failedUnload | dispose | evict | evicting | evicted
  | jobDrain | jobClose | served | finished | raised => cases ho

theorem owner_record_same (hw : co.slots.WellFormed) (hw' : co'.slots.WellFormed)
    (hx : co.residents.get? m = some x) (hx' : co'.residents.get? m = some x')
    (he : x'.eid = x.eid) (hs : x'.state = x.state) :
    (h.record op co pc co' pc').owner x'.eid =
      if co.handsOver pc pc' x'.eid then some h.job else h.owner x'.eid := by
  have hbefore : co.entryState x'.eid = some x'.state := by
    rw [he, hs, entryState_of_get? hw hx]
  simp [Ledger.record, entryState_of_get? hw' hx', hbefore]

theorem owner_record_changed (hw' : co'.slots.WellFormed) (hx' : co'.residents.get? m = some x')
    (hs : co.entryState x'.eid ≠ some x'.state) : (h.record op co pc co' pc').owner x'.eid =
      if x'.state = .resident then none else some op := by
  simp [Ledger.record, entryState_of_get? hw' hx', hs]

/-- An entry of its own that an operation neither gives back nor hands over
stays its own. -/
theorem owner_record_own (hown : h.owner e = some op) (hh : co.handsOver pc pc' e = false)
    (hs : ∀ m x', co'.residents.get? m = some x' → x'.eid = e → x'.state ≠ .resident) :
    (h.record op co pc co' pc').owner e = some op := by
  cases hst : co'.entryState e with
  | none => simp [Ledger.record, hst, hown]
  | some st =>
    obtain ⟨m, x', hx', he, rfl⟩ := get?_of_entryState hst
    have hne := hs m x' hx' he
    by_cases hsame : co.entryState e = some x'.state
    · simp [Ledger.record, hst, hsame, hh, hown]
    · simp [Ledger.record, hst, hsame, hne]

/-- What the side condition gives for a section. -/
structure Clear (op : OpId) (co : Coordinator) (h : Ledger) (pc : Pc) (co' : Coordinator) :
    Prop where
  idle : pc = .idle → ∀ m x, co.residents.get? m = some x → co'.residents.get? m ≠ none
  enter : ∀ m k x, pc = .evict m k → co.residents.get? m = some x →
    x.state = .resident ∨ x.state = .draining ∧ h.owner x.eid = some op
  close : ∀ j d, pc = .jobClose j d → ∀ m x, co.residents.get? m = some x →
    x.state = .draining → h.owner x.eid = some op

theorem Section.nextChild_le (hsec : Section gpu op co pc co' pc') :
    co.nextChild ≤ co'.nextChild := by
  cases hsec with
  | forget =>
    unfold Coordinator.forget
    split <;> exact Nat.le_refl _
  | @release c =>
    have hs := sansClaims_releaseClaim co c
    exact Nat.le_of_eq (congrArg Coordinator.nextChild hs :).symm
  | endJob =>
    unfold Coordinator.endJob
    split <;> exact Nat.le_refl _
  | reconcile =>
    unfold Coordinator.reconcile
    split <;> exact Nat.le_refl _
  | @commit m _ child realBytes r =>
    have hs := sansClaims_commitLoad co m op child realBytes r.waiters
    exact Nat.le_of_eq (congrArg Coordinator.nextChild hs :).symm
  | loadUnmeasured | loaded => exact Nat.le_succ _
  | evictEnter hx =>
    simp only [Coordinator.evictEnter, hx]
    split <;> exact Nat.le_refl _
  | drainFailed _ _ => split <;> exact Nat.le_refl _
  | quiet | raiseBarrier | share | join | reserve | intentOpen | evictVictims | waiterTimeout
  | waiterServed | waiterRetry | clearIntent | acquireGate | loadRaised | reservationLost | rollBack
  | keyError | rolledBack | failedOwn | failedStale | disposed | disposedGate | evictGone | drained
  | drainWait | evicted | jobFailed | jobTakes => exact Nat.le_refl _

theorem born_record {r : Nat} (hr : r < co.nextChild) :
    (h.record op co pc co' pc').born r = h.born r := by
  simp only [Ledger.record]
  split
  · exact Function.update_of_ne (Nat.ne_of_lt hr) ..
  · rfl

theorem issued_record {c : Option Child} (hp : pc.unloads? = some (e, c)) :
    (h.record op co pc co' pc').issued = e :: h.issued := by
  simp [Ledger.record, hp]

theorem issued_record_none (hp : pc.unloads? = none) :
    (h.record op co pc co' pc').issued = h.issued := by
  simp [Ledger.record, hp]

theorem mem_issued_record {e' : EntryId}
    (hin : e' ∈ (h.record op co pc co' pc').issued) :
    e' ∈ h.issued ∨ ∃ c, pc.unloads? = some (e', c) := by
  cases hp : pc.unloads? with
  | none =>
    rw [issued_record_none hp] at hin
    exact .inl hin
  | some ec =>
    obtain ⟨e, c⟩ := ec
    rw [issued_record hp] at hin
    rcases List.mem_cons.mp hin with rfl | hin
    · exact .inr ⟨c, rfl⟩
    · exact .inl hin

theorem issued_mono (hin : e ∈ h.issued) : e ∈ (h.record op co pc co' pc').issued := by
  cases hp : pc.unloads? with
  | none => rwa [issued_record_none hp]
  | some ec =>
    rw [issued_record hp]
    exact List.mem_cons_of_mem _ hin

theorem unloaded_record (op : OpId) (co co' : Coordinator) (pc pc' : Pc) (h : Ledger) :
    (h.record op co pc co' pc').unloaded = h.unloaded ∨
      ∃ e c, pc.unloads? = some (e, some c) ∧
        (h.record op co pc co' pc').unloaded = c :: h.unloaded := by
  cases hp : pc.unloads? with
  | none => exact .inl (by simp [Ledger.record, hp])
  | some ec =>
    obtain ⟨e, c⟩ := ec
    cases c with
    | none => exact .inl (by simp [Ledger.record, hp])
    | some c => exact .inr ⟨e, c, rfl, by simp [Ledger.record, hp]⟩

theorem Section.spares (hsec : Section gpu op co pc co' pc') (hB : Books (co, h))
    (hT : Tenure op (co, h) pc) (hc : Clear op co h pc co') :
    Spares op (co, h) (co', h.record op co pc co' pc') := by
  have hw' := hsec.slots_step.wellFormed hB.slots
  have entry : ∀ m x o, o ≠ op → co.residents.get? m = some x → h.owner x.eid = some o →
      ∃ x', co'.residents.get? m = some x' ∧ x'.eid = x.eid ∧ x'.state = x.state := by
    intro m x o ho hx hown
    have ht := hsec.touch hx
    rcases ht.owned hT hx (fun hp => hc.idle hp m x hx) (fun j d hp => hc.close j d hp m x hx) with
      ⟨x', hy, hs⟩ | hres | hop
    · exact ⟨x', hy, (hy ▸ ht).eid, hs⟩
    · exact absurd hres ((hB.owned m x hx).mp (Option.isSome_iff_exists.mpr ⟨o, hown⟩))
    · exact absurd (Option.some.inj (hown.symm.trans hop)) ho
  have fresh : ∀ m x', co'.residents.get? m = some x' →
      (∃ x, co.residents.get? m = some x ∧ x.eid = x'.eid) ∨ x'.eid = co.nextEntry := by
    intro m x' hx'
    rcases hsec.source hx' with ⟨x, hx, he, -⟩ | ⟨est, -, rfl, -⟩
    · exact .inl ⟨x, hx, he.symm⟩
    · exact .inr rfl
  refine ⟨?_, entry, fresh, ?_, ?_⟩
  · intro e o ho hown
    cases hst : co'.entryState e with
    | none => simpa [Ledger.record, hst] using hown
    | some st =>
      obtain ⟨m, x', hx', rfl, rfl⟩ := get?_of_entryState hst
      rcases fresh m x' hx' with ⟨x, hx, he⟩ | hnew
      · obtain ⟨y, hy, -, hs⟩ := entry m x o ho hx (he ▸ hown)
        obtain rfl := Option.some.inj (hx'.symm.trans hy)
        rw [owner_record_same hB.slots hw' hx hx' he.symm hs, if_neg]
        · exact hown
        · intro hh
          exact ho (Option.some.inj (hown.symm.trans (handsOver_own hT hh).1))
      · exact absurd hnew (Nat.ne_of_lt (hB.oldOwner _ o hown))
  · intro e hin
    rcases mem_issued_record hin with hin | ⟨c, hp⟩
    · exact .inl hin
    · exact .inr (hT.issues e c hp).1
  · intro r hr
    exact ⟨Nat.lt_of_lt_of_le hr hsec.nextChild_le, born_record hr⟩

/-- An entry whose unload is being issued is departing. -/
theorem Tenure.departing (hT : Tenure op (co, h) pc) (hw : co.slots.WellFormed)
    {c : Option Child} (hp : pc.unloads? = some (e, c)) (hx : co.residents.get? m = some x)
    (he : x.eid = e) : x.state = .evicting ∨ x.state = .rollingBack := by
  have same : ∀ m' rs, pc.tenure? = some (m', some e, rs) → x.state = rs := by
    intro m' rs ht
    obtain ⟨y, hy, hs, -, hye⟩ := hT.holds m' (some e) rs ht
    obtain rfl : m' = m :=
      hw.inj m' m e (by simp [slots, hy, hye e rfl]) (by simp [slots, hx, he])
    obtain rfl := Option.some.inj (hx.symm.trans hy)
    exact hs
  cases pc with
  | evicting m' e' gen child k =>
    obtain ⟨rfl, -⟩ : _ ∧ _ := by simpa [Pc.unloads?] using hp
    exact .inl (same m' _ rfl)
  | rollback m' e' gen child ws d =>
    obtain ⟨rfl, -⟩ : _ ∧ _ := by simpa [Pc.unloads?] using hp
    exact .inr (same m' _ rfl)
  | failedUnload m' e' child ws =>
    obtain ⟨rfl, -⟩ : _ ∧ _ := by simpa [Pc.unloads?] using hp
    exact absurd he (hT.gone m' e' child ws rfl m x hx)
  | idle | attempt | awaitLoad | awaitTransient | clearIntent | gate | load | reconcile | commit
  | rolledBack | loadFailed | dispose | evict | draining | evicted | jobDrain | jobClose | served
  | finished | raised => cases hp

theorem Section.books (hsec : Section gpu op co pc co' pc') (hB : Books (co, h))
    (hT : Tenure op (co, h) pc) : Books (co', h.record op co pc co' pc') := by
  have hw' := hsec.slots_step.wellFormed hB.slots
  have hnew : co.entryState co.nextEntry = none := by
    cases hst : co.entryState co.nextEntry with
    | none => rfl
    | some st =>
      obtain ⟨m, x, hx, he, -⟩ := get?_of_entryState hst
      exact absurd he (Nat.ne_of_lt (hB.slots.old m _ (by simp [slots, hx])))
  refine ⟨hw', ?_, ?_, ?_, ?_, ?_, ?_, ?_⟩
  · intro m x' hx'
    rcases hsec.source hx' with ⟨x, hx, he, ht⟩ | ⟨est, -, rfl, -⟩
    · by_cases hs : x'.state = x.state
      · rw [owner_record_same hB.slots hw' hx hx' he hs]
        split
        · rename_i hh
          obtain ⟨-, m', y, hy, hye, hys⟩ := handsOver_own hT hh
          obtain rfl : m' = m :=
            hB.slots.inj m' m x'.eid (by simp [slots, hy, hye]) (by simp [slots, hx, he])
          obtain rfl := Option.some.inj (hx.symm.trans hy)
          simp [hs, hys]
        · rw [he, hs]
          exact hB.owned m x hx
      · have hchanged : co.entryState x'.eid ≠ some x'.state := by
          rw [he, entryState_of_get? hB.slots hx]
          exact fun heq => hs (Option.some.inj heq).symm
        rw [owner_record_changed hw' hx' hchanged]
        split <;> simp_all
    · have hchanged : co.entryState co.nextEntry ≠ some ResidentState.loading := by simp [hnew]
      rw [owner_record_changed hw' hx' hchanged]
      simp [ResidentModel.loading]
  · intro m x' hx' hin
    rcases hsec.source hx' with ⟨x, hx, he, ht⟩ | ⟨est, -, rfl, -⟩
    · refine ht.departing hT hx ?_
      rcases mem_issued_record hin with hin | ⟨c, hp⟩
      · exact hB.spent m x hx (he ▸ hin)
      · exact hT.departing hB.slots hp hx he.symm
    · rcases mem_issued_record hin with hin | ⟨c, hp⟩
      · exact absurd (hB.oldIssued _ hin) (Nat.lt_irrefl _)
      · exact absurd (hB.oldOwner _ op (hT.issues _ c hp).1) (Nat.lt_irrefl _)
  · intro m x' c hx' hc
    rcases hsec.source hx' with ⟨x, hx, he, ht⟩ | ⟨est, -, rfl, -⟩
    · have hold : c.ref < co.nextChild ∧ h.born c.ref = x.eid := by
        rcases ht.child hT hx hc with hc | hc
        · exact hB.child m x c hx hc
        · exact hT.child _ c hc
      exact ⟨Nat.lt_of_lt_of_le hold.1 hsec.nextChild_le,
        (born_record hold.1).trans (hold.2.trans he.symm)⟩
    · cases hc
  · intro e o hown
    cases hst : co'.entryState e with
    | none =>
      have hold : h.owner e = some o := by simpa [Ledger.record, hst] using hown
      exact Nat.lt_of_lt_of_le (hB.oldOwner e o hold) hsec.nextEntry_le
    | some st =>
      obtain ⟨m, x', hx', rfl, -⟩ := get?_of_entryState hst
      exact hw'.old m _ (by simp [slots, hx'])
  · intro e hin
    rcases mem_issued_record hin with hin | ⟨c, hp⟩
    · exact Nat.lt_of_lt_of_le (hB.oldIssued e hin) hsec.nextEntry_le
    · exact Nat.lt_of_lt_of_le (hB.oldOwner e op (hT.issues e c hp).1) hsec.nextEntry_le
  · rcases unloaded_record op co co' pc pc' h with heq | ⟨e, c, hp, heq⟩
    · rw [heq]
      exact hB.nodup
    · rw [heq, List.map_cons, List.nodup_cons]
      refine ⟨fun hin => ?_, hB.nodup⟩
      obtain ⟨c', hc', href⟩ := List.mem_map.mp hin
      have hborn := (hT.child e c (Pc.child?_of_unloads hp)).2
      exact (hT.issues e _ hp).2 (hborn ▸ href ▸ (hB.unloaded c' hc').2)
  · have old : ∀ c ∈ h.unloaded, c.ref < co'.nextChild ∧
        (h.record op co pc co' pc').born c.ref ∈ (h.record op co pc co' pc').issued := by
      intro c hc
      obtain ⟨hlt, hin⟩ := hB.unloaded c hc
      exact ⟨Nat.lt_of_lt_of_le hlt hsec.nextChild_le,
        (born_record hlt).symm ▸ issued_mono hin⟩
    intro c hc
    rcases unloaded_record op co co' pc pc' h with heq | ⟨e, c', hp, heq⟩
    · exact old c (heq ▸ hc)
    · rcases List.mem_cons.mp (heq ▸ hc) with rfl | hc
      · obtain ⟨hlt, hborn⟩ := hT.child e c (Pc.child?_of_unloads hp)
        refine ⟨Nat.lt_of_lt_of_le hlt hsec.nextChild_le, ?_⟩
        rw [born_record hlt, hborn, issued_record hp]
        exact List.mem_cons_self ..
      · exact old c hc

/-! ## Its own entry -/

theorem Tenure.of_none {st : Coordinator × Ledger} (ht : pc.tenure? = none)
    (hu : pc.unloads? = none) (hc : pc.child? = none) : Tenure op st pc := by
  refine ⟨?_, ?_, ?_, ?_⟩
  · intro m e? rs hp
    simp [ht] at hp
  · intro e c hp
    simp [hu] at hp
  · rintro m e child ws rfl
    cases hu
  · intro e c hp
    simp [hc] at hp

theorem owner_after (hw' : co'.slots.WellFormed) (hx' : co'.residents.get? m = some x')
    (he : x'.eid = e) (hs : x'.state ≠ .resident) (hh : co.handsOver pc pc' e = false)
    (hown : h.owner e = some op ∨ co.entryState e ≠ some x'.state) :
    (h.record op co pc co' pc').owner e = some op := by
  subst he
  rcases hown with hown | hchanged
  · refine owner_record_own hown hh ?_
    intro m' y hy he
    obtain rfl : m' = m :=
      hw'.inj m' m x'.eid (by simp [slots, hy, he]) (by simp [slots, hx'])
    obtain rfl := Option.some.inj (hx'.symm.trans hy)
    exact hs
  · rw [owner_record_changed hw' hx' hchanged, if_neg hs]

/-- An operation that goes on with the same entry. -/
theorem Tenure.of_kept (hT : Tenure op (co, h) pc)
    (hw' : co'.slots.WellFormed) (hres : co'.residents = co.residents)
    (ht : pc'.tenure? = pc.tenure?) (hh : ∀ e, co.handsOver pc pc' e = false)
    (hu : pc'.unloads? = none) (hc : ∀ e c, pc'.child? = some (e, c) →
      c.ref < co'.nextChild ∧ (h.record op co pc co' pc').born c.ref = e) :
    Tenure op (co', h.record op co pc co' pc') pc' := by
  refine ⟨?_, ?_, ?_, hc⟩
  · intro m e? rs hp
    obtain ⟨x, hx, hs, hown, he⟩ := hT.holds m e? rs (ht ▸ hp)
    have hx' : co'.residents.get? m = some x := by rw [hres, hx]
    refine ⟨x, hx', hs, owner_after hw' hx' rfl ?_ (hh _) (.inl hown), he⟩
    rw [hs]
    exact Pc.tenure?_ne_resident hp
  · intro e c hp
    simp [hu] at hp
  · rintro m e child ws rfl
    cases hu

theorem Section.own_tenure (hsec : Section gpu op co pc co' pc') (hB : Books (co, h))
    (hT : Tenure op (co, h) pc) (hc : Clear op co h pc co') (hcust : Custody op co pc) :
    Tenure op (co', h.record op co pc co' pc') pc' := by
  have hw' := hsec.slots_step.wellFormed hB.slots
  have hle := hsec.nextChild_le
  have keep : ∀ e c, pc.child? = some (e, c) →
      c.ref < co'.nextChild ∧ (h.record op co pc co' pc').born c.ref = e := by
    intro e c hp
    obtain ⟨hlt, hborn⟩ := hT.child e c hp
    exact ⟨Nat.lt_of_lt_of_le hlt hle, (born_record hlt).trans hborn⟩
  cases hsec with
  | quiet hq =>
    cases hq with
    | rollbackUnload | evictUnload =>
      exact hT.of_kept hw' rfl rfl (fun _ => rfl) rfl (by intros; contradiction)
    | jobPass => exact .of_none (by simp) (by simp) (by simp)
    | admitServing | callEvict | jobBusy | refuse | transient | transientWait | transientOver
    | failedUnload | jobDrained | jobTimedOut => exact .of_none rfl rfl rfl
  | @reserve m est n _ _ hx _ _ _ =>
    refine ⟨?_, (by intros; contradiction), (by simp), (by intros; contradiction)⟩
    intro m' e? rs hp
    obtain ⟨rfl, rfl, rfl⟩ : _ ∧ _ ∧ _ := by simpa [Pc.tenure?] using hp
    have hx' : (co.reserve m est op).residents.get? m =
        some (.loading co.nextEntry co.recencySeq) := by
      simp [Coordinator.reserve]
    refine ⟨_, hx', rfl, owner_after hw' hx' rfl (by simp [ResidentModel.loading]) rfl (.inr ?_), ?_⟩
    · intro hst
      obtain ⟨m', y, hy, he, -⟩ := get?_of_entryState hst
      have hlt := hB.slots.old m' y.eid (by simp [slots, hy])
      exact absurd he (Nat.ne_of_lt hlt)
    · intro e he
      exact Option.some.inj he
  | acquireGate | loadRaised => exact hT.of_kept hw' rfl rfl (fun _ => rfl) rfl (by intros; contradiction)
  | loadUnmeasured | loaded =>
    refine hT.of_kept hw' rfl rfl (fun _ => rfl) rfl ?_
    intro e c hp
    obtain ⟨rfl, rfl⟩ : _ ∧ _ := by simpa [Pc.child?] using hp
    exact ⟨Nat.lt_succ_self _, by simp [Ledger.record]⟩
  | reconcile =>
    refine hT.of_kept hw' ?_ rfl (fun _ => rfl) rfl keep
    unfold Coordinator.reconcile
    split <;> rfl
  | reservationLost hr =>
    obtain ⟨r, hget, -⟩ := hcust.load _ _ rfl
    simp [hr] at hget
  | @rollBack m e child realBytes r hr _ =>
    obtain ⟨x, hx, hs, hown, he⟩ := hT.holds m (some e) .loading rfl
    obtain rfl := he e rfl
    have hx' : ((co.setState m .rollingBack).takeCustody op r.waiters).residents.get? m =
        some { x with state := .rollingBack } := by
      simp [Coordinator.takeCustody, setState, hx]
    have hmine : (h.record op co (.commit m x.eid child realBytes)
        ((co.setState m .rollingBack).takeCustody op r.waiters)
        (.rollback m x.eid r.generation child r.waiters
          (co.rollbackDisposition gpu m r realBytes))).owner x.eid = some op :=
      owner_after hw' hx' rfl (by simp) rfl (.inl hown)
    refine ⟨?_, ?_, (by simp), ?_⟩
    · intro m' e? rs hp
      obtain ⟨rfl, rfl, rfl⟩ : _ ∧ _ ∧ _ := by simpa [Pc.tenure?] using hp
      exact ⟨_, hx', rfl, hmine, fun e he => Option.some.inj he⟩
    · intro e c hp
      obtain ⟨rfl, rfl⟩ : _ ∧ _ := by simpa [Pc.unloads?] using hp
      refine ⟨hmine, fun hin => ?_⟩
      have hspent := hB.spent m x hx hin
      simp [hs] at hspent
    · intro e c hp
      exact keep e c hp
  | @failedOwn m e child r x hr _ hx =>
    obtain ⟨hs, hown, he⟩ := hT.own rfl hx
    obtain rfl := he e rfl
    have hgone : ∀ m' y, ((co.takeCustody op r.waiters).dropEntry m).residents.get? m' = some y →
        y.eid ≠ x.eid := by
      intro m' y hy heq
      simp only [dropEntry, Coordinator.takeCustody, Dict.get?_erase] at hy
      split at hy
      · cases hy
      · rename_i hne
        exact hne (hB.slots.inj m' m x.eid (by simp [slots, hy, heq]) (by simp [slots, hx]))
    refine ⟨?_, ?_, ?_, ?_⟩
    · intro m' e? rs hp
      simp at hp
    · intro e c hp
      rw [Pc.unloads?_afterFailure] at hp
      obtain ⟨c', -, heq⟩ := Option.map_eq_some_iff.mp hp
      obtain ⟨rfl, rfl⟩ := Prod.mk.inj heq
      refine ⟨owner_record_own hown rfl fun m' y hy heq => absurd heq (hgone m' y hy), ?_⟩
      intro hin
      have hspent := hB.spent m x hx hin
      simp [hs] at hspent
    · intro m' e child' ws hp m'' y hy
      cases child with
      | none => cases hp
      | some c =>
        obtain ⟨-, rfl, -⟩ : _ ∧ _ ∧ _ := by simpa [Pc.afterFailure] using hp
        exact hgone m'' y hy
    · intro e c hp
      rw [Pc.child?_afterFailure] at hp
      exact keep e c hp
  | @failedStale m e child ws _ hg =>
    -- under the condition the entry of a load is still its own
    obtain ⟨x, hx, hs, hown, he⟩ := hT.holds m (some e) .loading rfl
    obtain ⟨r, hget, -, htok⟩ := hcust.load m e rfl
    exact absurd (htok.current.mp (by simp [slots, hx, he e rfl])) (hg r x hget hx)
  | @evictEnter m k x hx =>
    refine ⟨?_, (by intros; contradiction), (by simp), (by intros; contradiction)⟩
    intro m' e? rs hp
    obtain ⟨rfl, rfl, rfl⟩ : _ ∧ _ ∧ _ := by simpa [Pc.tenure?] using hp
    rcases hc.enter m k x rfl hx with hs | ⟨hs, hown⟩
    · have hx' : (co.evictEnter m).2.residents.get? m = some { x with state := .draining } := by
        simp [Coordinator.evictEnter, hx, hs, setState]
      refine ⟨_, hx', rfl, owner_after hw' hx' rfl (by simp) rfl (.inr ?_), (by simp)⟩
      simp [entryState_of_get? hB.slots hx, hs]
    · have hx' : (co.evictEnter m).2.residents.get? m = some x := by
        simp [Coordinator.evictEnter, hx, hs]
      exact ⟨x, hx', hs, owner_after hw' hx' rfl (by simp [hs]) rfl (.inl hown), (by simp)⟩
  | @drained m k x hx h0 =>
    obtain ⟨hs, hown, -⟩ := hT.own rfl hx
    have hx' : (co.setState m .evicting).residents.get? m = some { x with state := .evicting } := by
      simp [setState, hx]
    have hmine : (h.record op co (.draining m k) (co.setState m .evicting)
        (.evicting m x.eid (co.generation m) x.child k)).owner x.eid = some op :=
      owner_after hw' hx' rfl (by simp) (by simp [handsOver, hx, h0]) (.inl hown)
    refine ⟨?_, ?_, (by simp), ?_⟩
    · intro m' e? rs hp
      obtain ⟨rfl, rfl, rfl⟩ : _ ∧ _ ∧ _ := by simpa [Pc.tenure?] using hp
      exact ⟨_, hx', rfl, hmine, fun e he => Option.some.inj he⟩
    · intro e c hp
      obtain ⟨rfl, rfl⟩ : _ ∧ _ := by simpa [Pc.unloads?] using hp
      refine ⟨hmine, fun hin => ?_⟩
      have hspent := hB.spent m x hx hin
      simp [hs] at hspent
    · intro e c hp
      obtain ⟨c', hxc, heq⟩ := Option.map_eq_some_iff.mp hp
      obtain ⟨rfl, rfl⟩ := Prod.mk.inj heq
      obtain ⟨hlt, hborn⟩ := hB.child m x c' hx hxc
      exact ⟨hlt, (born_record hlt).trans hborn⟩
  | drainWait _ _ => exact hT.of_kept hw' rfl rfl (fun _ => by simp [handsOver]) rfl (by intros; contradiction)
  | evictGone hpc _ => exact .of_none (by simp) (by simp) (by simp)
  | evictVictims | drainFailed | evicted => exact .of_none (by simp) (by simp) (by simp)
  | forget | release | raiseBarrier | endJob | share | join | intentOpen | waiterTimeout
  | waiterServed | waiterRetry | clearIntent | keyError | commit | rolledBack | disposed
  | disposedGate | jobFailed | jobTakes => exact .of_none rfl rfl rfl

end

/-! ## Every run -/

theorem enter_keeps {call : Call} (hcall : ∀ m, call ≠ .forget m) {x : ResidentModel}
    (hx : co.residents.get? m = some x) : (co.enter call).1.residents.get? m ≠ none := by
  have hslots : (co.enter call).1.slots = co.slots := by
    cases call with
    | admitServing | evict => rfl
    | forget m => exact absurd rfl (hcall m)
    | release c => exact slots_releaseClaim co c
    | admitJob j =>
      simp only [enter, jobEnter]
      split
      · rfl
      · exact slots_of_map (residents_raiseBarrier co) (fun _ x => by split <;> rfl) rfl rfl
    | endJob j =>
      simp only [enter, Coordinator.endJob]
      split <;> rfl
  intro hnone
  have hcur := congrFun (congrArg Slots.cur hslots) m
  simp [slots, hnone, hx] at hcur

theorem FindsNoOther.clear {s : LoggedSys} {choice : Choice} (hok : FindsNoOther s (op, choice))
    (ha : advance gpu op choice s.shared.1 (s.pc op) = some (co', pc')) :
    Clear op s.shared.1 s.shared.2 (s.pc op) co' := by
  refine ⟨?_, ?_, ?_⟩
  · intro hp m x hx
    simp only [FindsNoOther, hp] at hok ha
    cases choice <;> simp only [advance, Option.some.injEq, reduceCtorEq] at ha
    rename_i call
    have hkeeps : (s.shared.1.enter call).1.residents.get? m ≠ none := by
      refine enter_keeps ?_ hx
      rintro m' rfl
      exact hok
    rwa [ha] at hkeeps
  · intro m k x hp hx
    simp only [FindsNoOther, hp] at hok
    exact hok x hx
  · intro j d hp m x hx
    simp only [FindsNoOther, hp] at hok
    exact hok x (Dict.mem_values.mpr ⟨m, hx⟩)

theorem Undisturbed.reachable {s : LoggedSys} (h : Undisturbed gpu s) :
    Reachable gpu s.forget :=
  Interleaving.forget_reachable h

theorem holds_tenure {s : LoggedSys} (h : Undisturbed gpu s) :
    Interleaving.Holds Books Tenure s := by
  refine Interleaving.threadwise (R := fun op st st' => Books st ∧ Spares op st st') ?_ ?_ ?_ h
  · refine ⟨⟨⟨nofun, nofun⟩, nofun, nofun, nofun, nofun, nofun, List.nodup_nil, nofun⟩, ?_⟩
    intro op
    exact .of_none rfl rfl rfl
  · rintro s op choice ⟨co', h'⟩ pc' hr hs hok ha
    obtain ⟨hadv, rfl⟩ := Interleaving.withHistory_eq_some.mp ha
    have hsec := section_of_advance hadv
    have hclear := hok.clear hadv
    have hcust := (holds_custody (Undisturbed.reachable hr)).thread op
    exact ⟨hsec.books hs.global (hs.thread op),
      hsec.own_tenure hs.global (hs.thread op) hclear hcust,
      hs.global, hsec.spares hs.global (hs.thread op) hclear⟩
  · intro op o st st' pc hr ho hT
    exact hT.stable hr.1 hr.2 ho

/-- In every run whose steps meet the condition no child is unloaded twice,
every entry that loads or departs has an owner, only the owner issues the
unload, and no step of another operation reverts, takes down or removes it. -/
theorem departures_owned {s : LoggedSys} (h : Undisturbed gpu s) :
    (s.shared.2.unloaded.map Child.ref).Nodup ∧
    (∀ m x, s.shared.1.residents.get? m = some x → x.state ≠ .resident →
      ∃ o, s.shared.2.owner x.eid = some o) ∧
    ∀ a s', FindsNoOther s a → loggedNext gpu s a = some s' →
      (∀ e child, (s.pc a.1).unloads? = some (e, child) → s.shared.2.owner e = some a.1 ∧
        ∀ m x c, s.shared.1.residents.get? m = some x → x.child = some c → child = some c →
          x.eid = e) ∧
      ∀ m x, s.shared.1.residents.get? m = some x → x.state ≠ .resident →
        s.shared.2.owner x.eid ≠ some a.1 →
        ∃ x', s'.shared.1.residents.get? m = some x' ∧ x'.eid = x.eid ∧ x'.state = x.state := by
  have hs := holds_tenure h
  refine ⟨hs.global.nodup, ?_, ?_⟩
  · intro m x hx hne
    exact Option.isSome_iff_exists.mp ((hs.global.owned m x hx).mpr hne)
  · rintro ⟨op, choice⟩ s' hok hn
    obtain ⟨⟨co', h'⟩, pc', ha, rfl⟩ := Interleaving.next_eq_some.mp hn
    obtain ⟨hadv, rfl⟩ := Interleaving.withHistory_eq_some.mp ha
    have hT := hs.thread op
    refine ⟨?_, ?_⟩
    · intro e child hp
      refine ⟨(hT.issues e child hp).1, ?_⟩
      rintro m x c hx hxc rfl
      exact (hs.global.child m x c hx hxc).2.symm.trans (hT.child e c (Pc.child?_of_unloads hp)).2
    · intro m x hx hne hother
      obtain ⟨o, hown⟩ := Option.isSome_iff_exists.mp ((hs.global.owned m x hx).mpr hne)
      have hspares := (section_of_advance hadv).spares hs.global hT (hok.clear hadv)
      refine hspares.entry m x o ?_ hx hown
      rintro rfl
      exact hother hown

/-- The run of `plainEviction` meets the condition. -/
theorem plainEviction_owned : ∃ s : LoggedSys, Undisturbed (.ofTotal 10) s ∧
    s.shared.2.unloaded = [⟨0, some 1⟩] ∧ (s.shared.2.unloaded.map Child.ref).Nodup := by
  have hrun : (Runs.run (loggedNext (.ofTotal 10)) FindsNoOther LoggedSys.init plainEviction).map
      (fun s => decide (s.shared.2.unloaded = [⟨0, some 1⟩])) = some true := by
    decide +kernel
  obtain ⟨s, hs, hp⟩ := Runs.exists_reachable hrun
  exact ⟨s, hs, of_decide_eq_true hp, (departures_owned hs).1⟩

/-! ## Two evictions of one model -/

def WithoutForget (_ : LoggedSys) (a : Act) : Prop :=
  match a.2 with
  | .start (.forget _) => False
  | _ => True

instance (s : LoggedSys) (a : Act) : Decidable (WithoutForget s a) := by
  unfold WithoutForget
  split <;> infer_instance

/-- Operations 2 and 3 both evict `a`; 3 starts while 2 drains. -/
def twoEvictions : List Act :=
  [(0, .start (.admitServing "a" (5 : ℕ))), (0, .freeBytes 10 10), (0, .go),
   (0, .loadReturned (some 1) (some (5 : ℕ))), (0, .go), (0, .go), (0, .go), (1, .start (.release 1)),
   (2, .start (.evict "a")), (2, .go), (3, .start (.evict "a")), (3, .go), (2, .go), (3, .go),
   (2, .go), (3, .go)]

/-- They unload the same child. -/
theorem twoEvictions_unload_twice : ∃ s : LoggedSys,
    Runs.Reachable (loggedNext (.ofTotal 10)) WithoutForget LoggedSys.init s ∧
    ¬ (s.shared.2.unloaded.map Child.ref).Nodup := by
  have hrun : (Runs.run (loggedNext (.ofTotal 10)) WithoutForget LoggedSys.init twoEvictions).map
      (fun s => decide ¬ (s.shared.2.unloaded.map Child.ref).Nodup) = some true := by
    decide +kernel
  obtain ⟨s, hs, hp⟩ := Runs.exists_reachable hrun
  exact ⟨s, hs, of_decide_eq_true hp⟩

end Coordinator

end MlopsLite.HostAgent
