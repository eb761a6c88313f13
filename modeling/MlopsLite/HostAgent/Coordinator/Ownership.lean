import MlopsLite.HostAgent.Coordinator.Effects
import MlopsLite.Lib.Slots

/-!
# Coordinator — who owns an entry

The resident set with its generations is a set of slots, and every section
moves it by a slot step. So a token an operation took with its entry stays
good, and a reservation is written and dropped by its own operation only.
-/

namespace MlopsLite.HostAgent

namespace Coordinator

variable {gpu : Gpu} {op : OpId} {co co' : Coordinator} {pc pc' : Pc} {m : ModelKey}

/-! ## The resident set as slots -/

def slots (co : Coordinator) : Slots ModelKey where
  cur m := (co.residents.get? m).map ResidentModel.eid
  gen := co.generation
  fresh := co.nextEntry

theorem slots_congr
    (hr : ∀ m, (co'.residents.get? m).map ResidentModel.eid
      = (co.residents.get? m).map ResidentModel.eid)
    (hg : co'.generation = co.generation) (hn : co'.nextEntry = co.nextEntry) :
    co'.slots = co.slots := by
  have hc : co'.slots.cur = co.slots.cur := funext hr
  simp only [slots] at hc ⊢
  rw [hc, hg, hn]

theorem slots_of_modify {f : ResidentModel → ResidentModel}
    (hr : co'.residents = co.residents.modify m f) (hf : ∀ x, (f x).eid = x.eid)
    (hg : co'.generation = co.generation) (hn : co'.nextEntry = co.nextEntry) :
    co'.slots = co.slots := by
  refine slots_congr (fun m' => ?_) hg hn
  rw [hr, Dict.get?_modify]
  split
  · simp [Option.map_map, Function.comp_def, hf]
  · rfl

theorem slots_of_map {f : ModelKey → ResidentModel → ResidentModel}
    (hr : co'.residents = co.residents.map f) (hf : ∀ m x, (f m x).eid = x.eid)
    (hg : co'.generation = co.generation) (hn : co'.nextEntry = co.nextEntry) :
    co'.slots = co.slots := by
  refine slots_congr (fun m' => ?_) hg hn
  simp [hr, Option.map_map, Function.comp_def, hf]

theorem slots_setState (co : Coordinator) (m : ModelKey) (st : ResidentState) : (co.setState m st).slots = co.slots :=
  slots_of_modify (f := fun r => { r with state := st }) rfl (fun _ => rfl) rfl rfl

theorem slots_grantClaim (co : Coordinator) (m : ModelKey) (op : OpId) :
    (co.grantClaim m op).slots = co.slots :=
  slots_of_modify (residents_grantClaim co m op) (fun _ => rfl) rfl rfl

theorem slots_releaseClaim (co : Coordinator) (c : ClaimId) : (co.releaseClaim c).slots = co.slots := by
  cases hc : co.claims.get? c with
  | none => rw [releaseClaim_of_none hc]
  | some claim =>
    cases hr : claim.released with
    | true => rw [releaseClaim_of_released hc hr]
    | false =>
      have hs := sansClaims_releaseClaim co c
      exact slots_of_modify (residents_releaseClaim hc hr) (fun _ => rfl)
        (congrArg Coordinator.generation hs :) (congrArg Coordinator.nextEntry hs :)

theorem slots_commitLoad (child : Child) (realBytes : Bytes) (ws : List WaiterId) :
    (co.commitLoad m op child realBytes ws).slots = co.slots := by
  obtain ⟨seq, hseq⟩ := residents_commitLoad co m op child realBytes ws
  have hs := sansClaims_commitLoad co m op child realBytes ws
  exact slots_of_modify hseq (fun _ => rfl)
    (congrArg Coordinator.generation hs :) (congrArg Coordinator.nextEntry hs :)

theorem slots_reserve (est : Bytes) : (co.reserve m est op).slots = co.slots.fill m := by
  have hc : (co.reserve m est op).slots.cur = (co.slots.fill m).cur := by
    funext m'
    by_cases h : m' = m
    · subst h
      simp [slots, reserve, Slots.fill, ResidentModel.loading]
    · simp [slots, reserve, Slots.fill, Dict.get?_insert, h]
  simp only [slots, Slots.fill] at hc ⊢
  rw [hc]
  rfl

theorem slots_dropEntry (co : Coordinator) (m : ModelKey) :
    (co.dropEntry m).slots = co.slots.vacate m := by
  have hc : (co.dropEntry m).slots.cur = (co.slots.vacate m).cur := by
    funext m'
    by_cases h : m' = m
    · subst h
      simp [slots, dropEntry, Slots.vacate]
    · simp [slots, dropEntry, Slots.vacate, Dict.get?_erase, h]
  simp only [slots, Slots.vacate] at hc ⊢
  rw [hc]
  rfl

/-- A section leaves the slots as they are, or empties one, or is a new
reservation and fills one. -/
theorem Section.slots_cases (h : Section gpu op co pc co' pc') : co'.slots = co.slots ∨
    (∃ m, co'.slots = co.slots.vacate m) ∨
    ∃ m est, co.residents.get? m = none ∧ pc' = .gate m est co.nextEntry ∧
      co' = co.reserve m est op := by
  cases h with
  | forget =>
    unfold Coordinator.forget
    split
    · exact .inr (.inl ⟨_, slots_dropEntry _ _⟩)
    · exact .inl rfl
  | release => exact .inl (slots_releaseClaim _ _)
  | raiseBarrier _ =>
    exact .inl (slots_of_map (residents_raiseBarrier co) (fun _ x => by split <;> rfl) rfl rfl)
  | endJob =>
    unfold Coordinator.endJob
    split <;> exact .inl rfl
  | share _ _ _ => exact .inl (slots_grantClaim _ _ _)
  | reserve _ hx _ _ _ => exact .inr (.inr ⟨_, _, hx, rfl, rfl⟩)
  | evictVictims _ _ _ _ =>
    exact .inl (slots_of_map (residents_evictVictims co _ _) (fun _ x => by split <;> rfl) rfl rfl)
  | reconcile =>
    unfold Coordinator.reconcile
    split <;> exact .inl rfl
  | rollBack _ _ => exact .inl (slots_setState co _ .rollingBack)
  | commit _ _ _ _ _ => exact .inl (slots_commitLoad _ _ _)
  | rolledBack => exact .inr (.inl ⟨_, slots_dropEntry _ _⟩)
  | failedOwn _ _ _ => exact .inr (.inl ⟨_, slots_dropEntry (co.takeCustody _ _) _⟩)
  | evictEnter hx =>
    simp only [Coordinator.evictEnter, hx]
    split
    · exact .inl (slots_setState _ _ _)
    · exact .inl rfl
  | drained _ _ => exact .inl (slots_setState _ _ _)
  | drainFailed _ _ =>
    split
    · exact .inl rfl
    · exact .inl (slots_setState _ _ _)
  | evicted => exact .inr (.inl ⟨_, slots_dropEntry _ _⟩)
  | jobFailed =>
    exact .inl (slots_of_map (residents_dropBarrier co) (fun _ x => by split <;> rfl) rfl rfl)
  | quiet | join | intentOpen | waiterTimeout | waiterServed | waiterRetry | clearIntent
  | acquireGate | loadRaised | loadUnmeasured | loaded | reservationLost | keyError
  | failedStale | disposed | disposedGate | evictGone | drainWait | jobTakes => exact .inl rfl

/-- Every section moves the slots by one slot step. -/
theorem Section.slots_step (h : Section gpu op co pc co' pc') : co.slots.Step co'.slots := by
  rcases h.slots_cases with heq | ⟨m, heq⟩ | ⟨m, est, hx, -, rfl⟩
  · exact heq ▸ .stay
  · exact heq ▸ .vacate m
  · exact slots_reserve (m := m) est ▸ .fill m (by simp [slots, hx])

/-! ## Reservations -/

/-- A reservation up to its registry: joiners write that themselves. -/
def Reservation.sansWaiters (r : Reservation) : Reservation := { r with waiters := [] }

/-- No section writes another operation's reservation, its registry apart. -/
theorem Section.others_reservation (h : Section gpu op co pc co' pc') {o : OpId} (ho : o ≠ op) :
    (co'.reservations.get? o).map Reservation.sansWaiters =
      (co.reservations.get? o).map Reservation.sansWaiters := by
  cases h with
  | forget =>
    unfold Coordinator.forget
    split <;> rfl
  | release =>
    rw [reservations_releaseClaim]
  | endJob =>
    unfold Coordinator.endJob
    split <;> rfl
  | join _ _ _ _ =>
    simp only [Coordinator.join, Dict.get?_modify]
    split
    · rw [Option.map_map]
      rfl
    · rfl
  | reserve _ _ _ _ _ => simp [Coordinator.reserve, Dict.get?_insert, ho]
  | waiterTimeout _ =>
    rw [Coordinator.deregister, Dict.get?_map, Option.map_map]
    rfl
  | reconcile =>
    unfold Coordinator.reconcile
    split
    · simp [Dict.get?_modify, ho]
    · rfl
  | rollBack _ _ => simp [Coordinator.takeCustody, Dict.get?_erase, ho, setState]
  | commit _ _ _ _ _ =>
    rw [reservations_commitLoad, Dict.get?_erase_ne _ ho]
  | failedOwn _ _ _ => simp [Coordinator.takeCustody, dropEntry, Dict.get?_erase, ho]
  | failedStale _ _ => simp [Coordinator.takeCustody, Dict.get?_erase, ho]
  | evictEnter hx =>
    simp only [Coordinator.evictEnter, hx]
    split <;> rfl
  | drainFailed _ _ => split <;> rfl
  | quiet | raiseBarrier | share | intentOpen | evictVictims | waiterServed | waiterRetry
  | clearIntent | acquireGate | loadRaised | loadUnmeasured | loaded | reservationLost | keyError
  | rolledBack | disposed | disposedGate | evictGone | drained | drainWait | evicted | jobFailed
  | jobTakes => rfl

end Coordinator

/-! ## What an operation holds -/

/-- The entry created by a load that still has its reservation. -/
def Pc.load? : Pc → Option (ModelKey × EntryId)
  | .gate m _ e | .load m _ e | .reconcile m e _ _ | .commit m e _ _ | .loadFailed m e _ =>
      some (m, e)
  | _ => none

/-- The entry an operation is taking down, with its token. -/
def Pc.token? : Pc → Option (ModelKey × EntryId × Nat)
  | .rollback m e gen _ _ _ | .rolledBack m e gen _ _ | .evicting m e gen _ _
  | .evicted m e gen _ => some (m, e, gen)
  | _ => none

/-- A `lifecycle.unload` about to be issued: for which entry, of which child. -/
def Pc.unloads? : Pc → Option (EntryId × Option Child)
  | .evicting _ e _ child _ => some (e, child)
  | .rollback _ e _ child _ _ | .failedUnload _ e child _ => some (e, some child)
  | _ => none

@[simp] theorem Pc.load?_resume (k : Caller) (ok : Bool) : (k.resume ok).load? = none := by
  cases k with
  | direct => rfl
  | victims m est n rest => cases rest <;> rfl
  | drain j rest => cases rest <;> rfl

@[simp] theorem Pc.token?_resume (k : Caller) (ok : Bool) : (k.resume ok).token? = none := by
  cases k with
  | direct => rfl
  | victims m est n rest => cases rest <;> rfl
  | drain j rest => cases rest <;> rfl

@[simp] theorem Pc.unloads?_resume (k : Caller) (ok : Bool) : (k.resume ok).unloads? = none := by
  cases k with
  | direct => rfl
  | victims m est n rest => cases rest <;> rfl
  | drain j rest => cases rest <;> rfl

@[simp] theorem Pc.load?_afterFailure (m : ModelKey) (e : EntryId) (ws : List WaiterId)
    (child : Option Child) : (Pc.afterFailure m e ws child).load? = none := by
  cases child <;> rfl

@[simp] theorem Pc.token?_afterFailure (m : ModelKey) (e : EntryId) (ws : List WaiterId)
    (child : Option Child) : (Pc.afterFailure m e ws child).token? = none := by
  cases child <;> rfl

theorem Pc.unloads?_afterFailure (m : ModelKey) (e : EntryId) (ws : List WaiterId)
    (child : Option Child) :
    (Pc.afterFailure m e ws child).unloads? = child.map fun c => (e, some c) := by
  cases child <;> rfl

namespace Coordinator

variable {gpu : Gpu} {op : OpId} {co co' : Coordinator} {pc pc' : Pc}

theorem Quiet.load? (h : Quiet pc pc') : pc.load? = none ∧ pc'.load? = none := by
  cases h
  case jobPass => exact ⟨rfl, Pc.load?_resume _ _⟩
  all_goals exact ⟨rfl, rfl⟩

theorem Quiet.token? (h : Quiet pc pc') : pc'.token? = pc.token? ∨ pc'.token? = none := by
  cases h
  case jobPass => exact .inr (Pc.token?_resume _ _)
  case rollbackUnload | evictUnload => exact .inl rfl
  all_goals exact .inr rfl

/-- What an operation may rely on: the reservation and the token it holds
are good, and it has no reservation beyond its load. -/
structure Custody (op : OpId) (co : Coordinator) (pc : Pc) : Prop where
  load : ∀ m e, pc.load? = some (m, e) →
    ∃ r, co.reservations.get? op = some r ∧ r.modelKey = m ∧ co.slots.Token m e r.generation
  unreserved : pc.load? = none → co.reservations.get? op = none
  token : ∀ m e g, pc.token? = some (m, e, g) → co.slots.Token m e g

/-- What every section leaves to the other operations. -/
structure Rely (op : OpId) (co co' : Coordinator) : Prop where
  slots : co.slots.Step co'.slots
  others : ∀ o, o ≠ op → (co'.reservations.get? o).map Reservation.sansWaiters =
    (co.reservations.get? o).map Reservation.sansWaiters

theorem Section.rely (h : Section gpu op co pc co' pc') : Rely op co co' :=
  ⟨h.slots_step, fun _ ho => h.others_reservation ho⟩

theorem Custody.stable {o : OpId} (h : Custody o co pc) (hr : Rely op co co') (ho : o ≠ op) :
    Custody o co' pc := by
  obtain ⟨hslots, hothers⟩ := hr
  have hres := hothers o ho
  refine ⟨?_, ?_, ?_⟩
  · intro m e hp
    obtain ⟨r, hget, hm, htok⟩ := h.load m e hp
    rw [hget] at hres
    obtain ⟨r', hget', hr'⟩ := Option.map_eq_some_iff.mp hres
    have hm' : r'.modelKey = r.modelKey := (congrArg Reservation.modelKey hr' :)
    have hg' : r'.generation = r.generation := (congrArg Reservation.generation hr' :)
    exact ⟨r', hget', hm'.trans hm, hg' ▸ htok.step hslots⟩
  · intro hp
    rw [h.unreserved hp] at hres
    simpa using hres
  · intro m e g hp
    exact (h.token m e g hp).step hslots

/-- Outside its load an operation gains no reservation. -/
theorem Section.own_none (h : Section gpu op co pc co' pc') (hp : pc'.load? = none)
    (hn : co.reservations.get? op = none) : co'.reservations.get? op = none := by
  cases h with
  | forget =>
    unfold Coordinator.forget
    split <;> exact hn
  | release => rw [reservations_releaseClaim, hn]
  | endJob =>
    unfold Coordinator.endJob
    split <;> exact hn
  | join _ _ _ _ =>
    simp only [Coordinator.join, Dict.get?_modify]
    split <;> simp [hn]
  | reserve => cases hp
  | waiterTimeout _ => simp [Coordinator.deregister, hn]
  | reconcile => cases hp
  | rollBack _ _ => simp [Coordinator.takeCustody]
  | commit _ _ _ _ _ => simp [reservations_commitLoad]
  | failedOwn _ _ _ => simp [Coordinator.takeCustody, dropEntry]
  | failedStale _ _ => simp [Coordinator.takeCustody]
  | evictEnter hx =>
    simp only [Coordinator.evictEnter, hx]
    split <;> exact hn
  | drainFailed _ _ => split <;> exact hn
  | quiet | raiseBarrier | share | intentOpen | evictVictims | waiterServed | waiterRetry
  | clearIntent | acquireGate | loadRaised | loadUnmeasured | loaded | reservationLost | keyError
  | rolledBack | disposed | disposedGate | evictGone | drained | drainWait | evicted | jobFailed
  | jobTakes => exact hn

/-- An operation that holds no reservation and no token. -/
theorem Custody.of_none (hl : pc.load? = none) (ht : pc.token? = none)
    (hn : co.reservations.get? op = none) : Custody op co pc where
  load m e hp := by simp [hl] at hp
  unreserved _ := hn
  token m e g hp := by simp [ht] at hp

/-- A load that keeps its reservation keeps what it relies on. -/
theorem Custody.of_load (h : Custody op co pc) (hs : co.slots.Step co'.slots)
    (hl : pc'.load? = pc.load?) (hsome : pc.load?.isSome) (ht : pc'.token? = none)
    (hr : (co'.reservations.get? op).map (fun r => (r.modelKey, r.generation)) =
      (co.reservations.get? op).map fun r => (r.modelKey, r.generation)) : Custody op co' pc' := by
  refine ⟨?_, ?_, ?_⟩
  · intro m e hp
    obtain ⟨r, hget, hm, htok⟩ := h.load m e (hl ▸ hp)
    rw [hget] at hr
    obtain ⟨r', hget', hr'⟩ := Option.map_eq_some_iff.mp hr
    obtain ⟨hm', hg'⟩ := Prod.mk.inj hr'
    exact ⟨r', hget', hm'.trans hm, hg' ▸ htok.step hs⟩
  · intro hp
    rw [← hl, hp] at hsome
    cases hsome
  · intro m e g hp
    simp [ht] at hp

theorem Section.own_custody (h : Section gpu op co pc co' pc') (hw : co.slots.WellFormed)
    (hc : Custody op co pc) : Custody op co' pc' := by
  have hs := h.slots_step
  have hown := h.own_none
  cases h with
  | quiet hq =>
    refine ⟨?_, fun _ => hc.unreserved hq.load?.1, ?_⟩
    · intro m e hp
      simp [hq.load?.2] at hp
    · intro m e g hp
      rcases hq.token? with ht | ht
      · exact hc.token m e g (ht ▸ hp)
      · simp [ht] at hp
  | reserve _ _ _ _ _ =>
    refine ⟨?_, (by intros; contradiction), (by intros; contradiction)⟩
    intro m' e hp
    obtain ⟨rfl, rfl⟩ : _ ∧ _ := by simpa [Pc.load?] using hp
    refine ⟨_, Dict.get?_insert_self _ _ _, rfl, ?_⟩
    rw [slots_reserve]
    exact hw.token_fill _
  | acquireGate | loadRaised | loadUnmeasured | loaded => exact hc.of_load hs rfl rfl rfl rfl
  | reconcile =>
    refine hc.of_load hs rfl rfl rfl ?_
    unfold Coordinator.reconcile
    split
    · simp [Option.map_map, Function.comp_def]
    · rfl
  | reservationLost hr =>
    obtain ⟨r, hget, -⟩ := hc.load _ _ rfl
    simp [hr] at hget
  | rollBack hr _ =>
    obtain ⟨r', hget, -, htok⟩ := hc.load _ _ rfl
    obtain rfl : _ = r' := Option.some.inj (hr.symm.trans hget)
    refine ⟨(by intros; contradiction), fun _ => by simp [Coordinator.takeCustody], ?_⟩
    intro m e g hp
    obtain ⟨rfl, rfl, rfl⟩ : _ ∧ _ ∧ _ := by simpa [Pc.token?] using hp
    exact htok.step hs
  | keyError hr hg hx =>
    -- an unmoved generation means the entry is still there
    obtain ⟨r', hget, -, htok⟩ := hc.load _ _ rfl
    obtain rfl : _ = r' := Option.some.inj (hr.symm.trans hget)
    have hcur := htok.current.mpr hg
    simp [slots, hx] at hcur
  | drained hx _ =>
    refine ⟨(by intros; contradiction), fun _ => hc.unreserved rfl, ?_⟩
    intro m e g hp
    obtain ⟨rfl, rfl, rfl⟩ : _ ∧ _ ∧ _ := by simpa [Pc.token?] using hp
    exact (hw.token (by simp [slots, hx])).step hs
  | commit _ _ _ _ _ => exact .of_none rfl rfl (by simp [reservations_commitLoad])
  | failedOwn _ _ _ => exact .of_none (by simp) (by simp) (by simp [Coordinator.takeCustody, dropEntry])
  | failedStale _ _ => exact .of_none (by simp) (by simp) (by simp [Coordinator.takeCustody])
  | evictGone hpc _ =>
    refine .of_none (by simp) (by simp) (hc.unreserved ?_)
    rcases hpc with rfl | rfl <;> rfl
  | evictVictims | drainFailed | evicted =>
    exact .of_none (by simp) (by simp) (hown (by simp) (hc.unreserved rfl))
  | forget | release | raiseBarrier | endJob | share | join | intentOpen | waiterTimeout
  | waiterServed | waiterRetry | clearIntent | rolledBack | disposed | disposedGate | evictEnter
  | drainWait | jobFailed | jobTakes => exact .of_none rfl rfl (hown rfl (hc.unreserved rfl))

/-! ## Every run -/

theorem holds_custody {s : Sys} (h : Reachable gpu s) :
    Interleaving.Holds (fun co => co.slots.WellFormed) Custody s := by
  refine Interleaving.threadwise (R := Rely) ?_ ?_ ?_ h
  · refine ⟨⟨nofun, nofun⟩, fun op => .of_none rfl rfl rfl⟩
  · intro s op choice co pc _ hs _ ha
    have hsec := section_of_advance ha
    exact ⟨hsec.slots_step.wellFormed hs.global, hsec.own_custody hs.global (hs.thread op), hsec.rely⟩
  · intro op o co co' pc hr ho hc
    exact hc.stable hr ho

end Coordinator

end MlopsLite.HostAgent
