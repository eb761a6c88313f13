import MlopsLite.HostAgent.Coordinator.Ownership

/-!
# Coordinator — owner-only cleanup

The sections that take an entry down: `evict`'s finalize, a rollback's
marking and finalize, the load-failure cleanup. Only the last compares the
generation with its token. The others touch no entry but their own exactly
as long as what they find is their own.
-/

namespace MlopsLite.HostAgent

/-- The entry a cleanup section is for: the one its operation drained or
created. -/
def Pc.cleanup? : Pc → Option (ModelKey × EntryId)
  | .evicted m e _ _ | .rolledBack m e _ _ _ | .commit m e _ _ | .loadFailed m e _ => some (m, e)
  | _ => none

namespace Coordinator

variable {gpu : Gpu} {op : OpId} {co co' : Coordinator} {pc pc' : Pc} {m : ModelKey} {e g : Nat}

/-- Every entry but `e` of model `m` is as it was. -/
def OwnerOnly (co co' : Coordinator) (m : ModelKey) (e : EntryId) : Prop :=
  ∀ m' x, co.residents.get? m' = some x → (m' = m → x.eid ≠ e) → co'.residents.get? m' = some x

/-- What a cleanup section must find: no entry, or the generation of its
token. To mark an entry `rolling_back` that is so already changes nothing. -/
def FindsOwn (op : OpId) (co : Coordinator) : Pc → Prop
  | .evicted m _ g _ | .rolledBack m _ g _ _ => co.residents.get? m = none ∨ co.generation m = g
  | .commit m _ _ _ => ∀ r x, co.reservations.get? op = some r → co.residents.get? m = some x →
      co.generation m = r.generation ∨ x.state = .rollingBack
  | _ => True

theorem OwnerOnly.of_eq (h : co'.residents = co.residents) : OwnerOnly co co' m e := by
  intro m' x hx _
  rw [h, hx]

theorem OwnerOnly.of_modify {f : ResidentModel → ResidentModel}
    (h : co'.residents = co.residents.modify m f) (ht : co.slots.Token m e g)
    (hg : co.generation m = g) : OwnerOnly co co' m e := by
  intro m' x hx hne
  rw [h, Dict.get?_modify]
  split
  · rename_i hm
    have hcur : co.slots.cur m = some x.eid := by simp [slots, ← hm, hx]
    exact absurd ((ht.owns_iff hcur).mpr hg) (hne hm)
  · exact hx

/-- An unconditional pop is the owner's exactly when it pops nothing or finds
the token current. -/
theorem ownerOnly_dropEntry_iff (ht : co.slots.Token m e g) :
    OwnerOnly co (co.dropEntry m) m e ↔ co.residents.get? m = none ∨ co.generation m = g := by
  constructor
  · intro h
    cases hx : co.residents.get? m with
    | none => exact .inl rfl
    | some x =>
      have hcur : co.slots.cur m = some x.eid := by simp [slots, hx]
      refine .inr ((ht.owns_iff hcur).mp ?_)
      by_contra hne
      have hkept := h m x hx fun _ => hne
      simp [dropEntry] at hkept
  · intro h m' x hx hne
    have hm : m' ≠ m := by
      rintro rfl
      rcases h with hnone | hg
      · simp [hnone] at hx
      · have hcur : co.slots.cur m' = some x.eid := by simp [slots, hx]
        exact hne rfl ((ht.owns_iff hcur).mpr hg)
    simpa [dropEntry, Dict.get?_erase_ne _ hm] using hx

/-- The same for marking an entry `rolling_back`. -/
theorem ownerOnly_setState_iff (ht : co.slots.Token m e g) :
    OwnerOnly co (co.setState m .rollingBack) m e ↔
      ∀ x, co.residents.get? m = some x → co.generation m = g ∨ x.state = .rollingBack := by
  constructor
  · intro h x hx
    have hcur : co.slots.cur m = some x.eid := by simp [slots, hx]
    by_cases he : x.eid = e
    · exact .inl ((ht.owns_iff hcur).mp he)
    · have hkept := h m x hx fun _ => he
      have heq : { x with state := .rollingBack } = x := by simpa [setState, hx] using hkept
      exact .inr (congrArg ResidentModel.state heq).symm
  · intro h m' x hx hne
    by_cases hm : m' = m
    · subst hm
      have hcur : co.slots.cur m' = some x.eid := by simp [slots, hx]
      rcases h x hx with hg | hs
      · exact absurd ((ht.owns_iff hcur).mpr hg) (hne rfl)
      · simp [setState, hx, ← hs]
    · simpa [setState, Dict.get?_modify_ne _ _ hm] using hx

theorem Section.ownerOnly_iff (h : Section gpu op co pc co' pc') (hc : Custody op co pc)
    (hp : pc.cleanup? = some (m, e)) : OwnerOnly co co' m e ↔ FindsOwn op co pc := by
  cases h with
  | quiet hq => cases hq <;> cases hp
  | reservationLost hr =>
    obtain ⟨r, hget, -⟩ := hc.load _ _ rfl
    simp [hr] at hget
  | rollBack hr _ =>
    obtain ⟨rfl, rfl⟩ : _ ∧ _ := by simpa [Pc.cleanup?] using hp
    obtain ⟨r', hget, -, ht⟩ := hc.load _ _ rfl
    obtain rfl : _ = r' := Option.some.inj (hr.symm.trans hget)
    refine (ownerOnly_setState_iff ht).trans ?_
    constructor
    · intro h r x hr' hx
      obtain rfl := Option.some.inj (hr.symm.trans hr')
      exact h x hx
    · intro h x hx
      exact h _ x hr hx
  | keyError _ _ hx =>
    refine iff_of_true (.of_eq rfl) ?_
    intro r x _ hx'
    obtain ⟨rfl, -⟩ : _ ∧ _ := by simpa [Pc.cleanup?] using hp
    simp [hx] at hx'
  | commit hr _ hg _ _ =>
    obtain ⟨rfl, rfl⟩ : _ ∧ _ := by simpa [Pc.cleanup?] using hp
    obtain ⟨r', hget, -, ht⟩ := hc.load _ _ rfl
    obtain rfl : _ = r' := Option.some.inj (hr.symm.trans hget)
    obtain ⟨seq, hseq⟩ := residents_commitLoad co _ op _ _ _
    refine iff_of_true (.of_modify hseq ht hg) ?_
    intro r x hr' _
    obtain rfl := Option.some.inj (hr.symm.trans hr')
    exact .inl hg
  | rolledBack =>
    obtain ⟨rfl, rfl⟩ : _ ∧ _ := by simpa [Pc.cleanup?] using hp
    exact ownerOnly_dropEntry_iff (hc.token _ _ _ rfl)
  | failedOwn hr hg _ =>
    obtain ⟨rfl, rfl⟩ : _ ∧ _ := by simpa [Pc.cleanup?] using hp
    obtain ⟨r', hget, -, ht⟩ := hc.load _ _ rfl
    obtain rfl : _ = r' := Option.some.inj (hr.symm.trans hget)
    exact iff_of_true ((ownerOnly_dropEntry_iff ht).mpr (.inr hg)) trivial
  | failedStale _ _ => exact iff_of_true (.of_eq rfl) trivial
  | evictGone hpc _ => rcases hpc with rfl | rfl <;> cases hp
  | evicted =>
    obtain ⟨rfl, rfl⟩ : _ ∧ _ := by simpa [Pc.cleanup?] using hp
    exact ownerOnly_dropEntry_iff (hc.token _ _ _ rfl)
  | forget | release | raiseBarrier | endJob | share | join | reserve | intentOpen | evictVictims
  | waiterTimeout | waiterServed | waiterRetry | clearIntent | acquireGate | loadRaised
  | loadUnmeasured | loaded | reconcile | disposed | disposedGate | evictEnter | drained
  | drainFailed | drainWait | jobFailed | jobTakes => cases hp

/-! ## Runs -/

/-- A step of a run, if a cleanup section, touched its own entry only. -/
def CleansOwn (t : Runs.Taken Sys Act) : Prop :=
  ∀ m e, (t.src.pc t.act.1).cleanup? = some (m, e) → OwnerOnly t.src.shared t.dst.shared m e

/-- A step of a run, if a cleanup section, found its own entry or none. -/
def MeetsOwn (t : Runs.Taken Sys Act) : Prop :=
  ∀ m e, (t.src.pc t.act.1).cleanup? = some (m, e) →
    FindsOwn t.act.1 t.src.shared (t.src.pc t.act.1)

/-- A step of a run left every other operation its reservation. -/
def KeepsReservations (t : Runs.Taken Sys Act) : Prop :=
  ∀ o, o ≠ t.act.1 →
    (t.dst.shared.reservations.get? o).isSome = (t.src.shared.reservations.get? o).isSome

/-- The cleanup sections of a run touch their own entries only if and only if
each of them finds its own; no section of any run drops another operation's
reservation. -/
theorem run_cleans_own_iff {tr : List (Runs.Taken Sys Act)} {s : Sys}
    (h : Runs.Trace (next gpu) Sys.init tr s) :
    ((∀ t ∈ tr, CleansOwn t) ↔ ∀ t ∈ tr, MeetsOwn t) ∧ ∀ t ∈ tr, KeepsReservations t := by
  have step : ∀ t ∈ tr, ∃ co' pc', Section gpu t.act.1 t.src.shared (t.src.pc t.act.1) co' pc' ∧
      t.dst.shared = co' ∧ Custody t.act.1 t.src.shared (t.src.pc t.act.1) := by
    intro t ht
    obtain ⟨hr, hn⟩ := h.step_of_mem ht
    obtain ⟨co', pc', ha, hd⟩ := Interleaving.next_eq_some.mp hn
    exact ⟨co', pc', section_of_advance ha, by rw [hd], (holds_custody hr).thread t.act.1⟩
  have iff : ∀ t ∈ tr, CleansOwn t ↔ MeetsOwn t := by
    intro t ht
    obtain ⟨co', pc', hsec, rfl, hc⟩ := step t ht
    exact forall₃_congr fun m e hp => hsec.ownerOnly_iff hc hp
  refine ⟨forall₂_congr iff, fun t ht o ho => ?_⟩
  obtain ⟨co', pc', hsec, rfl, -⟩ := step t ht
  simpa using congrArg Option.isSome (hsec.others_reservation ho)

/-- Load, release, evict: every section finds its own. -/
def plainEviction : List Act :=
  [(0, .start (.admitServing "a" (5 : ℕ))), (0, .freeBytes 10 10), (0, .go),
   (0, .loadReturned (some 1) (some (5 : ℕ))), (0, .go), (0, .go), (0, .go), (1, .start (.release 1)),
   (2, .start (.evict "a")), (2, .go), (2, .go), (2, .go), (2, .go)]

theorem plainEviction_cleans_own_iff : ∃ tr s,
    Runs.Trace (next (.ofTotal 10)) Sys.init tr s ∧ tr.map Runs.Taken.act = plainEviction ∧
    ((∀ t ∈ tr, CleansOwn t) ↔ ∀ t ∈ tr, MeetsOwn t) := by
  have hrun : (Runs.run (next (.ofTotal 10)) Runs.anyStep Sys.init plainEviction).isSome = true := by
    decide +kernel
  obtain ⟨tr, s, htr, hact⟩ := Runs.exists_trace hrun
  exact ⟨tr, s, htr, hact, (run_cleans_own_iff htr).1⟩

/-! ## An entry that is forgotten and created anew during an eviction -/

/-- Model `a` is loaded and its claim released; `evict` drains entry 0; while
it unloads, the model is forgotten and a second request creates entry 1. -/
def forgottenDuringEvict : List Act :=
  [(0, .start (.admitServing "a" (5 : ℕ))), (0, .freeBytes 10 10), (0, .go),
   (0, .loadReturned (some 1) (some (5 : ℕ))), (0, .go), (0, .go), (0, .go), (1, .start (.release 1)),
   (2, .start (.evict "a")), (2, .go), (2, .go), (2, .go), (3, .start (.forget "a")),
   (4, .start (.admitServing "a" (5 : ℕ))), (4, .freeBytes 10 10)]

/-- The eviction's finalize then pops entry 1. -/
theorem evict_pops_foreign_entry : ∃ s s' : Sys, Reachable (.ofTotal 10) s ∧
    next (.ofTotal 10) s (2, .go) = some s' ∧ (s.pc 2).cleanup? = some ("a", 0) ∧
    ¬ OwnerOnly s.shared s'.shared "a" 0 := by
  have hrun : ((Runs.run (next (.ofTotal 10)) Runs.anyStep Sys.init forgottenDuringEvict).bind
      fun s => (next (.ofTotal 10) s (2, .go)).map fun s' =>
        decide ((s.pc 2).cleanup? = some ("a", 0) ∧
          (s.shared.residents.get? "a").map ResidentModel.eid = some 1 ∧
          (s'.shared.residents.get? "a").isNone)) = some true := by
    decide +kernel
  obtain ⟨s, s', hs, hn, hp⟩ := Runs.exists_step hrun
  obtain ⟨hpc, hfound, hgone⟩ := of_decide_eq_true hp
  obtain ⟨x, hx, hxe⟩ := Option.map_eq_some_iff.mp hfound
  refine ⟨s, s', hs, hn, hpc, fun h => ?_⟩
  have hkept := h "a" x hx (by simp [hxe])
  simp [hkept] at hgone

end Coordinator

end MlopsLite.HostAgent
