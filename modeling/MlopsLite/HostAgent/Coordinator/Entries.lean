import MlopsLite.HostAgent.Coordinator.Ownership

/-!
# Coordinator — what a section does to one entry

`Touch` lists everything a section can do to an entry that is there;
`Section.touch` says the list is complete. An entry that was not there
before is a new reservation's.
-/

namespace MlopsLite.HostAgent

namespace Coordinator

/-- `Touch gpu op co m x pc pc' x'`: a section of `op` that starts on `co` and
moves it from `pc` to `pc'` can leave `x'` in place of the entry `x` of `m`. -/
inductive Touch (gpu : Gpu) (op : OpId) (co : Coordinator) (m : ModelKey) (x : ResidentModel) :
    Pc → Pc → Option ResidentModel → Prop
  | keep {pc pc'} : Touch gpu op co m x pc pc' (some x)
  | mark {pc pc'} (hs : x.state = .resident) :
      Touch gpu op co m x pc pc' (some { x with state := .draining })
  | unmark {j d} (hs : x.state = .draining) :
      Touch gpu op co m x (.jobClose j d) (.finished false) (some { x with state := .resident })
  | share {est n} (hs : x.state = .resident) :
      Touch gpu op co m x (.attempt m est n) (.served (.share co.nextClaim))
        (some { x with activeRequests := x.activeRequests + 1, recencySeq := co.recencySeq })
  | release {c claim} (hc : co.claims.get? c = some claim) (hm : claim.modelKey = m)
      (hr : claim.released = false) :
      Touch gpu op co m x .idle (.finished true)
        (some { x with activeRequests := x.activeRequests - 1, recencySeq := co.recencySeq })
  | rollBack {e child realBytes r} (hr : co.reservations.get? op = some r) (d : Disposition) :
      Touch gpu op co m x (.commit m e child realBytes)
        (.rollback m e r.generation child r.waiters d) (some { x with state := .rollingBack })
  | commit {e child realBytes r} (hr : co.reservations.get? op = some r)
      (hb : co.barred = false) (hg : co.generation m = r.generation)
      (hd : co.drift gpu m op realBytes = false) (seq : Nat) :
      Touch gpu op co m x (.commit m e child realBytes)
        (.dispose r.waiters (.outcome (.grant co.nextClaim)) false)
        (some { x with
          state := .resident
          vramAccountedBytes := realBytes
          activeRequests :=
            x.activeRequests + 1 + r.waiters.countP fun w => (co.waiters.get? w).isSome
          recencySeq := seq
          child := some child
          materialized := child.pid.isSome })
  | drained {k} (h0 : x.activeRequests = 0) :
      Touch gpu op co m x (.draining m k) (.evicting m x.eid (co.generation m) x.child k)
        (some { x with state := .evicting })
  | revert {k} (h0 : 0 < x.activeRequests) (hb : co.barred = false) :
      Touch gpu op co m x (.draining m k) (k.resume false) (some { x with state := .resident })
  | forget : Touch gpu op co m x .idle (.finished true) none
  | failed {e child r} (hr : co.reservations.get? op = some r)
      (hg : co.generation m = r.generation) :
      Touch gpu op co m x (.loadFailed m e child) (.afterFailure m e r.waiters child) none
  | rolledBack {e g ws d} : Touch gpu op co m x (.rolledBack m e g ws d) (.dispose ws d false) none
  | evicted {e g k} : Touch gpu op co m x (.evicted m e g k) (k.resume true) none

variable {gpu : Gpu} {op : OpId} {co co' : Coordinator} {pc pc' : Pc} {m : ModelKey}
  {x : ResidentModel}

theorem Touch.of_eq (h : co'.residents = co.residents) (hx : co.residents.get? m = some x) :
    Touch gpu op co m x pc pc' (co'.residents.get? m) := by
  rw [h, hx]
  exact .keep

/-- A section that rewrites the entry of one model. -/
theorem Touch.of_modify {m' : ModelKey} {f : ResidentModel → ResidentModel}
    (h : co'.residents = co.residents.modify m' f) (hx : co.residents.get? m = some x)
    (ht : m = m' → Touch gpu op co m x pc pc' (some (f x))) :
    Touch gpu op co m x pc pc' (co'.residents.get? m) := by
  rw [h, Dict.get?_modify, hx]
  split
  · exact ht ‹_›
  · exact .keep

/-- A section that drops the entry of one model. -/
theorem Touch.of_erase {m' : ModelKey} (h : co'.residents = co.residents.erase m')
    (hx : co.residents.get? m = some x) (ht : m = m' → Touch gpu op co m x pc pc' none) :
    Touch gpu op co m x pc pc' (co'.residents.get? m) := by
  rw [h, Dict.get?_erase, hx]
  split
  · exact ht ‹_›
  · exact .keep

/-- The victims are among the entries in state `resident`. -/
theorem mem_takeVictims {free : ℚ} {est : Bytes} {v : ModelKey}
    {l : List (ModelKey × ResidentModel)} {chosen : List ModelKey} {freed : Bytes}
    (hv : v ∈ co.takeVictims gpu free est l chosen freed) :
    v ∈ chosen ∨ v ∈ l.map Prod.fst := by
  induction l generalizing chosen freed with
  | nil => simp [takeVictims] at hv
  | cons kv l ih =>
    simp only [takeVictims] at hv
    split at hv
    · rcases List.mem_append.mp hv with hv | hv
      · exact .inl hv
      · exact .inr (List.mem_cons.mpr (.inl (List.mem_singleton.mp hv)))
    · rcases ih hv with hv | hv
      · rcases List.mem_append.mp hv with hv | hv
        · exact .inl hv
        · exact .inr (List.mem_cons.mpr (.inl (List.mem_singleton.mp hv)))
      · exact .inr (List.mem_cons_of_mem _ hv)

theorem mem_selectVictims {free : ℚ} {est : Bytes} {v : ModelKey}
    (hv : v ∈ co.selectVictims gpu m free est) :
    ∃ x, co.residents.get? v = some x ∧ v ≠ m ∧ x.state = .resident ∧ x.materialized = true := by
  rcases mem_takeVictims hv with hv | hv
  · cases hv
  · obtain ⟨⟨v, x⟩, hmem, rfl⟩ := List.mem_map.mp hv
    have hfilter := (List.mem_insertionSort _).mp hmem
    obtain ⟨hitem, hp⟩ := List.mem_filter.mp hfilter
    obtain ⟨hne, hs, hmat⟩ := of_decide_eq_true hp
    exact ⟨x, Dict.mem_items.mp hitem, hne, hs, hmat⟩

/-- Every section touches each entry in one of these ways. -/
theorem Section.touch (h : Section gpu op co pc co' pc') (hx : co.residents.get? m = some x) :
    Touch gpu op co m x pc pc' (co'.residents.get? m) := by
  cases h with
  | @forget m' =>
    by_cases hm : m = m'
    · subst hm
      have hdrop : (co.forget m).residents = co.residents.erase m := by
        simp [Coordinator.forget, hx, dropEntry]
      rw [hdrop, hx, Dict.get?_erase_self]
      exact .forget
    · unfold Coordinator.forget
      split
      · exact .of_erase rfl hx fun heq => absurd heq hm
      · exact .of_eq rfl hx
  | @release c =>
    cases hc : co.claims.get? c with
    | none => exact .of_eq (by rw [releaseClaim_of_none hc]) hx
    | some claim =>
      cases hr : claim.released with
      | true => exact .of_eq (by rw [releaseClaim_of_released hc hr]) hx
      | false =>
        exact .of_modify (residents_releaseClaim hc hr) hx fun hm => .release hc hm.symm hr
  | raiseBarrier _ =>
    rw [residents_raiseBarrier, Dict.get?_map, hx, Option.map_some]
    split
    · exact .mark ‹_›
    · exact .keep
  | endJob =>
    refine .of_eq ?_ hx
    unfold Coordinator.endJob
    split <;> rfl
  | share _ hx' hs =>
    refine .of_modify (residents_grantClaim co _ op) hx ?_
    rintro rfl
    obtain rfl := Option.some.inj (hx.symm.trans hx')
    exact .share hs
  | @reserve m' _ _ _ _ hx' _ _ _ =>
    have hm : m ≠ m' := by
      rintro rfl
      simp [hx'] at hx
    rw [Coordinator.reserve, Dict.get?_insert_ne _ _ hm, hx]
    exact .keep
  | evictVictims _ _ hv _ =>
    rw [residents_evictVictims, Dict.get?_map, hx, Option.map_some]
    split
    · rename_i hin
      obtain ⟨y, hy, -, hs, -⟩ := mem_selectVictims (hv ▸ hin)
      obtain rfl := Option.some.inj (hx.symm.trans hy)
      exact .mark hs
    · exact .keep
  | reconcile =>
    refine .of_eq ?_ hx
    unfold Coordinator.reconcile
    split <;> rfl
  | rollBack hr _ =>
    refine .of_modify (f := fun r => { r with state := .rollingBack }) rfl hx ?_
    rintro rfl
    exact .rollBack hr _
  | commit hr hb hg hd _ =>
    obtain ⟨seq, hseq⟩ := residents_commitLoad co _ op _ _ _
    refine .of_modify hseq hx ?_
    rintro rfl
    exact .commit hr hb hg hd (seq x)
  | rolledBack =>
    refine .of_erase rfl hx ?_
    rintro rfl
    exact .rolledBack
  | failedOwn hr hg _ =>
    refine .of_erase rfl hx ?_
    rintro rfl
    exact .failed hr hg
  | evictEnter hx' =>
    simp only [Coordinator.evictEnter, hx']
    split
    · refine .of_modify (f := fun r => { r with state := .draining }) rfl hx ?_
      rintro rfl
      obtain rfl := Option.some.inj (hx.symm.trans hx')
      exact .mark ‹_›
    · exact .of_eq rfl hx
  | drained hx' h0 =>
    refine .of_modify (f := fun r => { r with state := .evicting }) rfl hx ?_
    rintro rfl
    obtain rfl := Option.some.inj (hx.symm.trans hx')
    exact .drained h0
  | drainFailed hx' h0 =>
    split
    · exact .of_eq rfl hx
    · rename_i hb
      refine .of_modify (f := fun r => { r with state := .resident }) rfl hx ?_
      rintro rfl
      obtain rfl := Option.some.inj (hx.symm.trans hx')
      exact .revert h0 (by simpa using hb)
  | evicted =>
    refine .of_erase rfl hx ?_
    rintro rfl
    exact .evicted
  | jobFailed =>
    rw [residents_dropBarrier, Dict.get?_map, hx, Option.map_some]
    split
    · exact .unmark ‹_›
    · exact .keep
  | quiet | join | intentOpen | waiterTimeout | waiterServed | waiterRetry | clearIntent
  | acquireGate | loadRaised | loadUnmeasured | loaded | reservationLost | keyError
  | failedStale | disposed | disposedGate | evictGone | drainWait | jobTakes => exact .of_eq rfl hx

/-- An entry that was not there before is a new reservation's. -/
theorem Section.fresh (h : Section gpu op co pc co' pc') {x' : ResidentModel}
    (hx : co.residents.get? m = none) (hx' : co'.residents.get? m = some x') :
    ∃ est, pc' = .gate m est co.nextEntry ∧ x' = .loading co.nextEntry co.recencySeq ∧
      co' = co.reserve m est op := by
  have hcur : co.slots.cur m = none := by simp [slots, hx]
  have hcur' : co'.slots.cur m = some x'.eid := by simp [slots, hx']
  rcases h.slots_cases with heq | ⟨m', heq⟩ | ⟨m', est, -, hpc, rfl⟩
  · simp [heq, hcur] at hcur'
  · have hgone : (co.slots.vacate m').cur m = none := by
      by_cases hm : m = m'
      · simp [Slots.vacate, hm]
      · simpa [Slots.vacate, hm] using hcur
    simp [heq, hgone] at hcur'
  · by_cases hm : m = m'
    · subst hm
      refine ⟨est, hpc, ?_, rfl⟩
      simpa [Coordinator.reserve] using hx'.symm
    · simp [Coordinator.reserve, Dict.get?_insert_ne _ _ hm, hx] at hx'

/-- A touched entry keeps its id. -/
theorem Touch.eid {x' : ResidentModel} (ht : Touch gpu op co m x pc pc' (some x')) : x'.eid = x.eid := by
  cases ht <;> rfl

/-- Where an entry comes from. -/
theorem Section.source (hsec : Section gpu op co pc co' pc') {x' : ResidentModel}
    (hx' : co'.residents.get? m = some x') :
    (∃ x, co.residents.get? m = some x ∧ x'.eid = x.eid ∧ Touch gpu op co m x pc pc' (some x')) ∨
      ∃ est, pc' = .gate m est co.nextEntry ∧ x' = .loading co.nextEntry co.recencySeq ∧
        co' = co.reserve m est op := by
  cases hx : co.residents.get? m with
  | none => exact .inr (hsec.fresh hx hx')
  | some x =>
    have ht := hsec.touch hx
    rw [hx'] at ht
    exact .inl ⟨x, rfl, ht.eid, ht⟩

theorem Section.nextEntry_le (hsec : Section gpu op co pc co' pc') :
    co.nextEntry ≤ co'.nextEntry :=
  hsec.slots_step.fresh_le

end Coordinator

end MlopsLite.HostAgent
