import MlopsLite.HostAgent.Coordinator.Returns
import MlopsLite.HostAgent.Coordinator.Joiners
import MlopsLite.HostAgent.Coordinator.Departures
import MlopsLite.HostAgent.Coordinator.Jobs

/-!
# Coordinator — what `admit_serving` leaves behind

Whatever a call went through, it returns after at most so many passes, with
one claim or with nothing, and none of its victims is left half way out.
Beside the run goes a history: how many passes a call has made, and which
entries it has marked that have not been `resident` since.
-/

namespace MlopsLite.HostAgent

/-- The victims an admission has marked and not yet dealt with. -/
def Caller.rest : Caller → List ModelKey
  | .victims _ _ _ rest => rest
  | _ => []

def Pc.victims : Pc → List ModelKey
  | .evict m k | .draining m k | .evicting m _ _ _ k | .evicted m _ _ k =>
      if k.admitting then m :: k.rest else []
  | _ => []

def Caller.spent? : Caller → Option Nat
  | .victims _ _ n _ => some n
  | _ => none

/-- The passes a call has made by its loop counter. -/
def Pc.spent? : Pc → Option Nat
  | .idle => some 0
  | .attempt _ _ n => some (n - 1)
  | .awaitLoad _ _ n _ | .awaitTransient _ _ n | .clearIntent _ _ n => some n
  | .evict _ k | .draining _ k | .evicting _ _ _ _ k | .evicted _ _ _ k => k.spent?
  | _ => none

/-- About to pass stage 1. -/
def Pc.isPass (limit : Nat) : Pc → Bool
  | .attempt _ _ n => n ≤ limit
  | _ => false

namespace Coordinator

variable {gpu : Gpu} {op : OpId} {co co' : Coordinator} {pc pc' pc₁ : Pc} {m : ModelKey}
  {x x' : ResidentModel} {e : EntryId}

/-! ## The history -/

structure Marks where
  /-- The passes a call has made. -/
  passes : OpId → Nat
  /-- The entries a call has marked, as long as they are not `resident`
  again. -/
  marked : OpId → EntryId → Bool
  /-- The entries an eviction that timed out has left to a job. -/
  left : EntryId → Bool

def Marks.init : Marks := ⟨fun _ => 0, fun _ _ => false, fun _ => false⟩

def Marks.record (limit : Nat) (op : OpId) (co : Coordinator) (pc : Pc) (h : Marks)
    (co' : Coordinator) (pc' : Pc) : Marks where
  passes := if pc.isPass limit then Function.update h.passes op (h.passes op + 1) else h.passes
  marked o e :=
    if co'.entryState e = some .resident then false
    else if o = op ∧ pc.isPass limit ∧ co.entryState e = some .resident then true
    else h.marked o e
  left e := h.left e || co.handsOver pc pc' e

abbrev MarkedSys := Interleaving.State OpId (Coordinator × Marks) Pc

def MarkedSys.init : MarkedSys := ⟨(.init, .init), fun _ => .idle⟩

abbrev markedNext (gpu : Gpu) : MarkedSys → Act → Option MarkedSys :=
  Interleaving.next (Interleaving.withHistory (advance gpu)
    (Marks.record gpu.config.maxAdmissionAttempts))

/-- A claim is released by who was handed it: not before the call it was
minted for has returned. -/
def HandedOut (s : MarkedSys) (a : Act) : Prop :=
  match s.pc a.1, a.2 with
  | .idle, .start (.release c) => ∀ cl ∈ s.shared.1.claims.get? c,
      s.pc cl.opId = .served (.share c) ∨ s.pc cl.opId = .served (.grant c)
  | _, _ => True

def handedOut (s : MarkedSys) (a : Act) : Bool :=
  match s.pc a.1, a.2 with
  | .idle, .start (.release c) => decide (∀ cl ∈ s.shared.1.claims.get? c,
      s.pc cl.opId = .served (.share c) ∨ s.pc cl.opId = .served (.grant c))
  | _, _ => true

theorem handedOut_iff (s : MarkedSys) (a : Act) : handedOut s a = true ↔ HandedOut s a := by
  rw [handedOut, HandedOut]
  split <;> simp

instance (s : MarkedSys) (a : Act) : Decidable (HandedOut s a) :=
  decidable_of_iff _ (handedOut_iff s a)

/-- The runs in which claims are released by who holds them. -/
abbrev Handed (gpu : Gpu) : MarkedSys → Prop :=
  Runs.Reachable (markedNext gpu) HandedOut MarkedSys.init

theorem Handed.reachable {s : MarkedSys} (h : Handed gpu s) : Reachable gpu s.forget :=
  Interleaving.forget_reachable h

/-! ## Victims -/

theorem victims_resume {m' : ModelKey} {est : Bytes} {n : Nat} (rest : List ModelKey) (ok : Bool) :
    (Caller.resume (.victims m' est n rest) ok).victims = rest := by
  cases rest <;> rfl

theorem victims_of_caller {k : Caller} {ok : Bool} (hk : k.admitting = true) :
    (k.resume ok).victims = k.rest := by
  obtain ⟨m', est, n, rest, rfl⟩ := victims_of_admitting hk
  exact victims_resume rest ok

/-- What a call's marks come to: an entry it marked and that is not
`resident` again is gone, still on its list, or left to a job, and then
`draining` only behind the barrier. -/
structure Tended (op : OpId) (st : Coordinator × Marks) (pc : Pc) : Prop where
  old : ∀ e, st.2.marked op e = true → e < st.1.nextEntry
  entry : ∀ e, st.2.marked op e = true → ∀ m x, st.1.residents.get? m = some x → x.eid = e →
    x.state ≠ .resident ∧ (m ∈ pc.victims ∨
      st.2.left e = true ∧ (x.state = .draining → st.1.jobBarrier = true))

/-- An entry that leaves state `resident` in stage 1 is a victim. -/
theorem Section.marks {m' : ModelKey} {est : Bytes} {n : Nat}
    (h : Section gpu op co (.attempt m' est n) co' pc') (hx : co.residents.get? m = some x)
    (hs : x.state = .resident) (hx' : co'.residents.get? m = some x') (hs' : x'.state ≠ .resident) :
    m ∈ pc'.victims := by
  have hkeep {P : Prop} (heq : co'.residents = co.residents) : P := by
    rw [heq, hx] at hx'
    cases hx'
    exact absurd hs hs'
  cases h with
  | quiet hq => exact hkeep rfl
  | share _ _ _ =>
    rw [residents_grantClaim, Dict.get?_modify, hx] at hx'
    split at hx' <;> cases hx' <;> exact absurd hs hs'
  | join => exact hkeep rfl
  | reserve _ hnone _ _ _ =>
    have hne : m ≠ m' := by
      rintro rfl
      simp [hnone] at hx
    simp only [Coordinator.reserve, Dict.get?_insert_ne _ _ hne, hx] at hx'
    cases hx'
    exact absurd hs hs'
  | intentOpen => exact hkeep rfl
  | evictVictims _ _ _ _ =>
    rw [victims_resume]
    rw [residents_evictVictims, Dict.get?_map, hx] at hx'
    by_contra hmem
    simp only [Option.map_some, if_neg hmem, Option.some.injEq] at hx'
    subst hx'
    exact hs' hs
  | evictGone hpc _ => rcases hpc with hpc | hpc <;> cases hpc

/-- Only the barrier keeps an entry `draining` that was. -/
theorem Section.draining_behind (h : Section gpu op co pc co' pc')
    (hx : co.residents.get? m = some x) (hx' : co'.residents.get? m = some x')
    (hs : x.state ≠ .resident) (hb : x.state = .draining → co.jobBarrier = true)
    (hs' : x'.state = .draining) : co'.jobBarrier = true := by
  have hwas : x.state = .draining := by
    have ht := h.touch hx
    rw [hx'] at ht
    cases ht with
    | keep => exact hs'
    | mark hres => exact absurd hres hs
    | share | release => exact hs'
    | _ => cases hs'
  have hup := hb hwas
  rcases h.phase with ⟨-, hsame, -⟩ | ⟨hdown, -⟩ | ⟨j, d, -, -, rfl⟩ | ⟨j, -, -, rfl, hempty, -⟩
  · exact hsame.trans hup
  · simp [barred, hup] at hdown
  · rw [residents_dropBarrier, Dict.get?_map, hx] at hx'
    simp only [hwas, if_true, Option.map_some, Option.some.injEq] at hx'
    subst hx'
    cases hs'
  · have hnone := Dict.isEmpty_iff.mp hempty m
    have hx : co.residents.get? m = some x := hx
    simp [hnone] at hx

variable {h : Marks} {limit : Nat} {u : OpId}

/-- A recorded mark: the entry is not `resident`, and it was marked before or
is marked by this pass. -/
theorem marked_record (hm : (h.record limit op co pc co' pc').marked u e = true) :
    co'.entryState e ≠ some .resident ∧ (h.marked u e = true ∨
      u = op ∧ pc.isPass limit = true ∧ co.entryState e = some .resident) := by
  simp only [Marks.record] at hm
  split at hm
  · cases hm
  · refine ⟨‹_›, ?_⟩
    split at hm
    · exact .inr ‹_›
    · exact .inl hm

theorem not_resident_of_entryState (hw : co.slots.WellFormed) (hx : co.residents.get? m = some x)
    (h : co.entryState x.eid ≠ some .resident) : x.state ≠ .resident := by
  rwa [entryState_of_get? hw hx, ne_eq, Option.some.injEq] at h

theorem left_record (hl : h.left e = true) :
    (h.record limit op co pc co' pc').left e = true := by
  simp [Marks.record, hl]

theorem attempt_of_isPass (h : pc.isPass limit = true) : ∃ m est n, pc = .attempt m est n := by
  unfold Pc.isPass at h
  split at h
  · exact ⟨_, _, _, rfl⟩
  · cases h

/-- What becomes of an old entry's promise, whoever takes the section. -/
theorem Tended.source (ht : Tended u (co, h) pc) (hsec : Section gpu op co pc₁ co' pc')
    (hm : h.marked u e = true) (hx' : co'.residents.get? m = some x') (he : x'.eid = e) :
    ∃ x, co.residents.get? m = some x ∧ x.eid = e ∧ x.state ≠ .resident ∧ (m ∈ pc.victims ∨
      h.left e = true ∧ (x'.state = .draining → co'.jobBarrier = true)) := by
  rcases hsec.source hx' with ⟨x, hx, heid, -⟩ | ⟨est, -, rfl, -⟩
  · obtain ⟨hs, hwhere⟩ := ht.entry e hm m x hx (heid.symm.trans he)
    refine ⟨x, hx, heid.symm.trans he, hs, hwhere.imp_right fun ⟨hl, hb⟩ => ⟨hl, fun hs' => ?_⟩⟩
    exact hsec.draining_behind hx hx' hs hb hs'
  · have hold := ht.old e hm
    subst he
    exact absurd hold (Nat.lt_irrefl _)

theorem Tended.stable (ht : Tended u (co, h) pc) (hsec : Section gpu op co pc₁ co' pc')
    (hw' : co'.slots.WellFormed) (hu : u ≠ op) :
    Tended u (co', h.record limit op co pc₁ co' pc') pc := by
  have hmarked : ∀ e, (h.record limit op co pc₁ co' pc').marked u e = true →
      h.marked u e = true := by
    intro e hm
    exact (marked_record hm).2.resolve_right fun hnew => hu hnew.1
  refine ⟨fun e hm => (ht.old e (hmarked e hm)).trans_le hsec.nextEntry_le, ?_⟩
  intro e hm m x' hx' he
  obtain ⟨x, -, -, -, hwhere⟩ := ht.source hsec (hmarked e hm) hx' he
  refine ⟨not_resident_of_entryState hw' hx' (he ▸ (marked_record hm).1), ?_⟩
  exact hwhere.imp_right fun ⟨hl, hb⟩ => ⟨left_record hl, hb⟩

theorem mem_victims_evict {m₀ : ModelKey} {k : Caller} (h : m ∈ (Pc.evict m₀ k).victims) :
    k.admitting = true ∧ (m = m₀ ∨ m ∈ k.rest) := by
  simp only [Pc.victims] at h
  split at h
  · exact ⟨‹_›, List.mem_cons.mp h⟩
  · cases h

/-- A victim still to come is on the list when the eviction before it ends. -/
theorem mem_victims_resume {m₀ : ModelKey} {k : Caller} (ok : Bool)
    (h : m ∈ (Pc.evict m₀ k).victims) (hne : m ≠ m₀) : m ∈ (k.resume ok).victims := by
  obtain ⟨hk, hmem⟩ := mem_victims_evict h
  rw [victims_of_caller hk]
  exact hmem.resolve_left hne

/-- What a call's own section does to its list. -/
theorem Section.victims (hsec : Section gpu op co pc co' pc') (halone : OwnerAlone co)
    (hpc : ∀ m est n, pc ≠ .attempt m est n) (hmem : m ∈ pc.victims)
    (hx : co.residents.get? m = some x) (hx' : co'.residents.get? m = some x')
    (hs' : x'.state ≠ .resident) :
    m ∈ pc'.victims ∨ co.handsOver pc pc' x.eid = true ∧ co'.jobBarrier = true := by
  cases hsec with
  | quiet hq =>
    cases hq with
    | evictUnload => exact .inl hmem
    | _ => cases hmem
  | @evictGone m₀ k _ hgone hnone =>
    have hne : m ≠ m₀ := by
      rintro rfl
      simp [hnone] at hx
    rcases hgone with rfl | rfl <;> exact .inl (mem_victims_resume true hmem hne)
  | evictEnter | drained | drainWait => exact .inl hmem
  | @drainFailed m₀ k x₀ hx₀ h0 =>
    by_cases hne : m = m₀
    · subst hne
      obtain rfl := Option.some.inj (hx.symm.trans hx₀)
      have hne' := resume_ne_draining k k m false
      cases hb : co.barred with
      | true =>
        right
        have hup : co.jobBarrier = true := by
          by_contra hdown
          have hex : co.exclusiveJob.isSome = true := by simpa [barred, hdown] using hb
          have hnone := Dict.isEmpty_iff.mp (halone hex).1 m
          simp [hnone] at hx
        exact ⟨by simp [handsOver, hne', hb, hx, h0], hup⟩
      | false =>
        simp only [hb, Bool.false_eq_true, if_false, setState, Dict.get?_modify_self, hx,
          Option.map_some, Option.some.injEq] at hx'
        subst hx'
        exact absurd rfl hs'
    · exact .inl (mem_victims_resume false hmem hne)
  | @evicted m₀ e gen k =>
    have hne : m ≠ m₀ := by
      rintro rfl
      simp [dropEntry] at hx'
    exact .inl (mem_victims_resume true hmem hne)
  | share | join | reserve | intentOpen | evictVictims => exact absurd rfl (hpc _ _ _)
  | _ => cases hmem

theorem Section.tended (hsec : Section gpu op co pc co' pc') (hw : co.slots.WellFormed)
    (hw' : co'.slots.WellFormed) (halone : OwnerAlone co) (ht : Tended op (co, h) pc) :
    Tended op (co', h.record limit op co pc co' pc') pc' := by
  constructor
  case old =>
    intro e hm
    rcases (marked_record hm).2 with hold | ⟨-, -, hres⟩
    · exact (ht.old e hold).trans_le hsec.nextEntry_le
    · obtain ⟨m, x, hx, rfl, -⟩ := get?_of_entryState hres
      exact (hw.old m x.eid (by simp [slots, hx])).trans_le hsec.nextEntry_le
  case entry =>
    intro e hm m x' hx' he
    obtain ⟨hne, hhow⟩ := marked_record hm
    have hs' := not_resident_of_entryState hw' hx' (he ▸ hne)
    refine ⟨hs', ?_⟩
    by_cases hold : h.marked op e = true
    · obtain ⟨x, hx, hxe, -, hmem | ⟨hl, hb⟩⟩ := ht.source hsec hold hx' he
      · by_cases hpc : ∃ m est n, pc = .attempt m est n
        · obtain ⟨m', est, n, rfl⟩ := hpc
          cases hmem
        · simp only [not_exists] at hpc
          rcases hsec.victims halone hpc hmem hx hx' hs' with hmem | ⟨hl, hb⟩
          · exact .inl hmem
          · exact .inr ⟨by simp [Marks.record, ← hxe, hl], fun _ => hb⟩
      · exact .inr ⟨left_record hl, hb⟩
    · -- marked by this very pass
      obtain ⟨-, hpass, hres⟩ := hhow.resolve_left hold
      obtain ⟨m', est, n, rfl⟩ := attempt_of_isPass hpass
      obtain ⟨m₀, x, hx, hxe, hs⟩ := get?_of_entryState hres
      rcases hsec.source hx' with ⟨y, hy, heid, -⟩ | ⟨est', -, rfl, -⟩
      · obtain rfl : m₀ = m := hw.inj m₀ m e (by simp [slots, hx, hxe]) (by simp [slots, hy, ← heid, he])
        obtain rfl := Option.some.inj (hx.symm.trans hy)
        exact .inl (hsec.marks hx hs hx' hs')
      · have hlt := hw.old m₀ x.eid (by simp [slots, hx])
        rw [hxe, ← he] at hlt
        exact absurd hlt (Nat.lt_irrefl _)

theorem holds_tended {s : MarkedSys} (h : Handed gpu s) :
    ∀ o, Tended o s.shared (s.pc o) := by
  refine h.invariant (I := fun s => ∀ o, Tended o s.shared (s.pc o)) ?_ ?_
  · intro o
    constructor
    · intro e hm
      cases hm
    · intro e hm
      cases hm
  · intro s a s' hr ih _ hn o
    obtain ⟨op, choice⟩ := a
    obtain ⟨⟨co', h'⟩, pc', ha, rfl⟩ := Interleaving.next_eq_some.mp hn
    obtain ⟨hadv, rfl⟩ := Interleaving.withHistory_eq_some.mp ha
    have hsec := section_of_advance hadv
    have hreach := Handed.reachable hr
    have hw : s.shared.1.slots.WellFormed := (holds_custody hreach).global
    have hw' := hsec.slots_step.wellFormed hw
    by_cases ho : o = op
    · subst ho
      simp only [Function.update_self]
      exact hsec.tended hw hw' (holds_barrier hreach).2 (ih o)
    · simp only [Function.update_of_ne ho]
      exact (ih o).stable hsec hw' ho

/-! ## Passes -/

theorem spent?_resume (k : Caller) (ok : Bool) {n : Nat} (h : (k.resume ok).spent? = some n) :
    k.spent? = some n := by
  cases k with
  | direct => cases h
  | victims m est n' rest => cases rest <;> exact h
  | drain j rest => cases rest <;> cases h

theorem Section.spent? (hsec : Section gpu op co pc co' pc')
    (hpc : ∀ m est n, pc ≠ .attempt m est n) {n : Nat} (h : pc'.spent? = some n) :
    pc.spent? = some n := by
  cases hsec with
  | quiet hq =>
    cases hq with
    | refuse | transient => exact absurd rfl (hpc _ _ _)
    | jobPass => exact (spent?_resume (.drain _ _) _ h)
    | admitServing | transientWait | transientOver | evictUnload => exact h
    | _ => cases h
  | waiterRetry | clearIntent | evictEnter | drained | drainWait => exact h
  | share | join | reserve | intentOpen | evictVictims => exact absurd rfl (hpc _ _ _)
  | failedOwn | failedStale =>
    unfold Pc.afterFailure at h
    split at h <;> cases h
  | evictGone hgone => rcases hgone with rfl | rfl <;> exact spent?_resume _ _ h
  | drainFailed | evicted => exact spent?_resume _ _ h
  | _ => cases h

theorem spent?_plan {m : ModelKey} {est : Bytes} {n k : Nat} (p : Plan)
    (h : (p.resume m est n).spent? = some k) : k = n := by
  cases p with
  | done o => cases h
  | load e => cases h
  | assertionError => cases h
  | awaitLoad w =>
    cases h
    rfl
  | awaitTransient =>
    cases h
    rfl
  | evictThenRetry victims =>
    have hn := spent?_resume _ _ h
    cases hn
    rfl

/-- Where a pass takes the call. -/
theorem spent?_attempt {choice : Choice} {m : ModelKey} {est : Bytes} {n k : Nat}
    (h : advance gpu op choice co (.attempt m est n) = some (co', pc'))
    (hk : pc'.spent? = some k) : k = n ∧ n ≤ gpu.config.maxAdmissionAttempts := by
  simp only [advance] at h
  split at h
  · cases h
    cases hk
  · rename_i hn
    cases choice with
    | expired =>
      cases h
      cases hk
    | freeBytes free free' =>
      cases h
      exact ⟨spent?_plan _ hk, Nat.not_lt.mp hn⟩
    | _ => cases h

/-- The history agrees with the loop counter. -/
structure Counted (limit : Nat) (passes : Nat) (pc : Pc) : Prop where
  bound : passes ≤ limit
  counter : ∀ n, pc.spent? = some n → passes = n

theorem Counted.advance {choice : Choice} (hb : pc.InBudget gpu.config.maxAdmissionAttempts)
    (ha : advance gpu op choice co pc = some (co', pc'))
    (hc : Counted gpu.config.maxAdmissionAttempts (h.passes op) pc) :
    Counted gpu.config.maxAdmissionAttempts
      ((h.record gpu.config.maxAdmissionAttempts op co pc co' pc').passes op) pc' := by
  by_cases hpc : ∃ m est n, pc = .attempt m est n
  · obtain ⟨m, est, n, rfl⟩ := hpc
    have hspent := hc.counter _ rfl
    obtain ⟨hpos, -⟩ : 0 < n ∧ n ≤ gpu.config.maxAdmissionAttempts + 1 := hb
    by_cases hn : n ≤ gpu.config.maxAdmissionAttempts
    · have hpasses : (h.record gpu.config.maxAdmissionAttempts op co (.attempt m est n) co'
          pc').passes op = n := by
        simp only [Marks.record, Pc.isPass, hn, decide_true, if_true, Function.update_self]
        omega
      rw [hpasses]
      exact ⟨hn, fun k hk => (spent?_attempt ha hk).1.symm⟩
    · have hpasses : (h.record gpu.config.maxAdmissionAttempts op co (.attempt m est n) co'
          pc').passes op = h.passes op := by
        simp [Marks.record, Pc.isPass, hn]
      rw [hpasses]
      exact ⟨hc.bound, fun k hk => absurd (spent?_attempt ha hk).2 hn⟩
  · simp only [not_exists] at hpc
    have hnot : pc.isPass gpu.config.maxAdmissionAttempts = false := by
      by_contra hpass
      obtain ⟨m, est, n, heq⟩ := attempt_of_isPass (Bool.not_eq_false _ ▸ hpass)
      exact hpc m est n heq
    simp only [Marks.record, hnot, Bool.false_eq_true, if_false]
    exact ⟨hc.bound, fun n hn => hc.counter n ((section_of_advance ha).spent? hpc hn)⟩

theorem counted_of_reachable {s : MarkedSys} (hs : Handed gpu s) :
    ∀ o, Counted gpu.config.maxAdmissionAttempts (s.shared.2.passes o) (s.pc o) := by
  refine hs.invariant
    (I := fun s => ∀ o, Counted gpu.config.maxAdmissionAttempts (s.shared.2.passes o) (s.pc o)) ?_ ?_
  · intro o
    refine ⟨Nat.zero_le _, fun n hn => ?_⟩
    cases hn
    rfl
  · intro s a s' hr ih _ hn o
    obtain ⟨op, choice⟩ := a
    obtain ⟨⟨co', h'⟩, pc', ha, rfl⟩ := Interleaving.next_eq_some.mp hn
    obtain ⟨hadv, rfl⟩ := Interleaving.withHistory_eq_some.mp ha
    by_cases ho : o = op
    · subst ho
      simp only [Function.update_self]
      exact (ih o).advance (inBudget_of_reachable (Handed.reachable hr) o) hadv
    · have hsame : (Marks.record gpu.config.maxAdmissionAttempts op s.shared.1 (s.pc op) s.shared.2
          co' pc').passes o = s.shared.2.passes o := by
        simp only [Marks.record]
        split
        · exact Function.update_of_ne ho ..
        · rfl
      simpa [Function.update_of_ne ho, hsame] using ih o

/-! ## Claims -/

theorem released_grantClaim {c : ClaimId} {cl : Claim}
    (hcl : (co.grantClaim m op).claims.get? c = some cl) (hrel : cl.released = true) :
    co.claims.get? c = some cl := by
  have hinsert : (co.grantClaim m op).claims.get? c = (co.claims.insert co.nextClaim _).get? c := rfl
  rw [hinsert, Dict.get?_insert] at hcl
  split at hcl
  · cases hcl
    cases hrel
  · exact hcl

theorem released_grantWaiters {ws : List WaiterId} {c : ClaimId} {cl : Claim}
    (hcl : (ws.foldl (grantWaiter m) co).claims.get? c = some cl) (hrel : cl.released = true) :
    co.claims.get? c = some cl := by
  induction ws generalizing co with
  | nil => exact hcl
  | cons w ws ih =>
    have hrest := ih hcl
    unfold grantWaiter at hrest
    split at hrest
    · exact released_grantClaim hrest hrel
    · exact hrest

/-- Inside a call no claim is released. -/
theorem Section.released (hsec : Section gpu op co pc co' pc') (hpc : pc ≠ .idle) {c : ClaimId}
    {cl : Claim} (hcl : co'.claims.get? c = some cl) (hrel : cl.released = true) :
    co.claims.get? c = some cl := by
  cases hsec with
  | forget | release | raiseBarrier | endJob => exact absurd rfl hpc
  | share => exact released_grantClaim hcl hrel
  | @commit m₁ e child realBytes =>
    have hgranted := released_grantWaiters hcl hrel
    have hsettled : ((co.settle m₁ child realBytes).touch m₁).claims.get? c = some cl :=
      released_grantClaim hgranted hrel
    exact hsettled
  | reconcile =>
    unfold Coordinator.reconcile at hcl
    split at hcl <;> exact hcl
  | evictEnter =>
    unfold Coordinator.evictEnter at hcl
    split at hcl
    · exact hcl
    · split at hcl <;> exact hcl
  | drainFailed => split at hcl <;> exact hcl
  | _ => exact hcl

/-- A call to `release` releases its claim. -/
theorem released_enter {call : Call} {c : ClaimId} {cl : Claim}
    (hcl : (co.enter call).1.claims.get? c = some cl) (hrel : cl.released = true) :
    co.claims.get? c = some cl ∨
      call = .release c ∧ ∃ cl₀, co.claims.get? c = some cl₀ ∧ cl₀.opId = cl.opId := by
  cases call with
  | admitServing | evict => exact .inl hcl
  | forget m =>
    left
    simp only [enter, Coordinator.forget] at hcl
    split at hcl <;> exact hcl
  | admitJob j =>
    left
    simp only [enter, jobEnter] at hcl
    split at hcl <;> exact hcl
  | endJob j =>
    left
    simp only [enter, Coordinator.endJob] at hcl
    split at hcl <;> exact hcl
  | release c₀ =>
    change (co.releaseClaim c₀).claims.get? c = some cl at hcl
    cases hc : co.claims.get? c₀ with
    | none =>
      rw [releaseClaim_of_none hc] at hcl
      exact .inl hcl
    | some claim =>
      cases hr : claim.released with
      | true =>
        rw [releaseClaim_of_released hc hr] at hcl
        exact .inl hcl
      | false =>
        rw [claims_releaseClaim hc hr, Dict.get?_modify] at hcl
        split at hcl
        · rename_i heq
          subst heq
          obtain ⟨cl₀, hcl₀, rfl⟩ := Option.map_eq_some_iff.mp hcl
          exact .inr ⟨rfl, cl₀, hcl₀, rfl⟩
        · exact .inl hcl

/-- A released claim has been returned to a caller. -/
def Returned (s : MarkedSys) : Prop := ∀ c cl, s.shared.1.claims.get? c = some cl →
  cl.released = true → s.pc cl.opId = .served (.share c) ∨ s.pc cl.opId = .served (.grant c)

theorem not_served_of_advance {choice : Choice} {o : Outcome} :
    advance gpu op choice co (.served o) ≠ some (co', pc') := by
  intro ha
  cases choice <;> cases ha

theorem Returned.kept {s : MarkedSys} {choice : Choice} {cl : Claim} {c : ClaimId}
    (ha : advance gpu op choice s.shared.1 (s.pc op) = some (co', pc'))
    (hret : s.pc cl.opId = .served (.share c) ∨ s.pc cl.opId = .served (.grant c)) :
    cl.opId ≠ op := by
  rintro rfl
  rcases hret with hpc | hpc
  · rw [hpc] at ha
    exact not_served_of_advance ha
  · rw [hpc] at ha
    exact not_served_of_advance ha

theorem returned_of_reachable {s : MarkedSys} (hs : Handed gpu s) : Returned s := by
  refine hs.invariant (I := Returned) ?_ ?_
  · intro c cl hcl
    cases hcl
  · intro s a s' hr ih hok hn c cl hcl hrel
    obtain ⟨op, choice⟩ := a
    obtain ⟨⟨co', h'⟩, pc', ha, rfl⟩ := Interleaving.next_eq_some.mp hn
    obtain ⟨hadv, rfl⟩ := Interleaving.withHistory_eq_some.mp ha
    have hret : s.pc cl.opId = .served (.share c) ∨ s.pc cl.opId = .served (.grant c) := by
      by_cases hidle : s.pc op = .idle
      · cases choice with
        | start call =>
          rw [hidle] at hadv
          have henter : (s.shared.1.enter call).1 = co' := congrArg Prod.fst (Option.some.inj hadv)
          rcases released_enter (henter ▸ hcl) hrel with hold | ⟨rfl, cl₀, hcl₀, hop⟩
          · exact ih c cl hold hrel
          · simp only [HandedOut, hidle] at hok
            exact hop ▸ hok cl₀ hcl₀
        | _ =>
          rw [hidle] at hadv
          cases hadv
      · exact ih c cl ((section_of_advance hadv).released hidle hcl hrel) hrel
    have hne := Returned.kept hadv hret
    simpa [Function.update_of_ne hne] using hret

/-! ## Waiters -/

theorem liveWaiters_releaseClaim (co : Coordinator) (c : ClaimId) :
    (co.releaseClaim c).liveWaiters = co.liveWaiters :=
  (congrArg Coordinator.liveWaiters (sansClaims_releaseClaim co c) :)

theorem liveWaiters_commitLoad (co : Coordinator) (m : ModelKey) (child : Child)
    (realBytes : Bytes) (ws : List WaiterId) :
    (co.commitLoad m op child realBytes ws).liveWaiters = co.liveWaiters :=
  (congrArg Coordinator.liveWaiters (sansClaims_commitLoad co m op child realBytes ws) :)

theorem live_dispose {ws : List WaiterId} {d : Disposition} {o : OpId}
    (hnone : co.liveWaiters.get? o = none) : (co.dispose ws d op).liveWaiters.get? o = none := by
  unfold Coordinator.dispose
  refine List.foldlRecOn (motive := fun live : Dict OpId WaiterId => live.get? o = none) ws _
    hnone ?_
  intro live h w _
  split
  · simp [Dict.get?_erase, h]
  · exact h

/-- A section brings no operation a live waiter but its own, by joining. -/
theorem Section.live (hsec : Section gpu op co pc co' pc') {o : OpId}
    (hnone : co.liveWaiters.get? o = none) : co'.liveWaiters.get? o = none ∨
      o = op ∧ ∃ m est n w, pc' = .awaitLoad m est n w := by
  cases hsec with
  | forget =>
    left
    unfold Coordinator.forget
    split <;> exact hnone
  | release =>
    left
    rw [liveWaiters_releaseClaim, hnone]
  | endJob =>
    left
    unfold Coordinator.endJob
    split <;> exact hnone
  | join =>
    by_cases ho : o = op
    · exact .inr ⟨ho, _, _, _, _, rfl⟩
    · left
      simp [Coordinator.join, Dict.get?_insert_ne _ _ ho, hnone]
  | waiterTimeout => exact .inl (by simp [Coordinator.deregister, Dict.get?_erase, hnone])
  | waiterServed | waiterRetry => exact .inl (by simp [Dict.get?_erase, hnone])
  | reconcile =>
    left
    unfold Coordinator.reconcile
    split <;> exact hnone
  | commit =>
    left
    rw [liveWaiters_commitLoad, hnone]
  | disposed => exact .inl (live_dispose hnone)
  | @disposedGate ws d =>
    left
    show (co.dispose ws d op).liveWaiters.get? o = none
    exact live_dispose hnone
  | evictEnter =>
    left
    unfold Coordinator.evictEnter
    split
    · exact hnone
    · split <;> exact hnone
  | drainFailed =>
    left
    split <;> exact hnone
  | _ => exact .inl hnone

theorem Section.live_awaited {m : ModelKey} {est : Bytes} {n : Nat} {w : WaiterId}
    (hsec : Section gpu op co (.awaitLoad m est n w) co' pc') :
    co'.liveWaiters.get? op = none := by
  cases hsec with
  | quiet hq => cases hq
  | evictGone hpc _ => rcases hpc with hpc | hpc <;> cases hpc
  | waiterTimeout => simp [Coordinator.deregister]
  | waiterServed | waiterRetry => simp

/-- Only an operation that awaits a load has a live waiter. -/
theorem live_of_reachable {s : Sys} (h : Reachable gpu s) : ∀ o,
    (∀ m est n w, s.pc o ≠ .awaitLoad m est n w) → s.shared.liveWaiters.get? o = none := by
  refine h.invariant (I := fun s => ∀ o, (∀ m est n w, s.pc o ≠ .awaitLoad m est n w) →
    s.shared.liveWaiters.get? o = none) (fun _ _ => rfl) ?_
  intro s a s' _ ih _ hn o ho'
  obtain ⟨hsec, hothers⟩ := section_of_next hn
  by_cases ho : o = a.1
  · subst ho
    by_cases hpc : ∃ m est n w, s.pc a.1 = .awaitLoad m est n w
    · obtain ⟨m, est, n, w, hpc⟩ := hpc
      rw [hpc] at hsec
      exact hsec.live_awaited
    · simp only [not_exists] at hpc
      refine (hsec.live (ih a.1 hpc)).resolve_right ?_
      rintro ⟨-, m, est, n, w, hawait⟩
      exact ho' m est n w hawait
  · rw [hothers o ho] at ho'
    exact (hsec.live (ih o ho')).resolve_right fun hown => ho hown.1

/-! ## What a return leaves behind -/

/-- State `s` just after operation `op` has returned `o`. -/
structure Discharged (s : MarkedSys) (op : OpId) (o : Outcome) : Prop where
  /-- A `Share` or `Grant` carries the one claim of this call, unreleased. -/
  carries : ∀ c, o = .share c ∨ o = .grant c →
    ∃ cl, s.shared.1.claims.get? c = some cl ∧ cl.opId = op ∧ cl.released = false ∧
      ∀ c' cl', s.shared.1.claims.get? c' = some cl' → cl'.opId = op → c' = c
  /-- A `Refuse` leaves none. -/
  claimless : ∀ r, o = .refuse r → ∀ c cl, s.shared.1.claims.get? c = some cl → cl.opId ≠ op
  unreserved : s.shared.1.reservations.get? op = none
  intentless : s.shared.1.evictIntent.get? op = none
  unwaiting : s.shared.1.liveWaiters.get? op = none ∧
    ∀ o w x, w ∈ s.shared.1.registry o → s.shared.1.waiters.get? w = some x → x.opId ≠ op
  /-- An entry the call marked is gone, has been `resident` since, or was left
  to a job, and is `draining` then only while that job drains. -/
  victims : ∀ e, s.shared.2.marked op e = true →
    (∀ m x, s.shared.1.residents.get? m = some x → x.eid ≠ e) ∨
      s.shared.2.left e = true ∧ ∀ m x, s.shared.1.residents.get? m = some x → x.eid = e →
        x.state ≠ .resident ∧ (x.state = .draining → ∃ u, (s.pc u).inJob = true)

theorem desk_served {r : Refusal} : (Pc.served (.refuse r)).desk.claim? = none ∧
    ∀ w, (Pc.served (.refuse r)).desk ≠ .awaiting w := by
  cases r <;> exact ⟨rfl, fun _ => Desk.noConfusion⟩

theorem desk_claim {o : Outcome} {c : ClaimId} (h : o = .share c ∨ o = .grant c) :
    (Pc.served o).desk.claim? = some c ∧ ∀ w, (Pc.served o).desk ≠ .awaiting w := by
  rcases h with rfl | rfl <;> exact ⟨rfl, fun _ => Desk.noConfusion⟩

theorem desk_served_ne (o : Outcome) (w : WaiterId) : (Pc.served o).desk ≠ .awaiting w := by
  cases o with
  | share c => exact Desk.noConfusion
  | grant c => exact Desk.noConfusion
  | refuse r => exact desk_served.2 w

theorem idle_not_served {choice : Choice} {o : Outcome} :
    advance gpu op choice co .idle ≠ some (co', .served o) := by
  intro ha
  cases choice with
  | start call =>
    have hpc := congrArg Prod.snd (Option.some.inj ha)
    cases call with
    | admitJob j =>
      simp only [enter] at hpc
      split at hpc <;> cases hpc
    | _ => cases hpc
  | _ => cases ha

theorem discharged_of_next {s s' : MarkedSys} {choice : Choice} {o : Outcome} (hs : Handed gpu s)
    (hok : HandedOut s (op, choice)) (hn : markedNext gpu s (op, choice) = some s')
    (hpc : s'.pc op = .served o) : Discharged s' op o := by
  have hs' : Handed gpu s' := .step _ hs hok hn
  have hreach := Handed.reachable hs'
  have hdesk := (holds_joined hreach).thread op
  have hjoined : Joined op s'.shared.1 (Pc.served o).desk := hpc ▸ hdesk
  obtain ⟨⟨co', h'⟩, pc', ha, hs'eq⟩ := Interleaving.next_eq_some.mp hn
  obtain ⟨hadv, -⟩ := Interleaving.withHistory_eq_some.mp ha
  constructor
  case carries =>
    intro c hc
    obtain ⟨hclaim, hawait⟩ := desk_claim hc
    obtain ⟨cl, hcl, hop⟩ := hjoined.held c hclaim
    refine ⟨cl, hcl, hop, ?_, ?_⟩
    · by_contra hrel
      have hrel : cl.released = true := by simpa using hrel
      have hserved : pc' = .served o := by simpa [hs'eq] using hpc
      have hidle : s.pc op ≠ .idle := by
        intro hidle
        rw [hidle, hserved] at hadv
        exact idle_not_served hadv
      have hclaims : s'.shared.1 = co' := by rw [hs'eq]
      have hold := (section_of_advance hadv).released hidle (hclaims ▸ hcl) hrel
      exact Returned.kept hadv (returned_of_reachable hs c cl hold hrel) hop
    · intro c' cl' hcl' hop'
      rcases hjoined.claimed c' cl' hcl' hop' with hsame | ⟨w, x, hk, -⟩
      · exact Option.some.inj (hsame.symm.trans hclaim)
      · exact absurd hk (hawait w)
  case claimless =>
    rintro r rfl c cl hcl hop
    rcases hjoined.claimed c cl hcl hop with hclaim | ⟨w, x, hk, -⟩
    · rw [desk_served.1] at hclaim
      cases hclaim
    · exact desk_served.2 w hk
  case unreserved => exact ((holds_custody hreach).thread op).unreserved (by
      show (s'.pc op).load? = none
      rw [hpc]
      rfl)
  case intentless => exact ((holds_sound hreach).thread op).intent (by
      show (s'.pc op).intends = false
      rw [hpc]
      rfl)
  case unwaiting =>
    refine ⟨live_of_reachable hreach op fun m est n w hawait => ?_, fun o' w x hw hx hop => ?_⟩
    · have hawait : s'.pc op = .awaitLoad m est n w := hawait
      rw [hpc] at hawait
      cases hawait
    · obtain ⟨x', hx', hd⟩ := (holds_joined hreach).global.member o' w hw
      obtain rfl := Option.some.inj (hx.symm.trans hx')
      exact desk_served_ne o w (hjoined.waiting w x hx hop hd)
  case victims =>
    intro e hm
    have htended := holds_tended hs' op
    rw [hpc] at htended
    by_cases hgone : ∀ m x, s'.shared.1.residents.get? m = some x → x.eid ≠ e
    · exact .inl hgone
    · push Not at hgone
      obtain ⟨m, x, hx, he⟩ := hgone
      have hleft : s'.shared.2.left e = true := by
        obtain ⟨-, hmem | ⟨hl, -⟩⟩ := htended.entry e hm m x hx he
        · cases hmem
        · exact hl
      refine .inr ⟨hleft, fun m x hx he => ?_⟩
      obtain ⟨hs, hmem | ⟨-, hb⟩⟩ := htended.entry e hm m x hx he
      · cases hmem
      · exact ⟨hs, fun hd => (holds_barrier hreach).1.held (hb hd)⟩

/-- The discipline of `admit_serving` in every run: at most so many passes;
what a return leaves behind; and where every admission is treated fairly,
one that has begun returns. No assertion of it fails. -/
theorem admitServing_disciplined (gpu : Gpu) :
    (∀ s, Handed gpu s → ∀ op,
      s.shared.2.passes op ≤ gpu.config.maxAdmissionAttempts ∧ s.pc op ≠ .raised ∧
        ∀ choice s' o, HandedOut s (op, choice) → markedNext gpu s (op, choice) = some s' →
          s'.pc op = .served o → Discharged s' op o) ∧
      ∀ b : Interleaving.Behaviour (advance gpu) Sys.init,
        (∀ op i, ((b.state i).pc op).admitting = true → b.Fair op) →
          ∀ op i, ((b.state i).pc op).admitting = true →
            ∃ j ≥ i, ∃ o, (b.state j).pc op = .served o := by
  refine ⟨fun s hs op => ⟨(counted_of_reachable hs op).bound, ?_, ?_⟩, ?_⟩
  · exact ((holds_sound (Handed.reachable hs)).thread op).running
  · intro choice s' o hok hn hpc
    exact discharged_of_next hs hok hn hpc
  · intro b hfair op i hin
    exact returns_of_fair hfair hin

/-! ## One victim -/

/-- `a` is resident and idle; `b` does not fit beside it and evicts it. -/
def oneVictim : List Act :=
  [(0, .start (.admitServing "a" (6 : ℕ))), (0, .freeBytes 10 10), (0, .go),
   (0, .loadReturned (some 1) (some (6 : ℕ))), (0, .go), (0, .go), (0, .go),
   (1, .start (.release 1)),
   (2, .start (.admitServing "b" (5 : ℕ))), (2, .freeBytes 4 4), (2, .go), (2, .go), (2, .go),
   (2, .go), (2, .go), (2, .freeBytes 10 10), (2, .go), (2, .loadReturned (some 2) (some (5 : ℕ))),
   (2, .go), (2, .go)]

theorem oneVictim_disciplined : ∃ s s' : MarkedSys,
    markedNext (.ofTotal 10) s (2, .go) = some s' ∧ s'.shared.2.passes 2 = 2 ∧
      s'.shared.2.marked 2 0 = true ∧ s'.pc 2 = .served (.grant 2) ∧
        Discharged s' 2 (.grant 2) := by
  have hrun : ((Runs.run (markedNext (.ofTotal 10)) HandedOut MarkedSys.init oneVictim).bind
      fun s => (markedNext (.ofTotal 10) s (2, .go)).map fun s' =>
        decide (s'.shared.2.passes 2 = 2 ∧ s'.shared.2.marked 2 0 = true ∧
          s'.pc 2 = .served (.grant 2) ∧ HandedOut s (2, .go))) = some true := by
    decide +kernel
  obtain ⟨s, s', hs, hn, hp⟩ := Runs.exists_step hrun
  obtain ⟨hpasses, hmarked, hpc, hok⟩ := of_decide_eq_true hp
  exact ⟨s, s', hn, hpasses, hmarked, hpc,
    ((admitServing_disciplined (.ofTotal 10)).1 s hs 2).2.2 _ s' _ hok hn hpc⟩

end Coordinator

end MlopsLite.HostAgent
