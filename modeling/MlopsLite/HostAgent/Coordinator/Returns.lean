import MlopsLite.HostAgent.Coordinator.Steps
import MlopsLite.HostAgent.Coordinator.Ownership
import MlopsLite.Lib.Fairness

/-!
# Coordinator — `admit_serving` returns

A call spends an attempt on each pass and only goes down within one: down
its list of victims, or through its load to the disposal of its joiners.
Nothing holds it up for good but the load gate, and whoever holds that is
inside a load of its own.
-/

namespace MlopsLite.HostAgent

/-- `evict` called for the victims of an admission. -/
def Caller.admitting : Caller → Bool
  | .victims .. => true
  | _ => false

/-- The operation is inside `admit_serving`. -/
def Pc.admitting : Pc → Bool
  | .attempt .. | .awaitLoad .. | .awaitTransient .. | .clearIntent .. | .gate .. | .load ..
  | .reconcile .. | .commit .. | .rollback .. | .rolledBack .. | .loadFailed ..
  | .failedUnload .. | .dispose .. => true
  | .evict _ k | .draining _ k | .evicting _ _ _ _ k | .evicted _ _ _ k => k.admitting
  | _ => false

/-- Where a call stands: how often it may still pass stage 1, and how far it
is from the end of the pass it is in. -/
def Caller.rank (limit steps : Nat) : Caller → ℕ ×ₗ ℕ
  | .victims _ _ n rest => toLex (2 * (limit + 1 - n), 4 * rest.length + steps)
  | _ => toLex (0, 0)

def Pc.rank (limit : Nat) : Pc → ℕ ×ₗ ℕ
  | .attempt _ _ n => toLex (2 * (limit + 1 - n) + 1, 0)
  | .awaitLoad _ _ n _ | .awaitTransient _ _ n | .clearIntent _ _ n =>
      toLex (2 * (limit + 1 - n), 0)
  | .evict _ k => k.rank limit 4
  | .draining _ k => k.rank limit 3
  | .evicting _ _ _ _ k => k.rank limit 2
  | .evicted _ _ _ k => k.rank limit 1
  | .gate .. => toLex (0, 9)
  | .load .. => toLex (0, 8)
  | .reconcile .. => toLex (0, 7)
  | .commit .. => toLex (0, 6)
  | .rollback .. => toLex (0, 5)
  | .rolledBack .. => toLex (0, 4)
  | .loadFailed .. => toLex (0, 3)
  | .failedUnload .. => toLex (0, 2)
  | .dispose .. => toLex (0, 1)
  | _ => toLex (0, 0)

def Caller.InBudget (limit : Nat) : Caller → Prop
  | .victims _ _ n _ => n ≤ limit
  | _ => True

/-- The attempt a call has spent on the pass it is in is one it has. -/
def Pc.InBudget (limit : Nat) : Pc → Prop
  | .attempt _ _ n => 0 < n ∧ n ≤ limit + 1
  | .awaitLoad _ _ n _ | .awaitTransient _ _ n | .clearIntent _ _ n => n ≤ limit
  | .evict _ k | .draining _ k | .evicting _ _ _ _ k | .evicted _ _ _ k => k.InBudget limit
  | _ => True

/-- Between marking victims and forgetting the intent. -/
def Pc.intends : Pc → Bool
  | .clearIntent .. => true
  | .evict _ k | .draining _ k | .evicting _ _ _ _ k | .evicted _ _ _ k => k.admitting
  | _ => false

/-- Between taking the load gate and giving it back. -/
def Pc.holdsGate : Pc → Bool
  | .load .. | .reconcile .. | .loadFailed .. | .failedUnload .. | .dispose _ _ true => true
  | _ => false

namespace Coordinator

variable {gpu : Gpu} {op : OpId} {co co' : Coordinator} {pc pc' : Pc} {limit : Nat}

/-! ## Attempts -/

theorem inBudget_resume {k : Caller} (hk : k.InBudget limit) (ok : Bool) :
    (k.resume ok).InBudget limit := by
  cases k with
  | direct => trivial
  | victims m est n rest => cases rest <;> exact hk
  | drain j rest => cases rest <;> trivial

theorem Section.inBudget (h : Section gpu op co pc co' pc')
    (hpc : ∀ m est n, pc ≠ .attempt m est n) (hb : pc.InBudget limit) : pc'.InBudget limit := by
  cases h with
  | quiet hq =>
    cases hq with
    | admitServing => exact ⟨Nat.one_pos, Nat.le_add_left 1 limit⟩
    | refuse | transient => exact absurd rfl (hpc _ _ _)
    | transientOver => exact ⟨Nat.succ_pos _, Nat.succ_le_succ hb⟩
    | jobPass => exact inBudget_resume (k := .drain _ _) trivial _
    | transientWait | evictUnload => exact hb
    | _ => trivial
  | waiterRetry | clearIntent => exact ⟨Nat.succ_pos _, Nat.succ_le_succ hb⟩
  | share | join | reserve | intentOpen | evictVictims => exact absurd rfl (hpc _ _ _)
  | failedOwn | failedStale => unfold Pc.afterFailure; split <;> trivial
  | evictGone hgone =>
    rcases hgone with rfl | rfl <;> exact inBudget_resume hb _
  | evictEnter | drained | drainWait => exact hb
  | drainFailed | evicted => exact inBudget_resume hb _
  | _ => trivial

theorem inBudget_plan {m : ModelKey} {est : Bytes} {n : Nat} (hn : n ≤ limit) (p : Plan) :
    (p.resume m est n).InBudget limit := by
  cases p with
  | evictThenRetry victims => exact inBudget_resume (k := .victims m est n victims) hn _
  | awaitLoad w => exact hn
  | awaitTransient => exact hn
  | done o => trivial
  | load e => trivial
  | assertionError => trivial

theorem inBudget_attempt {choice : Choice} {m : ModelKey} {est : Bytes} {n : Nat}
    (h : advance gpu op choice co (.attempt m est n) = some (co', pc')) :
    pc'.InBudget gpu.config.maxAdmissionAttempts := by
  simp only [advance] at h
  split at h
  · cases h
    trivial
  · rename_i hn
    cases choice with
    | expired =>
      cases h
      trivial
    | freeBytes free free' =>
      cases h
      exact inBudget_plan (Nat.not_lt.mp hn) _
    | _ => cases h

theorem inBudget_of_reachable {s : Sys} (h : Reachable gpu s) :
    ∀ o, (s.pc o).InBudget gpu.config.maxAdmissionAttempts := by
  refine h.invariant (I := fun s => ∀ o, (s.pc o).InBudget gpu.config.maxAdmissionAttempts) ?_ ?_
  · intro o
    trivial
  · intro s a s' _ ih _ hn o
    obtain ⟨op, choice⟩ := a
    obtain ⟨co', pc', ha, rfl⟩ := Interleaving.next_eq_some.mp hn
    by_cases ho : o = op
    · subst ho
      simp only [Function.update_self]
      by_cases hpc : ∃ m est n, s.pc o = .attempt m est n
      · obtain ⟨m, est, n, hpc⟩ := hpc
        rw [hpc] at ha
        exact inBudget_attempt ha
      · simp only [not_exists] at hpc
        exact (section_of_advance ha).inBudget hpc (ih o)
    · simpa [Function.update_of_ne ho] using ih o

/-! ## Going down -/

theorem rank_lt_of_fst {a b c d : Nat} (h : a < c) : toLex (a, b) < toLex (c, d) :=
  Prod.Lex.toLex_lt_toLex.mpr (.inl h)

theorem rank_lt_of_snd {a b d : Nat} (h : b < d) : toLex (a, b) < toLex (a, d) :=
  Prod.Lex.toLex_lt_toLex.mpr (.inr ⟨rfl, h⟩)

/-- Going on to the next victim, or back to stage 1. -/
theorem rank_resume {m : ModelKey} {est : Bytes} {n steps : Nat} {rest : List ModelKey}
    (ok : Bool) (hs : 0 < steps) :
    (Caller.resume (.victims m est n rest) ok).rank limit <
      Caller.rank limit steps (.victims m est n rest) := by
  cases rest with
  | nil => exact rank_lt_of_snd (by simpa using hs)
  | cons v rest =>
    refine rank_lt_of_snd ?_
    simp only [List.length_cons]
    omega

theorem rank_plan {m : ModelKey} {est : Bytes} {n : Nat} (p : Plan) :
    (p.resume m est n).rank limit < (Pc.attempt m est n).rank limit := by
  have hlower : ∀ b, toLex (2 * (limit + 1 - n), b) < (Pc.attempt m est n).rank limit :=
    fun b => rank_lt_of_fst (Nat.lt_succ_self _)
  have hzero : ∀ b, toLex (0, b) < (Pc.attempt m est n).rank limit :=
    fun b => rank_lt_of_fst (Nat.succ_pos _)
  cases p with
  | done o => exact hzero 0
  | awaitLoad w => exact hlower 0
  | awaitTransient => exact hlower 0
  | load e => exact hzero 9
  | evictThenRetry victims => cases victims <;> exact hlower _
  | assertionError => exact hzero 0

/-- Inside the call, on its way out of it, or out of it by an assertion. -/
def Pc.Inside (pc : Pc) : Prop := pc.admitting = true ∨ (∃ o, pc = .served o) ∨ pc = .raised

theorem inside_resume {m : ModelKey} {est : Bytes} {n : Nat} {rest : List ModelKey} (ok : Bool) :
    (Caller.resume (.victims m est n rest) ok).admitting = true := by
  cases rest <;> rfl

theorem inside_plan {m : ModelKey} {est : Bytes} {n : Nat} (p : Plan) :
    Pc.Inside (p.resume m est n) := by
  cases p with
  | done o => exact .inr (.inl ⟨o, rfl⟩)
  | evictThenRetry victims => exact .inl (inside_resume _)
  | assertionError => exact .inr (.inr rfl)
  | _ => exact .inl rfl

/-- What a section inside the call does to where it stands. -/
structure Descends (limit : Nat) (pc pc' : Pc) : Prop where
  down : pc' = pc ∨ pc'.rank limit < pc.rank limit
  inside : Pc.Inside pc'

theorem descends_attempt {choice : Choice} {m : ModelKey} {est : Bytes} {n : Nat}
    (h : advance gpu op choice co (.attempt m est n) = some (co', pc')) :
    Descends limit (.attempt m est n) pc' := by
  have hserved : ∀ o, Descends limit (.attempt m est n) (.served o) :=
    fun o => ⟨.inr (rank_lt_of_fst (Nat.succ_pos _)), .inr (.inl ⟨o, rfl⟩)⟩
  simp only [advance] at h
  split at h
  · cases h
    exact hserved _
  · cases choice with
    | expired =>
      cases h
      exact hserved _
    | freeBytes free free' =>
      cases h
      exact ⟨.inr (rank_plan _), inside_plan _⟩
    | _ => cases h

/-- The eviction of a victim comes to an end. -/
theorem descends_resume {k : Caller} {steps : Nat} {ok : Bool} (hs : 0 < steps)
    (hpc : pc.rank limit = k.rank limit steps) (hk : ∃ m est n rest, k = .victims m est n rest) :
    Descends limit pc (k.resume ok) := by
  obtain ⟨m, est, n, rest, rfl⟩ := hk
  refine ⟨.inr ?_, .inl (inside_resume ok)⟩
  rw [hpc]
  exact rank_resume ok hs

/-- One section of the eviction of a victim. -/
theorem descends_evict {k : Caller} {steps steps' : Nat} (hs : steps' < steps)
    (hpc : pc.rank limit = k.rank limit steps) (hpc' : pc'.rank limit = k.rank limit steps')
    (hin : pc'.admitting = true) (hk : ∃ m est n rest, k = .victims m est n rest) :
    Descends limit pc pc' := by
  obtain ⟨m, est, n, rest, rfl⟩ := hk
  refine ⟨.inr ?_, .inl hin⟩
  rw [hpc, hpc']
  exact rank_lt_of_snd (Nat.add_lt_add_left hs _)

theorem victims_of_admitting {k : Caller} (h : k.admitting = true) :
    ∃ m est n rest, k = .victims m est n rest := by
  cases k with
  | victims m est n rest => exact ⟨m, est, n, rest, rfl⟩
  | direct => cases h
  | drain j rest => cases h

theorem Section.descends (h : Section gpu op co pc co' pc')
    (hpc : ∀ m est n, pc ≠ .attempt m est n) (hin : pc.admitting = true)
    (hb : pc.InBudget limit) : Descends limit pc pc' := by
  have hload : ∀ {a b : Nat} {k k' : Pc}, b < a → k.rank limit = toLex (0, a) →
      k'.rank limit = toLex (0, b) → Pc.Inside k' → Descends limit k k' := by
    intro a b k k' hlt hk hk' hin
    refine ⟨.inr ?_, hin⟩
    rw [hk, hk']
    exact rank_lt_of_snd hlt
  have hnext : ∀ {n : Nat} {m : ModelKey} {est : Bytes} {k : Pc}, n ≤ limit →
      k.rank limit = toLex (2 * (limit + 1 - n), 0) → Descends limit k (.attempt m est (n + 1)) := by
    intro n m est k hn hk
    refine ⟨.inr ?_, .inl rfl⟩
    rw [hk]
    refine rank_lt_of_fst ?_
    omega
  have hserved : ∀ {n : Nat} {o : Outcome} {k : Pc}, n ≤ limit →
      k.rank limit = toLex (2 * (limit + 1 - n), 0) → Descends limit k (.served o) := by
    intro n o k hn hk
    refine ⟨.inr ?_, .inr (.inl ⟨o, rfl⟩)⟩
    rw [hk]
    refine rank_lt_of_fst ?_
    omega
  cases h with
  | quiet hq =>
    cases hq with
    | refuse | transient => exact absurd rfl (hpc _ _ _)
    | transientWait => exact ⟨.inl rfl, .inl rfl⟩
    | transientOver => exact hnext hb rfl
    | rollbackUnload => exact hload (by decide) rfl rfl (.inl rfl)
    | failedUnload => exact hload (by decide) rfl rfl (.inl rfl)
    | evictUnload => exact descends_evict (by decide) rfl rfl hin (victims_of_admitting hin)
    | _ => cases hin
  | waiterTimeout | waiterServed => exact hserved hb rfl
  | waiterRetry | clearIntent => exact hnext hb rfl
  | share | join | reserve | intentOpen | evictVictims => exact absurd rfl (hpc _ _ _)
  | acquireGate | loadRaised | loadUnmeasured | loaded | reconcile | reservationLost | rollBack
  | commit | rolledBack =>
    exact hload (by decide) rfl rfl (.inl rfl)
  | keyError => exact hload (by decide) rfl rfl (.inr (.inr rfl))
  | failedOwn | failedStale =>
    unfold Pc.afterFailure
    split <;> exact hload (by decide) rfl rfl (.inl rfl)
  | disposed | disposedGate => exact hload (by decide) rfl rfl (.inr (.inl ⟨_, rfl⟩))
  | evictGone hgone =>
    rcases hgone with rfl | rfl
    · exact descends_resume (by decide) rfl (victims_of_admitting hin)
    · exact descends_resume (by decide) rfl (victims_of_admitting hin)
  | evictEnter | drained =>
    exact descends_evict (by decide) rfl rfl hin (victims_of_admitting hin)
  | drainWait => exact ⟨.inl rfl, .inl hin⟩
  | drainFailed | evicted => exact descends_resume (by decide) rfl (victims_of_admitting hin)
  | _ => cases hin

theorem descends_of_advance {choice : Choice} (hin : pc.admitting = true) (hb : pc.InBudget limit)
    (h : advance gpu op choice co pc = some (co', pc')) : Descends limit pc pc' := by
  by_cases hpc : ∃ m est n, pc = .attempt m est n
  · obtain ⟨m, est, n, rfl⟩ := hpc
    exact descends_attempt h
  · simp only [not_exists] at hpc
    exact (section_of_advance h).descends hpc hin hb

/-! ## No assertion fails -/

theorem intends_resume (k : Caller) (ok : Bool) : (k.resume ok).intends = k.admitting := by
  cases k with
  | direct => rfl
  | victims m est n rest => cases rest <;> rfl
  | drain j rest => cases rest <;> rfl

/-- What an operation may rely on: its intent is on record only while it
evicts. -/
structure Sound (op : OpId) (co : Coordinator) (pc : Pc) : Prop where
  intent : pc.intends = false → co.evictIntent.get? op = none
  running : pc ≠ .raised

/-- A section leaves the intents of the others alone. -/
def IntentsKept (op : OpId) (co co' : Coordinator) : Prop :=
  ∀ o, o ≠ op → co'.evictIntent.get? o = co.evictIntent.get? o

theorem evictIntent_releaseClaim (co : Coordinator) (c : ClaimId) :
    (co.releaseClaim c).evictIntent = co.evictIntent :=
  (congrArg Coordinator.evictIntent (sansClaims_releaseClaim co c) :)

theorem evictIntent_commitLoad (co : Coordinator) (m : ModelKey) (child : Child)
    (realBytes : Bytes) (ws : List WaiterId) :
    (co.commitLoad m op child realBytes ws).evictIntent = co.evictIntent :=
  (congrArg Coordinator.evictIntent (sansClaims_commitLoad co m op child realBytes ws) :)

/-- What a section does to the intents on record. -/
inductive Intends (op : OpId) (co co' : Coordinator) (pc pc' : Pc) : Prop
  | same (hi : co'.evictIntent = co.evictIntent) (hp : pc'.intends = pc.intends)
  | mark (vs : List ModelKey) (hi : co'.evictIntent = co.evictIntent.insert op vs)
      (hp : pc'.intends = true)
  | clear (hi : co'.evictIntent = co.evictIntent.erase op)

theorem intends_afterFailure (m : ModelKey) (e : EntryId) (ws : List WaiterId)
    (child : Option Child) :
    (Pc.afterFailure m e ws child).intends = false ∧ Pc.afterFailure m e ws child ≠ .raised := by
  cases child <;> exact ⟨rfl, Pc.noConfusion⟩

theorem resume_ne_raised (k : Caller) (ok : Bool) : k.resume ok ≠ .raised := by
  cases k with
  | direct => exact Pc.noConfusion
  | victims m est n rest => cases rest <;> exact Pc.noConfusion
  | drain j rest => cases rest <;> exact Pc.noConfusion

theorem Quiet.intends (h : Quiet pc pc') : pc'.intends = pc.intends ∧ pc' ≠ .raised := by
  cases h with
  | jobPass => exact ⟨intends_resume _ _, resume_ne_raised _ _⟩
  | _ => exact ⟨rfl, Pc.noConfusion⟩

theorem Section.intends (h : Section gpu op co pc co' pc') : Intends op co co' pc pc' := by
  cases h with
  | quiet hq => exact .same rfl hq.intends.1
  | forget =>
    refine .same ?_ rfl
    unfold Coordinator.forget
    split <;> rfl
  | release => exact .same (evictIntent_releaseClaim _ _) rfl
  | endJob =>
    refine .same ?_ rfl
    unfold Coordinator.endJob
    split <;> rfl
  | evictVictims => exact .mark _ rfl (intends_resume _ _)
  | clearIntent => exact .clear rfl
  | reconcile =>
    refine .same ?_ rfl
    unfold Coordinator.reconcile
    split <;> rfl
  | commit => exact .same (evictIntent_commitLoad _ _ _ _ _) rfl
  | failedOwn | failedStale => exact .same rfl (intends_afterFailure _ _ _ _).1
  | evictGone hgone =>
    rcases hgone with rfl | rfl <;> exact .same rfl (intends_resume _ _)
  | evictEnter =>
    refine .same ?_ rfl
    unfold Coordinator.evictEnter
    split
    · rfl
    · split <;> rfl
  | drainFailed =>
    refine .same ?_ (intends_resume _ _)
    split <;> rfl
  | evicted => exact .same rfl (intends_resume _ _)
  | _ => exact .same rfl rfl

/-- Neither assertion of an admission can fail: an intent is cleared before
stage 1 is entered again, and an entry whose generation has not moved is
there. -/
theorem Section.running (h : Section gpu op co pc co' pc') (hs : Sound op co pc)
    (hc : Custody op co pc) : pc' ≠ .raised := by
  cases h with
  | quiet hq => exact hq.intends.2
  | evictVictims | drainFailed | evicted => exact resume_ne_raised _ _
  | intentOpen hi =>
    have hnone := hs.intent rfl
    simp [hnone] at hi
  | keyError hr hg hx =>
    obtain ⟨r', hget, -, htoken⟩ := hc.load _ _ rfl
    obtain rfl := Option.some.inj (hr.symm.trans hget)
    have hcur := htoken.current.mpr hg
    simp [slots, hx] at hcur
  | failedOwn | failedStale => exact (intends_afterFailure _ _ _ _).2
  | evictGone => exact resume_ne_raised _ _
  | _ => exact Pc.noConfusion

theorem holds_sound {s : Sys} (h : Reachable gpu s) :
    Interleaving.Holds (fun _ => True) (fun o co pc => Sound o co pc) s := by
  refine Interleaving.threadwise (R := IntentsKept) ?_ ?_ ?_ h
  · exact ⟨trivial, fun o => ⟨fun _ => rfl, Pc.noConfusion⟩⟩
  · intro s o choice co pc hr hs _ ha
    have hsec := section_of_advance ha
    refine ⟨trivial, ⟨?_, hsec.running (hs.thread o) ((holds_custody hr).thread o)⟩, ?_⟩
    · intro hp
      cases hsec.intends with
      | same hi hp' => rw [hi, (hs.thread o).intent (hp'.symm.trans hp)]
      | mark vs hi hp' => simp [hp'] at hp
      | clear hi => rw [hi, Dict.get?_erase_self]
    · intro u hu
      cases hsec.intends with
      | same hi _ => rw [hi]
      | mark vs hi _ => rw [hi, Dict.get?_insert_ne _ _ hu]
      | clear hi => rw [hi, Dict.get?_erase_ne _ hu]
  · intro t u co co' pc hr hu hs
    exact ⟨fun hp => by rw [hr u hu, hs.intent hp], hs.running⟩

/-! ## The load gate -/

theorem loadGate_releaseClaim (co : Coordinator) (c : ClaimId) :
    (co.releaseClaim c).loadGate = co.loadGate :=
  (congrArg Coordinator.loadGate (sansClaims_releaseClaim co c) :)

theorem loadGate_commitLoad (co : Coordinator) (m : ModelKey) (child : Child)
    (realBytes : Bytes) (ws : List WaiterId) :
    (co.commitLoad m op child realBytes ws).loadGate = co.loadGate :=
  (congrArg Coordinator.loadGate (sansClaims_commitLoad co m op child realBytes ws) :)

theorem holdsGate_resume (k : Caller) (ok : Bool) : (k.resume ok).holdsGate = false := by
  cases k with
  | direct => rfl
  | victims m est n rest => cases rest <;> rfl
  | drain j rest => cases rest <;> rfl

theorem holdsGate_afterFailure (m : ModelKey) (e : EntryId) (ws : List WaiterId)
    (child : Option Child) : (Pc.afterFailure m e ws child).holdsGate = true := by
  cases child <;> rfl

theorem Quiet.holdsGate (h : Quiet pc pc') : pc'.holdsGate = pc.holdsGate := by
  cases h with
  | jobPass => exact holdsGate_resume _ _
  | _ => rfl

theorem Section.gateGuards (h : Section gpu op co pc co' pc') :
    Interleaving.Guards (fun co : Coordinator => co.loadGate = false)
      (fun pc => pc.holdsGate = true) co pc co' pc' := by
  have same : ∀ {co co' : Coordinator} {pc pc' : Pc}, co'.loadGate = co.loadGate →
      pc'.holdsGate = pc.holdsGate → Interleaving.Guards
        (fun co : Coordinator => co.loadGate = false) (fun pc => pc.holdsGate = true) co pc co' pc' :=
    fun hg hp => .inl ⟨by simp [hp], by simp [hg]⟩
  cases h with
  | quiet hq => exact same rfl hq.holdsGate
  | forget =>
    refine same ?_ rfl
    unfold Coordinator.forget
    split <;> rfl
  | release => exact same (loadGate_releaseClaim _ _) rfl
  | endJob =>
    refine same ?_ rfl
    unfold Coordinator.endJob
    split <;> rfl
  | evictVictims => exact same rfl (holdsGate_resume _ _)
  | acquireGate hg => exact .inr (.inl ⟨by simp [hg], rfl, rfl⟩)
  | reconcile => exact .inr (.inr ⟨rfl, Bool.false_ne_true, Bool.noConfusion⟩)
  | commit => exact same (loadGate_commitLoad _ _ _ _ _) rfl
  | failedOwn | failedStale => exact same rfl (holdsGate_afterFailure _ _ _ _)
  | disposedGate => exact .inr (.inr ⟨rfl, Bool.false_ne_true, Bool.noConfusion⟩)
  | evictGone hgone =>
    rcases hgone with rfl | rfl <;> exact same rfl (holdsGate_resume _ _)
  | evictEnter =>
    refine same ?_ rfl
    unfold Coordinator.evictEnter
    split
    · rfl
    · split <;> rfl
  | drainFailed =>
    refine same ?_ (holdsGate_resume _ _)
    split <;> rfl
  | evicted => exact same rfl (holdsGate_resume _ _)
  | _ => exact same rfl rfl

abbrev GateGuarded (s : Sys) : Prop :=
  Interleaving.Guarded (fun co : Coordinator => co.loadGate = false)
    (fun pc => pc.holdsGate = true) s

theorem holds_gate {s : Sys} (h : Reachable gpu s) : GateGuarded s := by
  refine h.invariant (I := GateGuarded) ?_ ?_
  · have out : ∀ o, (Sys.init.pc o).holdsGate = false := fun _ => rfl
    refine ⟨fun o ho => ?_, fun hb => ?_, fun o _ ho => ?_⟩
    · simp [out] at ho
    · cases hb
    · simp [out] at ho
  · intro s a s' _ hI _ hn
    obtain ⟨op, choice⟩ := a
    exact hI.next hn fun x k ha => (section_of_advance ha).gateGuards

/-! ## Nothing else holds a call up -/

theorem resume_ne_evict {m : ModelKey} {k : Caller} {ok : Bool} (hk : k.admitting = true) :
    k.resume ok ≠ .evict m k := by
  obtain ⟨m', est, n, rest, rfl⟩ := victims_of_admitting hk
  cases rest with
  | nil => exact Pc.noConfusion
  | cons v rest =>
    intro heq
    have hlen := congrArg (Pc.rank 0) heq
    simp [Caller.resume, Pc.rank, Caller.rank] at hlen

theorem resume_ne_draining (k k' : Caller) (m : ModelKey) (ok : Bool) :
    k.resume ok ≠ .draining m k' := by
  cases k with
  | direct => exact Pc.noConfusion
  | victims m est n rest => cases rest <;> exact Pc.noConfusion
  | drain j rest => cases rest <;> exact Pc.noConfusion

theorem resume_ne_evicted (k k' : Caller) (m : ModelKey) (e : EntryId) (gen : Nat) (ok : Bool) :
    k.resume ok ≠ .evicted m e gen k' := by
  cases k with
  | direct => exact Pc.noConfusion
  | victims m est n rest => cases rest <;> exact Pc.noConfusion
  | drain j rest => cases rest <;> exact Pc.noConfusion

/-- A call at the gate waits for it to open; one that stands anywhere else
can go on. -/
theorem canMove_of_admitting {s : Sys} (hin : (s.pc op).admitting = true)
    (hg : ∀ m est e, s.pc op = .gate m est e → s.shared.loadGate = true) :
    Interleaving.CanMove (advance gpu) op s := by
  cases hpc : s.pc op with
  | attempt m est n =>
    refine ⟨.expired, s.shared, ?_⟩
    rw [hpc]
    simp only [advance]
    split <;> exact ⟨_, rfl, Pc.noConfusion⟩
  | awaitLoad m est n w =>
    refine ⟨.go, _, _, by rw [hpc]; rfl, ?_⟩
    rw [hpc]
    split <;> exact Pc.noConfusion
  | awaitTransient m est n => exact ⟨.expired, _, _, by rw [hpc]; rfl, by rw [hpc]; exact Pc.noConfusion⟩
  | clearIntent m est n => exact ⟨.go, _, _, by rw [hpc]; rfl, by rw [hpc]; exact Pc.noConfusion⟩
  | gate m est e =>
    refine ⟨.go, { s.shared with loadGate := false }, .load m est e, ?_, ?_⟩
    · rw [hpc]
      simp [advance, hg m est e hpc]
    · rw [hpc]
      exact Pc.noConfusion
  | load m est e => exact ⟨.loadRaised, _, _, by rw [hpc]; rfl, by rw [hpc]; exact Pc.noConfusion⟩
  | reconcile m e child realBytes =>
    exact ⟨.go, _, _, by rw [hpc]; rfl, by rw [hpc]; exact Pc.noConfusion⟩
  | commit m e child realBytes =>
    refine ⟨.go, _, _, by rw [hpc]; rfl, ?_⟩
    rw [hpc]
    unfold CommitPlan.resume
    split <;> exact Pc.noConfusion
  | rollback m e gen child ws d =>
    exact ⟨.go, _, _, by rw [hpc]; rfl, by rw [hpc]; exact Pc.noConfusion⟩
  | rolledBack m e gen ws d =>
    exact ⟨.go, _, _, by rw [hpc]; rfl, by rw [hpc]; exact Pc.noConfusion⟩
  | loadFailed m e child =>
    refine ⟨.go, _, _, by rw [hpc]; rfl, ?_⟩
    rw [hpc]
    unfold Pc.afterFailure
    split <;> exact Pc.noConfusion
  | failedUnload m e child ws =>
    exact ⟨.go, _, _, by rw [hpc]; rfl, by rw [hpc]; exact Pc.noConfusion⟩
  | dispose ws d holds =>
    exact ⟨.go, _, _, by rw [hpc]; rfl, by rw [hpc]; exact Pc.noConfusion⟩
  | evict m k =>
    refine ⟨.go, _, _, by rw [hpc]; rfl, ?_⟩
    rw [hpc] at hin ⊢
    split
    · exact Pc.noConfusion
    · exact resume_ne_evict hin
  | draining m k =>
    refine ⟨.expired, _, _, by rw [hpc]; rfl, ?_⟩
    rw [hpc]
    unfold Coordinator.evictDrain
    split
    · exact resume_ne_draining _ _ _ _
    · split
      · exact Pc.noConfusion
      · exact resume_ne_draining _ _ _ _
  | evicting m e gen child k =>
    exact ⟨.go, _, _, by rw [hpc]; rfl, by rw [hpc]; exact Pc.noConfusion⟩
  | evicted m e gen k =>
    exact ⟨.go, _, _, by rw [hpc]; rfl, by rw [hpc]; exact resume_ne_evicted _ _ _ _ _ _⟩
  | idle | jobDrain | jobClose | served | finished | raised =>
    rw [hpc] at hin
    cases hin

/-! ## Every fair run -/

theorem admitting_of_holdsGate (h : pc.holdsGate = true) : pc.admitting = true := by
  unfold Pc.holdsGate at h
  split at h <;> first | rfl | cases h

theorem not_gate_of_holdsGate (h : pc.holdsGate = true) (m : ModelKey) (est : Bytes)
    (e : EntryId) : pc ≠ .gate m est e := by
  rintro rfl
  cases h

variable {b : Interleaving.Behaviour (advance gpu) Sys.init} {i : ℕ}

theorem inside_of_moves (h : b.Moves op i) (hin : ((b.state i).pc op).admitting = true) :
    Descends gpu.config.maxAdmissionAttempts ((b.state i).pc op) ((b.state (i + 1)).pc op) := by
  obtain ⟨c, hc⟩ := b.section_of_moves h
  exact descends_of_advance hin (inBudget_of_reachable (b.reachable i) op) hc

/-- From an instant inside the call on, it is inside or has returned. -/
theorem inside_from (hin : ((b.state i).pc op).admitting = true) :
    ∀ j ≥ i, ((b.state j).pc op).admitting = true ∨ ∃ k ≤ j, i ≤ k ∧ ∃ o,
      (b.state k).pc op = .served o := by
  intro j hj
  induction j, hj using Nat.le_induction with
  | base => exact .inl hin
  | succ j hj ih =>
    rcases ih with ih | ⟨k, hk, hik, hserved⟩
    · by_cases hmoves : b.Moves op j
      · rcases (inside_of_moves hmoves ih).inside with h | h | h
        · exact .inl h
        · exact .inr ⟨j + 1, le_rfl, by omega, h⟩
        · exact absurd h ((holds_sound (b.reachable (j + 1))).thread op).running
      · rw [not_not.mp hmoves]
        exact .inl ih
    · exact .inr ⟨k, by omega, hik, hserved⟩

/-- A thread treated fairly that stays inside comes to stand at a closed
gate. -/
theorem stands_at_gate (hfair : b.Fair op) (hin : ∀ j ≥ i, ((b.state j).pc op).admitting = true) :
    ∃ n ≥ i, ∃ m est e, ∀ j ≥ n, (b.state j).pc op = .gate m est e ∧
      (b.state j).shared.loadGate = false := by
  obtain ⟨n, hn, hstops⟩ := hfair.settles (Pc.rank gpu.config.maxAdmissionAttempts) (i := i)
    fun j hj hmoves => (inside_of_moves hmoves (hin j hj)).down.resolve_left hmoves
  refine ⟨n, hn, ?_⟩
  by_cases hgate : ∃ m est e, (b.state n).pc op = .gate m est e
  · obtain ⟨m, est, e, hpc⟩ := hgate
    refine ⟨m, est, e, fun j hj => ?_⟩
    obtain ⟨hsame, hstuck⟩ := hstops j hj
    refine ⟨hsame.trans hpc, ?_⟩
    by_contra hopen
    exact hstuck (canMove_of_admitting (hin j (hn.trans hj)) fun _ _ _ _ => by simpa using hopen)
  · simp only [not_exists] at hgate
    obtain ⟨-, hstuck⟩ := hstops n le_rfl
    refine absurd ?_ hstuck
    exact canMove_of_admitting (hin n hn) fun m est e hpc => absurd hpc (hgate m est e)

/-- Where every admission is treated fairly one that has begun returns. -/
theorem returns_of_fair (hfair : ∀ u j, ((b.state j).pc u).admitting = true → b.Fair u)
    (hin : ((b.state i).pc op).admitting = true) :
    ∃ j ≥ i, ∃ o, (b.state j).pc op = .served o := by
  by_contra hnever
  have hstays : ∀ j ≥ i, ((b.state j).pc op).admitting = true := by
    intro j hj
    refine (inside_from hin j hj).resolve_right ?_
    rintro ⟨k, -, hik, hserved⟩
    exact hnever ⟨k, hik, hserved⟩
  obtain ⟨n, -, m, est, e, hclosed⟩ := stands_at_gate (hfair op i hin) hstays
  -- the gate never opens again, so who holds it holds it for good
  obtain ⟨u, hu⟩ := b.holder_stays (fun j => holds_gate (b.reachable j))
    (fun _ _ _ _ _ _ ha => (section_of_advance ha).gateGuards) fun j hj => (hclosed j hj).2
  obtain ⟨n', hn', m', est', e', hgate⟩ :=
    stands_at_gate (hfair u n (admitting_of_holdsGate (hu n le_rfl)))
      fun j hj => admitting_of_holdsGate (hu j hj)
  exact not_gate_of_holdsGate (hu n' hn') m' est' e' (hgate n' le_rfl).1

end Coordinator

end MlopsLite.HostAgent
