import MlopsLite.HostAgent.Jobs.Manager

/-!
# Jobs — the slot and the lease

The manager's tenant holds the single GPU slot exactly while a job that
acquired it has the job slot, and every end of a launch frees both
(`slot_and_lease_agree`).
-/

namespace MlopsLite.HostAgent.Jobs

open Lifecycle (Tenant ThreadId EngineId ChildRef Ret)
open Interleaving (Guarded Guards)

variable {cfg : JobConfig} {t : ThreadId} {c : Choice} {x x' : Shared} {k k' : Pc}

/-! ## What a section does -/

/-- Past the look at the job slot. -/
def Pc.pastSlot : Pc → Bool
  | .journal .. | .unwind _ => true
  | _ => false

theorem Pc.inside_of_pastSlot (h : k.pastSlot = true) : k.inside = true := by
  cases k <;> first | rfl | cases h

/-- A launch that has got past the job slot: it took the lease, or it may
not touch it. -/
def Pc.going (k : Pc) : Bool := k.owned?.isSome || k.pastSlot

/-- The kinds of section, by what they do to the slot and the lease. -/
inductive Section (x : Shared) : Pc → Shared → Pc → Prop
  | keeps {k k' : Pc} {x' : Shared} (manager : x'.manager = x.manager)
      (tenant : x'.admission.tenant = some training ↔ x.admission.tenant = some training)
      (inside : k'.inside = k.inside) (owned : k'.owned? = k.owned?)
      (leased : k'.leased = k.leased) (past : k'.pastSlot = true → k.pastSlot = true)
      (admission : k.going = true → x'.admission = x.admission) :
      Section x k x' k'
  | enters (sub : Submission) (free : x.manager.locked = false) :
      Section x (.waiting sub) x.lock (.check sub)
  | leaves {k k' : Pc} {x' : Shared} (manager : x'.manager = { x.manager with locked := false })
      (tenant : x'.admission.tenant = x.admission.tenant) (inside : k.inside = true)
      (past : k.pastSlot = false) (owned : k'.owned? = none) (leased : k'.leased = false)
      (outside : k'.inside = false) : Section x k x' k'
  | takes (sub : Submission) (key : Option Key) (idle : x.manager.active = none)
      (a : Admission) (took : a.tenant = some training) :
      Section x (.slot sub key)
        { x with admission := a, manager := { x.manager with leaseHeld := true } }
        (.journal sub key true)
  | skips (sub : Submission) (key : Option Key) (idle : x.manager.active = none) :
      Section x (.slot sub key) x (.journal sub key false)
  | launches (sub : Submission) (key : Option Key) (took : Bool) (id : String) (nth : ℕ)
      {x' : Shared} (locked : x'.manager.locked = false) (active : x'.manager.active = some id)
      (lease : x'.manager.leaseHeld = x.manager.leaseHeld) (admission : x'.admission = x.admission) :
      Section x (.journal sub key took) x' (.start ⟨id, took, nth⟩)
  | unwinds (took : Bool) : Section x (.unwind took) x.giveBack.unlock (.refused .raised)
  | releases {k k' : Pc} {run : Run} (owned : k.owned? = some run)
      (free : x.manager.locked = false) (inside : k'.inside = false) (none : k'.owned? = none)
      (leased : k'.leased = false) : Section x k x.release k'

/-- The engines' calls leave a job's lease alone. -/
theorem tenant_engineCall (cfg : SlotConfig) (a : Admission) (call : EngineCall) :
    (call.apply cfg a).tenant = some training ↔ a.tenant = some training := by
  cases call with
  | acquire e free =>
    rcases Admission.tenant_acquire cfg a (.engine e) free with h | ⟨hnone, -, h⟩
    · simp only [EngineCall.apply, h]
    · simp [EngineCall.apply, h, hnone, training]
  | release e =>
    simp only [EngineCall.apply, Admission.tenant_release]
    split
    · rename_i h
      simp [h, training]
    · exact Iff.rfl
  | setChild e c => simp only [EngineCall.apply, Admission.tenant_setChild]
  | beginSwap target =>
    simp only [EngineCall.apply]
    cases h : a.beginSwap target with
    | none => exact Iff.rfl
    | some a' =>
      obtain ⟨-, rfl⟩ := Admission.of_beginSwap h
      exact Iff.rfl
  | endSwap target => simp only [EngineCall.apply, Admission.tenant_endSwap]
  | retargetSwap old new => simp only [EngineCall.apply, Admission.tenant_retargetSwap]

/-- The kept manager and tenant: sections on the journal and the history. -/
theorem Section.of_journal (run : Run) (manager : x'.manager = x.manager)
    (admission : x'.admission = x.admission) (inside : k.inside = false)
    (inside' : k'.inside = false) (owned : k.owned? = some run) (owned' : k'.owned? = some run)
    (leased : k.leased = run.took) (leased' : k'.leased = run.took)
    (past : k'.pastSlot = false) : Section x k x' k' := by
  refine .keeps manager ?_ (inside'.trans inside.symm) (owned'.trans owned.symm)
    (leased'.trans leased.symm) ?_ fun _ => admission
  · rw [admission]
  · intro h
    cases past.symm.trans h

theorem manager_of_transition {id : String} {ch : Change} (h : x.transition id ch = some x') :
    x'.manager = x.manager ∧ x'.admission = x.admission := by
  obtain ⟨j, -, rfl⟩ := Option.map_eq_some_iff.mp h
  exact ⟨rfl, rfl⟩

theorem of_written {α : Type} {c : Choice} {w : Option α} {a : α} (h : written c w = some a) :
    w = some a := by
  cases c <;> first | exact h | cases h

theorem section_of_advance (h : advance cfg t c x k = some (x', k')) : Section x k x' k' := by
  cases k with
  | idle =>
    cases c <;> simp only [advance] at h <;> try cases h
    · split at h
      · cases h
        exact .keeps rfl Iff.rfl rfl rfl rfl id fun h => by cases h
      · cases h
        exact .keeps rfl Iff.rfl rfl rfl rfl id fun h => by cases h
    · exact .keeps rfl (tenant_engineCall ..) rfl rfl rfl id fun h => by cases h
    · split at h
      · cases h
        exact .keeps rfl Iff.rfl rfl rfl rfl id fun _ => rfl
      · cases h
  | waiting sub =>
    simp only [advance] at h
    split at h
    · cases h
    · rename_i hfree
      cases h
      exact .enters sub (by simpa using hfree)
  | check sub =>
    simp only [advance] at h
    split at h
    · cases h
      exact .leaves rfl rfl rfl rfl rfl rfl rfl
    · cases h
      exact .keeps rfl Iff.rfl rfl rfl rfl id fun _ => rfl
    · split at h
      · cases h
        exact .leaves rfl rfl rfl rfl rfl rfl rfl
      · cases h
        exact .keeps rfl Iff.rfl rfl rfl rfl id fun _ => rfl
  | slot sub key =>
    simp only [advance] at h
    split at h
    · cases h
      exact .leaves rfl rfl rfl rfl rfl rfl rfl
    · rename_i hactive
      have hidle : x.manager.active = none := by simpa using hactive
      split at h
      · cases c <;> simp only [reduceCtorEq] at h
        rename_i reading
        split at h
        · rename_i a ha
          cases h
          exact .takes sub key hidle a (by
            have := Admission.tenant_of_acquired (congrArg Prod.snd ha)
            rwa [ha] at this)
        · rename_i a r hnot ha
          cases h
          refine .leaves rfl ?_ rfl rfl rfl rfl rfl
          have hret : (x.admission.acquire cfg.slot training reading).2 ≠ .ok := by
            rw [ha]
            exact hnot
          have hsame := Admission.acquire_of_refused hret
          rw [ha] at hsame
          exact congrArg Admission.tenant hsame
      · cases h
        exact .skips sub key hidle
  | journal sub key took =>
    simp only [advance] at h
    split at h
    · cases h
      exact .launches sub key took _ _ rfl rfl rfl rfl
    · cases h
      exact .keeps rfl Iff.rfl rfl rfl rfl (fun _ => rfl) fun _ => rfl
  | unwind took =>
    cases h
    exact .unwinds took
  | start run =>
    cases c <;> cases h <;> exact .of_journal run rfl rfl rfl rfl rfl rfl rfl rfl rfl
  | abandon run =>
    simp only [advance] at h
    split at h
    · cases h
    · rename_i hfree
      cases h
      exact .releases (show _ = some run from rfl) (by simpa using hfree) rfl rfl rfl
  | began run =>
    simp only [advance] at h
    split at h
    · rename_i x₁ hw
      cases h
      obtain ⟨hm, ha⟩ := manager_of_transition (of_written hw)
      exact .of_journal run hm ha rfl rfl rfl rfl rfl rfl rfl
    · cases h
      exact .of_journal run rfl rfl rfl rfl rfl rfl rfl rfl rfl
  | working run =>
    cases c <;> cases h
    exact .of_journal run rfl rfl rfl rfl rfl rfl rfl rfl rfl
  | ending run update =>
    simp only [advance] at h
    split at h
    · rename_i x₁ hw
      cases h
      obtain ⟨hm, ha⟩ := manager_of_transition (of_written hw)
      exact .of_journal run hm ha rfl rfl rfl rfl rfl rfl rfl
    · cases h
      exact .of_journal run rfl rfl rfl rfl rfl rfl rfl rfl rfl
  | free run =>
    simp only [advance] at h
    split at h
    · cases h
    · rename_i hfree
      cases h
      exact .releases (show _ = some run from rfl) (by simpa using hfree) rfl rfl rfl
  | existing job =>
    cases h
    exact .keeps rfl Iff.rfl rfl rfl rfl id fun _ => rfl
  | refused why =>
    cases h
    exact .keeps rfl Iff.rfl rfl rfl rfl id fun _ => rfl

/-! ## The invariant -/

/-- Each flag is up exactly while one thread stands in its section. -/
structure Held (s : Sys) : Prop where
  lock : Guarded (fun x : Shared => x.manager.locked = true) (fun k => k.inside = true) s
  slot : Guarded (fun x : Shared => x.manager.active.isSome = true)
    (fun k => k.owned?.isSome = true) s
  lease : Guarded (fun x : Shared => x.manager.leaseHeld = true) (fun k => k.leased = true) s
  past : ∀ t, (s.pc t).pastSlot = true → s.shared.manager.active = none
  named : ∀ t run, (s.pc t).owned? = some run → s.shared.manager.active = some run.id
  tenant : s.shared.admission.tenant = some training ↔ s.shared.manager.leaseHeld = true

theorem Pc.leased_cases (h : k.leased = true) :
    k.pastSlot = true ∨ ∃ run, k.owned? = some run ∧ run.took = true := by
  cases k with
  | journal sub key took => exact .inl rfl
  | unwind took => exact .inl rfl
  | start run => exact .inr ⟨run, rfl, h⟩
  | abandon run => exact .inr ⟨run, rfl, h⟩
  | began run => exact .inr ⟨run, rfl, h⟩
  | working run => exact .inr ⟨run, rfl, h⟩
  | ending run update => exact .inr ⟨run, rfl, h⟩
  | free run => exact .inr ⟨run, rfl, h⟩
  | _ => cases h

theorem Pc.leased_of_owned {run : Run} (h : k.owned? = some run) : k.leased = run.took := by
  cases k <;> simp only [Pc.owned?, Option.some.injEq, reduceCtorEq] at h <;> subst h <;> rfl

theorem Pc.not_inside_of_owned {run : Run} (h : k.owned? = some run) :
    k.inside = false ∧ k.pastSlot = false := by
  cases k <;> simp only [Pc.owned?, reduceCtorEq] at h <;> exact ⟨rfl, rfl⟩

variable {s s' : Sys}

namespace Held

/-- Nobody holds the lease of another: with the slot free and the lock held
by `t`, a lease is `t`'s. -/
theorem lease_of_past (h : Held s) (hin : (s.pc t).inside = true)
    (hidle : s.shared.manager.active = none) (hheld : s.shared.manager.leaseHeld = true) :
    (s.pc t).leased = true := by
  obtain ⟨u, hu⟩ := h.lease.held hheld
  rcases Pc.leased_cases hu with hpast | ⟨run, hown, -⟩
  · rwa [h.lock.unique t u hin (Pc.inside_of_pastSlot hpast)]
  · cases (h.named u run hown).symm.trans hidle

/-- Nor while `t` owns the slot. -/
theorem lease_of_owned (h : Held s) {run : Run} (hown : (s.pc t).owned? = some run)
    (hheld : s.shared.manager.leaseHeld = true) : run.took = true := by
  obtain ⟨u, hu⟩ := h.lease.held hheld
  rcases Pc.leased_cases hu with hpast | ⟨run', hown', htook⟩
  · cases (h.named t run hown).symm.trans (h.past u hpast)
  · have htu : t = u := h.slot.unique t u (by rw [hown]; rfl) (by rw [hown']; rfl)
    subst htu
    rw [Option.some.inj (hown.symm.trans hown')]
    exact htook

end Held

/-! ## The steps keep it -/

@[simp] theorem giveBack_leaseHeld (x : Shared) : x.giveBack.manager.leaseHeld = false := by
  unfold Shared.giveBack
  split
  · rfl
  · simp_all

@[simp] theorem giveBack_active (x : Shared) : x.giveBack.manager.active = x.manager.active := by
  unfold Shared.giveBack
  split <;> rfl

@[simp] theorem giveBack_locked (x : Shared) : x.giveBack.manager.locked = x.manager.locked := by
  unfold Shared.giveBack
  split <;> rfl

/-- After it the tenant is not the manager's. -/
theorem tenant_giveBack (h : x.admission.tenant = some training ↔ x.manager.leaseHeld = true) :
    x.giveBack.admission.tenant ≠ some training := by
  unfold Shared.giveBack
  split
  · rename_i hheld
    show (x.admission.release training).tenant ≠ some training
    rw [Admission.tenant_release, if_pos (h.mpr hheld)]
    exact Option.some_ne_none _ |>.symm
  · rename_i hnot
    exact fun htenant => hnot (h.mp htenant)

/-- A lease that was not taken is not given back. -/
theorem giveBack_of_not_held (h : ¬ x.manager.leaseHeld = true) : x.giveBack = x := by
  simp [Shared.giveBack, h]

theorem guards_lock (h : Section x k x' k') :
    Guards (fun x : Shared => x.manager.locked = true) (fun k => k.inside = true) x k x' k' := by
  cases h with
  | keeps manager tenant inside owned leased past admission =>
    left
    simp [inside, manager]
  | enters sub free =>
    right; left
    exact ⟨by simp [free], rfl, rfl⟩
  | leaves manager tenant inside past owned leased outside =>
    right; right
    exact ⟨inside, by simp [outside], by simp [manager]⟩
  | takes sub key idle a took =>
    left
    exact ⟨Iff.rfl, Iff.rfl⟩
  | skips sub key idle =>
    left
    exact ⟨Iff.rfl, Iff.rfl⟩
  | launches sub key took id nth locked active lease admission =>
    right; right
    exact ⟨rfl, by simp [Pc.inside], by simp [locked]⟩
  | unwinds took =>
    right; right
    exact ⟨rfl, by simp [Pc.inside], by simp [Shared.unlock]⟩
  | releases owned free inside none leased =>
    left
    simp [inside, (Pc.not_inside_of_owned owned).1, Shared.release]

theorem guards_slot (hpast : k.pastSlot = true → x.manager.active = none)
    (h : Section x k x' k') :
    Guards (fun x : Shared => x.manager.active.isSome = true) (fun k => k.owned?.isSome = true)
      x k x' k' := by
  cases h with
  | keeps manager tenant inside owned leased past admission =>
    left
    simp [owned, manager]
  | enters sub free =>
    left
    exact ⟨Iff.rfl, Iff.rfl⟩
  | leaves manager tenant inside past owned leased outside =>
    left
    have hk : k.owned? = none := by
      cases hown : k.owned? with
      | none => rfl
      | some run => cases (Pc.not_inside_of_owned hown).1.symm.trans inside
    simp [owned, hk, manager]
  | takes sub key idle a took =>
    left
    exact ⟨Iff.rfl, Iff.rfl⟩
  | skips sub key idle =>
    left
    exact ⟨Iff.rfl, Iff.rfl⟩
  | launches sub key took id nth locked active lease admission =>
    right; left
    exact ⟨by simp [hpast rfl], rfl, by simp [active]⟩
  | unwinds took =>
    left
    simp [Pc.owned?, Shared.unlock]
  | releases owned free inside none leased =>
    right; right
    exact ⟨by simp [owned], by simp [none], by simp [Shared.release]⟩

theorem guards_lease (hidle : k.inside = true → x.manager.active = none →
      x.manager.leaseHeld = true → k.leased = true)
    (hpast : k.pastSlot = true → x.manager.active = none)
    (hown : ∀ run, k.owned? = some run → x.manager.leaseHeld = true → run.took = true)
    (h : Section x k x' k') :
    Guards (fun x : Shared => x.manager.leaseHeld = true) (fun k => k.leased = true)
      x k x' k' := by
  cases h with
  | keeps manager tenant inside owned leased past admission =>
    left
    simp [leased, manager]
  | enters sub free =>
    left
    exact ⟨Iff.rfl, Iff.rfl⟩
  | leaves manager tenant inside past owned leased outside =>
    left
    have hk : k.leased = false := by
      cases hl : k.leased with
      | false => rfl
      | true =>
        rcases Pc.leased_cases hl with hpast | ⟨run, hown, -⟩
        · cases past.symm.trans hpast
        · cases (Pc.not_inside_of_owned hown).1.symm.trans inside
    simp [leased, hk, manager]
  | takes sub key idle a took =>
    right; left
    refine ⟨fun hheld => ?_, rfl, rfl⟩
    cases hidle rfl idle hheld
  | skips sub key idle =>
    left
    exact ⟨Iff.rfl, Iff.rfl⟩
  | launches sub key took id nth locked active lease admission =>
    left
    exact ⟨Iff.rfl, by simp [lease]⟩
  | unwinds took =>
    cases took with
    | true =>
      right; right
      exact ⟨rfl, by simp [Pc.leased], by simp [Shared.unlock]⟩
    | false =>
      left
      have hnot : ¬ x.manager.leaseHeld = true := fun hheld => by
        cases hidle rfl (hpast rfl) hheld
      exact ⟨Iff.rfl, by simp [Shared.unlock, hnot]⟩
  | @releases k k' run owned free inside none leased =>
    cases htook : run.took with
    | true =>
      right; right
      exact ⟨(Pc.leased_of_owned owned).trans htook, by simp [leased], by simp [Shared.release]⟩
    | false =>
      left
      have hnot : ¬ x.manager.leaseHeld = true := fun hheld => by
        cases htook.symm.trans (hown run owned hheld)
      simp [leased, Pc.leased_of_owned owned, htook, hnot, Shared.release]

theorem tenant_of_section (htenant : x.admission.tenant = some training ↔
    x.manager.leaseHeld = true) (h : Section x k x' k') :
    x'.admission.tenant = some training ↔ x'.manager.leaseHeld = true := by
  cases h with
  | keeps manager tenant inside owned leased past admission => rw [tenant, manager, htenant]
  | enters sub free => exact htenant
  | leaves manager tenant inside past owned leased outside => rw [tenant, manager, htenant]
  | takes sub key idle a took => simp [took]
  | skips sub key idle => exact htenant
  | launches sub key took id nth locked active lease admission => rw [lease, admission, htenant]
  | unwinds took =>
    have hne := tenant_giveBack htenant
    simp [Shared.unlock, hne]
  | releases owned free inside none leased =>
    have hne := tenant_giveBack htenant
    simp [Shared.release, hne]

theorem Held.next (h : Held s) {a : Act} (hn : next cfg s a = some s') : Held s' := by
  obtain ⟨t, c⟩ := a
  obtain ⟨ha, other⟩ := Interleaving.of_next hn
  have hsec := section_of_advance ha
  have hslot : Guarded (fun x : Shared => x.manager.active.isSome = true)
      (fun k => k.owned?.isSome = true) s' :=
    h.slot.next hn fun x' k' ha' => guards_slot (h.past t) (section_of_advance ha')
  refine ⟨?_, hslot, ?_, ?_, ?_, tenant_of_section h.tenant hsec⟩
  · exact h.lock.next hn fun x' k' ha' => guards_lock (section_of_advance ha')
  · exact h.lease.next hn fun x' k' ha' => guards_lease (fun hin => h.lease_of_past hin)
      (h.past t) (fun run => h.lease_of_owned) (section_of_advance ha')
  · intro u hu
    by_cases hut : u = t
    · subst hut
      generalize hpc : s.pc u = k₀ at hsec
      generalize s'.pc u = k₁ at hsec hu
      generalize s'.shared = x at hsec ⊢
      cases hsec with
      | keeps manager tenant inside owned leased past admission =>
        rw [manager]
        exact h.past u (hpc ▸ past hu)
      | takes sub key idle a took => exact idle
      | skips sub key idle => exact idle
      | leaves manager tenant inside past owned leased outside =>
        cases outside.symm.trans (Pc.inside_of_pastSlot hu)
      | releases owned free inside none leased => rfl
      | _ => cases hu
    · rw [other u hut] at hu
      have hidle := h.past u hu
      have hin := Pc.inside_of_pastSlot hu
      generalize hpc : s.pc t = k₀ at hsec
      generalize s'.pc t = k₁ at hsec
      generalize s'.shared = x at hsec ⊢
      cases hsec with
      | keeps manager tenant inside owned leased past admission => rw [manager]; exact hidle
      | enters sub free => exact hidle
      | leaves manager tenant inside past owned leased outside => rw [manager]; exact hidle
      | takes sub key idle a took => exact idle
      | skips sub key idle => exact idle
      | launches sub key took id nth locked active lease admission =>
        exact absurd (h.lock.unique u t hin (by rw [hpc]; rfl)) hut
      | unwinds took => simpa [Shared.unlock] using hidle
      | releases owned free inside none leased => rfl
  · intro u run hown
    by_cases hut : u = t
    · subst hut
      generalize hpc : s.pc u = k₀ at hsec
      generalize s'.pc u = k₁ at hsec hown
      generalize s'.shared = x at hsec ⊢
      cases hsec with
      | keeps manager tenant inside owned leased past admission =>
        rw [manager]
        exact h.named u run (by rw [hpc, ← owned]; exact hown)
      | leaves manager tenant inside past owned leased outside => cases owned.symm.trans hown
      | launches sub key took id nth locked active lease admission =>
        obtain rfl := Option.some.inj hown
        exact active
      | releases owned free inside none leased => cases none.symm.trans hown
      | _ => cases hown
    · rw [other u hut] at hown
      have hactive := h.named u run hown
      generalize hpc : s.pc t = k₀ at hsec
      generalize s'.pc t = k₁ at hsec
      generalize s'.shared = x at hsec ⊢
      cases hsec with
      | keeps manager tenant inside owned leased past admission => rw [manager]; exact hactive
      | enters sub free => exact hactive
      | leaves manager tenant inside past owned leased outside => rw [manager]; exact hactive
      | takes sub key idle a took => exact hactive
      | skips sub key idle => exact hactive
      | launches sub key took id nth locked active lease admission =>
        cases hactive.symm.trans (h.past t (by rw [hpc]; rfl))
      | unwinds took => simpa [Shared.unlock] using hactive
      | releases owned free inside none leased =>
        have htu : u = t := h.slot.unique u t (by rw [hown]; rfl) (by rw [hpc, owned]; rfl)
        exact absurd htu hut

theorem held_init (journal : Journal) (now : ℚ) : Held (Sys.init journal now) := by
  have hidle : ∀ flag : Shared → Prop, ∀ inside : Pc → Prop, ¬ inside .idle →
      ¬ flag (Sys.init journal now).shared → Guarded flag inside (Sys.init journal now) := by
    intro flag inside hin hflag
    exact ⟨fun _ h => absurd h hin, fun h => absurd h hflag, fun _ _ h => absurd h hin⟩
  refine ⟨hidle _ _ (by simp [Pc.inside]) (by simp [Sys.init]),
    hidle _ _ (by simp [Pc.owned?]) (by simp [Sys.init]),
    hidle _ _ (by simp [Pc.leased]) (by simp [Sys.init]), ?_, ?_, ?_⟩
  · intro t ht
    cases ht
  · intro t run ht
    cases ht
  · simp [Sys.init, Admission.init, Admission.tenant]

theorem held_of_reachable {journal : Journal} {now : ℚ}
    (h : Runs.Reachable (next cfg) Runs.anyStep (Sys.init journal now) s) : Held s :=
  h.invariant (held_init journal now) fun _ _ _ _ hI _ hn => hI.next hn

/-! ## The slot and the lease agree -/

/-- The lease and the job slot in a state. -/
structure Agree (s : Sys) : Prop where
  /-- The tenant is the manager's exactly while a launch that took the lease is going. -/
  lease : s.shared.admission.tenant = some training ↔ ∃ t, (s.pc t).leased = true
  /-- With nobody in `submit`'s section: while a job that took it is active. -/
  active : s.shared.manager.locked = false →
    (s.shared.admission.tenant = some training ↔
      ∃ t run, (s.pc t).owned? = some run ∧ run.took = true ∧
        s.shared.manager.active = some run.id)
  /-- The slot is a launch's that is still going. -/
  slot : ∀ id, s.shared.manager.active = some id ↔
    ∃ t run, (s.pc t).owned? = some run ∧ run.id = id

/-- Where a launch ends, or fails after it took the slot or the lease. -/
def Ends (k k' : Pc) : Prop :=
  (k.owned?.isSome = true ∨ k.leased = true) ∧ k'.owned? = none ∧ k'.leased = false

/-- At every step: the end of a launch frees the slot and the lease, and one
that took no lease leaves the admission as it was. -/
structure Frees (s s' : Sys) (t : ThreadId) : Prop where
  both : Ends (s.pc t) (s'.pc t) →
    s'.shared.manager.active = none ∧ s'.shared.admission.tenant ≠ some training
  own : (s.pc t).going = true → (s.pc t).leased = false →
    s'.shared.admission = s.shared.admission

theorem agree_of_held (h : Held s) : Agree s := by
  have hlease : s.shared.admission.tenant = some training ↔ ∃ t, (s.pc t).leased = true := by
    rw [h.tenant]
    constructor
    · exact h.lease.held
    · rintro ⟨t, ht⟩
      exact h.lease.up t ht
  refine ⟨hlease, ?_, ?_⟩
  · intro hfree
    rw [hlease]
    constructor
    · rintro ⟨t, ht⟩
      rcases Pc.leased_cases ht with hpast | ⟨run, hown, htook⟩
      · cases hfree.symm.trans (h.lock.up t (Pc.inside_of_pastSlot hpast))
      · exact ⟨t, run, hown, htook, h.named t run hown⟩
    · rintro ⟨t, run, hown, htook, -⟩
      exact ⟨t, (Pc.leased_of_owned hown).trans htook⟩
  · intro id
    constructor
    · intro hactive
      obtain ⟨t, ht⟩ := h.slot.held (by rw [hactive]; rfl)
      obtain ⟨run, hown⟩ := Option.isSome_iff_exists.mp ht
      exact ⟨t, run, hown, Option.some.inj ((h.named t run hown).symm.trans hactive)⟩
    · rintro ⟨t, run, hown, rfl⟩
      exact h.named t run hown

/-- The end of a launch. -/
theorem freed_of_section (htenant : x.admission.tenant = some training ↔
    x.manager.leaseHeld = true) (hpast : k.pastSlot = true → x.manager.active = none)
    (hends : Ends k k') (h : Section x k x' k') :
    x'.manager.active = none ∧ x'.admission.tenant ≠ some training := by
  obtain ⟨hwas, hnone, hleft⟩ := hends
  cases h with
  | keeps manager tenant inside owned leased past admission =>
    rw [owned] at hnone
    rw [leased] at hleft
    simp [hnone, hleft] at hwas
  | unwinds took => exact ⟨by simpa [Shared.unlock] using hpast rfl, tenant_giveBack htenant⟩
  | releases owned free inside none leased => exact ⟨rfl, tenant_giveBack htenant⟩
  | leaves manager tenant inside past owned leased outside =>
    exfalso
    rcases hwas with hown | hleased
    · obtain ⟨run, hrun⟩ := Option.isSome_iff_exists.mp hown
      cases (Pc.not_inside_of_owned hrun).1.symm.trans inside
    · rcases Pc.leased_cases hleased with h | ⟨run, hrun, -⟩
      · cases past.symm.trans h
      · cases (Pc.not_inside_of_owned hrun).1.symm.trans inside
  | launches sub key took id nth locked active lease admission => cases hnone
  | _ => simp [Pc.owned?, Pc.leased] at hwas

theorem admission_of_section (hgoing : k.going = true) (hnot : ¬ x.manager.leaseHeld = true)
    (h : Section x k x' k') : x'.admission = x.admission := by
  cases h with
  | keeps manager tenant inside owned leased past admission => exact admission hgoing
  | leaves manager tenant inside past owned leased outside =>
    rcases Bool.or_eq_true_iff.mp hgoing with hown | hpast
    · obtain ⟨run, hrun⟩ := Option.isSome_iff_exists.mp hown
      cases (Pc.not_inside_of_owned hrun).1.symm.trans inside
    · cases past.symm.trans hpast
  | skips sub key idle => rfl
  | launches sub key took id nth locked active lease admission => exact admission
  | unwinds took =>
    show x.giveBack.admission = x.admission
    rw [giveBack_of_not_held hnot]
  | releases owned free inside none leased =>
    show x.giveBack.admission = x.admission
    rw [giveBack_of_not_held hnot]
  | _ => cases hgoing

theorem frees_of_held (h : Held s) {a : Act} (hn : next cfg s a = some s') : Frees s s' a.1 := by
  obtain ⟨t, c⟩ := a
  have hsec := section_of_advance (Interleaving.of_next hn).1
  constructor
  · intro hends
    exact freed_of_section h.tenant (h.past t) hends hsec
  · intro hgoing hoff
    refine admission_of_section hgoing (fun hheld => ?_) hsec
    rcases Bool.or_eq_true_iff.mp hgoing with hown | hpast
    · obtain ⟨run, hrun⟩ := Option.isSome_iff_exists.mp hown
      have htook := h.lease_of_owned hrun hheld
      cases hoff.symm.trans ((Pc.leased_of_owned hrun).trans htook)
    · cases hoff.symm.trans (h.lease_of_past (Pc.inside_of_pastSlot hpast) (h.past t hpast) hheld)

/-- A launch is never stuck: it can go on whenever no other thread is in
`submit`'s section. -/
theorem goes_on (cfg : JobConfig) (hgoing : (s.pc t).going = true)
    (hlock : s.shared.manager.locked = true → (s.pc t).inside = true) :
    ∃ c s', next cfg s (t, c) = some s' := by
  have hsome : ∀ c, (advance cfg t c s.shared (s.pc t)).isSome = true →
      ∃ c s', next cfg s (t, c) = some s' := by
    intro c hc
    obtain ⟨⟨x, k⟩, ha⟩ := Option.isSome_iff_exists.mp hc
    exact ⟨c, _, Interleaving.next_eq_some.mpr ⟨x, k, ha, rfl⟩⟩
  generalize hpc : s.pc t = k at hgoing hlock hsome
  cases k with
  | journal sub key took =>
    apply hsome .go
    simp only [advance]
    split <;> rfl
  | unwind took => exact hsome .go rfl
  | start run => exact hsome .go rfl
  | abandon run =>
    apply hsome .go
    have hfree : s.shared.manager.locked = false := by simpa [Pc.inside] using hlock
    simp [advance, hfree]
  | began run =>
    apply hsome .go
    simp only [advance]
    split <;> rfl
  | working run => exact hsome (.finished (.failed .null)) rfl
  | ending run update =>
    apply hsome .go
    simp only [advance]
    split <;> rfl
  | free run =>
    apply hsome .go
    have hfree : s.shared.manager.locked = false := by simpa [Pc.inside] using hlock
    simp [advance, hfree]
  | _ => cases hgoing

/-- In every state the slot and the lease agree; every step that ends a
launch frees both, and a launch can always go on to its end. -/
theorem slot_and_lease_agree (cfg : JobConfig) (journal : Journal) (now : ℚ) (s : Sys)
    (h : Runs.Reachable (next cfg) Runs.anyStep (Sys.init journal now) s) :
    Agree s ∧ (∀ a s', next cfg s a = some s' → Frees s s' a.1) ∧
      ∀ t, (s.pc t).going = true →
        (s.shared.manager.locked = true → (s.pc t).inside = true) →
        ∃ c s', next cfg s (t, c) = some s' := by
  have hheld := held_of_reachable h
  exact ⟨agree_of_held hheld, fun a s' hn => frees_of_held hheld hn, fun t => goes_on cfg⟩

/-- A launched finetune has the slot and the lease. -/
theorem launched_slot_and_lease_agree :
    ∃ s : Sys, (s.shared.manager.active = some "a" ∧ s.shared.admission.tenant = some training) ∧
      Agree s ∧ (∀ a s', next quarterHour s a = some s' → Frees s s' a.1) ∧
      ∀ t, (s.pc t).going = true →
        (s.shared.manager.locked = true → (s.pc t).inside = true) →
        ∃ c s', next quarterHour s (t, c) = some s' := by
  have hrun : (Runs.run (next quarterHour) Runs.anyStep (Sys.init .init 0) (launched 0 "a")).map
      (fun s => decide (s.shared.manager.active = some "a" ∧
        s.shared.admission.tenant = some training)) = some true := by decide +kernel
  obtain ⟨s, hs, hp⟩ := Runs.exists_reachable hrun
  exact ⟨s, of_decide_eq_true hp, slot_and_lease_agree quarterHour .init 0 s hs⟩

end MlopsLite.HostAgent.Jobs
