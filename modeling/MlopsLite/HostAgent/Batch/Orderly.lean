import MlopsLite.HostAgent.Batch.Session

/-!
# Orderly — when a batch keeps what it owes the engine

A promotion that lands behind the second read, while the exclusion is still held, is
lost; and a fault behind the inner `try` takes the place of the batch's own.
-/

namespace MlopsLite.HostAgent.Batch

open Raising (raised within)

variable {τ α : Type}

section

variable [DecidableEq τ] {s : Script τ α} {w : World τ} {f : Fault} {d : τ}

/-! ## The session -/

omit [DecidableEq τ] in
/-- Two calls raise two faults. -/
theorem fault_ne {c c' : Call} (hc : c ≠ c') {f f' : Fault} (h : s.fault c = some f)
    (h' : s.fault c' = some f') : f ≠ f' := by
  obtain ⟨kind, -, rfl⟩ := fault_eq_some.mp h
  obtain ⟨kind', -, rfl⟩ := fault_eq_some.mp h'
  intro heq
  cases heq
  exact hc rfl

omit [DecidableEq τ] in
theorem call_of_batchFault (h : s.batchFault = some f) :
    s.fault .load = some f ∨ s.fault .score = some f := by
  rw [Script.batchFault, Option.or_eq_some_iff] at h
  exact h.imp_right And.right

theorem call_of_restoreFault (h : s.restoreFault d = some f) :
    s.fault .reread = some f ∨ s.fault .changed = some f ∨ s.fault .restore = some f := by
  rw [Script.restoreFault, Option.or_eq_some_iff, Option.or_eq_some_iff, Script.changedFault] at h
  rcases h with h | ⟨-, h | ⟨-, h⟩⟩
  · exact .inl h
  · split_ifs at h
    exact .inr (.inl h)
  · exact .inr (.inr h)

omit [DecidableEq τ] in
/-- A session that acquires nothing does nothing. -/
theorem keeps_of_unstarted {target : τ} {result : Except Fault α}
    (h : ∀ e ∈ w.events,
      e.call ∈ [Call.jobHoldsGpu, .snapshot] ∨ e.call = .acquire ∧ e.raises ≠ none)
    (hone : (w.events.filter fun e => e.call = .acquire).length ≤ 1) : Keeps target result w := by
  have hnot : ∀ e ∈ w.events, e.call ≠ .release ∧ e.call ≠ .load ∧ e.call ≠ .score ∧
      e.call ≠ .reread ∧ e.call ≠ .restore := by
    intro e he
    rcases h e he with hc | ⟨hc, -⟩
    · simp only [List.mem_cons, List.not_mem_nil, or_false] at hc
      rcases hc with hc | hc <;> simp [hc]
    · simp [hc]
  exact {
    released := by
      have hrelease : (w.events.filter fun e => e.call = .release) = [] := by
        rw [List.filter_eq_nil_iff]
        intro e he hc
        exact (hnot e he).1 (of_decide_eq_true hc)
      have hacquire : (w.events.filter fun e => e.call = .acquire ∧ e.raises = none) = [] := by
        rw [List.filter_eq_nil_iff]
        intro e he hc
        obtain ⟨hc, hreturns⟩ := of_decide_eq_true hc
        rcases h e he with hc' | ⟨-, hraises⟩
        · simp [hc] at hc'
        · exact hraises hreturns
      rw [hrelease, hacquire]
    acquired := hone
    held := fun e he hc => (hc.elim (hnot e he).2.1 (hnot e he).2.2.1).elim
    resident := fun e he hc => ((hnot e he).2.2.1 hc).elim
    restored := fun _ e he hc => ((hnot e he).1 hc).elim
    batch := fun e he hc => (hc.elim (hnot e he).2.1 (hnot e he).2.2.1).elim
    restore := fun _ e he hc => (hc.elim (hnot e he).2.2.2.1 (hnot e he).2.2.2.2).elim }

variable {target : τ} {engine : Option τ}

/-- Up to the outer `try`. -/
theorem run_of_starts (target d : τ) (engine : Option τ) (h : s.Starts) : ∃ w : World τ,
    s.run target (.start d engine) =
        within (do s.load target; s.score) (fun exc => s.cleanup (s.prior d) exc.isSome) w ∧
      w.held = true ∧ w.loaded = false ∧ w.desired = s.landed (s.prior d) [.acquire] ∧
      w.events.map Event.call = [.jobHoldsGpu, .snapshot, .acquire] ∧
      ∀ e ∈ w.events, e.raises = none := by
  obtain ⟨hjob, hholds, hsnapshot, hacquire⟩ := h
  generalize hw₁ : World.called (.start d engine) .jobHoldsGpu (s.turn .jobHoldsGpu) = w₁
  generalize hw₂ : w₁.called .snapshot (s.turn .snapshot) = w₂
  generalize hw₃ : w₂.called .acquire (s.turn .acquire) = w₃
  have hmade : Made s (.start d engine) w₃ [.jobHoldsGpu, .snapshot, .acquire] := by
    have h₁ : Made s (.start d engine) w₁ [.jobHoldsGpu] := hw₁ ▸ made_called
    have h₂ : Made s w₁ w₂ [.snapshot] := hw₂ ▸ made_called
    have h₃ : Made s w₂ w₃ [.acquire] := hw₃ ▸ made_called
    exact (h₁.trans h₂).trans h₃
  have hprior : w₂.desired = s.prior d := by
    rw [← hw₂, called_desired_eq, ← hw₁, called_desired_eq, ← landed_append]
    rfl
  obtain ⟨es, hevents, hcalls, hraises⟩ := hmade.events
  have hall : w₃.events = es := hevents
  refine ⟨{ w₃ with held := true, loaded := false }, ?_, rfl, rfl, ?_, ?_, ?_⟩
  · simp [Script.run, Script.readDesired, Script.acquire, call_of_none hjob, hholds,
      call_of_none hsnapshot, call_of_none hacquire, hw₁, hw₂, hw₃, hprior]
  · rw [← hprior, ← called_desired_eq, hw₃]
  · rw [hall, hcalls]
  · intro e he
    have he : e ∈ es := hall ▸ he
    rw [hraises e he]
    have hc : e.call ∈ [Call.jobHoldsGpu, .snapshot, .acquire] :=
      hcalls ▸ List.mem_map_of_mem he
    simp only [List.mem_cons, List.not_mem_nil, or_false] at hc
    rcases hc with hc | hc | hc <;> rw [hc]
    · exact fault_eq_none.mp hjob
    · exact fault_eq_none.mp hsnapshot
    · exact fault_eq_none.mp hacquire

/-- A session that does not get to the outer `try`. -/
theorem keeps_of_not_starts (h : ¬ s.Starts) :
    Keeps target (s.run target (.start d engine)).1 (s.run target (.start d engine)).2 := by
  generalize hw₁ : World.called (.start d engine) .jobHoldsGpu (s.turn .jobHoldsGpu) = w₁
  generalize hw₂ : w₁.called .snapshot (s.turn .snapshot) = w₂
  generalize hw₃ : w₂.called .acquire (s.turn .acquire) = w₃
  obtain ⟨e₁, hevents₁, hcall₁, -⟩ :=
    called_events (.start d engine) .jobHoldsGpu (s.turn .jobHoldsGpu)
  obtain ⟨e₂, hevents₂, hcall₂, -⟩ :=
    called_events w₁ .snapshot (s.turn .snapshot)
  obtain ⟨e₃, hevents₃, hcall₃, hraises₃, -⟩ :=
    called_events w₂ .acquire (s.turn .acquire)
  have h₁ : w₁.events = [e₁] := hw₁ ▸ hevents₁
  have h₂ : w₂.events = [e₁, e₂] := by
    rw [← hw₂, hevents₂, h₁]
    rfl
  have h₃ : w₃.events = [e₁, e₂, e₃] := by
    rw [← hw₃, hevents₃, h₂]
    rfl
  cases hjob : s.fault .jobHoldsGpu with
  | some f =>
    have hr : s.run target (.start d engine) = (.error f, w₁) := by
      simp [Script.run, call_of_some hjob, hw₁]
    rw [hr]
    exact keeps_of_unstarted (by simp [h₁, hcall₁]) (by simp [h₁, hcall₁])
  | none =>
    cases hholds : s.holds with
    | true =>
      have hr : s.run target (.start d engine) = (.error .refused, w₁) := by
        simp [Script.run, call_of_none hjob, hw₁, hholds]
      rw [hr]
      exact keeps_of_unstarted (by simp [h₁, hcall₁]) (by simp [h₁, hcall₁])
    | false =>
      cases hsnapshot : s.fault .snapshot with
      | some f =>
        have hr : s.run target (.start d engine) = (.error f, w₂) := by
          simp [Script.run, Script.readDesired, call_of_none hjob, hw₁, hholds,
            call_of_some hsnapshot, hw₂]
        rw [hr]
        exact keeps_of_unstarted (by simp [h₂, hcall₁, hcall₂]) (by simp [h₂, hcall₁, hcall₂])
      | none =>
        cases hacquire : s.fault .acquire with
        | some f =>
          have hr : s.run target (.start d engine) = (.error f, w₃) := by
            simp [Script.run, Script.readDesired, Script.acquire, call_of_none hjob, hw₁, hholds,
              call_of_none hsnapshot, hw₂, call_of_some hacquire, hw₃]
          obtain ⟨kind, hkind, -⟩ := fault_eq_some.mp hacquire
          rw [hr]
          exact keeps_of_unstarted (by simp [h₃, hcall₁, hcall₂, hcall₃, hraises₃, hkind])
            (by simp [h₃, hcall₁, hcall₂, hcall₃])
        | none => exact absurd ⟨hjob, hholds, hsnapshot, hacquire⟩ h

omit [DecidableEq τ] in
/-- `Keeps`, of the calls in front of the batch, its own, those of the restore, and the rest. -/
theorem keeps_iff_of_events {result : Except Fault α} {batch restored : Option Fault}
    {front body es more : List (Event τ)} {e : Event τ}
    (hevents : w.events = front ++ (body ++ (es ++ e :: more)))
    (hfront : front.map Event.call = [.jobHoldsGpu, .snapshot, .acquire])
    (hreturns : ∀ e ∈ front, e.raises = none)
    (hbody : ∀ e ∈ body, (e.call = .load ∨ e.call = .score) ∧ e.held = true ∧
      (e.call = .score → e.engine = some target))
    (hbatch : ∀ c kind, (∃ e ∈ body, e.call = c ∧ e.raises = some kind) ↔
      batch = some (.raised c kind))
    (hscored : (∃ e ∈ body, e.call = .score ∧ e.raises = none) ↔ batch = none)
    (hes : ∀ e ∈ es, e.call ∈ [Call.reread, .changed, .restore, .report])
    (hrestored : ∀ c, c = .reread ∨ c = .restore → ∀ kind,
      ((∃ e ∈ es, e.call = c ∧ e.raises = some kind) ↔ restored = some (.raised c kind)))
    (hlast : e.call = .release) (hmore : ∀ e ∈ more, e.call = .loadReport) :
    Keeps target result w ↔
      (raised result = none → e.engine = some e.desired) ∧
        (∀ c kind, batch = some (.raised c kind) → raised result = some (.raised c kind)) ∧
          (batch = none → ∀ c kind, c = .reread ∨ c = .restore → restored = some (.raised c kind) →
            raised result = some (.raised c kind)) := by
  -- which part of the run a call belongs to
  have hpart : ∀ x ∈ w.events, x ∈ body ∧ (x.call = .load ∨ x.call = .score) ∨
      x ∈ es ∧ (x.call = .reread ∨ x.call = .changed ∨ x.call = .restore ∨ x.call = .report) ∨
      x = e ∧ x.call = .release ∨
      x.call = .jobHoldsGpu ∨ x.call = .snapshot ∨ x.call = .acquire ∨ x.call = .loadReport := by
    intro x hx
    rw [hevents] at hx
    simp only [List.mem_append, List.mem_cons] at hx
    rcases hx with hx | hx | hx | rfl | hx
    · have hc : x.call ∈ [Call.jobHoldsGpu, .snapshot, .acquire] :=
        hfront ▸ List.mem_map_of_mem hx
      simp only [List.mem_cons, List.not_mem_nil, or_false] at hc
      tauto
    · exact .inl ⟨hx, (hbody x hx).1⟩
    · have hc := hes x hx
      simp only [List.mem_cons, List.not_mem_nil, or_false] at hc
      exact .inr (.inl ⟨hx, hc⟩)
    · exact .inr (.inr (.inl ⟨rfl, hlast⟩))
    · exact .inr (.inr (.inr (.inr (.inr (.inr (hmore x hx))))))
  have hin : ∀ x, x ∈ body ∨ x ∈ es ∨ x = e → x ∈ w.events := by
    intro x hx
    rw [hevents]
    simp only [List.mem_append, List.mem_cons]
    tauto
  have hcount : ∀ p : Event τ → Bool, (w.events.filter p).length =
      front.countP p + (body.countP p + (es.countP p + ([e].countP p + more.countP p))) := by
    intro p
    rw [hevents, ← List.countP_eq_length_filter, List.countP_append, List.countP_append,
      List.countP_append, ← List.singleton_append, List.countP_append]
  have hfrontCount : ∀ c, front.countP (fun x => decide (x.call = c)) =
      [Call.jobHoldsGpu, .snapshot, .acquire].countP fun c' => decide (c' = c) := by
    intro c
    rw [← hfront, List.countP_map]
    rfl
  have hnone : ∀ p : Event τ → Bool, (∀ x, p x = true → x.call = .release ∨ x.call = .acquire) →
      body.countP p = 0 ∧ es.countP p = 0 ∧ more.countP p = 0 := by
    intro p hp
    simp only [List.countP_eq_zero]
    refine ⟨fun x hx hpx => ?_, fun x hx hpx => ?_, fun x hx hpx => ?_⟩
    · rcases (hbody x hx).1 with hc | hc <;> simpa [hc] using hp x hpx
    · have hc := hes x hx
      rcases hp x hpx with hc' | hc' <;> simp [hc'] at hc
    · simpa [hmore x hx] using hp x hpx
  have hreleases : (w.events.filter fun x => x.call = .release).length = 1 := by
    obtain ⟨h₁, h₂, h₃⟩ := hnone (fun x => x.call = .release)
      fun _ hx => .inl (of_decide_eq_true hx)
    rw [hcount, hfrontCount, h₁, h₂, h₃]
    simp [hlast]
  have hacquires : (w.events.filter fun x => x.call = .acquire).length = 1 := by
    obtain ⟨h₁, h₂, h₃⟩ := hnone (fun x => x.call = .acquire)
      fun _ hx => .inr (of_decide_eq_true hx)
    rw [hcount, hfrontCount, h₁, h₂, h₃]
    simp [hlast]
  have hacquired : (w.events.filter fun x => x.call = .acquire ∧ x.raises = none).length = 1 := by
    rw [← hacquires]
    congr 1
    refine List.filter_congr fun x hx => ?_
    by_cases hc : x.call = .acquire
    · have hx : x ∈ front := by
        rw [hevents] at hx
        simp only [List.mem_append, List.mem_cons] at hx
        rcases hx with hx | hx | hx | rfl | hx
        · exact hx
        · simpa [hc] using (hbody x hx).1
        · simpa [hc] using hes x hx
        · simp [hc] at hlast
        · simpa [hc] using hmore x hx
      simp [hc, hreturns x hx]
    · simp [hc]
  constructor
  · intro h
    refine ⟨fun hok => h.restored hok e (hin e (.inr (.inr rfl))) hlast, ?_, ?_⟩
    · intro c kind hb
      obtain ⟨x, hx, rfl, hkind⟩ := (hbatch c kind).mpr hb
      exact h.batch x (hin x (.inl hx)) (hbody x hx).1 kind hkind
    · intro hb c kind hc hrestore
      obtain ⟨y, hy, hscore⟩ := hscored.mpr hb
      obtain ⟨x, hx, rfl, hkind⟩ := (hrestored c hc kind).mpr hrestore
      exact h.restore ⟨y, hin y (.inl hy), hscore⟩ x (hin x (.inr (.inl hx))) hc kind hkind
  · rintro ⟨hrestore, hbatchFault, hrestoreFault⟩
    have hofBody : ∀ x ∈ w.events, x.call = .load ∨ x.call = .score → x ∈ body := by
      intro x hx hc
      rcases hpart x hx with ⟨hx, -⟩ | ⟨-, hc'⟩ | ⟨-, hc'⟩ | hc'
      · exact hx
      all_goals rcases hc with hc | hc <;> simp [hc] at hc'
    exact {
      released := hreleases.trans hacquired.symm
      acquired := hacquires.le
      held := fun x hx hc => (hbody x (hofBody x hx hc)).2.1
      resident := fun x hx hc => (hbody x (hofBody x hx (.inr hc))).2.2 hc
      restored := by
        intro hok x hx hc
        rcases hpart x hx with ⟨-, hc'⟩ | ⟨-, hc'⟩ | ⟨rfl, -⟩ | hc'
        · simp [hc] at hc'
        · simp [hc] at hc'
        · exact hrestore hok
        · simp [hc] at hc'
      batch := fun x hx hc kind hkind =>
        hbatchFault x.call kind ((hbatch x.call kind).mp ⟨x, hofBody x hx hc, rfl, hkind⟩)
      restore := by
        rintro ⟨y, hy, hyc, hyr⟩ x hx hc kind hkind
        have hb := hscored.mp ⟨y, hofBody y hy (.inr hyc), hyc, hyr⟩
        have hx : x ∈ es := by
          rcases hpart x hx with ⟨-, hc'⟩ | ⟨hx, -⟩ | ⟨-, hc'⟩ | hc'
          · rcases hc with hc | hc <;> simp [hc] at hc'
          · exact hx
          all_goals rcases hc with hc | hc <;> simp [hc] at hc'
        exact hrestoreFault hb x.call kind hc ((hrestored x.call hc kind).mp ⟨x, hx, rfl, hkind⟩) }

/-- What is raised behind the inner `try`. -/
def Script.behind (s : Script τ α) : Option Fault :=
  (s.fault .release).or (if s.fault .load = none then none else s.fault .loadReport)

omit [DecidableEq τ] in
theorem quiet_iff : s.Quiet ↔ s.behind = none := by
  rw [Script.Quiet, Script.behind, Option.or_eq_none_iff]
  by_cases h : s.fault .load = none <;> simp [h]

omit [DecidableEq τ] in
/-- Nothing that another call raises is raised behind. -/
theorem behind_ne {c : Call} (hc : s.fault c = some f) (hrelease : c ≠ .release)
    (hreport : c ≠ .loadReport) : s.behind ≠ some f := by
  intro h
  rw [Script.behind, Option.or_eq_some_iff] at h
  rcases h with h | ⟨-, h⟩
  · exact fault_ne hrelease hc h rfl
  · split_ifs at h
    exact fault_ne hreport hc h rfl

omit [DecidableEq τ] in
theorem surfacing_false_iff {c : Call} (hc : s.fault c = some f) (hreport : c ≠ .report) :
    s.surfacing false f = some f ↔ (f.ordinary = true → s.fault .report = none) := by
  rw [Script.surfacing]
  by_cases ho : f.ordinary = true
  · cases hr : s.fault .report with
    | none => simp [ho]
    | some g => simp [ho, (fault_ne hreport hc hr).symm]
  · simp [ho]

omit [DecidableEq τ] in
theorem surfacing_true_eq_none_iff :
    s.surfacing true f = none ↔ f.ordinary = true ∧ s.fault .report = none := by
  rw [Script.surfacing]
  by_cases ho : f.ordinary = true <;> simp [ho]

omit [DecidableEq τ] in
/-- What surfaces of a fault of the restore is not one of the batch. -/
theorem surfacing_ne {g : Fault} {c c' : Call} (hc : s.fault c = some f) (hc' : s.fault c' = some g)
    (hne : c ≠ c') (hreport : c' ≠ .report) (failing : Bool) : s.surfacing failing f ≠ some g := by
  intro h
  rw [Script.surfacing] at h
  by_cases ho : f.ordinary = true
  · rw [if_pos ho, Option.or_eq_some_iff] at h
    rcases h with h | ⟨-, h⟩
    · exact fault_ne hreport hc' h rfl
    · split_ifs at h
      exact fault_ne hne hc hc' (Option.some.inj h)
  · rw [if_neg ho] at h
    exact fault_ne hne hc hc' (Option.some.inj h)

omit [DecidableEq τ] in
theorem or_eq_some_iff_of_ne {x : Option Fault} (h : x ≠ some f) :
    x.or (some f) = some f ↔ x = none := by
  cases x with
  | none => simp
  | some g => simpa using h

/-- What a session surfaces, of the faults of its parts. -/
def Script.surfaced (s : Script τ α) (d : τ) : Option Fault :=
  (s.behind.or ((s.restoreFault d).bind (s.surfacing s.batchFault.isSome))).or s.batchFault

theorem harmless_of_failed (hb : s.batchFault = some f) : s.Harmless d ↔
    s.behind.or ((s.restoreFault d).bind (s.surfacing s.batchFault.isSome)) = none := by
  rw [Option.or_eq_none_iff, hb, Option.isSome_some]
  cases hρ : s.restoreFault d with
  | none => simp [Script.Harmless, hb, hρ, quiet_iff]
  | some g => simp [Script.Harmless, hb, hρ, quiet_iff, surfacing_true_eq_none_iff]

/-- A batch that failed surfaces exactly if nothing is raised after it. -/
theorem surfaced_of_failed (hb : s.batchFault = some f) :
    s.surfaced d = some f ↔ s.Harmless d := by
  obtain ⟨c, hc, hfault⟩ : ∃ c, (c = .load ∨ c = .score) ∧ s.fault c = some f := by
    rcases call_of_batchFault hb with h | h
    · exact ⟨_, .inl rfl, h⟩
    · exact ⟨_, .inr rfl, h⟩
  have hne : ∀ c' ∈ [Call.release, .loadReport, .report, .reread, .changed, .restore], c ≠ c' := by
    rcases hc with rfl | rfl <;> decide
  rw [harmless_of_failed hb, Script.surfaced, hb]
  refine or_eq_some_iff_of_ne ?_
  rw [ne_eq, Option.or_eq_some_iff, not_or, not_and]
  refine ⟨behind_ne hfault (hne _ (by simp)) (hne _ (by simp)), fun _ => ?_⟩
  rw [Option.bind_eq_some_iff]
  rintro ⟨g, hg, hsurfaces⟩
  rcases call_of_restoreFault hg with h | h | h
  all_goals exact surfacing_ne h hfault (hne _ (by simp)).symm (hne _ (by simp)) _ hsurfaces

/-- A fault of the restore of a batch that succeeded. -/
theorem surfaced_of_restore {c : Call} (hb : s.batchFault = none) (hρ : s.restoreFault d = some f)
    (hc : c = .reread ∨ c = .restore) (hfault : s.fault c = some f) :
    s.surfaced d = some f ↔ s.Harmless d := by
  have hne : ∀ c' ∈ [Call.release, .loadReport, .report], c ≠ c' := by
    rcases hc with rfl | rfl <;> decide
  have hown : (s.fault .reread).or (s.fault .restore) = some f := by
    rcases hc with rfl | rfl
    · rw [hfault, Option.some_or]
    · cases hreread : s.fault .reread with
      | none => rw [Option.none_or, hfault]
      | some g =>
        rw [Script.restoreFault, hreread, Option.some_or] at hρ
        rw [Option.some_or, hρ]
  have hharmless : s.Harmless d ↔ s.Quiet ∧ (f.ordinary = true → s.fault .report = none) := by
    simp [Script.Harmless, hb, hρ, hown]
  have hbehind := behind_ne hfault (hne _ (by simp)) (hne _ (by simp))
  rw [hharmless, quiet_iff, ← surfacing_false_iff hfault (hne _ (by simp)), Script.surfaced, hb, hρ,
    Option.or_none, Option.or_eq_some_iff, or_iff_right hbehind]
  rfl

/-- What is owed is what the faults allow. -/
theorem owed_iff {stable : Prop}
    (hstable : s.restoreFault d = none → (stable ↔ s.atRelease d = s.latest d)) :
    ((s.surfaced d = none → stable) ∧
      (∀ c kind, s.batchFault = some (.raised c kind) → s.surfaced d = some (.raised c kind)) ∧
      (s.batchFault = none → ∀ c kind, c = .reread ∨ c = .restore →
        s.restoreFault d = some (.raised c kind) → s.surfaced d = some (.raised c kind))) ↔
      s.Harmless d := by
  cases hb : s.batchFault with
  | some b =>
    obtain ⟨c, kind, rfl⟩ : ∃ c kind, b = .raised c kind := by
      rcases call_of_batchFault hb with h | h
      all_goals
        obtain ⟨kind, -, rfl⟩ := fault_eq_some.mp h
        exact ⟨_, kind, rfl⟩
    rw [← surfaced_of_failed hb]
    constructor
    · intro h
      exact h.2.1 c kind rfl
    · intro h
      rw [h]
      exact ⟨fun hnone => (by cases hnone), fun _ _ heq => heq, fun hnone => (by cases hnone)⟩
  | none =>
    have hload : s.fault .load = none := (Option.or_eq_none_iff.mp hb).1
    cases hρ : s.restoreFault d with
    | none =>
      -- the session returns, if the exclusion can be released
      have hsurfaced : s.surfaced d = s.fault .release := by
        simp [Script.surfaced, hb, hρ, Script.behind, hload]
      simp [Script.Harmless, hb, hρ, hsurfaced, hstable hρ]
    | some f =>
      have hraises : s.surfaced d ≠ none := by
        simp only [Script.surfaced, hb, hρ, Option.bind_some, Option.or_none, ne_eq,
          Option.or_eq_none_iff, not_and]
        intro _ hnone
        simp only [Script.surfacing, Option.isSome_none, Bool.false_eq_true, if_false] at hnone
        split_ifs at hnone
        simp at hnone
      constructor
      · rintro ⟨-, -, h⟩
        rcases call_of_restoreFault hρ with hfault | hfault | hfault
        · obtain ⟨kind, -, rfl⟩ := fault_eq_some.mp hfault
          exact (surfaced_of_restore hb hρ (.inl rfl) hfault).mp (h rfl _ kind (.inl rfl) rfl)
        · -- a report that could not be made: nothing is owed
          have hnot : (s.fault .reread).or (s.fault .restore) ≠ some f := by
            rw [ne_eq, Option.or_eq_some_iff, not_or, not_and]
            exact ⟨fun h => fault_ne (by decide) hfault h rfl,
              fun _ h => fault_ne (by decide) hfault h rfl⟩
          simp [Script.Harmless, hb, hρ, hnot]
        · obtain ⟨kind, -, rfl⟩ := fault_eq_some.mp hfault
          exact (surfaced_of_restore hb hρ (.inr rfl) hfault).mp (h rfl _ kind (.inr rfl) rfl)
      · intro h
        refine ⟨fun hnone => absurd hnone hraises, fun _ _ hraised => (by cases hraised), ?_⟩
        rintro - c kind hc ⟨⟩
        have hfault : s.fault c = some (.raised c kind) := by
          rcases call_of_restoreFault hρ with h | h | h
          all_goals
            obtain ⟨kind', -, heq⟩ := fault_eq_some.mp h
            cases heq
            exact h
        exact (surfaced_of_restore hb hρ hc hfault).mpr h

/-- A session is orderly exactly if no promotion gets lost in it and no fault displaces
another. -/
theorem keeps_iff (s : Script τ α) (target d : τ) (engine : Option τ) :
    Keeps target (s.run target (.start d engine)).1 (s.run target (.start d engine)).2 ↔
      (s.Starts → s.Harmless d) := by
  by_cases hstarts : s.Starts
  · rw [imp_iff_right hstarts]
    obtain ⟨w, hrun, hheld, hloaded, hdesired, hfront, hreturns⟩ :=
      run_of_starts target d engine hstarts
    obtain ⟨hbatch, hheld', hloaded', hdesired', body, hevents, hbody, hbodyIff, hscored⟩ :=
      body_spec (s := s) target hheld hloaded
    generalize hr : (do s.load target; s.score : Raising (World τ) Fault α) w = r at *
    have hlatest : s.landed r.2.desired [.reread] = s.latest d := by
      rw [hdesired', hdesired, ← landed_append, ← landed_append]
      rfl
    obtain ⟨hrestore, -⟩ := restore_spec s (s.prior d) hheld' hlatest
    obtain ⟨hcleanup, es, e, more, hevents', hes, hrestored, hcall, hmore, hok⟩ :=
      cleanup_spec s (s.prior d) hheld' hlatest s.batchFault.isSome
    have hrestore : raised (s.restore (s.prior d) r.2).1 = s.restoreFault d := hrestore
    rw [hrestore] at hcleanup hrestored hok
    have hworld : (s.run target (.start d engine)).2.events =
        w.events ++ (body ++ (es ++ e :: more)) := by
      rw [hrun, Raising.within_snd, hr, hbatch, hevents', hevents, List.append_assoc]
    have hresult : raised (s.run target (.start d engine)).1 =
        (s.behind.or ((s.restoreFault d).bind (s.surfacing s.batchFault.isSome))).or
          s.batchFault := by
      rw [hrun, Raising.raised_within, hr, hbatch, hcleanup, Script.behind]
      congr 3
      by_cases hload : s.fault .load = none
      · rw [if_pos (hloaded'.mpr hload), if_pos hload]
      · rw [if_neg (mt hloaded'.mp hload), if_neg hload]
    rw [keeps_iff_of_events hworld hfront hreturns hbody hbodyIff hscored hes hrestored hcall hmore,
      hresult]
    refine owed_iff fun hnone => ?_
    obtain ⟨hengine, hatRelease⟩ := hok hnone
    have hatRelease : e.desired = s.atRelease d := hatRelease
    rw [hengine, hatRelease, Option.some.injEq, eq_comm]
  · exact iff_of_true (keeps_of_not_starts hstarts) fun h => absurd h hstarts

end

/-- Nothing is raised, and a promotion lands between the restore and the release. -/
def latePromotion : Script String Unit where
  holds := false
  result := ()
  turn c := ⟨if c = .release then ["3"] else [], none⟩

/-- The engine is left with the target that was desired before. -/
theorem latePromotion_lost : ¬ Keeps "2" (latePromotion.run "2" (.start "1" (some "1"))).1
    (latePromotion.run "2" (.start "1" (some "1"))).2 := by
  intro h
  have hengine := h.restored rfl ⟨.release, none, true, some "1", "3"⟩
    (List.mem_of_getElem? (i := 7) rfl) rfl
  exact absurd hengine (by decide)

end MlopsLite.HostAgent.Batch
