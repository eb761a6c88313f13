import MlopsLite.HostAgent.Admission.Slot

/-!
# Admission — one GPU tenant

In an orderly run the engine with a running process, or inside `spawn()`,
is the holder of the slot, so there is one such engine at most; and a hard
cut takes neither child nor slot from a load in progress.
-/

namespace MlopsLite.HostAgent

open Lifecycle

namespace Admission

variable {cfg : SlotConfig} {final : EngineId → Bytes} {s : Sys}

/-- Whoever occupies the GPU holds the slot, and nobody else occupies it. -/
structure OneTenant (s : Sys) : Prop where
  holder : ∀ e, Occupies s e → s.shared.admission.tenant = some (.engine e)
  one : ∀ e f, Occupies s e → Occupies s f → e = f

/-- No step of a hard cut forgets the child, or gives back the slot, of an
engine that is being loaded. -/
def CutsSpareLoads (cfg : SlotConfig) (final : EngineId → Bytes) (s : Sys) : Prop :=
  ∀ a s', next cfg final s a = some s' → (s.pc a.1).cut? ≠ none →
    ∀ u e, (s.pc u).load? = some e →
      (s'.shared.host.runtimes e).child = (s.shared.host.runtimes e).child ∧
        (s.shared.admission.tenant = some (.engine e) →
          s'.shared.admission.tenant = some (.engine e))

theorem cuts_spare_loads (h : Runs.Reachable (next cfg final) Orderly Sys.init s) :
    CutsSpareLoads cfg final s := by
  intro a s' hn hcut u e hload
  have hm := (move_of_next hn).1
  have hok := (sound_of_reachable (holding cfg) h).thread a.1
  -- the cut is of another engine
  have hne : (s.pc a.1).tears? ≠ some e := by
    intro htears
    obtain ⟨f, hf⟩ := Option.ne_none_iff_exists'.mp hcut
    have hfe : f = e := Option.some.inj ((Pc.tears?_of_cut? hf).symm.trans htears)
    exact not_cut_of_load h hload (hfe ▸ hf)
  constructor
  · rcases hm.child e with heq | ⟨c, k, hpc, -⟩ | ⟨c, hpc, -⟩
    · exact heq
    · exact absurd (by rw [hpc]; rfl) hcut
    · exact absurd (by rw [hpc]; rfl) hne
  · intro hheld
    rcases hm.held hok e hheld with hheld' | ⟨k, c, hpc⟩
    · exact hheld'
    · exact absurd (by rw [hpc]; rfl) hne

theorem one_gpu_tenant (h : Runs.Reachable (next cfg final) Orderly Sys.init s) :
    OneTenant s ∧ CutsSpareLoads cfg final s := by
  have hholds : ∀ e, Occupies s e → s.shared.admission.tenant = some (.engine e) := fun _ he =>
    held_of_occupies (holding cfg) h he
  refine ⟨⟨hholds, ?_⟩, cuts_spare_loads h⟩
  intro e f he hf
  have htenant := (hholds e he).symm.trans (hholds f hf)
  exact Tenant.engine.inj (Option.some.inj htenant)

/-- `ensure_loaded` from its first step to the admission call. -/
def coldLoad (t : ThreadId) : List Act :=
  [(t, .go), (t, .go), (t, .go), (t, .go), (t, .go), (t, .admission (some 8))]

/-- One thread loads an engine: it runs, and holds the slot. -/
theorem loaded_holds_slot :
    ∃ s : Sys, s.shared.host.running 0 = true ∧ OneTenant s ∧ CutsSpareLoads eightGb fourGb s := by
  have hrun : (Runs.run (next eightGb fourGb) Solo Sys.init
      (([(0, .call (.load "llm")), (0, .go)] : List Act) ++ coldLoad 0 ++
        ([(0, .go), (0, .go)] : List Act))).map
        (fun s => s.shared.host.running 0) = some true := by decide +kernel
  obtain ⟨s, hs, hlive⟩ := Runs.exists_reachable hrun
  have horderly : Runs.Reachable (next eightGb fourGb) Orderly Sys.init s := hs.imp fun s a hr ha =>
    orderly_of_solo hr (fun _ _ => id) ha
  exact ⟨s, hlive, one_gpu_tenant horderly⟩

/-- Two threads load one engine. The first finishes and clears `_loading`,
its child exits, and the second is inside `spawn()` when an unload that
gave up on the lock reads the flag: it gives the slot back. -/
def cutOverSecondLoad : List Act :=
  ([(0, .call (.load "llm")), (0, .go)] : List Act) ++ coldLoad 0 ++
    ([(0, .go), (0, .go), (0, .go), (0, .admission none), (0, .ready), (0, .go),
      (1, .call (.load "llm")), (1, .go), (0, .go), (2, .exits 0),
      (1, .go), (1, .go), (1, .go), (1, .go), (1, .go), (1, .go), (1, .go),
      (1, .admission (some 8)),
      (2, .call (.unload "llm")), (2, .go), (2, .go), (2, .go), (2, .go), (2, .go), (2, .go),
      (2, .admission none), (1, .go)] : List Act)

theorem hard_cut_frees_loading_slot :
    ¬ ∀ s, Runs.Reachable (next eightGb fourGb) Runs.anyStep Sys.init s → OneTenant s := by
  have hrun : (Runs.run (next eightGb fourGb) Runs.anyStep Sys.init cutOverSecondLoad).map
      (fun s => (s.shared.host.processes.get? 1).any (fun p => p.alive) &&
        s.shared.admission.tenant.isNone) = some true := by decide +kernel
  obtain ⟨s, hs, hp⟩ := Runs.exists_reachable hrun
  obtain ⟨hlive, hnone⟩ := Bool.and_eq_true_iff.mp hp
  intro hall
  obtain ⟨p, hp, ha⟩ := (Option.any_eq_true ..).mp hlive
  have hheld := (hall s hs).holder p.engine (.inl ⟨1, p, hp, rfl, ha⟩)
  simp [hheld] at hnone

end Admission

end MlopsLite.HostAgent
