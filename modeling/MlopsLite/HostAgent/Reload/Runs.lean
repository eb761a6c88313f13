import MlopsLite.HostAgent.Reload.Programs

/-!
# Reload — the runs of a reload

Which calls `preempt_for` and `reload_serving_llm` can have made when they
end, whatever the admission, the engines and the adapter answered.
-/

namespace MlopsLite.HostAgent.Reload

variable {β : Type} {given preempt : Bool} {target h : EngineId}

abbrev Event (β : Type) := Code.Event (Op β) (Reply β)

abbrev Log (β : Type) := List (Event β)

/-! ## Calls -/

/-- It changes neither the slot, the engines, the binding nor the reservation. -/
@[simp] def Op.quiet : Op β → Bool
  | .registered _ | .enabled _ | .wedged _ | .available _ | .holder | .batchActive => true
  | .snapshotBinding | .rebind | .boundIdentity | .loadedIdentity => true
  | .claim .. | .store .. => true
  | .ensureLoaded _ | .unload _ | .restoreBinding _ => false
  | .beginSwap _ | .endSwap _ | .retargetSwap .. => false

/-- Nothing is changed so far. -/
def Quiet (l : Log β) : Prop := ∀ ev ∈ l, ev.1.quiet = true

@[simp] theorem quiet_nil : Quiet ([] : Log β) := by simp [Quiet]

@[simp] theorem quiet_cons {ev : Event β} {l : Log β} :
    Quiet (ev :: l) ↔ ev.1.quiet = true ∧ Quiet l := by simp [Quiet]

@[simp] theorem quiet_append {l l' : Log β} : Quiet (l ++ l') ↔ Quiet l ∧ Quiet l' := by
  simp [Quiet, or_imp, forall_and]

section

variable {α γ : Type} {l : Log β} {f : α → Prog β γ} {out : Except Err γ}

theorem of_refuseUnless {ok : Bool} {f : Unit → Prog β γ}
    (he : (refuseUnless ok >>= f).Ends l out) :
    (ok = false ∧ l = [] ∧ out = .error .refused) ∨ ok = true ∧ (f ()).Ends l out := by
  cases ok with
  | false => exact .inl ⟨rfl, he.of_raise⟩
  | true => exact .inr ⟨rfl, he⟩

theorem of_orFailed {reply : Option α} (he : (orFailed reply >>= f).Ends l out) :
    (reply = none ∧ l = [] ∧ out = .error .failed) ∨
      ∃ a, reply = some a ∧ (f a).Ends l out := by
  cases reply with
  | none => exact .inl ⟨rfl, he.of_raise⟩
  | some a => exact .inr ⟨a, rfl, he⟩

theorem of_ensureLoaded {e : EngineId} {f : ℚ → Prog β γ}
    (he : (ensureLoaded e >>= f).Ends l out) :
    (l = [⟨.ensureLoaded e, none⟩] ∧ out = .error .failed) ∨
      ∃ ms l', l = ⟨.ensureLoaded e, some ms⟩ :: l' ∧ (f ms).Ends l' out := by
  obtain ⟨r, l', rfl, hr⟩ := Code.Ends.of_call he
  rcases of_orFailed hr with ⟨rfl, rfl, rfl⟩ | ⟨ms, rfl, hf⟩
  · exact .inl ⟨rfl, rfl⟩
  · exact .inr ⟨ms, l', rfl, hf⟩

theorem of_unload {e : EngineId} {f : UnloadStatus → Prog β γ}
    (he : (unload e >>= f).Ends l out) :
    (l = [⟨.unload e, none⟩] ∧ out = .error .failed) ∨
      ∃ s l', l = ⟨.unload e, some s⟩ :: l' ∧ (f s).Ends l' out := by
  obtain ⟨r, l', rfl, hr⟩ := Code.Ends.of_call he
  rcases of_orFailed hr with ⟨rfl, rfl, rfl⟩ | ⟨s, rfl, hf⟩
  · exact .inl ⟨rfl, rfl⟩
  · exact .inr ⟨s, l', rfl, hf⟩

theorem of_available {e : EngineId} {f : Bool → Prog β γ}
    (he : (available e >>= f).Ends l out) :
    (l = [⟨.available e, none⟩] ∧ out = .error .failed) ∨
      ∃ ok l', l = ⟨.available e, some ok⟩ :: l' ∧ (f ok).Ends l' out := by
  obtain ⟨r, l', rfl, hr⟩ := Code.Ends.of_call he
  rcases of_orFailed hr with ⟨rfl, rfl, rfl⟩ | ⟨ok, rfl, hf⟩
  · exact .inl ⟨rfl, rfl⟩
  · exact .inr ⟨ok, l', rfl, hf⟩

/-- The batches are asked after only where their view is given. -/
theorem of_noBatch {f : Unit → Prog β γ}
    (he : (batchActive given >>= fun active => (refuseUnless !active) >>= f).Ends l out) :
    (∃ e, out = .error e ∧ Quiet l) ∨
      ∃ q l', l = q ++ l' ∧ Quiet q ∧ (given = true → ⟨.batchActive, some false⟩ ∈ q) ∧
        (f ()).Ends l' out := by
  cases given with
  | false => exact .inr ⟨[], l, rfl, quiet_nil, by simp, he⟩
  | true =>
    obtain ⟨r, l', rfl, hr⟩ := Code.Ends.of_call he
    rcases of_orFailed hr with ⟨rfl, rfl, rfl⟩ | ⟨active, rfl, hactive⟩
    · exact .inl ⟨.failed, rfl, by simp⟩
    · rcases of_refuseUnless hactive with ⟨-, rfl, rfl⟩ | ⟨hfree, hf⟩
      · exact .inl ⟨.refused, rfl, by simp⟩
      · obtain rfl : active = false := by simpa using hfree
        exact .inr ⟨[⟨.batchActive, some false⟩], l', rfl, by simp, by simp, hf⟩

end

/-! ## Shapes -/

/-- The checks before an engine is stopped: no job has the slot, and no batch
drives the engine. -/
structure Checked (given : Bool) (l : Log β) (h : EngineId) : Prop where
  quiet : Quiet l
  holder : ⟨.holder, some ⟨h, false⟩⟩ ∈ l
  batch : given = true → ⟨.batchActive, some false⟩ ∈ l

/-- The executions of `swapReserved`. -/
inductive SwapRun (given : Bool) (target : EngineId) : Log β → Except Err Swapped → Prop
  | refused {q : Log β} {e : Err} : Quiet q → SwapRun given target q (.error e)
  | loaded {q : Log β} {ms : ℚ} : Quiet q →
      SwapRun given target (q ++ [⟨.ensureLoaded target, some ms⟩]) (.ok ⟨none, ms⟩)
  | notLoaded {q : Log β} : Quiet q →
      SwapRun given target (q ++ [⟨.ensureLoaded target, none⟩]) (.error .failed)
  | kept {q : Log β} {h : EngineId} {s : Option UnloadStatus} {e : Err} : Checked given q h →
      h ≠ target → s.all (!·.done) → e.refuses = false →
      SwapRun given target (q ++ [⟨.unload h, s⟩]) (.error e)
  | swapped {q : Log β} {h : EngineId} {s : UnloadStatus} {ms : ℚ} : Checked given q h →
      h ≠ target → s.done →
      SwapRun given target (q ++ [⟨.unload h, some s⟩, ⟨.ensureLoaded target, some ms⟩])
        (.ok ⟨some h, ms⟩)
  | restored {q : Log β} {h : EngineId} {s : UnloadStatus} {r : Option ℚ} : Checked given q h →
      h ≠ target → s.done →
      SwapRun given target (q ++ [⟨.unload h, some s⟩, ⟨.ensureLoaded target, none⟩,
        ⟨.retargetSwap target h, ()⟩, ⟨.ensureLoaded h, r⟩, ⟨.endSwap h, ()⟩]) (.error .failed)

theorem loadFreed_ends {l : Log β} {out : Except Err Swapped}
    (he : (loadFreed target h).Ends l out) :
    (∃ ms, l = [⟨.ensureLoaded target, some ms⟩] ∧ out = .ok ⟨some h, ms⟩) ∨
      ∃ r, l = [⟨.ensureLoaded target, none⟩, ⟨.retargetSwap target h, ()⟩, ⟨.ensureLoaded h, r⟩,
        ⟨.endSwap h, ()⟩] ∧ out = .error .failed := by
  obtain ⟨load, l₁, l₂, rfl, hload, hrest⟩ := Code.Ends.of_result_bind he
  obtain ⟨reply, l₃, rfl, hreply⟩ := Code.Ends.of_call hload
  cases reply with
  | some ms =>
    obtain ⟨rfl, rfl⟩ := hreply.of_ret
    obtain ⟨rfl, rfl⟩ := hrest.of_ret
    exact .inl ⟨ms, rfl, rfl⟩
  | none =>
    obtain ⟨rfl, rfl⟩ := hreply.of_raise
    obtain ⟨_, l₄, rfl, hretarget⟩ := Code.Ends.of_call hrest
    obtain ⟨again, l₅, l₆, rfl, hagain, hend⟩ := Code.Ends.of_result_bind hretarget
    obtain ⟨r, l₇, rfl, hr⟩ := Code.Ends.of_call hagain
    obtain ⟨_, l₈, rfl, hraise⟩ := Code.Ends.of_call hend
    obtain ⟨rfl, rfl⟩ := hraise.of_raise
    obtain rfl : l₇ = [] := by
      cases r with
      | none => exact hr.of_raise.1
      | some ms => exact hr.of_ret.1
    exact .inr ⟨r, rfl, rfl⟩

theorem evict_ends {q l : Log β} {out : Except Err Swapped} (hq : Checked given q h)
    (hh : h ≠ target) (he : (evict target h).Ends l out) : SwapRun given target (q ++ l) out := by
  rcases of_unload he with ⟨rfl, rfl⟩ | ⟨s, l', rfl, hs⟩
  · exact .kept hq hh rfl rfl
  · by_cases hdone : s.done
    · rw [if_pos hdone] at hs
      rcases loadFreed_ends hs with ⟨ms, rfl, rfl⟩ | ⟨r, rfl, rfl⟩
      · exact .swapped hq hh hdone
      · exact .restored hq hh hdone
    · rw [if_neg hdone] at hs
      obtain ⟨rfl, rfl⟩ := hs.of_raise
      exact .kept hq hh (by simpa using hdone) rfl

/-- The target is loaded where nothing is in its way. -/
theorem loadOnly_ends {q l : Log β} {out : Except Err Swapped} (hq : Quiet q)
    (he : (loadOnly target).Ends l out) : SwapRun given target (q ++ l) out := by
  rcases of_ensureLoaded he with ⟨rfl, rfl⟩ | ⟨ms, l', rfl, hret⟩
  · exact .notLoaded hq
  · obtain ⟨rfl, rfl⟩ := hret.of_ret
    exact .loaded hq

/-- Every check of a swap is made before the eviction. -/
theorem swapHeld_ends {l : Log β} {out : Except Err Swapped} {job : Bool} (hh : h ≠ target)
    (he : (swapHeld given target ⟨h, job⟩).Ends l out) :
    SwapRun given target (⟨.holder, some ⟨h, job⟩⟩ :: l) out := by
  rcases of_refuseUnless he with ⟨-, rfl, rfl⟩ | ⟨hjob, hbatch⟩
  · exact .refused (by simp)
  obtain rfl : job = false := by simpa using hjob
  rcases of_noBatch hbatch with ⟨e, rfl, hq⟩ | ⟨q, l₂, rfl, hq, hfree, hregistered⟩
  · exact .refused (by simpa using hq)
  obtain ⟨_, l₃, rfl, hr⟩ := Code.Ends.of_call hregistered
  rcases of_refuseUnless hr with ⟨-, rfl, rfl⟩ | ⟨rfl, henabled⟩
  · exact .refused (by simpa using hq)
  obtain ⟨_, l₄, rfl, hr'⟩ := Code.Ends.of_call henabled
  rcases of_refuseUnless hr' with ⟨-, rfl, rfl⟩ | ⟨rfl, hwedged⟩
  · exact .refused (by simpa using hq)
  obtain ⟨wedged, l₅, rfl, hr''⟩ := Code.Ends.of_call hwedged
  rcases of_refuseUnless hr'' with ⟨-, rfl, rfl⟩ | ⟨hsound, havailable⟩
  · exact .refused (by simpa using hq)
  rcases of_available havailable with ⟨rfl, rfl⟩ | ⟨ok, l₆, rfl, hok⟩
  · exact .refused (by simpa using hq)
  rcases of_refuseUnless hok with ⟨-, rfl, rfl⟩ | ⟨rfl, hevict⟩
  · exact .refused (by simpa using hq)
  let checks : Log β := [⟨.holder, some ⟨h, false⟩⟩] ++ q ++ [⟨.registered h, true⟩,
    ⟨.enabled target, true⟩, ⟨.wedged target, wedged⟩, ⟨.available target, some true⟩]
  have hchecked : Checked given checks h :=
    ⟨by simp [checks, hq], by simp [checks], fun hg => by simp [checks, hfree hg]⟩
  simpa [checks] using evict_ends hchecked hh hevict

theorem swapReserved_ends {l : Log β} {out : Except Err Swapped}
    (he : (swapReserved given target).Ends l out) : SwapRun given target l out := by
  obtain ⟨holder, l₁, rfl, hholder⟩ := Code.Ends.of_call he
  match holder with
  | none => exact loadOnly_ends (q := [⟨.holder, none⟩]) (by simp) hholder
  | some ⟨h, job⟩ =>
    change (if h = target then loadOnly target else swapHeld given target ⟨h, job⟩ :
      Prog β Swapped).Ends l₁ out at hholder
    by_cases htarget : h = target
    · rw [if_pos htarget] at hholder
      exact loadOnly_ends (q := [⟨.holder, some ⟨h, job⟩⟩]) (by simp) hholder
    · rw [if_neg htarget] at hholder
      exact swapHeld_ends htarget hholder

/-- The executions of `preemptFor`. -/
inductive PreemptRun (given : Bool) (target : EngineId) : Log β → Except Err Swapped → Prop
  | unknown : PreemptRun given target [⟨.registered target, false⟩] (.error .refused)
  | reserved : PreemptRun given target [⟨.registered target, true⟩, ⟨.beginSwap target, false⟩]
      (.error .refused)
  | ran {l : Log β} {out : Except Err Swapped} : SwapRun given target l out →
      PreemptRun given target ([⟨.registered target, true⟩, ⟨.beginSwap target, true⟩] ++ l ++
        [⟨.endSwap target, ()⟩]) out

theorem preemptFor_ends {l : Log β} {out : Except Err Swapped}
    (he : (preemptFor given target).Ends l out) : PreemptRun given target l out := by
  obtain ⟨_, l₁, rfl, hr⟩ := Code.Ends.of_call he
  rcases of_refuseUnless hr with ⟨rfl, rfl, rfl⟩ | ⟨rfl, hbegin⟩
  · exact .unknown
  obtain ⟨_, l₂, rfl, hr'⟩ := Code.Ends.of_call hbegin
  rcases of_refuseUnless hr' with ⟨rfl, rfl, rfl⟩ | ⟨rfl, hswap⟩
  · exact .reserved
  obtain ⟨swapped, l₃, l₄, rfl, hran, hrest⟩ := Code.Ends.of_result_bind hswap
  obtain ⟨_, l₅, rfl, hend⟩ := Code.Ends.of_call hrest
  obtain ⟨rfl, rfl⟩ : l₅ = [] ∧ out = swapped := by
    cases swapped with
    | ok swapped => exact hend.of_ret
    | error e => exact hend.of_raise
  exact .ran (swapReserved_ends hran)

/-- The executions of `reloadServingLlm`. -/
inductive ReloadRun (given preempt : Bool) : Log β → Except Err Result → Prop
  | refused {q : Log β} {e : Err} : Quiet q → ReloadRun given preempt q (.error e)
  | noop {q : Log β} {i : Identity} : Quiet q →
      ReloadRun given preempt (q ++ [⟨.boundIdentity, i⟩]) (.ok ⟨.noop, none, 0, i, false⟩)
  | loaded {q : Log β} {ms : ℚ} {i : Identity} : Quiet q →
      ReloadRun given preempt (q ++ [⟨.ensureLoaded "llm", some ms⟩, ⟨.boundIdentity, i⟩])
        (.ok ⟨.loaded, none, ms, i, false⟩)
  | notLoaded {q : Log β} : Quiet q →
      ReloadRun given preempt (q ++ [⟨.ensureLoaded "llm", none⟩]) (.error .failed)
  | swapped {q l : Log β} {s : Swapped} {i : Identity} : Quiet q → preempt = true →
      PreemptRun given "llm" l (.ok s) →
      ReloadRun given preempt (q ++ l ++ [⟨.boundIdentity, i⟩])
        (.ok ⟨.swapped, s.evicted, s.loadMs, i, false⟩)
  | notSwapped {q l : Log β} {e : Err} : Quiet q → preempt = true →
      PreemptRun given "llm" l (.error e) → ReloadRun given preempt (q ++ l) (.error e)
  | kept {q : Log β} {s : Option UnloadStatus} {e : Err} : Checked given q "llm" →
      preempt = true → s.all (!·.done) → e.refuses = false →
      ReloadRun given preempt (q ++ [⟨.unload "llm", s⟩]) (.error e)
  | reloaded {q : Log β} {s : UnloadStatus} {ms : ℚ} {i : Identity} : Checked given q "llm" →
      preempt = true → s.done →
      ReloadRun given preempt (q ++ [⟨.unload "llm", some s⟩, ⟨.ensureLoaded "llm", some ms⟩,
        ⟨.boundIdentity, i⟩]) (.ok ⟨.reloaded, none, ms, i, false⟩)
  | restored {q : Log β} {s : UnloadStatus} {b : β} {r : Option ℚ} : Checked given q "llm" →
      preempt = true → s.done → ⟨.snapshotBinding, b⟩ ∈ q →
      ReloadRun given preempt (q ++ [⟨.unload "llm", some s⟩, ⟨.ensureLoaded "llm", none⟩,
        ⟨.restoreBinding b, ()⟩, ⟨.ensureLoaded "llm", r⟩]) (.error .failed)

theorem forceReload_ends {q l : Log β} {prior : β} {out : Except Err Result}
    (hq : Checked given q "llm") (hpreempt : preempt = true)
    (hprior : ⟨.snapshotBinding, prior⟩ ∈ q)
    (he : (forceReload prior).Ends l out) : ReloadRun given preempt (q ++ l) out := by
  rcases of_unload he with ⟨rfl, rfl⟩ | ⟨s, l₁, rfl, hs⟩
  · exact .kept hq hpreempt rfl rfl
  by_cases hdone : s.done
  case neg =>
    rw [if_neg hdone] at hs
    obtain ⟨rfl, rfl⟩ := hs.of_raise
    exact .kept hq hpreempt (by simpa using hdone) rfl
  rw [if_pos hdone] at hs
  obtain ⟨load, l₂, l₃, rfl, hload, hrest⟩ := Code.Ends.of_result_bind hs
  obtain ⟨reply, l₄, rfl, hreply⟩ := Code.Ends.of_call hload
  cases reply with
  | some ms =>
    obtain ⟨rfl, rfl⟩ := hreply.of_ret
    obtain ⟨i, l₅, rfl, hret⟩ := Code.Ends.of_call hrest
    obtain ⟨rfl, rfl⟩ := hret.of_ret
    exact .reloaded hq hpreempt hdone
  | none =>
    obtain ⟨rfl, rfl⟩ := hreply.of_raise
    obtain ⟨_, l₅, rfl, hrestore⟩ := Code.Ends.of_call hrest
    obtain ⟨again, l₆, l₇, rfl, hagain, hraise⟩ := Code.Ends.of_result_bind hrestore
    obtain ⟨r, l₈, rfl, hr⟩ := Code.Ends.of_call hagain
    obtain ⟨rfl, rfl⟩ := hraise.of_raise
    obtain rfl : l₈ = [] := by
      cases r with
      | none => exact hr.of_raise.1
      | some ms => exact hr.of_ret.1
    exact .restored hq hpreempt hdone hprior

theorem reloadFree_ends {q l : Log β} {out : Except Err Result} (hq : Quiet q)
    (he : (reloadFree).Ends l out) : ReloadRun given preempt (q ++ l) out := by
  rcases of_ensureLoaded he with ⟨rfl, rfl⟩ | ⟨ms, l₁, rfl, hload⟩
  · exact .notLoaded hq
  obtain ⟨i, l₂, rfl, hret⟩ := Code.Ends.of_call hload
  obtain ⟨rfl, rfl⟩ := hret.of_ret
  exact .loaded hq

theorem reloadBySwap_ends {q l : Log β} {out : Except Err Result} {holder : Holder} (hq : Quiet q)
    (he : (reloadBySwap given preempt holder).Ends l out) :
    ReloadRun given preempt (q ++ l) out := by
  rcases of_refuseUnless he with ⟨-, rfl, rfl⟩ | ⟨-, hconfirm⟩
  · exact .refused (by simpa using hq)
  rcases of_refuseUnless hconfirm with ⟨-, rfl, rfl⟩ | ⟨hpreempt, hswap⟩
  · exact .refused (by simpa using hq)
  rcases hswap.of_bind with ⟨e, rfl, hran⟩ | ⟨s, l₁, l₂, rfl, hran, hrest⟩
  · exact .notSwapped hq hpreempt (preemptFor_ends hran)
  obtain ⟨i, l₃, rfl, hret⟩ := Code.Ends.of_call hrest
  obtain ⟨rfl, rfl⟩ := hret.of_ret
  simpa using ReloadRun.swapped hq hpreempt (preemptFor_ends hran)

theorem reloadOther_ends {q l : Log β} {prior : β} {job : Bool} {out : Except Err Result}
    (hq : Quiet q) (hholder : ⟨.holder, some ⟨"llm", job⟩⟩ ∈ q)
    (hprior : ⟨.snapshotBinding, prior⟩ ∈ q)
    (he : (reloadOther given preempt prior ⟨"llm", job⟩).Ends l out) :
    ReloadRun given preempt (q ++ l) out := by
  rcases of_refuseUnless he with ⟨-, rfl, rfl⟩ | ⟨hjob, hbatch⟩
  · exact .refused (by simpa using hq)
  obtain rfl : job = false := by simpa using hjob
  rcases of_noBatch hbatch with ⟨e, rfl, hq'⟩ | ⟨q', l₁, rfl, hq', hfree, hconfirm⟩
  · exact .refused (by simpa using ⟨hq, hq'⟩)
  rcases of_refuseUnless hconfirm with ⟨-, rfl, rfl⟩ | ⟨hpreempt, hforce⟩
  · exact .refused (by simpa using ⟨hq, hq'⟩)
  have hchecked : Checked given (q ++ q') "llm" :=
    ⟨by simpa using ⟨hq, hq'⟩, by simp [hholder], fun hg => by simp [hfree hg]⟩
  simpa using forceReload_ends hchecked hpreempt (by simp [hprior]) hforce

theorem reloadHeld_ends {q l : Log β} {prior : β} {job : Bool} {out : Except Err Result}
    (hq : Quiet q) (hholder : ⟨.holder, some ⟨"llm", job⟩⟩ ∈ q)
    (hprior : ⟨.snapshotBinding, prior⟩ ∈ q)
    (he : (reloadHeld given preempt prior ⟨"llm", job⟩).Ends l out) :
    ReloadRun given preempt (q ++ l) out := by
  obtain ⟨loaded, l₁, rfl, hloaded⟩ := Code.Ends.of_call he
  obtain ⟨bound, l₂, rfl, hbound⟩ := Code.Ends.of_call hloaded
  change (if loaded = some bound then reloadNoop else reloadOther given preempt prior ⟨"llm", job⟩ :
    Prog β Result).Ends l₂ out at hbound
  let q' : Log β := q ++ [⟨.loadedIdentity, loaded⟩, ⟨.boundIdentity, bound⟩]
  have hq' : Quiet q' := by simpa [q'] using hq
  by_cases hsame : loaded = some bound
  · rw [if_pos hsame] at hbound
    obtain ⟨i, l₃, rfl, hret⟩ := Code.Ends.of_call hbound
    obtain ⟨rfl, rfl⟩ := hret.of_ret
    simpa [q'] using ReloadRun.noop (i := i) hq'
  · rw [if_neg hsame] at hbound
    simpa [q'] using reloadOther_ends hq' (by simp [q', hholder]) (by simp [q', hprior]) hbound

theorem reloadServingLlm_ends {l : Log β} {out : Except Err Result}
    (he : (reloadServingLlm given preempt).Ends l out) : ReloadRun given preempt l out := by
  obtain ⟨_, l₁, rfl, hr⟩ := Code.Ends.of_call he
  rcases of_refuseUnless hr with ⟨-, rfl, rfl⟩ | ⟨rfl, hsnapshot⟩
  · exact .refused (by simp)
  obtain ⟨prior, l₂, rfl, hrebind⟩ := Code.Ends.of_call hsnapshot
  obtain ⟨rebound, l₃, rfl, hrebound⟩ := Code.Ends.of_call hrebind
  cases rebound with
  | false =>
    obtain ⟨rfl, rfl⟩ := hrebound.of_raise
    exact .refused (by simp)
  | true =>
  rcases of_available hrebound with ⟨rfl, rfl⟩ | ⟨ok, l₄, rfl, hok⟩
  · exact .refused (by simp)
  cases ok with
  | false =>
    obtain ⟨rfl, rfl⟩ := hok.of_raise
    exact .refused (by simp)
  | true =>
  obtain ⟨holder, l₅, rfl, hholder⟩ := Code.Ends.of_call hok
  match holder with
  | none => exact reloadFree_ends (q := [_, _, _, _, _]) (by simp) hholder
  | some ⟨h, job⟩ =>
    change (if h = "llm" then reloadHeld given preempt prior ⟨h, job⟩
      else reloadBySwap given preempt ⟨h, job⟩ : Prog β Result).Ends l₅ out at hholder
    by_cases hllm : h = "llm"
    · subst hllm
      rw [if_pos rfl] at hholder
      exact reloadHeld_ends (q := [_, _, _, _, _]) (by simp) (by simp) (by simp) hholder
    · rw [if_neg hllm] at hholder
      exact reloadBySwap_ends (q := [_, _, _, _, _]) (by simp) hholder

end MlopsLite.HostAgent.Reload
