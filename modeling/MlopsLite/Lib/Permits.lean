import MlopsLite.Lib.Interleaving

/-!
# Permits — a counting semaphore

The shared state has `free` permits left; a thread whose control point `holds`
has one in hand. A section takes one, gives its own back or leaves both as
they are, and in every run the permits left and those in hand make up the
same number.
-/

namespace Interleaving

variable {ι σ κ χ : Type}

/-- The permits left and those in hand are `cap`. -/
def Counted (free : σ → ℕ) (holds : κ → Prop) (cap : ℕ) (s : State ι σ κ) : Prop :=
  ∃ hands : Finset ι, (∀ t, t ∈ hands ↔ holds (s.pc t)) ∧ free s.shared + hands.card = cap

/-- What a section may do with the permits. -/
def Permits (free : σ → ℕ) (holds : κ → Prop) (x : σ) (k : κ) (x' : σ) (k' : κ) : Prop :=
  ((holds k' ↔ holds k) ∧ free x' = free x) ∨
  (¬ holds k ∧ holds k' ∧ free x = free x' + 1) ∨
  (holds k ∧ ¬ holds k' ∧ free x' = free x + 1)

variable {free : σ → ℕ} {holds : κ → Prop} {cap : ℕ} {s s' : State ι σ κ}

theorem counted_init (h : ∀ t, ¬ holds (s.pc t)) (hf : free s.shared = cap) :
    Counted free holds cap s := by
  refine ⟨∅, fun t => ?_, ?_⟩
  · simp [h t]
  · simp [hf]

/-- A thread with a permit in hand finds room to give it back. -/
theorem Counted.free_lt (h : Counted free holds cap s) {t : ι} (ht : holds (s.pc t)) :
    free s.shared < cap := by
  obtain ⟨hands, hm, hc⟩ := h
  have hpos : 0 < hands.card := Finset.card_pos.mpr ⟨t, (hm t).mpr ht⟩
  omega

/-- Where nobody has a permit in hand, all are back. -/
theorem Counted.free_eq (h : Counted free holds cap s) (hn : ∀ t, ¬ holds (s.pc t)) :
    free s.shared = cap := by
  obtain ⟨hands, hm, hc⟩ := h
  have hempty : hands = ∅ := by
    ext t
    simp [hm t, hn t]
  rw [hempty, Finset.card_empty] at hc
  omega

variable [DecidableEq ι] {advance : Program ι σ κ χ}

theorem Counted.next (h : Counted free holds cap s) {t : ι} {c : χ}
    (hn : Interleaving.next advance s (t, c) = some s')
    (hp : ∀ x k, advance t c s.shared (s.pc t) = some (x, k) →
      Permits free holds s.shared (s.pc t) x k) : Counted free holds cap s' := by
  obtain ⟨hands, hm, hc⟩ := h
  obtain ⟨x, k, ha, rfl⟩ := next_eq_some.mp hn
  have self : Function.update s.pc t k t = k := Function.update_self ..
  have other : ∀ u, u ≠ t → Function.update s.pc t k u = s.pc u := fun u hu =>
    Function.update_of_ne hu ..
  rcases hp x k ha with ⟨hk, hf⟩ | ⟨hout, hin, hf⟩ | ⟨hin, hout, hf⟩
  · refine ⟨hands, fun u => ?_, ?_⟩
    · show u ∈ hands ↔ holds (Function.update s.pc t k u)
      by_cases hu : u = t
      · subst hu
        rw [self, hk]
        exact hm u
      · rw [other u hu]
        exact hm u
    · show free x + hands.card = cap
      omega
  · have hnot : t ∉ hands := fun ht => hout ((hm t).mp ht)
    refine ⟨insert t hands, fun u => ?_, ?_⟩
    · show u ∈ insert t hands ↔ holds (Function.update s.pc t k u)
      by_cases hu : u = t
      · subst hu
        simp [hin]
      · rw [other u hu, Finset.mem_insert]
        exact ⟨fun h => (hm u).mp (h.resolve_left hu), fun h => .inr ((hm u).mpr h)⟩
    · rw [Finset.card_insert_of_notMem hnot]
      show free x + (hands.card + 1) = cap
      omega
  · have hmem : t ∈ hands := (hm t).mpr hin
    have hpos : 0 < hands.card := Finset.card_pos.mpr ⟨t, hmem⟩
    refine ⟨hands.erase t, fun u => ?_, ?_⟩
    · show u ∈ hands.erase t ↔ holds (Function.update s.pc t k u)
      by_cases hu : u = t
      · subst hu
        simp [hout]
      · rw [other u hu, Finset.mem_erase]
        exact ⟨fun h => (hm u).mp h.2, fun h => ⟨hu, (hm u).mpr h⟩⟩
    · rw [Finset.card_erase_of_mem hmem]
      show free x + (hands.card - 1) = cap
      omega

end Interleaving
