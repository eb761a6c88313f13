import Mathlib

/-!
# Parked — items that wait at the end of a queue

A queue is a list without repetition. A parked item is kept with the items it
waits behind: the whole queue when it is parked, less what is moved behind it
or leaves, and with what is moved in front of it. An operation on one item
leaves the others in their order.
-/

namespace Parked

variable {α : Type}

/-- `i` stands before `j`. -/
def Before (l : List α) (i j : α) : Prop := [i, j].Sublist l

section

variable {l rest : List α} {i j k : α}

theorem before_head : Before (i :: rest) i j ↔ j ∈ rest := by
  constructor
  · intro h
    cases h with
    | cons _ h => exact h.subset (by simp)
    | cons_cons _ h => exact List.singleton_sublist.mp h
  · intro h
    exact (List.singleton_sublist.mpr h).cons_cons i

theorem not_before_head (h : (i :: rest).Nodup) : ¬ Before (i :: rest) j i := by
  intro hbefore
  have hnot := (List.nodup_cons.mp h).1
  cases hbefore with
  | cons _ hrest => exact hnot (hrest.subset (by simp))
  | cons_cons _ hrest => exact hnot (List.singleton_sublist.mp hrest)

theorem before_last (h : (rest ++ [k]).Nodup) (hi : i ∈ rest ++ [k]) :
    Before (rest ++ [k]) i k ↔ i ≠ k := by
  constructor
  · rintro hbefore rfl
    have hpair : [i, i].Nodup := h.sublist hbefore
    simp at hpair
  · intro hne
    have hrest : i ∈ rest := by simpa [hne] using hi
    exact (List.singleton_sublist.mpr hrest).append (List.Sublist.refl [k])

end

variable [DecidableEq α]

instance (l : List α) (i j : α) : Decidable (Before l i j) :=
  inferInstanceAs (Decidable ([i, j].Sublist l))

/-- The items other than `k`, in order. -/
def others (k : α) (l : List α) : List α := l.filter (· ≠ k)

section

variable {l l' : List α} {i j k : α}

theorem mem_others : i ∈ others k l ↔ i ∈ l ∧ i ≠ k := by
  simp [others]

theorem before_others (hi : i ≠ k) (hj : j ≠ k) : Before (others k l) i j ↔ Before l i j := by
  constructor
  · intro h
    exact h.trans List.filter_sublist
  · intro h
    have hkept : [i, j].filter (· ≠ k) = [i, j] := by simp [hi, hj]
    unfold Before
    rw [← hkept]
    exact h.filter _

/-- An operation on another item. -/
theorem before_iff_of_others (h : others k l' = others k l) (hi : i ≠ k) (hj : j ≠ k) :
    Before l' i j ↔ Before l i j := by
  rw [← before_others hi hj, h, before_others hi hj]

end

/-! ## What parked items wait behind -/

/-- The parked items, each with those it waits behind. -/
abbrev Waits (α : Type) := List (α × List α)

/-- After an operation on `k` that left the queue `l`. -/
def note (l : List α) (k : α) (waits : Waits α) : Waits α :=
  (waits.filter fun w => w.1 ≠ k).map fun w =>
    (w.1, if Before l k w.1 then k :: others k w.2 else others k w.2)

/-- The last item of the queue is parked. -/
def park (l : List α) (k : α) (waits : Waits α) : Waits α := (k, others k l) :: note l k waits

/-- The item is parked. -/
def IsParked (waits : Waits α) (k : α) : Prop := ∃ w ∈ waits, w.1 = k

instance (waits : Waits α) (k : α) : Decidable (IsParked waits k) :=
  inferInstanceAs (Decidable (∃ w ∈ waits, w.1 = k))

/-- Every parked item is in the queue, behind just those it waits behind. -/
def Tracked (l : List α) (waits : Waits α) : Prop :=
  ∀ w ∈ waits, w.1 ∈ l ∧ ∀ i ∈ l, i ∈ w.2 ↔ Before l i w.1

/-- Every parked item still waits behind another. -/
def AllWait (l : List α) (waits : Waits α) : Prop := ∀ w ∈ waits, ∃ i ∈ w.2, i ∈ l

instance (l : List α) (waits : Waits α) : Decidable (AllWait l waits) :=
  inferInstanceAs (Decidable (∀ w ∈ waits, ∃ i ∈ w.2, i ∈ l))

variable {l l' rest : List α} {waits : Waits α} {i j k : α}

theorem isParked_note : IsParked (note l k waits) j ↔ IsParked waits j ∧ j ≠ k := by
  constructor
  · rintro ⟨w', hw', rfl⟩
    obtain ⟨w, hw, rfl⟩ := List.mem_map.mp hw'
    obtain ⟨hmem, hne⟩ := List.mem_filter.mp hw
    exact ⟨⟨w, hmem, rfl⟩, by simpa using hne⟩
  · rintro ⟨⟨w, hw, rfl⟩, hne⟩
    exact ⟨_, List.mem_map_of_mem (List.mem_filter.mpr ⟨hw, by simpa using hne⟩), rfl⟩

theorem Tracked.note (h : Tracked l waits) (hothers : others k l' = others k l) :
    Tracked l' (note l' k waits) := by
  intro w' hw'
  obtain ⟨w, hw, rfl⟩ := List.mem_map.mp hw'
  obtain ⟨hmem, hne⟩ := List.mem_filter.mp hw
  have hne : w.1 ≠ k := by simpa using hne
  obtain ⟨hin, hbehind⟩ := h w hmem
  have hmem_iff : ∀ i, i ≠ k → (i ∈ l' ↔ i ∈ l) := by
    intro i hi
    have hiff : i ∈ others k l' ↔ i ∈ others k l := by rw [hothers]
    simpa [mem_others, hi] using hiff
  refine ⟨(hmem_iff w.1 hne).mpr hin, ?_⟩
  intro i hi
  by_cases hik : i = k
  · subst hik
    split_ifs with hbefore
    · simp [hbefore]
    · simp [hbefore, mem_others]
  · have hsame : i ∈ w.2 ↔ Before l' i w.1 := by
      rw [before_iff_of_others hothers hik hne]
      exact hbehind i ((hmem_iff i hik).mp hi)
    split_ifs
    · simpa [mem_others, hik] using hsame
    · simpa [mem_others, hik] using hsame

theorem Tracked.park (h : Tracked l waits) (hlast : l' = others k l ++ [k]) (hnodup : l'.Nodup) :
    Tracked l' (park l' k waits) := by
  have hothers : others k l' = others k l := by
    rw [hlast]
    simp [others]
  refine List.forall_mem_cons.mpr ⟨⟨by simp [hlast], ?_⟩, h.note hothers⟩
  intro i hi
  dsimp only
  rw [mem_others, and_iff_right hi]
  rw [hlast] at hi hnodup ⊢
  exact (before_last hnodup hi).symm

/-- The head of the queue is parked exactly if some parked item waits behind nothing. -/
theorem isParked_head_iff (h : Tracked (i :: rest) waits) (hnodup : (i :: rest).Nodup) :
    IsParked waits i ↔ ¬ AllWait (i :: rest) waits := by
  constructor
  · rintro ⟨w, hw, rfl⟩ hall
    obtain ⟨j, hj, hmem⟩ := hall w hw
    exact not_before_head hnodup (((h w hw).2 j hmem).mp hj)
  · intro hnot
    simp only [AllWait, not_forall, not_exists, not_and] at hnot
    obtain ⟨w, hw, hnone⟩ := hnot
    refine ⟨w, hw, ?_⟩
    by_contra hne
    obtain ⟨hin, hbehind⟩ := h w hw
    have hrest : w.1 ∈ rest := by simpa [hne] using hin
    have hbefore : Before (i :: rest) i w.1 := before_head.mpr hrest
    exact hnone i ((hbehind i List.mem_cons_self).mpr hbefore) List.mem_cons_self

end Parked
