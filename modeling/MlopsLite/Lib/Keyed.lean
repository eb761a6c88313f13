import Mathlib

/-!
# Keyed — lists in strictly increasing order of a key

Every key occurs once, a bound on the key cuts the list in two, and such a
list is its set of elements.
-/

namespace Keyed

variable {α κ : Type} [LinearOrder κ] {key : α → κ} {l l' done pending : List α} {a b : α}

/-- Strictly increasing keys. -/
abbrev Increasing (key : α → κ) (l : List α) : Prop := l.Pairwise fun a b => key a < key b

theorem Increasing.unique (h : Increasing key l) (ha : a ∈ l) (hb : b ∈ l)
    (hkey : key a = key b) : a = b := by
  induction l with
  | nil => cases ha
  | cons c l ih =>
    obtain ⟨hc, hl⟩ := List.pairwise_cons.mp h
    rcases List.mem_cons.mp ha with hac | hal <;> rcases List.mem_cons.mp hb with hbc | hbl
    · exact hac.trans hbc.symm
    · exact absurd hkey (hac ▸ (hc b hbl).ne)
    · exact absurd hkey.symm (hbc ▸ (hc a hal).ne)
    · exact ih hl hal hbl

/-- The element with a key. -/
def find? (key : α → κ) (l : List α) (k : κ) : Option α := l.find? fun a => key a = k

theorem Increasing.find?_eq_some (h : Increasing key l) {k : κ} :
    find? key l k = some a ↔ a ∈ l ∧ key a = k := by
  constructor
  · intro hfind
    exact ⟨List.mem_of_find?_eq_some hfind, by simpa using List.find?_some hfind⟩
  · rintro ⟨ha, rfl⟩
    cases hfind : find? key l (key a) with
    | none => exact absurd (decide_eq_true rfl) (List.find?_eq_none.mp hfind a ha)
    | some b =>
      have hkey : key b = key a := by simpa using List.find?_some hfind
      rw [h.unique (List.mem_of_find?_eq_some hfind) ha hkey]

theorem find?_eq_none {k : κ} : find? key l k = none ↔ ∀ a ∈ l, key a ≠ k := by
  simp [find?, List.find?_eq_none]

/-- A bound on the key cuts the list in two. -/
theorem Increasing.cut (h : Increasing key l) (k : κ) :
    l = l.filter (fun a => key a ≤ k) ++ l.filter fun a => k < key a := by
  induction l with
  | nil => rfl
  | cons a l ih =>
    obtain ⟨ha, hl⟩ := List.pairwise_cons.mp h
    by_cases hk : key a ≤ k
    · simp only [List.filter_cons, hk, not_lt.mpr hk, decide_true, decide_false, if_true,
        Bool.false_eq_true, if_false, List.cons_append]
      rw [← ih hl]
    · have hlt := not_le.mp hk
      have hnone : l.filter (fun a => key a ≤ k) = [] := by
        rw [List.filter_eq_nil_iff]
        intro b hb
        simpa using hlt.trans (ha b hb)
      have hall : l.filter (fun a => k < key a) = l := by
        rw [List.filter_eq_self]
        intro b hb
        simpa using hlt.trans (ha b hb)
      simp [hnone, hall, hk, hlt]

/-- Where the list is cut at a bound, the part above it is what the bound keeps. -/
theorem filter_above {k : κ} (hdone : ∀ a ∈ done, key a ≤ k) (hpending : ∀ a ∈ pending, k < key a) :
    (done ++ pending).filter (fun a => k < key a) = pending := by
  rw [List.filter_append, List.filter_eq_nil_iff.mpr, List.filter_eq_self.mpr, List.nil_append]
  · intro a ha
    simpa using hpending a ha
  · intro a ha
    simpa using hdone a ha

theorem Increasing.eq_of_mem_iff (h : Increasing key l) (h' : Increasing key l')
    (hmem : ∀ a, a ∈ l ↔ a ∈ l') : l = l' := by
  have : Std.Irrefl fun a b => key a < key b := ⟨fun a => lt_irrefl (key a)⟩
  exact List.Pairwise.eq_of_mem_iff h h' hmem

end Keyed
