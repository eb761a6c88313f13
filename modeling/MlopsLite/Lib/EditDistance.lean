import Mathlib

/-!
# EditDistance — the least number of edits

An edit inserts, deletes or substitutes one element anywhere in a list;
`distance` is the least number of edits from one list to another. An alignment
reads both lists from the front and pays for what it does not keep. Edits can be
put in the order of the places, so the two have the same least number, and the
least alignments of prefixes follow the recurrence of the usual table.
-/

namespace EditDistance

variable {α : Type}

inductive Edit : List α → List α → Prop
  | insert (l : List α) (x : α) (r : List α) : Edit (l ++ r) (l ++ x :: r)
  | delete (l : List α) (x : α) (r : List α) : Edit (l ++ x :: r) (l ++ r)
  | substitute (l : List α) (x y : α) (r : List α) : Edit (l ++ x :: r) (l ++ y :: r)

/-- So many edits, one after another. -/
inductive Edits : ℕ → List α → List α → Prop
  | refl (a : List α) : Edits 0 a a
  | step {n : ℕ} {a b c : List α} (first : Edit a b) (rest : Edits n b c) : Edits (n + 1) a c

noncomputable def distance (a b : List α) : ℕ := sInf {n | Edits n a b}

/-- An alignment and what it costs. -/
inductive Align : ℕ → List α → List α → Prop
  | nil : Align 0 [] []
  | insert {n : ℕ} {a b : List α} (y : α) (rest : Align n a b) : Align (n + 1) a (y :: b)
  | delete {n : ℕ} {a b : List α} (x : α) (rest : Align n a b) : Align (n + 1) (x :: a) b
  | keep {n : ℕ} {a b : List α} (x : α) (rest : Align n a b) : Align n (x :: a) (x :: b)
  | substitute {n : ℕ} {a b : List α} (x y : α) (rest : Align n a b) :
      Align (n + 1) (x :: a) (y :: b)

variable {a b c d : List α} {m n p q r : ℕ} {x y : α}

/-! ## Edits -/

theorem Edit.symm (h : Edit a b) : Edit b a := by
  cases h with
  | insert l x r => exact .delete l x r
  | delete l x r => exact .insert l x r
  | substitute l x y r => exact .substitute l y x r

theorem Edit.cons (x : α) (h : Edit a b) : Edit (x :: a) (x :: b) := by
  cases h with
  | insert l y r => exact .insert (x :: l) y r
  | delete l y r => exact .delete (x :: l) y r
  | substitute l y z r => exact .substitute (x :: l) y z r

namespace Edits

theorem trans (h : Edits m a b) (h' : Edits n b c) : Edits (m + n) a c := by
  induction h with
  | refl a => rwa [Nat.zero_add]
  | step first _ ih =>
    rw [Nat.add_right_comm]
    exact .step first (ih h')

theorem symm (h : Edits n a b) : Edits n b a := by
  induction h with
  | refl a => exact .refl a
  | step first _ ih => exact ih.trans (.step first.symm (.refl _))

theorem cons (x : α) (h : Edits n a b) : Edits n (x :: a) (x :: b) := by
  induction h with
  | refl a => exact .refl _
  | step first _ ih => exact .step (first.cons x) ih

end Edits

/-! ## Alignments -/

namespace Align

theorem refl (a : List α) : Align 0 a a := by
  induction a with
  | nil => exact .nil
  | cons x a ih => exact .keep x ih

theorem append (h : Align m a b) (h' : Align n c d) : Align (m + n) (a ++ c) (b ++ d) := by
  induction h with
  | nil => rwa [Nat.zero_add]
  | insert y _ ih =>
    rw [Nat.add_right_comm]
    exact .insert y ih
  | delete x _ ih =>
    rw [Nat.add_right_comm]
    exact .delete x ih
  | keep x _ ih => exact .keep x ih
  | substitute x y _ ih =>
    rw [Nat.add_right_comm]
    exact .substitute x y ih

theorem insertLast (y : α) (h : Align n a b) : Align (n + 1) a (b ++ [y]) := by
  have happend := h.append (.insert y .nil)
  rwa [List.append_nil] at happend

theorem deleteLast (x : α) (h : Align n a b) : Align (n + 1) (a ++ [x]) b := by
  have happend := h.append (.delete x .nil)
  rwa [List.append_nil] at happend

theorem keepLast (x : α) (h : Align n a b) : Align n (a ++ [x]) (b ++ [x]) :=
  h.append (.keep x .nil)

theorem substituteLast (x y : α) (h : Align n a b) : Align (n + 1) (a ++ [x]) (b ++ [y]) :=
  h.append (.substitute x y .nil)

theorem reverse (h : Align n a b) : Align n a.reverse b.reverse := by
  induction h with
  | nil => exact .nil
  | insert y _ ih =>
    rw [List.reverse_cons]
    exact ih.insertLast y
  | delete x _ ih =>
    rw [List.reverse_cons]
    exact ih.deleteLast x
  | keep x _ ih =>
    rw [List.reverse_cons, List.reverse_cons]
    exact ih.keepLast x
  | substitute x y _ ih =>
    rw [List.reverse_cons, List.reverse_cons]
    exact ih.substituteLast x y

theorem length_le (h : Align n a b) : b.length ≤ a.length + n ∧ a.length ≤ b.length + n := by
  induction h with
  | nil => exact ⟨le_rfl, le_rfl⟩
  | insert | delete | keep | substitute => grind

/-- What the last two elements may be aligned as. -/
theorem last (h : Align n (a ++ [x]) (b ++ [y])) :
    (∃ m, n = m + 1 ∧ Align m (a ++ [x]) b) ∨ (∃ m, n = m + 1 ∧ Align m a (b ++ [y])) ∨
      (x = y ∧ Align n a b) ∨ ∃ m, n = m + 1 ∧ Align m a b := by
  have hrev := h.reverse
  rw [List.reverse_append, List.reverse_append] at hrev
  have hback : ∀ {k : ℕ} {l r : List α}, Align k l.reverse r.reverse → Align k l r := fun h => by
    simpa using h.reverse
  cases hrev with
  | insert _ rest => exact Or.inl ⟨_, rfl, hback (by simpa using rest)⟩
  | delete _ rest => exact Or.inr (Or.inl ⟨_, rfl, hback (by simpa using rest)⟩)
  | keep _ rest => exact Or.inr (Or.inr (Or.inl ⟨rfl, hback (by simpa using rest)⟩))
  | substitute _ _ rest => exact Or.inr (Or.inr (Or.inr ⟨_, rfl, hback (by simpa using rest)⟩))

theorem trans (h : Align m a b) (h' : Align n b c) : ∃ k ≤ m + n, Align k a c := by
  -- where the first puts an element the second reads it or inserts before it
  induction h generalizing n c with
  | nil => exact ⟨n, by omega, h'⟩
  | delete x _ ih =>
    obtain ⟨k, hk, halign⟩ := ih h'
    exact ⟨k + 1, by omega, .delete x halign⟩
  | insert y _ ih =>
    generalize hl : y :: _ = l at h'
    induction h' with
    | nil => cases hl
    | insert z _ ih' =>
      obtain ⟨k, hk, halign⟩ := ih' hl
      exact ⟨k + 1, by omega, .insert z halign⟩
    | delete _ rest =>
      cases hl
      obtain ⟨k, hk, halign⟩ := ih rest
      exact ⟨k, by omega, halign⟩
    | keep _ rest =>
      cases hl
      obtain ⟨k, hk, halign⟩ := ih rest
      exact ⟨k + 1, by omega, .insert _ halign⟩
    | substitute _ z rest =>
      cases hl
      obtain ⟨k, hk, halign⟩ := ih rest
      exact ⟨k + 1, by omega, .insert z halign⟩
  | keep x _ ih =>
    generalize hl : x :: _ = l at h'
    induction h' with
    | nil => cases hl
    | insert z _ ih' =>
      obtain ⟨k, hk, halign⟩ := ih' hl
      exact ⟨k + 1, by omega, .insert z halign⟩
    | delete _ rest =>
      cases hl
      obtain ⟨k, hk, halign⟩ := ih rest
      exact ⟨k + 1, by omega, .delete _ halign⟩
    | keep _ rest =>
      cases hl
      obtain ⟨k, hk, halign⟩ := ih rest
      exact ⟨k, hk, .keep _ halign⟩
    | substitute _ z rest =>
      cases hl
      obtain ⟨k, hk, halign⟩ := ih rest
      exact ⟨k + 1, by omega, .substitute _ z halign⟩
  | substitute x y _ ih =>
    generalize hl : y :: _ = l at h'
    induction h' with
    | nil => cases hl
    | insert z _ ih' =>
      obtain ⟨k, hk, halign⟩ := ih' hl
      exact ⟨k + 1, by omega, .insert z halign⟩
    | delete _ rest =>
      cases hl
      obtain ⟨k, hk, halign⟩ := ih rest
      exact ⟨k + 1, by omega, .delete x halign⟩
    | keep _ rest =>
      cases hl
      obtain ⟨k, hk, halign⟩ := ih rest
      exact ⟨k + 1, by omega, .substitute x _ halign⟩
    | substitute _ z rest =>
      cases hl
      obtain ⟨k, hk, halign⟩ := ih rest
      exact ⟨k + 1, by omega, .substitute x z halign⟩

end Align

/-! ## The two agree -/

theorem Align.edits (h : Align n a b) : Edits n a b := by
  induction h with
  | nil => exact .refl []
  | insert y _ ih => exact ih.trans (.step (.insert [] y _) (.refl _))
  | delete x _ ih => exact .step (.delete [] x _) ih
  | keep x _ ih => exact ih.cons x
  | substitute x y _ ih => exact .step (.substitute [] x y _) (ih.cons y)

theorem Edit.align (h : Edit a b) : Align 1 a b := by
  cases h with
  | insert l x r => exact (Align.refl l).append (.insert x (.refl r))
  | delete l x r => exact (Align.refl l).append (.delete x (.refl r))
  | substitute l x y r => exact (Align.refl l).append (.substitute x y (.refl r))

theorem Edits.align (h : Edits n a b) : ∃ k ≤ n, Align k a b := by
  induction h with
  | refl a => exact ⟨0, le_rfl, .refl a⟩
  | step first _ ih =>
    obtain ⟨k, hk, halign⟩ := ih
    obtain ⟨k', hk', hall⟩ := first.align.trans halign
    exact ⟨k', by omega, hall⟩

/-- The cost of the best alignment is the least number of edits. -/
theorem isLeast_edits (h : IsLeast {n | Align n a b} m) : IsLeast {n | Edits n a b} m := by
  refine ⟨h.1.edits, fun n hn => ?_⟩
  obtain ⟨k, hk, halign⟩ := Edits.align hn
  exact (h.2 halign).trans hk

/-! ## The table -/

theorem isLeast_nil_left (b : List α) : IsLeast {n | Align n [] b} b.length := by
  constructor
  · induction b with
    | nil => exact Align.nil
    | cons y b ih => exact Align.insert y ih
  · intro n h
    have hle := h.length_le.1
    simpa using hle

theorem isLeast_nil_right (a : List α) : IsLeast {n | Align n a []} a.length := by
  constructor
  · induction a with
    | nil => exact Align.nil
    | cons x a ih => exact Align.delete x ih
  · intro n h
    have hle := h.length_le.2
    simpa using hle

/-- A cell of the table from the three beside it. -/
theorem isLeast_cell [DecidableEq α] (hup : IsLeast {n | Align n a (b ++ [y])} p)
    (hleft : IsLeast {n | Align n (a ++ [x]) b} q) (hdiag : IsLeast {n | Align n a b} r) :
    IsLeast {n | Align n (a ++ [x]) (b ++ [y])}
      (min (min (p + 1) (q + 1)) (r + if x ≠ y then 1 else 0)) := by
  constructor
  · rcases min_choice (min (p + 1) (q + 1)) (r + if x ≠ y then 1 else 0) with h | h
    · rw [h]
      rcases min_choice (p + 1) (q + 1) with h | h
      · rw [h]
        exact Align.deleteLast x hup.1
      · rw [h]
        exact Align.insertLast y hleft.1
    · rw [h]
      by_cases hxy : x = y
      · subst hxy
        rw [if_neg (by simp), Nat.add_zero]
        exact Align.keepLast x hdiag.1
      · rw [if_pos hxy]
        exact Align.substituteLast x y hdiag.1
  · intro n h
    rcases Align.last h with ⟨m, rfl, hm⟩ | ⟨m, rfl, hm⟩ | ⟨rfl, hm⟩ | ⟨m, rfl, hm⟩
    · have hle := hleft.2 hm
      omega
    · have hle := hup.2 hm
      omega
    · have hle := hdiag.2 hm
      rw [if_neg (by simp)]
      omega
    · have hle := hdiag.2 hm
      split <;> omega

/-! ## The distance -/

theorem exists_edits (a b : List α) : ∃ n, Edits n a b := by
  have hdelete := (isLeast_nil_right a).1.edits
  have hinsert := (isLeast_nil_left b).1.edits
  exact ⟨_, hdelete.trans hinsert⟩

theorem distance_isLeast (a b : List α) : IsLeast {n | Edits n a b} (distance a b) :=
  ⟨Nat.sInf_mem (exists_edits a b), fun _ h => Nat.sInf_le h⟩

theorem distance_eq (h : IsLeast {n | Align n a b} m) : m = distance a b :=
  (isLeast_edits h).unique (distance_isLeast a b)

theorem distance_comm (a b : List α) : distance a b = distance b a :=
  le_antisymm (Nat.sInf_le (distance_isLeast b a).1.symm) (Nat.sInf_le (distance_isLeast a b).1.symm)

theorem distance_eq_zero : distance a b = 0 ↔ a = b := by
  constructor
  · intro h
    have hleast := (distance_isLeast a b).1
    rw [h] at hleast
    cases hleast
    rfl
  · rintro rfl
    exact Nat.le_zero.mp (Nat.sInf_le (Edits.refl a))

theorem distance_triangle (a b c : List α) : distance a c ≤ distance a b + distance b c :=
  Nat.sInf_le ((distance_isLeast a b).1.trans (distance_isLeast b c).1)

end EditDistance
