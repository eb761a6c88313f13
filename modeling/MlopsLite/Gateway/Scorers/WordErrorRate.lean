import MlopsLite.Lib.EditDistance
import MlopsLite.Lib.Texts

/-!
# Scorers — the word error rate

`_edit_distance` and `wer` (`gateway/app/evaluation.py`): a table of distances
between prefixes, one row at a time, and the edits of all pairs over the words
of all references. The quotient is exact.
-/

namespace MlopsLite.Gateway.Scorers

open EditDistance (Align Edits distance)

variable {α : Type} [DecidableEq α]

/-! ## The rows -/

/-- One more cell of the row of `ca`. -/
def nextCell (prev : List ℕ) (ca : α) (cur : List ℕ) (cb : α × ℕ) : List ℕ :=
  cur ++ [min (min (prev.getD cb.2 0 + 1) (cur.getD (cb.2 - 1) 0 + 1))
    (prev.getD (cb.2 - 1) 0 + if ca ≠ cb.1 then 1 else 0)]

def nextRow (b : List α) (prev : List ℕ) (ca : α × ℕ) : List ℕ :=
  (b.zipIdx 1).foldl (nextCell prev ca.1) [ca.2]

/-- `_edit_distance`. -/
def editDistance (a b : List α) : ℕ :=
  ((a.zipIdx 1).foldl (nextRow b) (List.range (b.length + 1))).getLast?.getD 0

/-- A counted loop keeps what each round keeps. -/
theorem foldl_zipIdx {β σ : Type} {P : List β → σ → Prop} {f : σ → β × ℕ → σ} {l : List β} {s : σ}
    (start : P [] s) (round : ∀ done x s, done ++ [x] <+: l → P done s →
      P (done ++ [x]) (f s (x, done.length + 1))) : P l ((l.zipIdx 1).foldl f s) := by
  suffices hrest : ∀ rest done s, done ++ rest = l → P done s →
      P l ((rest.zipIdx (done.length + 1)).foldl f s) from hrest l [] s rfl start
  intro rest
  induction rest with
  | nil =>
    intro done s hl h
    rw [List.append_nil] at hl
    exact hl ▸ h
  | cons x rest ih =>
    intro done s hl h
    have hl' : (done ++ [x]) ++ rest = l := by rw [List.append_assoc, List.singleton_append, hl]
    have hnext := ih (done ++ [x]) _ hl' (round done x s ⟨rest, hl'⟩ h)
    rwa [List.length_append, List.length_singleton] at hnext

/-- The first cells of a row: the least costs from `a` to the prefixes of `b`. -/
structure Row (a b : List α) (row : List ℕ) : Prop where
  length : row.length = b.length + 1
  least : ∀ j ≤ b.length, IsLeast {n | Align n a (b.take j)} (row.getD j 0)

omit [DecidableEq α] in
theorem Row.first (b : List α) : Row [] b (List.range (b.length + 1)) where
  length := List.length_range
  least j hj := by
    have hcell : (List.range (b.length + 1)).getD j 0 = (b.take j).length := by
      rw [List.getD_eq_getElem?_getD, List.getElem?_range (by omega), List.length_take_of_le hj]
      rfl
    rw [hcell]
    exact EditDistance.isLeast_nil_left _

theorem Row.cell {a b done : List α} {prev cur : List ℕ} {ca cb : α} (hprev : Row a b prev)
    (hinit : done ++ [cb] <+: b) (hcur : Row (a ++ [ca]) done cur) :
    Row (a ++ [ca]) (done ++ [cb]) (nextCell prev ca cur (cb, done.length + 1)) := by
  obtain ⟨rest, rfl⟩ := hinit
  have hlen := hcur.length
  have hdone : (done ++ [cb] ++ rest).take done.length = done := by simp
  have hsucc : (done ++ [cb] ++ rest).take (done.length + 1) = done ++ [cb] :=
    List.take_left' (by simp)
  have hup := hprev.least (done.length + 1) (by simp)
  have hleft := hcur.least done.length le_rfl
  have hdiag := hprev.least done.length (by simp)
  rw [hsucc] at hup
  rw [List.take_length] at hleft
  rw [hdone] at hdiag
  constructor
  · simp [nextCell, hlen]
  · intro j hj
    rw [List.length_append, List.length_singleton] at hj
    rw [nextCell, List.getD_eq_getElem?_getD]
    rcases Nat.lt_or_eq_of_le hj with hlt | rfl
    · have hj' : j ≤ done.length := by omega
      have hleast := hcur.least j hj'
      rw [List.getElem?_append_left (by omega), ← List.getD_eq_getElem?_getD,
        List.take_append_of_le_length hj']
      exact hleast
    · rw [List.getElem?_append_right (by omega), hlen, Nat.sub_self]
      have hwhole : (done ++ [cb]).take (done.length + 1) = done ++ [cb] := by simp
      rw [hwhole]
      exact EditDistance.isLeast_cell hup hleft hdiag

theorem Row.next {a b : List α} {prev : List ℕ} {ca : α} (hprev : Row a b prev) :
    Row (a ++ [ca]) b (nextRow b prev (ca, a.length + 1)) := by
  refine foldl_zipIdx (P := fun done cur => Row (a ++ [ca]) done cur) ?_ ?_
  · refine ⟨rfl, fun j hj => ?_⟩
    obtain rfl : j = 0 := Nat.le_zero.mp hj
    have hleast := EditDistance.isLeast_nil_right (a ++ [ca])
    rw [List.length_append, List.length_singleton] at hleast
    exact hleast
  · intro done cb cur hinit hcur
    exact hprev.cell hinit hcur

/-- The last cell of the last row. -/
theorem editDistance_eq (a b : List α) : editDistance a b = distance a b := by
  have hrow : Row a b ((a.zipIdx 1).foldl (nextRow b) (List.range (b.length + 1))) := by
    refine foldl_zipIdx (P := fun done row => Row done b row) (Row.first b) ?_
    intro done ca row _ hrow
    exact hrow.next
  have hlast := hrow.least b.length le_rfl
  rw [List.take_length] at hlast
  rw [← EditDistance.distance_eq hlast, editDistance, List.getLast?_eq_getElem?, hrow.length,
    List.getD_eq_getElem?_getD]
  rfl

/-! ## The rate -/

/-- What the scorers refuse to score. -/
inductive EvalError
  | emptyReference
  | oneClass
  deriving DecidableEq, Repr

/-- `str.split()`. -/
def tokens (text : List Char) : List (List Char) := Texts.split Texts.isSpace text

/-- One pair, into the edits and the words. -/
def count (total : ℕ × ℕ) (pair : List Char × List Char) : ℕ × ℕ :=
  (total.1 + editDistance (tokens pair.1) (tokens pair.2), total.2 + (tokens pair.2).length)

def wer (hyps refs : List (List Char)) : Except EvalError ℚ :=
  let total := (hyps.zip refs).foldl count (0, 0)
  if total.2 = 0 then .error .emptyReference else .ok (total.1 / total.2)

theorem foldl_count (pairs : List (List Char × List Char)) (total : ℕ × ℕ) :
    pairs.foldl count total =
      (total.1 + (pairs.map fun p => distance (tokens p.1) (tokens p.2)).sum,
        total.2 + (pairs.map fun p => (tokens p.2).length).sum) := by
  induction pairs generalizing total with
  | nil => rfl
  | cons p pairs ih =>
    rw [List.foldl_cons, ih, count, editDistance_eq]
    simp only [List.map_cons, List.sum_cons, Nat.add_assoc]

/-- The table gives the least number of edits, and the rate is the least edits of
all pairs over the words of their references. -/
theorem wordErrorRate :
    (∀ a b : List α, IsLeast {n | Edits n a b} (editDistance a b)) ∧
    (∀ a b : List α, editDistance a b = editDistance b a) ∧
    (∀ a b : List α, editDistance a b = 0 ↔ a = b) ∧
    (∀ a b c : List α, editDistance a c ≤ editDistance a b + editDistance b c) ∧
    ∀ hyps refs : List (List Char),
      let words := ((hyps.zip refs).map fun p => (tokens p.2).length).sum
      let edits := ((hyps.zip refs).map fun p => distance (tokens p.1) (tokens p.2)).sum
      wer hyps refs = if words = 0 then .error .emptyReference else .ok ((edits : ℚ) / words) := by
  refine ⟨fun a b => ?_, fun a b => ?_, fun a b => ?_, fun a b c => ?_, fun hyps refs => ?_⟩
  · rw [editDistance_eq]
    exact EditDistance.distance_isLeast a b
  · rw [editDistance_eq, editDistance_eq, EditDistance.distance_comm]
  · rw [editDistance_eq, EditDistance.distance_eq_zero]
  · rw [editDistance_eq, editDistance_eq, editDistance_eq]
    exact EditDistance.distance_triangle a b c
  · rw [wer, foldl_count]
    simp only [Nat.zero_add]

example : wer ["the cat sat".toList] [" the  dog".toList] = .ok 1 := by decide +kernel

end MlopsLite.Gateway.Scorers
