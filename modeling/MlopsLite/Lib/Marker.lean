import Mathlib

/-!
# Marker — a search that keeps the end of what it has seen

A text arrives in chunks. The scan looks for a marker in the kept tail and the
chunk together, and keeps as many elements as the marker has. It has found the
marker exactly if the whole text holds it, however the text was cut.
-/

namespace Marker

variable {α : Type} [DecidableEq α]

/-- The last `n` elements. -/
def keepLast (n : ℕ) (text : List α) : List α := text.drop (text.length - n)

structure Scan (α : Type) where
  found : Bool
  tail : List α

def start : Scan α := ⟨false, []⟩

/-- One chunk. Once it is found, nothing is looked at. -/
def Scan.feed (marker : List α) (s : Scan α) (chunk : List α) : Scan α :=
  if s.found then s
  else if marker <:+: s.tail ++ chunk then { s with found := true }
  else { s with tail := keepLast marker.length (s.tail ++ chunk) }

def Scan.run (marker : List α) (chunks : List (List α)) : Scan α :=
  chunks.foldl (Scan.feed marker) start

/-! ## The tail -/

omit [DecidableEq α] in
theorem keepLast_suffix (n : ℕ) (text : List α) : keepLast n text <:+ text :=
  List.drop_suffix _ _

omit [DecidableEq α] in
theorem length_keepLast (n : ℕ) (text : List α) : (keepLast n text).length = min n text.length := by
  rw [keepLast, List.length_drop]
  omega

omit [DecidableEq α] in
/-- What is kept of a text with a chunk behind it. -/
theorem keepLast_append (n : ℕ) (text chunk : List α) :
    keepLast n (keepLast n text ++ chunk) = keepLast n (text ++ chunk) := by
  have hleft : keepLast n (keepLast n text ++ chunk) <:+ text ++ chunk := by
    obtain ⟨front, hfront⟩ := keepLast_suffix n text
    refine (keepLast_suffix n _).trans ⟨front, ?_⟩
    rw [← List.append_assoc, hfront]
  have hlength : (keepLast n (keepLast n text ++ chunk)).length =
      (keepLast n (text ++ chunk)).length := by
    simp only [length_keepLast, List.length_append]
    omega
  -- two suffixes of one length
  have hsuffix := List.suffix_of_suffix_length_le hleft (keepLast_suffix n _) hlength.le
  exact hsuffix.eq_of_length hlength

omit [DecidableEq α] in
/-- A marker that the text does not hold can only begin in its last elements. -/
theorem infix_append_iff {marker text : List α} (h : ¬ marker <:+: text) (chunk : List α) :
    marker <:+: text ++ chunk ↔ marker <:+: keepLast marker.length text ++ chunk := by
  constructor
  · rintro ⟨before, after, heq⟩
    -- the marker does not end inside the text
    have hends : text.length < before.length + marker.length := by
      by_contra hinside
      apply h
      have htake := congrArg (List.take (before.length + marker.length)) heq
      rw [List.take_append_of_le_length (by simp), List.take_of_length_le (by simp),
        List.take_append_of_le_length (by omega)] at htake
      have hprefix : before ++ marker <+: text := htake ▸ List.take_prefix _ _
      exact (List.suffix_append before marker).isInfix.trans hprefix.isInfix
    have hback : text.length - marker.length ≤ before.length := by omega
    have hdrop := congrArg (List.drop (text.length - marker.length)) heq
    rw [List.append_assoc, List.drop_append_of_le_length hback,
      List.drop_append_of_le_length (Nat.sub_le _ _), ← List.append_assoc] at hdrop
    exact ⟨before.drop (text.length - marker.length), after, hdrop⟩
  · rintro ⟨before, after, heq⟩
    obtain ⟨front, hfront⟩ := keepLast_suffix marker.length text
    refine ⟨front ++ before, after, ?_⟩
    calc front ++ before ++ marker ++ after
        = front ++ (before ++ marker ++ after) := by simp only [List.append_assoc]
      _ = text ++ chunk := by rw [heq, ← List.append_assoc, hfront]

/-! ## The scan -/

/-- What a scan knows of the text that has gone by. -/
structure Scan.Of (marker : List α) (s : Scan α) (text : List α) : Prop where
  found : s.found = true ↔ marker <:+: text
  tail : s.found = false → s.tail = keepLast marker.length text

omit [DecidableEq α] in
theorem Scan.Of.start {marker : List α} (h : marker ≠ []) : Scan.Of marker start [] where
  found := by simp [Marker.start, h]
  tail _ := by simp [Marker.start, keepLast]

theorem Scan.Of.feed {marker text : List α} {s : Scan α} (h : s.Of marker text)
    (chunk : List α) : (s.feed marker chunk).Of marker (text ++ chunk) := by
  unfold Scan.feed
  by_cases hfound : s.found = true
  · rw [if_pos hfound]
    refine ⟨?_, fun hnot => absurd hfound (by simp [hnot])⟩
    have htext := h.found.mp hfound
    exact iff_of_true hfound (htext.trans (List.prefix_append text chunk).isInfix)
  · have hnot : ¬ marker <:+: text := fun htext => hfound (h.found.mpr htext)
    have htail := h.tail (by simpa using hfound)
    rw [if_neg hfound, htail]
    by_cases hhere : marker <:+: keepLast marker.length text ++ chunk
    · rw [if_pos hhere]
      refine ⟨iff_of_true rfl ((infix_append_iff hnot chunk).mpr hhere), ?_⟩
      intro hfalse
      cases hfalse
    · rw [if_neg hhere]
      refine ⟨iff_of_false hfound ?_, fun _ => keepLast_append _ _ _⟩
      exact fun htext => hhere ((infix_append_iff hnot chunk).mp htext)

theorem foldl_of {marker : List α} (chunks : List (List α)) {s : Scan α} {text : List α}
    (h : s.Of marker text) :
    (chunks.foldl (Scan.feed marker) s).Of marker (text ++ chunks.flatten) := by
  induction chunks generalizing s text with
  | nil => simpa using h
  | cons chunk rest ih =>
    have hrest := ih (h.feed chunk)
    rwa [List.append_assoc, ← List.flatten_cons] at hrest

/-- The marker is found exactly if the chunks together hold it. -/
theorem found_iff {marker : List α} (h : marker ≠ []) (chunks : List (List α)) :
    (Scan.run marker chunks).found = true ↔ marker <:+: chunks.flatten :=
  (foldl_of chunks (Scan.Of.start h)).found

end Marker
