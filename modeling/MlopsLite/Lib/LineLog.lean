import Mathlib

/-!
# LineLog — records on lines, one behind the other

A log is a text, and a line of it that can be read is an entry. What is appended may be cut
short anywhere. The entries of the lines that have ended stay, whatever is appended; a
record is sure to become an entry only where it begins a line.
-/

namespace LineLog

variable {ε : Type} (read : List Char → Option ε)

/-- The text as it is read: a carriage return ends a line too, alone or in front of the
line feed. -/
def universal : List Char → List Char
  | [] => []
  | '\r' :: '\n' :: t => '\n' :: universal t
  | '\r' :: t => '\n' :: universal t
  | c :: t => c :: universal t

def lines (s : List Char) : List (List Char) := (universal s).splitOnP (· = '\n')

/-- The lines that can be read. -/
def entries (s : List Char) : List ε := (lines s).filterMap read

/-- The last line has ended. -/
def Whole (s : List Char) : Prop := ∀ c ∈ s.getLast?, c = '\n'

instance (s : List Char) : Decidable (Whole s) :=
  inferInstanceAs (Decidable (∀ c ∈ s.getLast?, c = '\n'))

/-- The text is within a line. -/
def Inline (s : List Char) : Prop := ∀ c ∈ s, c ≠ '\n' ∧ c ≠ '\r'

/-- A record's line. -/
def line (text : List Char) : List Char := text ++ ['\n']

/-- The log has the records, in order, on lines that have ended. -/
def Keeps (rs : List ε) (s : List Char) : Prop :=
  ∃ body tail, s = body ++ tail ∧ Whole body ∧ rs.Sublist (entries read body)

/-! ## Lines -/

theorem whole_nil : Whole [] := by simp [Whole]

theorem whole_line (s text : List Char) : Whole (s ++ line text) := by
  simp [Whole, line]

theorem whole_iff {s : List Char} : Whole s ↔ s = [] ∨ ∃ t, s = t ++ ['\n'] := by
  rcases List.eq_nil_or_concat s with rfl | ⟨t, c, rfl⟩
  · simp [whole_nil]
  · simp [Whole]

/-- What is in front of a line feed is read alike, whatever is behind it. -/
theorem universal_feed (s : List Char) : ∃ s', ∀ t, universal (s ++ '\n' :: t) =
    s' ++ '\n' :: universal t := by
  induction s using universal.induct with
  | case1 => exact ⟨[], fun _ => rfl⟩
  | case2 s ih =>
    obtain ⟨s', ih⟩ := ih
    exact ⟨'\n' :: s', fun t => by rw [List.cons_append, List.cons_append, universal, ih]; rfl⟩
  | case3 s hne ih =>
    obtain ⟨s', ih⟩ := ih
    cases s with
    | nil => exact ⟨[], fun t => by rw [List.cons_append, List.nil_append, universal]; rfl⟩
    | cons c s =>
      have hc : c ≠ '\n' := fun heq => hne s (by rw [heq])
      refine ⟨'\n' :: s', fun t => ?_⟩
      rw [List.cons_append, universal, ih t]
      · rfl
      · rintro u ⟨⟩
        exact hc rfl
  | case4 c s hne hne' ih =>
    obtain ⟨s', ih⟩ := ih
    refine ⟨c :: s', fun t => ?_⟩
    rw [List.cons_append, universal, ih t]
    · rfl
    · rintro u rfl -
      exact hne' rfl
    · exact hne'

theorem lines_feed (s : List Char) : ∃ ls, ∀ t, lines (s ++ '\n' :: t) = ls ++ lines t := by
  obtain ⟨s', hs'⟩ := universal_feed s
  refine ⟨s'.splitOnP (· = '\n'), fun t => ?_⟩
  rw [lines, hs', List.splitOnP_append_cons s' _ (by decide), lines]

theorem universal_append {s : List Char} (h : Inline s) (t : List Char) :
    universal (s ++ t) = s ++ universal t := by
  induction s with
  | nil => rfl
  | cons c s ih =>
    have hc := (h c List.mem_cons_self).2
    rw [List.cons_append, universal, ih fun d hd => h d (List.mem_cons_of_mem _ hd)]
    · rfl
    · rintro u rfl -
      exact hc rfl
    · exact hc

theorem lines_line {text : List Char} (h : Inline text) : lines (line text) = [text, []] := by
  have hnone : ∀ c ∈ text, decide (c = '\n') = false := fun c hc => by simpa using (h c hc).1
  have hfeed : universal ['\n'] = ['\n'] := rfl
  rw [lines, line, universal_append h, hfeed, List.splitOnP_append_cons text _ (by decide),
    List.splitOnP_eq_singleton hnone]
  rfl

/-! ## Entries -/

section

variable {δ : Type} {read} {rs : List ε} {s : List Char}

theorem entries_nil (hread : read [] = none) : entries read [] = [] := by
  simp [entries, lines, universal, hread]

theorem entries_append (hread : read [] = none) (h : Whole s) (t : List Char) :
    entries read (s ++ t) = entries read s ++ entries read t := by
  rcases whole_iff.mp h with rfl | ⟨s, rfl⟩
  · rw [entries_nil hread, List.nil_append, List.nil_append]
  · obtain ⟨ls, hls⟩ := lines_feed s
    have hempty : lines [] = [[]] := rfl
    rw [List.append_assoc, List.singleton_append, entries, entries, entries, hls, hls, hempty,
      List.filterMap_append, List.filterMap_append]
    simp [hread]

theorem entries_line (hread : read [] = none) {text : List Char} (h : Inline text) :
    entries read (line text) = (read text).toList := by
  rw [entries, lines_line h]
  cases hv : read text with
  | none => simp [hread, hv]
  | some e => simp [hread, hv]

/-- Lines written one behind the other are read one behind the other. -/
theorem entries_flatMap (hread : read [] = none) {write : δ → List Char} {ds : List δ}
    (h : ∀ d ∈ ds, Inline (write d)) :
    entries read (ds.flatMap fun d => line (write d)) = ds.filterMap (read ∘ write) := by
  induction ds with
  | nil => exact entries_nil hread
  | cons d ds ih =>
    have hwhole : Whole (line (write d)) := whole_line [] _
    rw [List.flatMap_cons, entries_append hread hwhole,
      entries_line hread (h d List.mem_cons_self), ih fun e he => h e (List.mem_cons_of_mem _ he),
      List.filterMap_cons, Function.comp_apply]
    cases read (write d) <;> rfl

theorem whole_flatMap (write : δ → List Char) (ds : List δ) :
    Whole (ds.flatMap fun d => line (write d)) := by
  rcases List.eq_nil_or_concat ds with rfl | ⟨ds, d, rfl⟩
  · exact whole_nil
  · rw [List.concat_eq_append, List.flatMap_append, List.flatMap_singleton]
    exact whole_line _ _

/-! ## What is kept -/

theorem Keeps.of_sublist (hw : Whole s) (h : rs.Sublist (entries read s)) : Keeps read rs s :=
  ⟨s, [], (List.append_nil s).symm, hw, h⟩

theorem keeps_nil (s : List Char) : Keeps read [] s := ⟨[], s, rfl, whole_nil, List.nil_sublist _⟩

/-- What is kept is read. -/
theorem Keeps.sublist (hread : read [] = none) (h : Keeps read rs s) :
    rs.Sublist (entries read s) := by
  obtain ⟨body, tail, rfl, hbody, h⟩ := h
  rw [entries_append hread hbody]
  exact h.trans (List.sublist_append_left _ _)

theorem Keeps.append (h : Keeps read rs s) (t : List Char) : Keeps read rs (s ++ t) := by
  obtain ⟨body, tail, rfl, hbody, h⟩ := h
  exact ⟨body, tail ++ t, List.append_assoc .., hbody, h⟩

theorem Keeps.of_subset {rs' : List ε} (h : Keeps read rs s) (hsub : rs'.Sublist rs) :
    Keeps read rs' s := by
  obtain ⟨body, tail, rfl, hbody, h⟩ := h
  exact ⟨body, tail, rfl, hbody, hsub.trans h⟩

/-- A record that begins a line is kept with the others. -/
theorem Keeps.record (hread : read [] = none) (h : Keeps read rs s) (hw : Whole s)
    {text : List Char} (htext : Inline text) {e : ε} (he : read text = some e) :
    Keeps read (rs ++ [e]) (s ++ line text) := by
  refine .of_sublist (whole_line s text) ?_
  rw [entries_append hread hw, entries_line hread htext, he]
  exact (h.sublist hread).append (List.Sublist.refl _)

/-- The entries that a rewrite keeps are kept, where each is read as what it was. -/
theorem Keeps.rewrite (hread : read [] = none) (h : Keeps read rs s) {write : ε → List Char}
    {p : ε → Bool} (htext : ∀ e, Inline (write e)) (hback : ∀ e ∈ rs, read (write e) = some e) :
    Keeps read (rs.filter p) (((entries read s).filter p).flatMap fun e => line (write e)) := by
  refine .of_sublist (whole_flatMap write _) ?_
  rw [entries_flatMap hread fun e _ => htext e]
  have hsame : (rs.filter p).filterMap (read ∘ write) = rs.filter p := by
    have hsome : ∀ e ∈ rs.filter p, (read ∘ write) e = some e :=
      fun e he => hback e (List.mem_of_mem_filter he)
    rw [List.filterMap_congr hsome, List.filterMap_some]
  rw [← hsame]
  exact ((h.sublist hread).filter p).filterMap _

end

end LineLog
