import MlopsLite.Lib.Texts

/-!
# Lines — where a text is cut

`splitLines` cuts a text as `str.splitlines` does. But for blank pieces it is the
cut at every line boundary, so a text that is put together from lines has the
pieces of its lines.
-/

namespace Lines

/-- The line boundaries of `str.splitlines`. -/
def isBreak (c : Char) : Bool :=
  let n := c.toNat
  decide (10 ≤ n ∧ n ≤ 13) || decide (28 ≤ n ∧ n ≤ 30) || decide (n = 0x85) ||
    decide (n = 0x2028) || decide (n = 0x2029)

/-- The lines of a text that goes on with `line`. -/
def linesFrom (line : List Char) : List Char → List (List Char)
  | [] => if line = [] then [] else [line]
  | '\r' :: '\n' :: rest => line :: linesFrom [] rest
  | c :: rest => if isBreak c then line :: linesFrom [] rest else linesFrom (line ++ [c]) rest

/-- `str.splitlines`. -/
def splitLines (text : List Char) : List (List Char) := linesFrom [] text

/-- The text is nothing but white space. -/
def blank (line : List Char) : Bool := line.all Texts.isSpace

/-- The pieces of a text between its line boundaries, without the blank ones. -/
def pieces (text : List Char) : List (List Char) :=
  (text.splitOnP isBreak).filter fun line => !blank line

theorem isSpace_of_isBreak {c : Char} (h : isBreak c = true) : Texts.isSpace c = true := by
  simp only [isBreak, Texts.isSpace, Bool.or_eq_true, decide_eq_true_iff] at h ⊢
  omega

theorem splitOnP_ne_nil (s : List Char) : s.splitOnP isBreak ≠ [] := List.splitOnP_ne_nil _ _

theorem modifyHead_nil (pieces : List (List Char)) :
    pieces.modifyHead (([] : List Char) ++ ·) = pieces := by
  cases pieces <;> rfl

theorem splitOnP_break {c : Char} (h : isBreak c = true) (rest : List Char) :
    (c :: rest).splitOnP isBreak = [] :: rest.splitOnP isBreak := by
  rw [List.splitOnP_cons_eq_if_modifyHead, if_pos h]

theorem splitOnP_keep {c : Char} (h : ¬ isBreak c = true) (rest : List Char) :
    (c :: rest).splitOnP isBreak = (rest.splitOnP isBreak).modifyHead (c :: ·) := by
  rw [List.splitOnP_cons_eq_if_modifyHead, if_neg h]

theorem filter_linesFrom (line text : List Char) :
    (linesFrom line text).filter (fun l => !blank l) =
      ((text.splitOnP isBreak).modifyHead (line ++ ·)).filter fun l => !blank l := by
  fun_induction linesFrom line text with
  | case1 => simp [blank]
  | case2 line hne => simp
  | case3 line rest ih =>
    -- the line feed gives one more piece, a blank one
    rw [splitOnP_break (by decide), splitOnP_break (by decide), List.modifyHead_cons,
      List.append_nil, List.filter_cons, List.filter_cons, List.filter_cons, ih, modifyHead_nil]
    rfl
  | case4 line c rest hnot hbreak ih =>
    rw [splitOnP_break hbreak, List.modifyHead_cons, List.append_nil, List.filter_cons,
      List.filter_cons, ih, modifyHead_nil]
  | case5 line c rest hnot hbreak ih =>
    rw [splitOnP_keep hbreak, List.modifyHead_modifyHead, ih]
    congr 2
    funext piece
    simp

/-- The lines that are not blank are the pieces. -/
theorem filter_splitLines (text : List Char) :
    (splitLines text).filter (fun l => !blank l) = pieces text := by
  rw [splitLines, filter_linesFrom, modifyHead_nil, pieces]

theorem pieces_append_break {c : Char} (h : isBreak c = true) (s t : List Char) :
    pieces (s ++ c :: t) = pieces s ++ pieces t := by
  rw [pieces, List.splitOnP_append_cons s t h, List.filter_append]
  rfl

theorem pieces_of_unbroken {s : List Char} (h : ∀ c ∈ s, isBreak c = false)
    (hs : blank s = false) : pieces s = [s] := by
  rw [pieces, List.splitOnP_eq_singleton h, List.filter_cons_of_pos (by simp [hs]),
    List.filter_nil]

/-- The pieces of a text consist of its characters. -/
theorem mem_of_mem_splitOnP {s piece : List Char} (h : piece ∈ s.splitOnP isBreak) {c : Char}
    (hc : c ∈ piece) : c ∈ s := by
  induction s generalizing piece with
  | nil =>
    rw [List.splitOnP_nil, List.mem_singleton] at h
    rwa [h] at hc
  | cons d s ih =>
    by_cases hd : isBreak d = true
    · rw [splitOnP_break hd, List.mem_cons] at h
      rcases h with rfl | h
      · cases hc
      · exact List.mem_cons_of_mem _ (ih h hc)
    · rw [splitOnP_keep hd] at h
      obtain ⟨first, more, hsplit⟩ := List.exists_cons_of_ne_nil (splitOnP_ne_nil s)
      rw [hsplit, List.modifyHead_cons, List.mem_cons] at h
      rcases h with rfl | h
      · rcases List.mem_cons.mp hc with rfl | hc
        · exact List.mem_cons_self
        · exact List.mem_cons_of_mem _ (ih (hsplit ▸ List.mem_cons_self) hc)
      · exact List.mem_cons_of_mem _ (ih (hsplit ▸ List.mem_cons_of_mem _ h) hc)

theorem pieces_of_blank {s : List Char} (h : blank s = true) : pieces s = [] := by
  rw [pieces, List.filter_eq_nil_iff]
  intro piece hpiece
  rw [blank, List.all_eq_true] at h
  have hblank : blank piece = true :=
    List.all_eq_true.mpr fun c hc => h c (mem_of_mem_splitOnP hpiece hc)
  simp [hblank]

/-! ## The first piece -/

/-- Up to the first line boundary. -/
def first (s : List Char) : List Char := s.takeWhile fun c => !isBreak c

theorem splitOnP_eq_first_cons (s : List Char) :
    s.splitOnP isBreak = first s :: (s.splitOnP isBreak).tail := by
  induction s with
  | nil => rfl
  | cons c s ih =>
    by_cases hc : isBreak c = true
    · rw [splitOnP_break hc, first, List.takeWhile_cons_of_neg (by simp [hc]), List.tail_cons]
    · rw [splitOnP_keep hc, ih, List.modifyHead_cons, List.tail_cons, first, first,
        List.takeWhile_cons_of_pos (by simp [hc])]

theorem isSpace_dropWhile {line rest : List Char} {c : Char}
    (h : line.dropWhile Texts.isSpace = c :: rest) : Texts.isSpace c = false := by
  have hnot := List.head?_dropWhile_not Texts.isSpace line
  rw [h] at hnot
  exact hnot

theorem strip_eq_nil_iff (line : List Char) :
    Texts.strip Texts.isSpace line = [] ↔ blank line = true := by
  rw [Texts.strip, List.reverse_eq_nil_iff, List.dropWhile_eq_nil_iff]
  constructor
  · intro h
    rw [blank, List.all_eq_true]
    have hnil : line.dropWhile Texts.isSpace = [] := by
      cases hdrop : line.dropWhile Texts.isSpace with
      | nil => rfl
      | cons c rest =>
        have hc := h c (by rw [hdrop]; simp)
        rw [isSpace_dropWhile hdrop] at hc
        cases hc
    exact List.dropWhile_eq_nil_iff.mp hnil
  · intro h c hc
    rw [blank, List.all_eq_true] at h
    have hnil := List.dropWhile_eq_nil_iff.mpr h
    rw [hnil] at hc
    cases hc

/-- A text that is stripped begins where its white space ends. -/
theorem head?_strip (line : List Char) :
    (Texts.strip Texts.isSpace line).head? = (line.dropWhile Texts.isSpace).head? := by
  cases hdrop : line.dropWhile Texts.isSpace with
  | nil => rw [Texts.strip, hdrop]; rfl
  | cons c rest =>
    have hhead := isSpace_dropWhile hdrop
    obtain ⟨t, ht⟩ : ∃ t, Texts.strip Texts.isSpace ([] ++ c :: rest) = [] ++ c :: t :=
      Texts.strip_append_cons (by simp) hhead
    have hself : Texts.strip Texts.isSpace line = Texts.strip Texts.isSpace (c :: rest) := by
      rw [Texts.strip, Texts.strip, hdrop, List.dropWhile_cons_of_neg (by simp [hhead])]
    rw [hself, ← List.nil_append (c :: rest), ht]
    rfl

theorem dropWhile_strip (line : List Char) :
    (Texts.strip Texts.isSpace line).dropWhile Texts.isSpace = Texts.strip Texts.isSpace line := by
  have hhead := head?_strip line
  cases hstrip : Texts.strip Texts.isSpace line with
  | nil => rfl
  | cons c rest =>
    rw [hstrip] at hhead
    cases hdrop : line.dropWhile Texts.isSpace with
    | nil =>
      rw [hdrop] at hhead
      cases hhead
    | cons d more =>
      rw [hdrop] at hhead
      cases hhead
      rw [List.dropWhile_cons_of_neg (by simp [isSpace_dropWhile hdrop])]

/-- The first piece begins where the text's white space ends. -/
theorem head?_pieces (text : List Char) :
    (((pieces text).head?.getD []).dropWhile Texts.isSpace).head? =
      (text.dropWhile Texts.isSpace).head? := by
  induction text with
  | nil => rfl
  | cons c rest ih =>
    by_cases hbreak : isBreak c = true
    · have hpieces : pieces (c :: rest) = pieces rest := by
        rw [pieces, splitOnP_break hbreak]
        rfl
      rw [hpieces, ih, List.dropWhile_cons_of_pos (isSpace_of_isBreak hbreak)]
    · rw [pieces, splitOnP_keep hbreak]
      rw [pieces] at ih
      obtain ⟨piece, more, hsplit⟩ := List.exists_cons_of_ne_nil (splitOnP_ne_nil rest)
      rw [hsplit] at ih ⊢
      rw [List.modifyHead_cons]
      by_cases hspace : Texts.isSpace c = true
      · rw [List.dropWhile_cons_of_pos hspace, ← ih]
        by_cases hblank : blank piece = true
        · have hblank' : blank (c :: piece) = true := by
            rw [blank, List.all_cons, hspace]
            exact hblank
          simp [hblank, hblank']
        · have hblank' : ¬ blank (c :: piece) = true := by
            rw [blank, List.all_cons, hspace]
            exact hblank
          simp [hblank, hblank', List.dropWhile_cons_of_pos hspace]
      · have hblank : ¬ blank (c :: piece) = true := by
          rw [blank, List.all_cons]
          simp [hspace]
        simp [hblank, List.dropWhile_cons_of_neg hspace]

end Lines
