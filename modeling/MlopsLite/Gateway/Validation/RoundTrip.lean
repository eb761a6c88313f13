import MlopsLite.Gateway.Validation.Jsonl

/-!
# Validation — a dataset read back

When `parse_rows` gives back the objects of a JSONL file. Every string has two
quotes, so a file that is read back has none left over for a piece of a line:
its lines are whole.
-/

namespace MlopsLite.Gateway.Validation

open Conversions (Value)
open JsonTokens (Spells quotes lex strs)
open JsonText (tokens dict strings)

variable {codec : Codec}

/-! ## A line -/

theorem lex_object {members : List (String × Value)} {text : List Char}
    (h : Spells codec.number (tokens (.obj members)) text) :
    lex codec.number text = some (tokens (.obj members)) :=
  JsonTokens.lex_of_spells h (JsonText.separated_tokens _)

/-- A line has two quotes for each string of its object. -/
theorem quotes_line (line : Line codec) :
    quotes false line.text =
      2 * (line.object?.elim 0 fun members => strings (.obj members : Value)) := by
  cases line with
  | blank text hblank hline => exact quotes_blank hblank
  | object members text hkeys hspells hline => exact JsonTokens.quotes_lex (lex_object hspells)

/-- The text is in one piece. -/
def Unbroken (text : List Char) : Prop := ∀ c ∈ text, Lines.isBreak c = false

theorem head?_of_object {members : List (String × Value)} {text : List Char}
    (hlex : lex codec.number text = some (tokens (.obj members))) :
    (text.dropWhile Texts.isSpace).head? = some '\x7b' := by
  rw [JsonText.tokens_obj] at hlex
  exact JsonTokens.head?_of_lex hlex

theorem not_blank_of_object {members : List (String × Value)} {text : List Char}
    (hlex : lex codec.number text = some (tokens (.obj members))) :
    Lines.blank text = false := by
  by_contra hblank
  rw [Bool.not_eq_false] at hblank
  have hnil : text.dropWhile Texts.isSpace = [] :=
    List.dropWhile_eq_nil_iff.mpr (List.all_eq_true.mp hblank)
  have hhead := head?_of_object hlex
  rw [hnil] at hhead
  cases hhead

/-- A line boundary within an object's line is one of the separators. -/
theorem isBreak_iff {members : List (String × Value)} {text : List Char}
    (hlex : lex codec.number text = some (tokens (.obj members))) (hline : OneLine text) {c : Char}
    (hc : c ∈ text) : Lines.isBreak c = true ↔ c ∈ separators := by
  constructor
  · intro hbreak
    obtain ⟨before, after, rfl⟩ := List.append_of_mem hc
    have hws : JsonTokens.isWs c = false := by
      by_contra hws
      rcases JsonTokens.isWs_iff.mp (by simpa using hws) with rfl | rfl | rfl | rfl
      · cases hbreak
      · cases hbreak
      · exact (hline _ hc).1 rfl
      · exact (hline _ hc).2 rfl
    have hcontrol := (JsonTokens.odd_before (Lines.isSpace_of_isBreak hbreak) hws hlex).1
    simp only [Lines.isBreak, Bool.or_eq_true, decide_eq_true_iff] at hbreak
    have hcases : c.toNat = 0x85 ∨ c.toNat = 0x2028 ∨ c.toNat = 0x2029 := by omega
    simp only [separators, List.mem_cons, List.not_mem_nil, or_false]
    exact hcases.imp Char.toNat_inj.mp (Or.imp Char.toNat_inj.mp Char.toNat_inj.mp)
  · intro hmem
    simp only [separators, List.mem_cons, List.not_mem_nil, or_false] at hmem
    rcases hmem with rfl | rfl | rfl <;> decide

/-- Where a line is broken, a piece of it has an odd number of quotes. -/
theorem unbroken_of_even {members : List (String × Value)} {text : List Char}
    (hlex : lex codec.number text = some (tokens (.obj members))) (hline : OneLine text)
    (heven : ∀ piece ∈ Lines.pieces text, 2 ∣ quotes false piece) : Unbroken text := by
  intro c hc
  by_contra hbreak
  rw [Bool.not_eq_false] at hbreak
  have hsep := (isBreak_iff hlex hline hc).mp hbreak
  obtain ⟨before, after, rfl⟩ := List.append_of_mem hc
  have hws : JsonTokens.isWs c = false := by
    simp only [separators, List.mem_cons, List.not_mem_nil, or_false] at hsep
    rcases hsep with rfl | rfl | rfl <;> decide
  obtain ⟨-, k, hk⟩ := JsonTokens.odd_before (Lines.isSpace_of_isBreak hbreak) hws hlex
  have hsum : 2 ∣ ((Lines.pieces before).map (quotes false)).sum := by
    refine List.dvd_sum fun n hn => ?_
    obtain ⟨piece, hpiece, rfl⟩ := List.mem_map.mp hn
    refine heven piece ?_
    rw [Lines.pieces_append_break hbreak]
    exact List.mem_append_left _ hpiece
  rw [quotes_pieces] at hsum
  have hmode : quotes JsonTokens.Mode.between.escaped before +
      JsonTokens.Mode.between.inside = quotes false before := rfl
  omega

/-! ## Pieces -/

theorem pieces_ending (ending : Ending) (s t : List Char) :
    Lines.pieces (s ++ ending.text ++ t) = Lines.pieces s ++ Lines.pieces t := by
  cases ending with
  | lf =>
    rw [Ending.text, List.append_assoc, List.singleton_append,
      Lines.pieces_append_break (by decide)]
  | crlf =>
    have hfeed : Lines.pieces ('\n' :: t) = Lines.pieces t :=
      Lines.pieces_append_break (c := '\n') (by decide) [] t
    rw [Ending.text, List.append_assoc, List.cons_append, List.singleton_append,
      Lines.pieces_append_break (by decide), hfeed]

/-- The pieces of a file are those of its lines. -/
theorem pieces_body (ended : List (Line codec × Ending)) (last : Line codec) :
    Lines.pieces (Jsonl.body ended last) =
      (ended.map Prod.fst ++ [last]).flatMap fun line => Lines.pieces line.text := by
  induction ended with
  | nil => simp [Jsonl.body]
  | cons l ended ih =>
    have hbody : Jsonl.body (l :: ended) last =
        l.1.text ++ l.2.text ++ Jsonl.body ended last := by
      simp [Jsonl.body]
    rw [hbody, pieces_ending, ih, List.map_cons, List.cons_append, List.flatMap_cons]

theorem quotes_body (ended : List (Line codec × Ending)) (last : Line codec) :
    quotes false (Jsonl.body ended last) =
      2 * (((ended.map Prod.fst ++ [last]).filterMap Line.object?).map
        fun members => strings (.obj members : Value)).sum := by
  rw [← quotes_pieces, pieces_body]
  generalize ended.map Prod.fst ++ [last] = lines
  induction lines with
  | nil => rfl
  | cons line lines ih =>
    rw [List.flatMap_cons, List.map_append, List.sum_append, ih, quotes_pieces, quotes_line,
      List.filterMap_cons]
    cases line.object? with
    | none => simp
    | some members =>
      rw [List.map_cons, List.sum_cons]
      exact (Nat.mul_add _ _ _).symm

/-- Without a byte-order mark there are the same quotes. -/
theorem quotes_text (file : Jsonl codec) :
    quotes false file.text =
      2 * (file.objects.map fun members => strings (.obj members : Value)).sum := by
  rw [Jsonl.objects, Jsonl.lines, ← quotes_body, Jsonl.text]
  split_ifs
  · exact JsonTokens.quotes_inert ⟨by decide, by decide⟩ _
  · rfl

/-! ## Whole lines -/

theorem loads_object_line {members : List (String × Value)} {text : List Char}
    (hlex : lex codec.number text = some (tokens (.obj members)))
    (hkeys : JsonText.Distinct (.obj members : Value)) :
    codec.loads (stripped text) =
      if codec.tooMuch (stripped text) then .raised else .value (.obj members) := by
  have hmark : ¬ (stripped text).head? = some byteOrderMark := by
    rw [stripped, Lines.head?_strip, head?_of_object hlex]
    decide
  have hvalue : (lex codec.number (stripped text)).bind JsonText.parse =
      some (.obj members) := by
    rw [stripped, JsonTokens.lex_strip hlex]
    exact JsonText.parse_tokens _
  rw [Codec.loads, if_neg hmark, hvalue]
  simp only [JsonText.dict_of_distinct hkeys]

/-- A piece that is an object gives its row, or the reader gives up. -/
theorem objects_object_line {members : List (String × Value)} {text : List Char}
    (hlex : lex codec.number text = some (tokens (.obj members)))
    (hkeys : JsonText.Distinct (.obj members : Value)) (rest : List (List Char)) :
    objects codec.reader (text :: rest) =
      if codec.tooMuch (stripped text) then none
      else (objects codec.reader rest).map (rowOf members :: ·) := by
  have hblank : ¬ stripped text = [] := by
    rw [stripped, Lines.strip_eq_nil_iff, not_blank_of_object hlex]
    decide
  have hloads : codec.reader.loads (stripped text) = _ := loads_object_line hlex hkeys
  rw [objects, if_neg hblank, hloads]
  split_ifs <;> rfl

/-- The lines of objects are in one piece. -/
def Whole (lines : List (Line codec)) : Prop :=
  ∀ line ∈ lines, line.object? ≠ none → Unbroken line.text

/-- The reader gives up on an object. -/
def tooMuch (lines : List (Line codec)) : Bool :=
  lines.any fun line => line.object?.isSome && codec.tooMuch (stripped line.text)

/-- Whole lines are read as their objects, unless one of them is too much. -/
theorem objects_whole {lines : List (Line codec)} (h : Whole lines) :
    objects codec.reader (lines.flatMap fun line => Lines.pieces line.text) =
      if tooMuch lines then none else some ((lines.filterMap Line.object?).map rowOf) := by
  induction lines with
  | nil => rfl
  | cons line lines ih =>
    have hrest := ih fun l hl => h l (List.mem_cons_of_mem _ hl)
    rw [List.flatMap_cons, tooMuch, List.any_cons, ← tooMuch]
    cases line with
    | blank text hblank hline =>
      rw [Line.text, Lines.pieces_of_blank hblank, List.nil_append, hrest]
      rfl
    | object members text hkeys hspells hline =>
      have hlex := lex_object hspells
      have hwhole : Unbroken text := h _ List.mem_cons_self (by simp [Line.object?])
      rw [Line.text, Lines.pieces_of_unbroken hwhole (not_blank_of_object hlex), List.singleton_append,
        objects_object_line hlex hkeys, hrest]
      show (if codec.tooMuch (stripped text) = true then none else _) =
        if (codec.tooMuch (stripped text) || tooMuch lines) = true then none else _
      cases codec.tooMuch (stripped text) <;> cases tooMuch lines <;> rfl

theorem length_pieces_whole {lines : List (Line codec)} (h : Whole lines) :
    (lines.flatMap fun line => Lines.pieces line.text).length =
      (lines.filterMap Line.object?).length := by
  induction lines with
  | nil => rfl
  | cons line lines ih =>
    have hrest := ih fun l hl => h l (List.mem_cons_of_mem _ hl)
    rw [List.flatMap_cons, List.length_append, hrest]
    cases line with
    | blank text hblank hline =>
      rw [Line.text, Lines.pieces_of_blank hblank]
      exact Nat.zero_add _
    | object members text hkeys hspells hline =>
      have hlex := lex_object hspells
      have hwhole : Unbroken text := h _ List.mem_cons_self (by simp [Line.object?])
      rw [Line.text, Lines.pieces_of_unbroken hwhole (not_blank_of_object hlex)]
      exact Nat.add_comm _ _

/-- Every piece of whole lines begins with a brace. -/
theorem head?_of_mem_pieces {lines : List (Line codec)} (h : Whole lines) {piece : List Char}
    (hpiece : piece ∈ lines.flatMap fun line => Lines.pieces line.text) :
    (piece.dropWhile Texts.isSpace).head? = some '\x7b' := by
  obtain ⟨line, hmem, hpiece⟩ := List.mem_flatMap.mp hpiece
  cases line with
  | blank text hblank hline =>
    rw [Line.text, Lines.pieces_of_blank hblank] at hpiece
    cases hpiece
  | object members text hkeys hspells hline =>
    have hlex := lex_object hspells
    have hwhole : Unbroken text := h _ hmem (by simp [Line.object?])
    rw [Line.text, Lines.pieces_of_unbroken hwhole (not_blank_of_object hlex), List.mem_singleton] at hpiece
    rw [hpiece]
    exact head?_of_object hlex

theorem length_objects_le {rd : Reader} {pieces : List (List Char)} {rows : List Row}
    (h : objects rd pieces = some rows) : rows.length ≤ pieces.length := by
  induction pieces generalizing rows with
  | nil =>
    cases h
    exact le_rfl
  | cons piece pieces ih =>
    rw [List.length_cons]
    rw [objects] at h
    split_ifs at h
    · exact (ih h).trans (Nat.le_succ _)
    · split at h
      · obtain ⟨rest, hrest, rfl⟩ := Option.map_eq_some_iff.mp h
        exact Nat.succ_le_succ (ih hrest)
      · exact (ih h).trans (Nat.le_succ _)
      · exact (ih h).trans (Nat.le_succ _)
      · cases h

/-! ## The byte-order mark -/

/-- The pieces behind the first line boundary. -/
def later (text : List Char) : List (List Char) :=
  (text.splitOnP Lines.isBreak).tail.filter fun line => !Lines.blank line

theorem pieces_eq (text : List Char) :
    Lines.pieces text =
      (if Lines.blank (Lines.first text) then [] else [Lines.first text]) ++ later text := by
  rw [Lines.pieces, Lines.splitOnP_eq_first_cons, List.filter_cons, later]
  cases Lines.blank (Lines.first text) <;> rfl

theorem pieces_mark (text : List Char) :
    Lines.pieces (byteOrderMark :: text) =
      (byteOrderMark :: Lines.first text) :: later text := by
  have hmark : ¬ Lines.isBreak byteOrderMark = true := by decide
  rw [Lines.pieces, Lines.splitOnP_keep hmark, Lines.splitOnP_eq_first_cons,
    List.modifyHead_cons, List.filter_cons_of_pos, later]
  rw [Lines.blank, List.all_cons]
  rfl

/-- What begins with the mark is passed over. -/
theorem objects_mark (text : List Char) :
    objects codec.reader (Lines.pieces (byteOrderMark :: text)) =
      objects codec.reader (later text) := by
  obtain ⟨t, ht⟩ : ∃ t, stripped ([] ++ byteOrderMark :: Lines.first text) =
      [] ++ byteOrderMark :: t := Texts.strip_append_cons (by simp) (by decide)
  rw [List.nil_append, List.nil_append] at ht
  have hloads : codec.reader.loads (byteOrderMark :: t) = .malformed := by
    show codec.loads (byteOrderMark :: t) = .malformed
    rw [Codec.loads, if_pos List.head?_cons]
  rw [pieces_mark, objects, ht, if_neg (by simp), hloads]

theorem first_append {s t : List Char} (ht : ∀ c ∈ t.head?, Lines.isBreak c = true) :
    Lines.first (s ++ t) = Lines.first s := by
  have hnil : t.takeWhile (fun c => !Lines.isBreak c) = [] := by
    cases t with
    | nil => rfl
    | cons c t => rw [List.takeWhile_cons_of_neg (by simp [ht c (by simp)])]
  rw [Lines.first, Lines.first, List.takeWhile_append, hnil, List.append_nil]
  split_ifs with hlength
  · exact ((List.takeWhile_prefix _).eq_of_length hlength).symm
  · rfl

theorem first_of_unbroken {text : List Char} (h : Unbroken text) : Lines.first text = text :=
  List.takeWhile_eq_self_iff.mpr fun c hc => by simp [h c hc]

theorem blank_first {text : List Char} (h : Lines.blank text = true) :
    Lines.blank (Lines.first text) = true :=
  List.all_eq_true.mpr fun c hc =>
    List.all_eq_true.mp h c ((List.takeWhile_prefix _).subset hc)

/-- The first piece of a file is the first piece of its first line. -/
theorem first_body (file : Jsonl codec) :
    Lines.first (Jsonl.body file.ended file.last) = Lines.first file.first.text := by
  obtain ⟨bom, ended, last⟩ := file
  cases ended with
  | nil => rfl
  | cons l ended =>
    have hbody : Jsonl.body (l :: ended) last =
        l.1.text ++ (l.2.text ++ Jsonl.body ended last) := by
      simp [Jsonl.body]
    have hending : ∀ c ∈ (l.2.text ++ Jsonl.body ended last).head?, Lines.isBreak c = true := by
      intro c hc
      cases hl : l.2 with
      | lf =>
        rw [hl] at hc
        cases hc
        decide
      | crlf =>
        rw [hl] at hc
        cases hc
        decide
    exact (congrArg Lines.first hbody).trans (first_append hending)

/-! ## What is read has its quotes -/

/-- The strings of the rows take two quotes each, and a piece with an odd number
has one more. -/
theorem rowStrings_le_quotes {pieces : List (List Char)} {rows : List Row}
    (h : objects codec.reader pieces = some rows) :
    2 * (rows.map rowStrings).sum + pieces.countP (fun p => quotes false p % 2 = 1) ≤
      (pieces.map (quotes false)).sum := by
  induction pieces generalizing rows with
  | nil =>
    cases h
    exact le_rfl
  | cons piece pieces ih =>
    rw [List.countP_cons, List.map_cons, List.sum_cons]
    have hodd : (if decide (quotes false piece % 2 = 1) = true then 1 else 0) =
        quotes false piece % 2 := by
      split_ifs with hpiece
      · exact (of_decide_eq_true hpiece).symm
      · have hne : ¬ quotes false piece % 2 = 1 := fun h => hpiece (decide_eq_true h)
        omega
    rw [hodd]
    rw [objects] at h
    split_ifs at h with hblank
    · have hrest := ih h
      omega
    · cases hloads : codec.reader.loads (stripped piece) with
      | raised => simp [hloads] at h
      | malformed =>
        simp only [hloads] at h
        have hrest := ih h
        omega
      | value v =>
        cases v with
        | obj members =>
          simp only [hloads] at h
          obtain ⟨rest, hrows, rfl⟩ := Option.map_eq_some_iff.mp h
          obtain ⟨w, hlex, hdict⟩ := Codec.loads_value hloads
          have hquotes := JsonTokens.quotes_lex hlex
          have hstrip : quotes false (stripped piece) ≤ quotes false piece :=
            JsonTokens.quotes_strip_le piece
          have hrow := rowStrings_le members
          have hw := JsonText.strings_dict_le w
          rw [← hdict] at hw
          have hrest := ih hrows
          rw [List.map_cons, List.sum_cons]
          have hstrings : strings w = strs (tokens w) := rfl
          omega
        | null | bool _ | num _ | str _ | arr _ =>
          simp only [hloads] at h
          have hrest := ih h
          omega

/-- A file that is read back is in whole lines. -/
theorem even_of_objects {file : Jsonl codec}
    (h : objects codec.reader (Lines.pieces file.text) = some (file.objects.map rowOf)) :
    ∀ piece ∈ Lines.pieces file.text, 2 ∣ quotes false piece := by
  have hle := rowStrings_le_quotes h
  have hrows : ((file.objects.map rowOf).map rowStrings).sum =
      (file.objects.map fun members => strings (.obj members : Value)).sum := by
    rw [List.map_map]
    congr 1
    refine List.map_congr_left fun members hmem => ?_
    obtain ⟨line, -, hline⟩ := List.mem_filterMap.mp hmem
    cases line with
    | blank text hblank hone => cases hline
    | object members' text hkeys hspells hone =>
      cases hline
      exact rowStrings_rowOf hkeys
  rw [quotes_pieces, quotes_text, hrows] at hle
  have hnone : (Lines.pieces file.text).countP (fun p => quotes false p % 2 = 1) = 0 := by omega
  intro piece hpiece
  have hodd := List.countP_eq_zero.mp hnone piece hpiece
  simp only [decide_eq_true_iff] at hodd
  omega

/-! ## The round trip -/

/-- The hints with which a file is read. -/
def hints : List (Option String) := [none, some "jsonl"]

theorem parseRows_jsonl (file : Jsonl codec) :
    parseRows codec.reader file.bytes (some "jsonl") =
      objects codec.reader (Lines.pieces file.text) := by
  have hhint : ((some "jsonl" : Option String).getD "").toLower = "jsonl" := by decide +kernel
  have hsniff : sniffed "jsonl" file.text = false := by simp [sniffed]
  rw [parseRows, hhint, codec.reader.replace_eq _ _ file.decode_bytes]
  simp only [hsniff, Bool.false_eq_true, if_false, objects_splitLines]

theorem parseRows_none {file : Jsonl codec} (hsniff : sniffed "" file.text = false) :
    parseRows codec.reader file.bytes none = objects codec.reader (Lines.pieces file.text) := by
  have hhint : ((none : Option String).getD "").toLower = "" := by decide +kernel
  rw [parseRows, hhint, codec.reader.replace_eq _ _ file.decode_bytes]
  simp only [hsniff, Bool.false_eq_true, if_false, objects_splitLines]

theorem body_of_text (file : Jsonl codec) :
    file.text = if file.bom then byteOrderMark :: Jsonl.body file.ended file.last
      else Jsonl.body file.ended file.last := by
  rw [Jsonl.text]
  split_ifs <;> rfl

/-- A mark before a blank line changes nothing. -/
theorem objects_text {file : Jsonl codec} (h : file.bom = true → file.first.object? = none) :
    objects codec.reader (Lines.pieces file.text) =
      objects codec.reader (file.lines.flatMap fun line => Lines.pieces line.text) := by
  rw [Jsonl.lines, ← pieces_body, body_of_text]
  cases hbom : file.bom with
  | false => rfl
  | true =>
    have hblank : Lines.blank (Lines.first (Jsonl.body file.ended file.last)) = true := by
      rw [first_body]
      cases hfirst : file.first with
      | blank text hblank hline => exact blank_first hblank
      | object members text hkeys hspells hline =>
        have hnone := h hbom
        rw [hfirst] at hnone
        cases hnone
    rw [if_pos rfl, objects_mark, pieces_eq, if_pos hblank, List.nil_append]

/-- The first piece of a whole file has a brace in front, or it is the mark on a
blank line. -/
theorem sniffed_text {file : Jsonl codec} (hwhole : Whole file.lines)
    (h : file.bom = true → file.first.object? = none) : sniffed "" file.text = false := by
  cases hbom : file.bom with
  | false =>
    have hpieces : Lines.pieces file.text =
        file.lines.flatMap fun line => Lines.pieces line.text := by
      rw [body_of_text, hbom, if_neg (by decide), pieces_body, Jsonl.lines]
    have hstart : jsonStart file.text = true ∨ Lines.pieces file.text = [] := by
      cases hfirst : Lines.pieces file.text with
      | nil => exact .inr rfl
      | cons piece more =>
        refine .inl (jsonStart_of_head ?_)
        rw [hfirst]
        refine head?_of_mem_pieces hwhole ?_
        rw [← hpieces, hfirst]
        exact List.mem_cons_self
    rw [sniffed]
    simp only [firstLine_eq]
    rcases hstart with hstart | hnil
    · simp [hstart]
    · simp [hnil]
  | true =>
    have hcomma : ',' ∉ byteOrderMark :: Lines.first (Jsonl.body file.ended file.last) := by
      rw [first_body, List.mem_cons]
      rintro (hmark | hmem)
      · exact absurd hmark (by decide)
      · cases hfirst : file.first with
        | blank text hblank hline =>
          rw [hfirst] at hmem
          have hspace := List.all_eq_true.mp (blank_first hblank) _ hmem
          cases hspace
        | object members text hkeys hspells hline =>
          have hnone := h hbom
          rw [hfirst] at hnone
          cases hnone
    rw [sniffed]
    simp only [firstLine_eq]
    rw [body_of_text, hbom, if_pos rfl, pieces_mark, List.head?_cons, Option.getD_some,
      List.contains_eq_mem, decide_eq_false hcomma]
    rfl

theorem whole_of_even {file : Jsonl codec}
    (heven : ∀ piece ∈ Lines.pieces file.text, 2 ∣ quotes false piece) : Whole file.lines := by
  -- the mark has no quotes
  have hbody : ∀ piece ∈ Lines.pieces (Jsonl.body file.ended file.last),
      2 ∣ quotes false piece := by
    rw [body_of_text] at heven
    cases hbom : file.bom with
    | false =>
      rw [hbom] at heven
      exact heven
    | true =>
      rw [hbom, if_pos rfl, pieces_mark] at heven
      have hfirst := heven _ List.mem_cons_self
      rw [JsonTokens.quotes_inert ⟨by decide, by decide⟩] at hfirst
      intro piece hpiece
      rw [pieces_eq, List.mem_append] at hpiece
      rcases hpiece with hpiece | hlater
      · split_ifs at hpiece
        · cases hpiece
        · rw [List.mem_singleton] at hpiece
          rwa [hpiece]
      · exact heven piece (List.mem_cons_of_mem _ hlater)
  rw [pieces_body] at hbody
  intro line hline hobject
  cases line with
  | blank text hblank hone => exact absurd rfl hobject
  | object members text hkeys hspells hone =>
    refine unbroken_of_even (lex_object hspells) hone fun piece hpiece => ?_
    exact hbody piece (List.mem_flatMap.mpr ⟨_, hline, hpiece⟩)

theorem whole_iff {lines : List (Line codec)} :
    Whole lines ↔
      ∀ line ∈ lines, line.object? ≠ none → ∀ c ∈ line.text, c ∉ separators := by
  refine forall₂_congr fun line hline => forall_congr' fun hobject => forall₂_congr fun c hc => ?_
  cases line with
  | blank text hblank hone => exact absurd rfl hobject
  | object members text hkeys hspells hone =>
    rw [← Bool.not_eq_true, isBreak_iff (lex_object hspells) hone hc]

theorem tooMuch_eq_false_iff {lines : List (Line codec)} :
    tooMuch lines = false ↔
      ∀ line ∈ lines, line.object? ≠ none → codec.tooMuch (stripped line.text) = false := by
  rw [tooMuch, List.any_eq_false]
  refine forall₂_congr fun line hline => ?_
  cases line.object? <;> simp

theorem kept_iff {file : Jsonl codec} :
    Kept file ↔ Whole file.lines ∧ tooMuch file.lines = false ∧
      (file.bom = true → file.first.object? = none) := by
  rw [Kept, whole_iff, tooMuch_eq_false_iff, ← and_assoc]
  refine and_congr_left fun _ => ?_
  constructor
  · intro h
    exact ⟨fun line hline hobject => (h line hline hobject).1,
      fun line hline hobject => (h line hline hobject).2⟩
  · rintro ⟨hwhole, hsmall⟩ line hline hobject
    exact ⟨hwhole line hline hobject, hsmall line hline hobject⟩

theorem first_mem (file : Jsonl codec) : file.first ∈ file.lines := by
  obtain ⟨bom, ended, last⟩ := file
  cases ended with
  | nil => exact List.mem_cons_self
  | cons l ended => exact List.mem_cons_self

/-- A mark before an object hides it. -/
theorem mark_of_objects {file : Jsonl codec} (hwhole : Whole file.lines)
    (h : objects codec.reader (Lines.pieces file.text) = some (file.objects.map rowOf))
    (hbom : file.bom = true) : file.first.object? = none := by
  cases hfirst : file.first with
  | blank text hblank hline => rfl
  | object members text hkeys hspells hline =>
    have hunbroken : Unbroken file.first.text :=
      hwhole _ (first_mem file) (by simp [hfirst, Line.object?])
    have hpiece : Lines.blank (Lines.first (Jsonl.body file.ended file.last)) = false := by
      rw [first_body, first_of_unbroken hunbroken, hfirst]
      exact not_blank_of_object (lex_object hspells)
    have hlength := length_pieces_whole hwhole
    rw [Jsonl.lines, ← pieces_body, pieces_eq, hpiece, ← Jsonl.lines, ← Jsonl.objects] at hlength
    rw [body_of_text, hbom, if_pos rfl, objects_mark] at h
    have hle := length_objects_le h
    simp at hle hlength
    omega

/-- A file is read back exactly if its objects have no raw line separator and are
not too much for the reader, and no mark is before an object. -/
theorem readBack_iff (file : Jsonl codec) :
    (∀ fmt ∈ hints, parseRows codec.reader file.bytes fmt = some (file.objects.map rowOf)) ↔
      Kept file := by
  rw [kept_iff]
  constructor
  · intro h
    have hjsonl := h (some "jsonl") (by simp [hints])
    rw [parseRows_jsonl] at hjsonl
    have hwhole := whole_of_even (even_of_objects hjsonl)
    have hmark := mark_of_objects hwhole hjsonl
    refine ⟨hwhole, ?_, hmark⟩
    rw [objects_text hmark, objects_whole hwhole] at hjsonl
    by_contra hmuch
    rw [Bool.not_eq_false] at hmuch
    rw [if_pos hmuch] at hjsonl
    cases hjsonl
  · rintro ⟨hwhole, hsmall, hmark⟩
    have hread : objects codec.reader (Lines.pieces file.text) =
        some (file.objects.map rowOf) := by
      rw [objects_text hmark, objects_whole hwhole, hsmall]
      rfl
    intro fmt hfmt
    simp only [hints, List.mem_cons, List.not_mem_nil, or_false] at hfmt
    rcases hfmt with rfl | rfl
    · exact (parseRows_none (sniffed_text hwhole hmark)).trans hread
    · exact (parseRows_jsonl file).trans hread

/-! ## A row that is lost -/

/-- Numbers count for nothing here, and nothing is too much. -/
def shortCodec : Codec where
  number _ := .fin 0
  tooMuch _ := false
  csv _ := none
  replace raw := (decode raw).getD []
  replace_eq := getD_decode

/-- `{"a":" "}`, with the line separator as it is. -/
def separatorText : List Char :=
  ['\x7b', '\x22', 'a', '\x22', ':', '\x22', '\u2028', '\x22', '\x7d']

theorem separatorText_spells :
    JsonTokens.Spells shortCodec.number (tokens (.obj [("a", .str "\u2028")])) separatorText := by
  have hkey : JsonTokens.Body "a".toList ['a'] :=
    .raw (by decide) (by decide) (by decide) .nil
  have hvalue : JsonTokens.Body "\u2028".toList ['\u2028'] :=
    .raw (by decide) (by decide) (by decide) .nil
  exact .punct (by decide) (.str hkey (.punct (by decide) (.str hvalue (.punct (by decide) .nil))))

/-- One line, an object with a line separator in its string. -/
def separatorFile : Jsonl shortCodec where
  bom := false
  ended := []
  last := .object [("a", .str "\u2028")] separatorText
    (.obj (by simp) (List.forall_mem_singleton.mpr (.str _))) separatorText_spells
    (by simp [OneLine, separatorText])

/-- Its row is lost. -/
theorem separatorFile_lost :
    (parseRows shortCodec.reader separatorFile.bytes none).map List.length = some 0 ∧
      separatorFile.objects.length = 1 ∧
      ¬ ∀ fmt ∈ hints, parseRows shortCodec.reader separatorFile.bytes fmt =
        some (separatorFile.objects.map rowOf) := by
  have hsniff : sniffed "" separatorFile.text = false := by decide +kernel
  have hlength : (parseRows shortCodec.reader separatorFile.bytes none).map List.length =
      some 0 := by
    rw [parseRows_none hsniff]
    decide +kernel
  refine ⟨hlength, rfl, fun h => ?_⟩
  rw [h none (by simp [hints])] at hlength
  cases hlength

end MlopsLite.Gateway.Validation
