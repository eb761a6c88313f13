import MlopsLite.Lib.JsonTokens

/-!
# JsonQuotes — the quotes of a JSON text

A text that is read has two quotes for each of its strings, escaped ones not
counted. White space that JSON does not have can only stand in a string, so the
text before it has an odd number of them and is not read.
-/

namespace JsonTokens

variable {ν : Type} {number : List Char → ν}

/-- The quotes of a text that are not behind a backslash; `escaped` if one
stands before the text. -/
def quotes (escaped : Bool) : List Char → ℕ
  | [] => 0
  | c :: t =>
    if escaped then quotes false t
    else (if c = quote then 1 else 0) + quotes (decide (c = backslash)) t

theorem quotes_escaped (c : Char) (t : List Char) : quotes true (c :: t) = quotes false t := by
  rw [quotes, if_pos rfl]

theorem quotes_quote (t : List Char) : quotes false (quote :: t) = 1 + quotes false t := by
  rw [quotes, if_neg (by decide), if_pos rfl, decide_eq_false (by decide)]

theorem quotes_backslash (t : List Char) : quotes false (backslash :: t) = quotes true t := by
  rw [quotes, if_neg (by decide), if_neg (by decide), decide_eq_true rfl, Nat.zero_add]

theorem quotes_inert {c : Char} (h : Inert c) (t : List Char) :
    quotes false (c :: t) = quotes false t := by
  rw [quotes, if_neg (by decide), if_neg h.1, decide_eq_false h.2, Nat.zero_add]

/-- No quote is behind a character that neither ends nor escapes anything. -/
theorem quotes_append_inert {c : Char} (h : Inert c) (escaped : Bool) (s t : List Char) :
    quotes escaped (s ++ c :: t) = quotes escaped s + quotes false t := by
  induction s generalizing escaped with
  | nil =>
    cases escaped with
    | true => rw [List.nil_append, quotes_escaped, quotes, Nat.zero_add]
    | false => rw [List.nil_append, quotes_inert h, quotes, Nat.zero_add]
  | cons d s ih =>
    cases escaped with
    | true => exact ih _
    | false =>
      show (if d = quote then 1 else 0) + quotes (decide (d = backslash)) (s ++ c :: t) = _
      rw [ih, ← Nat.add_assoc]
      rfl

theorem quotes_append_le (escaped : Bool) (s t : List Char) :
    quotes escaped s ≤ quotes escaped (s ++ t) := by
  induction s generalizing escaped with
  | nil => exact Nat.zero_le _
  | cons d s ih =>
    cases escaped with
    | true => exact ih _
    | false => exact Nat.add_le_add_left (ih _) _

namespace Mode

def escaped : Mode → Bool
  | .escape _ | .pairEscape _ _ => true
  | _ => false

/-- A string has been opened. -/
def inside : Mode → ℕ
  | .between | .atom _ => 0
  | _ => 1

theorem inside_le (m : Mode) : m.inside ≤ 1 := by
  cases m <;> simp [inside]

end Mode

/-- The string tokens. -/
def strs (ts : List (Token ν)) : ℕ := ts.countP Token.isStr

theorem strs_append (ts ts' : List (Token ν)) : strs (ts ++ ts') = strs ts + strs ts' :=
  List.countP_append

theorem strs_scalar (x : Scalar ν) (ts : List (Token ν)) : strs (.scalar x :: ts) = strs ts := by
  simp [strs, Token.isStr]

theorem code_mode {s : List Char} {high : Option ℕ} {n : ℕ} {m : Mode}
    (h : code s high n = some m) : m.inside = 1 ∧ m.escaped = false := by
  rw [code.eq_def] at h
  cases high with
  | none =>
    simp only at h
    split_ifs at h <;> cases h <;> exact ⟨rfl, rfl⟩
  | some high =>
    simp only at h
    split_ifs at h
    cases h
    exact ⟨rfl, rfl⟩

theorem quotes_start {c : Char} {m : Mode} {out : List (Token ν)} (h : start c = some (m, out))
    (t : List Char) :
    quotes false (c :: t) = 2 * strs out + m.inside + quotes m.escaped t := by
  rcases start_cases h with ⟨hc, rfl, rfl⟩ | ⟨hc, rfl, rfl⟩ | ⟨rfl, rfl, rfl⟩ | ⟨hc, rfl, rfl⟩
  · rw [quotes_inert (inert_of_isWs hc)]
    simp [strs, Mode.inside, Mode.escaped]
  · rw [quotes_inert (inert_of_isPunct hc)]
    simp [strs, Token.isStr, Mode.inside, Mode.escaped]
  · rw [quotes_quote]
    simp [strs, Mode.inside, Mode.escaped]
  · rw [quotes_inert (inert_of_atomChar hc)]
    simp [strs, Mode.inside, Mode.escaped]

/-- The reader takes the quotes in pairs: two for each string, one for the string
it is in. -/
theorem quotes_step {m m' : Mode} {c : Char} {out : List (Token ν)}
    (h : step number m c = some (m', out)) (t : List Char) :
    quotes m.escaped (c :: t) + m.inside = 2 * strs out + m'.inside + quotes m'.escaped t := by
  cases m with
  | between => exact quotes_start h t
  | atom p =>
    rw [step] at h
    split_ifs at h with hc
    · cases h
      show quotes false (c :: t) = 0 + quotes false t
      rw [quotes_inert (inert_of_atomChar hc), Nat.zero_add]
    · obtain ⟨x, -, hx⟩ := Option.bind_eq_some_iff.mp h
      obtain ⟨⟨m₁, out₁⟩, hstart, hpair⟩ := Option.map_eq_some_iff.mp hx
      cases hpair
      rw [strs_scalar]
      exact quotes_start hstart t
  | text s =>
    rw [step] at h
    split_ifs at h with hquote hbackslash hcontrol
    · cases h
      show quotes false (c :: t) + 1 = 2 + quotes false t
      rw [hquote, quotes_quote]
      omega
    · cases h
      show quotes false (c :: t) + 1 = 1 + quotes true t
      rw [hbackslash, quotes_backslash, Nat.add_comm]
    · cases h
      show quotes false (c :: t) + 1 = 1 + quotes false t
      rw [quotes_inert ⟨hquote, hbackslash⟩, Nat.add_comm]
  | escape s =>
    rw [step] at h
    split_ifs at h with hu
    · cases h
      show quotes true (c :: t) + 1 = 1 + quotes false t
      rw [quotes_escaped, Nat.add_comm]
    · obtain ⟨d, -, hd⟩ := Option.map_eq_some_iff.mp h
      cases hd
      show quotes true (c :: t) + 1 = 1 + quotes false t
      rw [quotes_escaped, Nat.add_comm]
  | hex s high digits =>
    rw [step] at h
    obtain ⟨d, hd, hnext⟩ := Option.bind_eq_some_iff.mp h
    have hc := quotes_inert (inert_of_hexDigit hd) t
    split_ifs at hnext with hlength
    · cases hnext
      show quotes false (c :: t) + 1 = 1 + quotes false t
      rw [hc, Nat.add_comm]
    · obtain ⟨m₁, hcode, hpair⟩ := Option.map_eq_some_iff.mp hnext
      cases hpair
      obtain ⟨hinside, hescaped⟩ := code_mode hcode
      show quotes false (c :: t) + 1 = 0 + m'.inside + quotes m'.escaped t
      rw [hc, hinside, hescaped]
      omega
  | pair s high =>
    rw [step] at h
    split_ifs at h with hbackslash
    cases h
    show quotes false (c :: t) + 1 = 1 + quotes true t
    rw [hbackslash, quotes_backslash, Nat.add_comm]
  | pairEscape s high =>
    rw [step] at h
    split_ifs at h with hu
    cases h
    show quotes true (c :: t) + 1 = 1 + quotes false t
    rw [quotes_escaped, Nat.add_comm]

theorem finish_outside {m : Mode} {ts : List (Token ν)} (h : finish number m = some ts) :
    m.inside = 0 ∧ strs ts = 0 := by
  cases m with
  | between =>
    cases h
    exact ⟨rfl, rfl⟩
  | atom p =>
    obtain ⟨x, -, hx⟩ := Option.map_eq_some_iff.mp h
    cases hx
    exact ⟨rfl, rfl⟩
  | _ => cases h

theorem run_cons {m : Mode} {c : Char} {t : List Char} {ts : List (Token ν)}
    (h : run number m (c :: t) = some ts) :
    ∃ m' out rest, step number m c = some (m', out) ∧ run number m' t = some rest ∧
      ts = out ++ rest := by
  rw [run] at h
  obtain ⟨⟨m', out⟩, hstep, hrest⟩ := Option.bind_eq_some_iff.mp h
  obtain ⟨rest, hrun, hts⟩ := Option.map_eq_some_iff.mp hrest
  exact ⟨m', out, rest, hstep, hrun, hts.symm⟩

theorem quotes_run {m : Mode} {t : List Char} {ts : List (Token ν)}
    (h : run number m t = some ts) : quotes m.escaped t + m.inside = 2 * strs ts := by
  induction t generalizing m ts with
  | nil =>
    obtain ⟨hinside, hstrs⟩ := finish_outside h
    rw [hinside, hstrs, quotes]
  | cons c t ih =>
    obtain ⟨m', out, rest, hstep, hrun, rfl⟩ := run_cons h
    have hc := quotes_step hstep t
    have ht := ih hrun
    rw [strs_append]
    omega

/-- A text that is read has two quotes for each of its strings. -/
theorem quotes_lex {t : List Char} {ts : List (Token ν)} (h : lex number t = some ts) :
    quotes false t = 2 * strs ts := quotes_run h

/-! ## White space -/

/-- White space is in no token but a string. -/
theorem isSpace_of_atomChar {c : Char} (h : atomChar c = true) : Texts.isSpace c = false := by
  simp only [atomChar, Bool.or_eq_true, decide_eq_true_iff] at h
  rcases h with ((hdigit | hlower) | hupper) | hsign
  · exact Texts.isSpace_of_isDigit hdigit
  · exact Texts.isSpace_of_bounds hlower.1 hlower.2 (by decide) (by decide)
  · exact Texts.isSpace_of_bounds hupper.1 hupper.2 (by decide) (by decide)
  · rw [List.contains_iff_mem] at hsign
    simp only [List.mem_cons, List.not_mem_nil, or_false] at hsign
    rcases hsign with rfl | rfl | rfl <;> decide

theorem isSpace_of_isWs {c : Char} (h : isWs c = true) : Texts.isSpace c = true := by
  rcases isWs_iff.mp h with rfl | rfl | rfl | rfl <;> decide

theorem isSpace_of_isPunct {c : Char} (h : isPunct c = true) : Texts.isSpace c = false := by
  rcases isPunct_iff.mp h with rfl | rfl | rfl | rfl | rfl | rfl <;> decide

theorem isSpace_of_hexDigit {c : Char} {n : ℕ} (h : hexDigit c = some n) :
    Texts.isSpace c = false := by
  rw [hexDigit] at h
  split_ifs at h with hdigit hlower hupper
  · exact Texts.isSpace_of_bounds hdigit.1 hdigit.2 (by decide) (by decide)
  · exact Texts.isSpace_of_bounds hlower.1 hlower.2 (by decide) (by decide)
  · exact Texts.isSpace_of_bounds hupper.1 hupper.2 (by decide) (by decide)

theorem isSpace_of_unescape {c d : Char} (h : unescape c = some d) : Texts.isSpace c = false := by
  have hmem : (c, d) ∈ [(quote, quote), (backslash, backslash), ('/', '/'), ('b', '\x08'),
      ('f', '\x0c'), ('n', '\n'), ('r', '\r'), ('t', '\t')] := by
    obtain ⟨before, after, hparts, -⟩ := List.lookup_eq_some_iff.mp h
    rw [hparts]
    simp
  simp only [List.mem_cons, Prod.mk.injEq, List.not_mem_nil, or_false] at hmem
  rcases hmem with h | h | h | h | h | h | h | h <;> (rw [h.1]; decide)

theorem inert_of_isSpace {c : Char} (h : Texts.isSpace c = true) : Inert c := by
  constructor
  · rintro rfl
    cases h
  · rintro rfl
    cases h

theorem start_space {c : Char} (hspace : Texts.isSpace c = true) {m : Mode}
    {out : List (Token ν)} (h : start c = some (m, out)) :
    isWs c = true ∧ m = .between ∧ out = [] := by
  rcases start_cases h with hcase | ⟨hc, -, -⟩ | ⟨rfl, -, -⟩ | ⟨hc, -, -⟩
  · exact hcase
  · rw [isSpace_of_isPunct hc] at hspace
    cases hspace
  · cases hspace
  · rw [isSpace_of_atomChar hc] at hspace
    cases hspace

/-- White space outside of strings ends a word, if one has begun. -/
theorem step_space {m m' : Mode} {c : Char} {out : List (Token ν)}
    (hspace : Texts.isSpace c = true) (houtside : m.inside = 0)
    (h : step number m c = some (m', out)) :
    isWs c = true ∧ m' = .between ∧ finish number m = some out := by
  cases m with
  | between =>
    obtain ⟨hws, hm, hout⟩ := start_space hspace h
    exact ⟨hws, hm, by rw [hout]; rfl⟩
  | atom p =>
    have hnot : ¬ atomChar c = true := by
      intro hc
      rw [isSpace_of_atomChar hc] at hspace
      cases hspace
    rw [step, if_neg hnot] at h
    obtain ⟨x, hx, hnext⟩ := Option.bind_eq_some_iff.mp h
    obtain ⟨⟨m₁, out₁⟩, hstart, hpair⟩ := Option.map_eq_some_iff.mp hnext
    obtain ⟨hws, rfl, rfl⟩ := start_space hspace hstart
    cases hpair
    exact ⟨hws, rfl, by rw [finish, hx]; rfl⟩
  | _ => cases houtside

/-- White space that JSON does not have is read within a string, and nowhere else. -/
theorem step_odd_space {m m' : Mode} {c : Char} {out : List (Token ν)}
    (hspace : Texts.isSpace c = true) (hws : isWs c = false)
    (h : step number m c = some (m', out)) : 32 ≤ c.toNat ∧ m.inside = 1 := by
  cases m with
  | between =>
    obtain ⟨hws', -, -⟩ := step_space hspace rfl h
    rw [hws] at hws'
    cases hws'
  | atom p =>
    obtain ⟨hws', -, -⟩ := step_space hspace rfl h
    rw [hws] at hws'
    cases hws'
  | text s =>
    rw [step] at h
    split_ifs at h with hquote hbackslash hcontrol
    · exact absurd hquote (inert_of_isSpace hspace).1
    · exact absurd hbackslash (inert_of_isSpace hspace).2
    · exact ⟨by omega, rfl⟩
  | escape s =>
    rw [step] at h
    split_ifs at h with hu
    · rw [hu] at hspace
      cases hspace
    · obtain ⟨d, hd, -⟩ := Option.map_eq_some_iff.mp h
      rw [isSpace_of_unescape hd] at hspace
      cases hspace
  | hex s high digits =>
    rw [step] at h
    obtain ⟨d, hd, -⟩ := Option.bind_eq_some_iff.mp h
    rw [isSpace_of_hexDigit hd] at hspace
    cases hspace
  | pair s high =>
    rw [step] at h
    split_ifs at h with hbackslash
    exact absurd hbackslash (inert_of_isSpace hspace).2
  | pairEscape s high =>
    rw [step] at h
    split_ifs at h with hu
    rw [hu] at hspace
    cases hspace

/-- Before such white space there is one quote too many or too few. -/
theorem odd_before {m : Mode} {s t : List Char} {c : Char} {ts : List (Token ν)}
    (hspace : Texts.isSpace c = true) (hws : isWs c = false)
    (h : run number m (s ++ c :: t) = some ts) :
    32 ≤ c.toNat ∧ ∃ k, quotes m.escaped s + m.inside = 2 * k + 1 := by
  induction s generalizing m ts with
  | nil =>
    obtain ⟨m', out, rest, hstep, -, -⟩ := run_cons h
    obtain ⟨hcontrol, hinside⟩ := step_odd_space hspace hws hstep
    exact ⟨hcontrol, 0, by rw [hinside, quotes]⟩
  | cons d s ih =>
    obtain ⟨m', out, rest, hstep, hrun, -⟩ := run_cons h
    obtain ⟨hcontrol, k, hk⟩ := ih hrun
    have hd := quotes_step hstep s
    exact ⟨hcontrol, strs out + k, by omega⟩

theorem run_dropSpace {w t : List Char} {ts : List (Token ν)}
    (hw : ∀ c ∈ w, Texts.isSpace c = true) (h : run number .between (w ++ t) = some ts) :
    run number .between t = some ts := by
  induction w generalizing ts with
  | nil => exact h
  | cons c w ih =>
    obtain ⟨m', out, rest, hstep, hrun, rfl⟩ := run_cons h
    obtain ⟨-, rfl, rfl⟩ := start_space (hw c List.mem_cons_self) hstep
    exact ih (fun d hd => hw d (List.mem_cons_of_mem _ hd)) hrun

theorem finish_of_space {m : Mode} {w : List Char} {ts : List (Token ν)}
    (hw : ∀ c ∈ w, Texts.isSpace c = true) (h : run number m w = some ts) :
    finish number m = some ts := by
  induction w generalizing m ts with
  | nil => exact h
  | cons c w ih =>
    obtain ⟨m', out, rest, hstep, hrun, rfl⟩ := run_cons h
    have hspace := hw c List.mem_cons_self
    have hfinish := ih (fun d hd => hw d (List.mem_cons_of_mem _ hd)) hrun
    -- the text ends outside of strings, and white space closes none
    have houtside : m.inside = 0 := by
      have hcount := quotes_step hstep []
      rw [(finish_outside hfinish).1] at hcount
      have hnone : quotes m.escaped [c] = 0 := by
        cases m.escaped with
        | true => rfl
        | false => exact quotes_inert (inert_of_isSpace hspace) []
      have hle := m.inside_le
      rw [hnone, quotes] at hcount
      omega
    obtain ⟨-, rfl, hout⟩ := step_space hspace houtside hstep
    cases hfinish
    rw [hout, List.append_nil]

theorem run_dropSpace_end {m : Mode} {t w : List Char} {ts : List (Token ν)}
    (hw : ∀ c ∈ w, Texts.isSpace c = true) (h : run number m (t ++ w) = some ts) :
    run number m t = some ts := by
  induction t generalizing m ts with
  | nil => exact finish_of_space hw h
  | cons c t ih =>
    obtain ⟨m', out, rest, hstep, hrun, rfl⟩ := run_cons h
    rw [run, hstep, Option.bind_some, ih hrun, Option.map_some]

/-- White space around a text counts for nothing. -/
theorem lex_strip {t : List Char} {ts : List (Token ν)} (h : lex number t = some ts) :
    lex number (Texts.strip Texts.isSpace t) = some ts := by
  obtain ⟨before, after, hbefore, hafter, ht⟩ := Texts.strip_parts Texts.isSpace t
  rw [ht] at h
  exact run_dropSpace hbefore (run_dropSpace_end hafter h)

theorem quotes_strip_le (t : List Char) :
    quotes false (Texts.strip Texts.isSpace t) ≤ quotes false t := by
  obtain ⟨before, after, hbefore, hafter, ht⟩ := Texts.strip_parts Texts.isSpace t
  have hdrop : ∀ w : List Char, (∀ c ∈ w, Texts.isSpace c = true) →
      ∀ s, quotes false (w ++ s) = quotes false s := by
    intro w hw s
    induction w with
    | nil => rfl
    | cons c w ih =>
      rw [List.cons_append, quotes_inert (inert_of_isSpace (hw c List.mem_cons_self)),
        ih fun d hd => hw d (List.mem_cons_of_mem _ hd)]
  calc quotes false (Texts.strip Texts.isSpace t)
      = quotes false (before ++ Texts.strip Texts.isSpace t) := (hdrop before hbefore _).symm
    _ ≤ quotes false (before ++ Texts.strip Texts.isSpace t ++ after) := quotes_append_le _ _ _
    _ = quotes false t := by rw [← ht]

/-! ## The first token -/

/-- A string that has begun is the next token. -/
theorem step_inside {m m' : Mode} {c : Char} {out : List (Token ν)} (hinside : m.inside = 1)
    (h : step number m c = some (m', out)) :
    (out = [] ∧ m'.inside = 1) ∨ ∃ s, out = [.str s] := by
  cases m with
  | between => cases hinside
  | atom p => cases hinside
  | text s =>
    rw [step] at h
    split_ifs at h <;> cases h
    · exact .inr ⟨_, rfl⟩
    all_goals exact .inl ⟨rfl, rfl⟩
  | escape s =>
    rw [step] at h
    split_ifs at h
    · cases h
      exact .inl ⟨rfl, rfl⟩
    · obtain ⟨d, -, hd⟩ := Option.map_eq_some_iff.mp h
      cases hd
      exact .inl ⟨rfl, rfl⟩
  | hex s high digits =>
    rw [step] at h
    obtain ⟨d, -, hnext⟩ := Option.bind_eq_some_iff.mp h
    split_ifs at hnext
    · cases hnext
      exact .inl ⟨rfl, rfl⟩
    · obtain ⟨m₁, hcode, hpair⟩ := Option.map_eq_some_iff.mp hnext
      cases hpair
      exact .inl ⟨rfl, (code_mode hcode).1⟩
  | pair s high =>
    rw [step] at h
    split_ifs at h
    cases h
    exact .inl ⟨rfl, rfl⟩
  | pairEscape s high =>
    rw [step] at h
    split_ifs at h
    cases h
    exact .inl ⟨rfl, rfl⟩

theorem isStr_of_run {m : Mode} {t : List Char} {a : Token ν} {ts : List (Token ν)}
    (hinside : m.inside = 1) (h : run number m t = some (a :: ts)) : a.isStr = true := by
  induction t generalizing m with
  | nil =>
    rw [(finish_outside h).1] at hinside
    cases hinside
  | cons c t ih =>
    obtain ⟨m', out, rest, hstep, hrun, hout⟩ := run_cons h
    rcases step_inside hinside hstep with ⟨rfl, hinside'⟩ | ⟨s, rfl⟩
    · rw [List.nil_append] at hout
      exact ih hinside' (hout ▸ hrun)
    · cases hout
      rfl

theorem isScalar_of_run {p t : List Char} {a : Token ν} {ts : List (Token ν)}
    (h : run number (.atom p) t = some (a :: ts)) : a.isScalar = true := by
  induction t generalizing p with
  | nil =>
    obtain ⟨x, -, hx⟩ := Option.map_eq_some_iff.mp h
    cases hx
    rfl
  | cons c t ih =>
    obtain ⟨m', out, rest, hstep, hrun, hout⟩ := run_cons h
    rw [step] at hstep
    split_ifs at hstep with hc
    · cases hstep
      rw [List.nil_append] at hout
      exact ih (hout ▸ hrun)
    · obtain ⟨x, -, hx⟩ := Option.bind_eq_some_iff.mp hstep
      obtain ⟨r, -, hpair⟩ := Option.map_eq_some_iff.mp hx
      cases hpair
      cases hout
      rfl

/-- A text whose first token is a bracket begins with it. -/
theorem head?_of_lex {t : List Char} {c : Char} {ts : List (Token ν)}
    (h : lex number t = some (.punct c :: ts)) :
    (t.dropWhile Texts.isSpace).head? = some c := by
  rw [lex, ← List.takeWhile_append_dropWhile (p := Texts.isSpace) (l := t)] at h
  have hrun := run_dropSpace (fun d hd => List.mem_takeWhile_imp hd) h
  cases hdrop : t.dropWhile Texts.isSpace with
  | nil =>
    rw [hdrop] at hrun
    cases hrun
  | cons d rest =>
    have hspace : Texts.isSpace d = false := by
      have hnot := List.head?_dropWhile_not Texts.isSpace t
      rw [hdrop] at hnot
      exact hnot
    rw [hdrop] at hrun
    obtain ⟨m', out, more, hstep, hmore, hout⟩ := run_cons hrun
    rcases start_cases hstep with ⟨hd, -, -⟩ | ⟨hd, rfl, rfl⟩ | ⟨rfl, rfl, rfl⟩ | ⟨hd, rfl, rfl⟩
    · rw [isSpace_of_isWs hd] at hspace
      cases hspace
    · cases hout
      rfl
    · rw [List.nil_append] at hout
      subst hout
      cases isStr_of_run rfl hmore
    · rw [List.nil_append] at hout
      subst hout
      cases isScalar_of_run hmore

end JsonTokens
