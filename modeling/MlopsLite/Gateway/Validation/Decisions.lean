import MlopsLite.Gateway.Validation.Rules

/-!
# Validation — when the rules decide what they state

A report is right exactly if the columns can be sorted and the ranges read, no
bound meets a number it cannot be compared with, and no rounding and no column
that some row lacks carries a verdict across its threshold.
-/

namespace MlopsLite.Gateway.Validation

open Conversions (Value Fault)

/-! ## What could disturb a rule -/

section

variable (b : Builtins) (cfg : Config) (rows : List Row)

/-- A cell of the column that `float` takes. -/
def Accepted (range : Range) (x : Number) : Prop :=
  ∃ r ∈ rows, b.float (cell r (some range.column)) = .ok x

/-- `float` raises what the rule does not catch. -/
def Unreadable (v : Value) : Prop :=
  ∃ fault, b.float v = .error fault ∧ fault ≠ .type ∧ fault ≠ .value

/-- Such a cell comes only behind one that is outside its range. -/
def Readable (range : Range) : Prop :=
  ∀ before r after, rows = before ++ r :: after → Unreadable b (cell r (some range.column)) →
    ∃ x, Accepted b before range x ∧ range.outside x = true

/-- A number that a bound cannot be compared with. -/
def Range.unordered (range : Range) (x : Number) : Bool :=
  range.low.any (fun lo => x = .nan ∨ lo = .nan) || range.high.any (fun hi => x = .nan ∨ hi = .nan)

/-- The bound holds of one of the numbers and not of the other. -/
def Separates (p : ℚ → Bool) (x y : ℚ) : Prop := p x ≠ p y

/-- The worst rounded rate of the columns that every row has. -/
def worstRounded : ℚ := worstRate (nullRates b rows (presentColumns rows))

/-- The worst exact rate of all columns. -/
def worstFraction : ℚ := ((columns rows).map (nullFraction rows)).max?.getD 0

/-- How often the rarest label comes. -/
def rarest : ℕ := (labelBalance b cfg rows).values.min?.getD 0

/-- Nothing about the rows or the arguments carries a verdict across. -/
structure Undisturbed : Prop where
  sortable : none ∈ presentColumns rows → (presentColumns rows).length < 2
  readable : ∀ range ∈ cfg.ranges, Readable b rows range
  compared : (∃ range ∈ cfg.ranges, ∃ x, Accepted b rows range x ∧ range.unordered x = true) →
    ∃ range ∈ cfg.ranges, ∃ x, Accepted b rows range x ∧ range.outside x = true
  rates : columns rows ≠ [] → ¬ Separates (fun x => (Number.fin x).le cfg.maxNullRate)
    (worstRounded b rows) (worstFraction rows)
  noColumns : columns rows = [] → (Number.fin 0).le cfg.maxNullRate = true
  fractions : labels b cfg rows ≠ [] → ¬ Separates (fun x => cfg.minLabelFraction.le (.fin x))
    (b.ratio (rarest b cfg rows) (labels b cfg rows).length)
    (rarest b cfg rows / (labels b cfg rows).length)

end

section

variable {b : Builtins} {cfg : Config} {rows : List Row}

/-! ## Columns -/

theorem mem_presentColumns {c : Key} :
    c ∈ presentColumns rows ↔ rows ≠ [] ∧ ∀ r ∈ rows, c ∈ r.keys := by
  have hfold (rest : List Row) (cols : List Key) :
      c ∈ rest.foldl (fun cols r => cols.filter r.keys.contains) cols ↔
        c ∈ cols ∧ ∀ r ∈ rest, c ∈ r.keys := by
    induction rest generalizing cols with
    | nil => simp
    | cons r rest ih =>
      rw [List.foldl_cons, ih, List.mem_filter, List.contains_iff_mem]
      simp only [List.forall_mem_cons, and_assoc]
  cases rows with
  | nil => simp [presentColumns]
  | cons r rest =>
    rw [presentColumns, hfold]
    simp

theorem mem_columns {c : Key} : c ∈ columns rows ↔ ∃ r ∈ rows, c ∈ r.keys := List.mem_flatMap

theorem not_separates_iff {p : ℚ → Bool} {x y : ℚ} :
    ¬ Separates p x y ↔ (p x = true ↔ p y = true) := by
  rw [Separates, not_not, Bool.eq_iff_iff]

theorem required_iff : requiredHold cfg (presentColumns rows) = true ↔
    Holds b cfg rows .requiredColumns := by
  simp only [requiredHold, Holds, List.all_eq_true, List.any_eq_true, List.contains_iff_mem,
    mem_presentColumns]

/-! ## Rates -/

theorem ratio_le_iff {cols : List Key} (hperm : cols.Perm (presentColumns rows)) {t : Number} :
    (Number.fin (worstRate (nullRates b rows cols))).le t =
      (Number.fin (worstRounded b rows)).le t := by
  have hrates : ((nullRates b rows cols).map Prod.snd).Perm
      ((nullRates b rows (presentColumns rows)).map Prod.snd) := (hperm.map _).map _
  rw [Bool.eq_iff_iff, worstRounded, worstRate, worstRate, Number.fin_max_le_iff,
    Number.fin_max_le_iff]
  simp only [hrates.mem_iff, List.eq_nil_iff_forall_not_mem]

/-- The exact rule holds if the worst rate is at most the threshold. -/
theorem nullRate_iff (h : columns rows ≠ []) :
    Holds b cfg rows .nullRate ↔
      (Number.fin (worstFraction rows)).le cfg.maxNullRate = true := by
  have hne : (columns rows).map (nullFraction rows) ≠ [] := by simpa using h
  rw [worstFraction, Number.fin_max_le_iff]
  simp only [Holds, hne, false_implies, true_and, List.forall_mem_map]

theorem worstRounded_nil (h : columns rows = []) : worstRounded b rows = 0 := by
  have hpresent : presentColumns rows = [] := by
    rw [List.eq_nil_iff_forall_not_mem]
    intro c hc
    obtain ⟨hne, hall⟩ := mem_presentColumns.mp hc
    obtain ⟨r, hr⟩ := List.exists_mem_of_ne_nil rows hne
    have hmem := mem_columns.mpr ⟨r, hr, hall r hr⟩
    rw [h] at hmem
    cases hmem
  rw [worstRounded, hpresent]
  rfl

theorem rates_iff : ((Number.fin (worstRounded b rows)).le cfg.maxNullRate = true ↔
      Holds b cfg rows .nullRate) ↔
    (columns rows ≠ [] → ¬ Separates (fun x => (Number.fin x).le cfg.maxNullRate)
      (worstRounded b rows) (worstFraction rows)) ∧
    (columns rows = [] → (Number.fin 0).le cfg.maxNullRate = true) := by
  by_cases h : columns rows = []
  · have hholds : Holds b cfg rows .nullRate := by
      intro c hc
      rw [h] at hc
      cases hc
    simp [h, hholds, worstRounded_nil h]
  · rw [nullRate_iff h]
    simp only [h, ne_eq, not_false_eq_true, true_implies, false_implies, and_true,
      not_separates_iff]

/-! ## Labels -/

theorem smallest_eq (h : labels b cfg rows ≠ []) :
    smallestFraction b (labelBalance b cfg rows) =
      some (b.ratio (rarest b cfg rows) (labels b cfg rows).length) := by
  have hlength : (labels b cfg rows).length ≠ 0 := by simpa using h
  rw [smallestFraction, labelBalance, Tally.sum_values_of, if_neg hlength, rarest, labelBalance]

theorem smallest_nil (h : labels b cfg rows = []) :
    smallestFraction b (labelBalance b cfg rows) = none := by
  rw [smallestFraction, labelBalance, Tally.sum_values_of, h]
  rfl

/-- The rarest label is one of them, and no other comes less often. -/
theorem rarest_spec (h : labels b cfg rows ≠ []) :
    (∃ label ∈ labels b cfg rows, (labels b cfg rows).count label = rarest b cfg rows) ∧
      ∀ label ∈ labels b cfg rows, rarest b cfg rows ≤ (labels b cfg rows).count label := by
  rw [rarest]
  cases hmin : (labelBalance b cfg rows).values.min? with
  | none =>
    have hnil := List.min?_eq_none_iff.mp hmin
    obtain ⟨label, hlabel⟩ := List.exists_mem_of_ne_nil _ h
    have hmem := Tally.mem_values_of.mpr ⟨label, hlabel, rfl⟩
    rw [labelBalance] at hnil
    rw [hnil] at hmem
    cases hmem
  | some m =>
    obtain ⟨hmem, hbelow⟩ := List.min?_eq_some_iff.mp hmin
    exact ⟨Tally.mem_values_of.mp hmem, fun label hlabel =>
      hbelow _ (Tally.mem_values_of.mpr ⟨label, hlabel, rfl⟩)⟩

theorem labelBalance_iff (h : labels b cfg rows ≠ []) :
    Holds b cfg rows .labelBalance ↔ cfg.minLabelFraction.le
      (.fin (rarest b cfg rows / (labels b cfg rows).length)) = true := by
  obtain ⟨⟨label, hlabel, hcount⟩, hleast⟩ := rarest_spec h
  constructor
  · intro hall
    have hhere := hall label hlabel
    rwa [labelFraction, hcount] at hhere
  · intro hrarest label' hlabel'
    refine Number.le_fin_mono ?_ hrarest
    have hcast : (rarest b cfg rows : ℚ) ≤ (labels b cfg rows).count label' := by
      exact_mod_cast hleast label' hlabel'
    exact div_le_div_of_nonneg_right hcast (by positivity)

theorem fractions_iff : ((smallestFraction b (labelBalance b cfg rows)).all
        (fun x => cfg.minLabelFraction.le (.fin x)) = true ↔ Holds b cfg rows .labelBalance) ↔
    (labels b cfg rows ≠ [] → ¬ Separates (fun x => cfg.minLabelFraction.le (.fin x))
      (b.ratio (rarest b cfg rows) (labels b cfg rows).length)
      (rarest b cfg rows / (labels b cfg rows).length)) := by
  by_cases h : labels b cfg rows = []
  · have hholds : Holds b cfg rows .labelBalance := by
      intro label hlabel
      rw [h] at hlabel
      cases hlabel
    simp [h, hholds, smallest_nil h]
  · rw [smallest_eq h, labelBalance_iff h]
    simp only [h, ne_eq, not_false_eq_true, true_implies, not_separates_iff, Option.all_some]

/-! ## Ranges -/

theorem accepted_cons {range : Range} {r : Row} {rest : List Row} {x : Number} :
    Accepted b (r :: rest) range x ↔
      b.float (cell r (some range.column)) = .ok x ∨ Accepted b rest range x := by
  simp [Accepted]

theorem not_unreadable {v : Value} (h : ¬ Unreadable b v) :
    readCell b v = .ok (match b.float v with | .ok x => some x | .error _ => none) := by
  rw [readCell]
  cases hread : b.float v with
  | ok x => rfl
  | error fault =>
    cases fault with
    | type => rfl
    | value => rfl
    | «attribute» => exact absurd ⟨_, hread, by decide, by decide⟩ h
    | overflow => exact absurd ⟨_, hread, by decide, by decide⟩ h

theorem readCell_unreadable {v : Value} (h : Unreadable b v) :
    ∃ fault, readCell b v = .error fault := by
  obtain ⟨fault, hread, htype, hvalue⟩ := h
  refine ⟨fault, ?_⟩
  rw [readCell, hread]
  cases fault with
  | type => exact absurd rfl htype
  | value => exact absurd rfl hvalue
  | «attribute» => rfl
  | overflow => rfl

/-- A column is readable from its first cell on. -/
theorem readable_cons {range : Range} {r : Row} {rest : List Row} :
    Readable b (r :: rest) range ↔
      (∃ x, b.float (cell r (some range.column)) = .ok x ∧ range.outside x = true) ∨
        (¬ Unreadable b (cell r (some range.column)) ∧ Readable b rest range) := by
  constructor
  · intro h
    by_cases hhere : ∃ x, b.float (cell r (some range.column)) = .ok x ∧ range.outside x = true
    · exact .inl hhere
    · right
      constructor
      · intro hunread
        obtain ⟨x, ⟨r', hr', -⟩, -⟩ := h [] r rest rfl hunread
        cases hr'
      · rintro before r' after rfl hunread
        obtain ⟨x, hx, hout⟩ := h (r :: before) r' after rfl hunread
        rcases accepted_cons.mp hx with hx | hx
        · exact absurd ⟨x, hx, hout⟩ hhere
        · exact ⟨x, hx, hout⟩
  · intro h before r' after heq hunread
    cases before with
    | nil =>
      cases heq
      rcases h with ⟨x, hx, -⟩ | ⟨hread, -⟩
      · obtain ⟨fault, hfault, -⟩ := hunread
        rw [hx] at hfault
        cases hfault
      · exact absurd hunread hread
    | cons r₀ before =>
      cases heq
      rcases h with ⟨x, hx, hout⟩ | ⟨-, hrest⟩
      · exact ⟨x, accepted_cons.mpr (.inl hx), hout⟩
      · obtain ⟨x, hx, hout⟩ := hrest before r' after rfl hunread
        exact ⟨x, accepted_cons.mpr (.inr hx), hout⟩

/-- What the scan of a column finds, where it ends. -/
theorem violation_ok {range : Range} (h : Readable b rows range) :
    ∃ found, violation b range rows = .ok found ∧
      (found.isSome = true ↔ ∃ x, Accepted b rows range x ∧ range.outside x = true) := by
  induction rows with
  | nil => exact ⟨none, rfl, by simp [Accepted]⟩
  | cons r rest ih =>
    rw [violation]
    rcases readable_cons.mp h with ⟨x, hx, hout⟩ | ⟨hread, hrest⟩
    · refine ⟨some x, ?_, ?_⟩
      · simp [readCell, hx, hout, bind, Except.bind, pure, Except.pure]
      · exact iff_of_true rfl ⟨x, accepted_cons.mpr (.inl hx), hout⟩
    · obtain ⟨found, hfound, hiff⟩ := ih hrest
      rw [not_unreadable hread]
      cases hx : b.float (cell r (some range.column)) with
      | error fault =>
        refine ⟨found, hfound, ?_⟩
        simp only [accepted_cons, hx, reduceCtorEq, false_or]
        exact hiff
      | ok x =>
        by_cases hout : range.outside x = true
        · refine ⟨some x, ?_, iff_of_true rfl ⟨x, accepted_cons.mpr (.inl hx), hout⟩⟩
          simp [hout, bind, Except.bind, pure, Except.pure]
        · refine ⟨found, ?_, hiff.trans ?_⟩
          · simpa [hout, bind, Except.bind] using hfound
          · constructor
            · rintro ⟨y, hy, hy'⟩
              exact ⟨y, accepted_cons.mpr (.inr hy), hy'⟩
            · rintro ⟨y, hy, hy'⟩
              rcases accepted_cons.mp hy with hy | hy
              · rw [hx] at hy
                cases hy
                exact absurd hy' hout
              · exact ⟨y, hy, hy'⟩

/-- A scan that ends met nothing unreadable before what it found. -/
theorem readable_of_violation {range : Range} {found : Option Number}
    (h : violation b range rows = .ok found) : Readable b rows range := by
  induction rows generalizing found with
  | nil =>
    rintro before r after heq
    cases before <;> cases heq
  | cons r rest ih =>
    rw [readable_cons]
    by_cases hunread : Unreadable b (cell r (some range.column))
    · obtain ⟨fault, hfault⟩ := readCell_unreadable hunread
      rw [violation, hfault] at h
      cases h
    · rw [violation, not_unreadable hunread] at h
      cases hx : b.float (cell r (some range.column)) with
      | error fault =>
        rw [hx] at h
        exact .inr ⟨hunread, ih h⟩
      | ok x =>
        rw [hx] at h
        by_cases hout : range.outside x = true
        · exact .inl ⟨x, hx ▸ rfl, hout⟩
        · have hrest : violation b range rest = .ok found := by
            simpa [hout, bind, Except.bind] using h
          exact .inr ⟨hunread, ih hrest⟩

/-- The scans of some columns all end, and what they find. -/
theorem mapM_violation_ok {ranges : List Range} (h : ∀ range ∈ ranges, Readable b rows range) :
    ∃ found, (ranges.mapM fun range => do
        let x ← violation b range rows
        return x.map fun x => (range.column, x)) = Except.ok found ∧
      (found.filterMap id ≠ [] ↔
        ∃ range ∈ ranges, ∃ x, Accepted b rows range x ∧ range.outside x = true) := by
  induction ranges with
  | nil => exact ⟨[], rfl, by simp⟩
  | cons range rest ih =>
    obtain ⟨x, hx, hsome⟩ := violation_ok (h range List.mem_cons_self)
    obtain ⟨found, hfound, hiff⟩ := ih fun range' hr => h range' (List.mem_cons_of_mem _ hr)
    refine ⟨x.map (fun x => (range.column, x)) :: found, ?_, ?_⟩
    · rw [List.mapM_cons, hx, hfound]
      rfl
    · rw [List.exists_mem_cons_iff, ← hiff, ← hsome]
      cases x <;> simp

theorem violations_ok (h : ∀ range ∈ cfg.ranges, Readable b rows range) :
    ∃ found, violations b cfg rows = .ok found ∧
      (found ≠ [] ↔
        ∃ range ∈ cfg.ranges, ∃ x, Accepted b rows range x ∧ range.outside x = true) := by
  obtain ⟨found, hfound, hiff⟩ := mapM_violation_ok h
  refine ⟨found.filterMap id, ?_, hiff⟩
  rw [violations, hfound]
  rfl

theorem readable_of_mapM {ranges : List Range} {found : List (Option (String × Number))}
    (h : (ranges.mapM fun range => do
        let x ← violation b range rows
        return x.map fun x => (range.column, x)) = Except.ok found) :
    ∀ range ∈ ranges, Readable b rows range := by
  induction ranges generalizing found with
  | nil =>
    intro range hrange
    cases hrange
  | cons range rest ih =>
    rw [List.mapM_cons] at h
    cases hx : violation b range rows with
    | error fault =>
      rw [hx] at h
      cases h
    | ok x =>
      rw [hx] at h
      cases hrest : rest.mapM fun range => do
          let x ← violation b range rows
          return x.map fun x => (range.column, x) with
      | error fault =>
        rw [hrest] at h
        cases h
      | ok found' =>
        intro range' hrange'
        rcases List.mem_cons.mp hrange' with rfl | hmem
        · exact readable_of_violation hx
        · exact ih hrest range' hmem

theorem readable_of_violations {found : List (String × Number)}
    (h : violations b cfg rows = .ok found) : ∀ range ∈ cfg.ranges, Readable b rows range := by
  rw [violations] at h
  cases hscans : cfg.ranges.mapM fun range => do
      let x ← violation b range rows
      return x.map fun x => (range.column, x) with
  | error fault =>
    rw [hscans] at h
    cases h
  | ok found' => exact readable_of_mapM hscans

/-- A number is inside just when it is not outside and every bound can be compared. -/
theorem inside_iff {range : Range} {x : Number} :
    range.inside x = true ↔ range.outside x = false ∧ range.unordered x = false := by
  have hlow (lo : Number) : lo.le x = true ↔ x.lt lo = false ∧ ¬ (x = .nan ∨ lo = .nan) := by
    by_cases hnan : x = .nan ∨ lo = .nan
    · simp [Number.le_of_nan hnan.symm, hnan]
    · obtain ⟨hx, hlo⟩ := not_or.mp hnan
      simp [Number.le_eq_not_lt hlo hx, hnan]
  have hhigh (hi : Number) : x.le hi = true ↔ hi.lt x = false ∧ ¬ (x = .nan ∨ hi = .nan) := by
    by_cases hnan : x = .nan ∨ hi = .nan
    · simp [Number.le_of_nan hnan, hnan]
    · obtain ⟨hx, hhi⟩ := not_or.mp hnan
      simp [Number.le_eq_not_lt hx hhi, hnan]
  obtain ⟨column, low, high⟩ := range
  cases low <;> cases high <;>
    simp only [Range.inside, Range.outside, Range.unordered, Option.all_none, Option.all_some,
      Option.any_none, Option.any_some, Bool.and_eq_true, Bool.or_eq_false_iff, hlow, hhigh,
      decide_eq_false_iff_not, true_and, and_true]
  tauto

theorem ranges_iff {found : List (String × Number)}
    (hfound : found ≠ [] ↔
      ∃ range ∈ cfg.ranges, ∃ x, Accepted b rows range x ∧ range.outside x = true) :
    (found.isEmpty = true ↔ Holds b cfg rows .valueRange) ↔
      ((∃ range ∈ cfg.ranges, ∃ x, Accepted b rows range x ∧ range.unordered x = true) →
        ∃ range ∈ cfg.ranges, ∃ x, Accepted b rows range x ∧ range.outside x = true) := by
  have hholds : Holds b cfg rows .valueRange ↔
      ∀ range ∈ cfg.ranges, ∀ x, Accepted b rows range x → range.inside x = true := by
    constructor
    · rintro h range hrange x ⟨r, hr, hx⟩
      exact h range hrange r hr x hx
    · intro h range hrange r hr x hx
      exact h range hrange x ⟨r, hr, hx⟩
  rw [List.isEmpty_iff, hholds, ← hfound]
  constructor
  · rintro h ⟨range, hrange, x, hx, hun⟩ hnil
    have hinside := inside_iff.mp (h.mp hnil range hrange x hx)
    rw [hinside.2] at hun
    cases hun
  · intro h
    constructor
    · intro hnil range hrange x hx
      refine inside_iff.mpr ⟨?_, ?_⟩
      · rw [Bool.eq_false_iff]
        intro hout
        exact hfound.mpr ⟨range, hrange, x, hx, hout⟩ hnil
      · rw [Bool.eq_false_iff]
        intro hun
        exact h ⟨range, hrange, x, hx, hun⟩ hnil
    · intro hall
      by_contra hne
      obtain ⟨range, hrange, x, hx, hout⟩ := hfound.mp hne
      have hinside := inside_iff.mp (hall range hrange x hx)
      rw [hinside.1] at hout
      cases hout

/-! ## The report -/

theorem sortedColumns_ok (h : none ∈ presentColumns rows → (presentColumns rows).length < 2) :
    ∃ cols, sortedColumns (presentColumns rows) = .ok cols ∧ cols.Perm (presentColumns rows) := by
  have hnot : ¬ ((presentColumns rows).contains none ∧ 2 ≤ (presentColumns rows).length) := by
    rintro ⟨hmem, hlength⟩
    exact absurd (h (List.contains_iff_mem.mp hmem)) (not_lt.mpr hlength)
  exact ⟨_, by rw [sortedColumns, if_neg hnot], List.perm_insertionSort _ _⟩

theorem sortable_of_ok {cols : List Key} (h : sortedColumns (presentColumns rows) = .ok cols) :
    none ∈ presentColumns rows → (presentColumns rows).length < 2 := by
  intro hmem
  by_contra hlength
  rw [sortedColumns, if_pos ⟨List.contains_iff_mem.mpr hmem, not_lt.mp hlength⟩] at h
  cases h

/-- There is a report just if the columns can be sorted and the ranges read. -/
theorem runRules_ok {report : Report} (h : runRules b cfg rows = .ok report) :
    ∃ cols found, sortedColumns (presentColumns rows) = .ok cols ∧
      violations b cfg rows = .ok found ∧ report = reportOf b cfg rows cols found := by
  rw [runRules] at h
  cases hcols : sortedColumns (presentColumns rows) with
  | error fault =>
    rw [hcols] at h
    cases h
  | ok cols =>
    cases hfound : violations b cfg rows with
    | error fault =>
      rw [hcols, hfound] at h
      cases h
    | ok found =>
      rw [hcols, hfound] at h
      cases h
      exact ⟨cols, found, rfl, rfl, rfl⟩

theorem runRules_eq {cols : List Key} {found : List (String × Number)}
    (hcols : sortedColumns (presentColumns rows) = .ok cols)
    (hfound : violations b cfg rows = .ok found) :
    runRules b cfg rows = .ok (reportOf b cfg rows cols found) := by
  rw [runRules, hcols, hfound]
  rfl

theorem perm_of_ok {cols : List Key} (h : sortedColumns (presentColumns rows) = .ok cols) :
    cols.Perm (presentColumns rows) := by
  obtain ⟨cols', hcols', hperm⟩ := sortedColumns_ok (sortable_of_ok h)
  rw [h] at hcols'
  cases hcols'
  exact hperm

theorem mem_all (name : RuleName) : name ∈ RuleName.all := by
  cases name <;> decide

/-- A report decides just if each of its verdicts does. -/
theorem reportOf_iff {cols : List Key} {found : List (String × Number)} :
    ((∀ rule ∈ (reportOf b cfg rows cols found).rules,
        rule.passed = true ↔ Holds b cfg rows rule.name) ∧
      ((reportOf b cfg rows cols found).passed = true ↔
        ∀ name, cfg.disposition name = gate → Holds b cfg rows name)) ↔
    ∀ name, verdict b cfg rows (nullRates b rows cols) found name = true ↔
      Holds b cfg rows name := by
  constructor
  · rintro ⟨hrules, -⟩ name
    exact hrules _ (List.mem_map.mpr ⟨name, mem_all name, rfl⟩)
  · intro h
    constructor
    · intro rule hrule
      obtain ⟨name, -, rfl⟩ := List.mem_map.mp hrule
      exact h name
    · show (List.all _ _ = true) ↔ _
      rw [List.all_map, List.all_eq_true]
      constructor
      · intro hpass name hgate
        have hname := hpass name (mem_all name)
        simp only [Function.comp_apply, hgate, ne_eq, not_true_eq_false, decide_false,
          Bool.false_or] at hname
        exact (h name).mp hname
      · intro hholds name _
        by_cases hgate : cfg.disposition name = gate
        · simp [hgate, (h name).mpr (hholds name hgate)]
        · simp [hgate]

/-- The verdicts of a report agree with the rules just if nothing carries one across. -/
theorem verdicts_iff {cols : List Key} {found : List (String × Number)}
    (hperm : cols.Perm (presentColumns rows)) (hfound : found ≠ [] ↔
      ∃ range ∈ cfg.ranges, ∃ x, Accepted b rows range x ∧ range.outside x = true) :
    (∀ name, verdict b cfg rows (nullRates b rows cols) found name = true ↔
      Holds b cfg rows name) ↔
    ((∃ range ∈ cfg.ranges, ∃ x, Accepted b rows range x ∧ range.unordered x = true) →
        ∃ range ∈ cfg.ranges, ∃ x, Accepted b rows range x ∧ range.outside x = true) ∧
      ((columns rows ≠ [] → ¬ Separates (fun x => (Number.fin x).le cfg.maxNullRate)
        (worstRounded b rows) (worstFraction rows)) ∧
        (columns rows = [] → (Number.fin 0).le cfg.maxNullRate = true)) ∧
      (labels b cfg rows ≠ [] → ¬ Separates (fun x => cfg.minLabelFraction.le (.fin x))
        (b.ratio (rarest b cfg rows) (labels b cfg rows).length)
        (rarest b cfg rows / (labels b cfg rows).length)) := by
  rw [← ranges_iff hfound, ← rates_iff, ← fractions_iff, ← ratio_le_iff hperm]
  constructor
  · intro h
    exact ⟨h .valueRange, h .nullRate, h .labelBalance⟩
  · rintro ⟨hrange, hrate, hlabel⟩ name
    cases name with
    | requiredColumns => exact required_iff
    | minRows => exact Iff.rfl
    | nullRate => exact hrate
    | valueRange => exact hrange
    | labelBalance => exact hlabel

end

/-- Two rows, one of them without the column `x`. -/
def halfMissing : List Row := [Dict.empty.insert (some "x") (.num (.fin 1)), .empty]

end MlopsLite.Gateway.Validation
