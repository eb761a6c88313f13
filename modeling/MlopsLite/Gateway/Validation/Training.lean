import MlopsLite.Gateway.Validation.Parse

/-!
# Validation — the gate before training

`validate_dataset_or_raise` and `fetch_dataset` (`training/flows/finetune.py`) over
the same bytes: the gate's rows come from `parse_rows`, the trainer reads the
lines itself.
-/

namespace MlopsLite.Gateway.Validation

open Conversions (Value)

/-- `row.get(a) or row.get(b) or … or ""`. -/
def firstOf (row : Row) : List String → Value
  | [] => .str ""
  | name :: rest => Json.orElse (row.get? (some name)) (firstOf row rest)

/-- The instruction and the response of a row, if neither is empty. -/
def pairOf (row : Row) : Option (Value × Value) :=
  let instr := firstOf row ["instruction", "prompt"]
  let resp := firstOf row ["response", "output", "completion"]
  if instr.truthy && resp.truthy then some (instr, resp) else none

/-- Why `fetch_dataset` raises. -/
inductive FetchError
  | unicode
  | json
  | attribute
  | noRows
  deriving DecidableEq

variable (rd : Reader)

/-- The loop of `fetch_dataset`. -/
def fetchRows : List (List Char) → Except FetchError (List (Value × Value))
  | [] => .ok []
  | line :: rest =>
    if stripped line = [] then fetchRows rest
    else
      match rd.loads (stripped line) with
      | .value (.obj members) => do
        let pairs ← fetchRows rest
        return (pairOf (rowOf members)).toList ++ pairs
      | .value _ => .error .attribute
      | .malformed | .raised => .error .json

/-- `fetch_dataset`. -/
def fetchDataset (raw : ByteArray) : Except FetchError (List (Value × Value)) :=
  match decode raw with
  | none => .error .unicode
  | some text => do
    let rows ← fetchRows rd (Lines.splitLines text)
    if rows = [] then .error .noRows else .ok rows

/-- `validate_dataset_or_raise` with the default rules, as the rows it has passed. -/
def validated (b : Builtins) (raw : ByteArray) : Option (List Row) := do
  let rows ← parseRows rd raw none
  let report ← (runRules b .default rows).toOption
  if report.passed then some rows else none

/-! ## What the gate is for -/

/-- A dataset that passes gives the trainer the pairs of the gate's rows, and some. -/
def Trainable (b : Builtins) (raw : ByteArray) : Prop :=
  ∀ rows, validated rd b raw = some rows →
    ∃ pairs, fetchDataset rd raw = .ok pairs ∧ pairs = rows.filterMap pairOf ∧ pairs ≠ []

/-- The bytes are UTF-8, every line that is not blank is an object, and one has a pair. -/
def Lined (raw : ByteArray) : Prop :=
  ∃ text, decode raw = some text ∧
    (∀ line ∈ Lines.pieces text, ∃ members, rd.loads (stripped line) = .value (.obj members)) ∧
    ∃ line ∈ Lines.pieces text, ∃ members, rd.loads (stripped line) = .value (.obj members) ∧
      (pairOf (rowOf members)).isSome = true

variable {rd}

theorem fetchRows_cons_blank {line : List Char} (h : Lines.blank line = true)
    (rest : List (List Char)) : fetchRows rd (line :: rest) = fetchRows rd rest := by
  rw [fetchRows, if_pos (by rw [stripped, Lines.strip_eq_nil_iff]; exact h)]

theorem fetchRows_filter (lines : List (List Char)) :
    fetchRows rd (lines.filter fun l => !Lines.blank l) = fetchRows rd lines := by
  induction lines with
  | nil => rfl
  | cons line rest ih =>
    by_cases hblank : Lines.blank line = true
    · rw [List.filter_cons_of_neg (by simp [hblank]), ih, fetchRows_cons_blank hblank]
    · rw [List.filter_cons_of_pos (by simp [hblank]), fetchRows, fetchRows, ih]

theorem fetchRows_splitLines (text : List Char) :
    fetchRows rd (Lines.splitLines text) = fetchRows rd (Lines.pieces text) := by
  rw [← Lines.filter_splitLines, fetchRows_filter]

theorem notBlank_of_mem {text line : List Char} (h : line ∈ Lines.pieces text) :
    stripped line ≠ [] := by
  rw [stripped, ne_eq, Lines.strip_eq_nil_iff]
  simpa using (List.mem_filter.mp h).2

/-- The trainer reads lines just if each of them is an object. -/
theorem fetchRows_ok {lines : List (List Char)} (hlines : ∀ line ∈ lines, stripped line ≠ [])
    {pairs : List (Value × Value)} (h : fetchRows rd lines = .ok pairs) :
    ∀ line ∈ lines, ∃ members, rd.loads (stripped line) = .value (.obj members) := by
  induction lines generalizing pairs with
  | nil =>
    intro line hline
    cases hline
  | cons line rest ih =>
    rw [fetchRows, if_neg (hlines line List.mem_cons_self)] at h
    cases hloads : rd.loads (stripped line) with
    | malformed => simp [hloads] at h
    | raised => simp [hloads] at h
    | value v =>
      cases v with
      | obj members =>
        cases hrest : fetchRows rd rest with
        | error e => simp [hloads, hrest, bind, Except.bind] at h
        | ok more =>
          intro line' hline'
          rcases List.mem_cons.mp hline' with rfl | hmem
          · exact ⟨members, hloads⟩
          · exact ih (fun l hl => hlines l (List.mem_cons_of_mem _ hl)) hrest line' hmem
      | null => simp [hloads] at h
      | bool _ => simp [hloads] at h
      | num _ => simp [hloads] at h
      | str _ => simp [hloads] at h
      | arr _ => simp [hloads] at h

/-- Of lines that are objects both readers have the same rows. -/
theorem fetchRows_eq {lines : List (List Char)} (hlines : ∀ line ∈ lines, stripped line ≠ [])
    (hobjects : ∀ line ∈ lines, ∃ members, rd.loads (stripped line) = .value (.obj members)) :
    ∃ rows, objects rd lines = some rows ∧
      fetchRows rd lines = .ok (rows.filterMap pairOf) ∧
      ∀ row, row ∈ rows ↔ ∃ line ∈ lines, ∃ members,
        rd.loads (stripped line) = .value (.obj members) ∧ rowOf members = row := by
  induction lines with
  | nil => exact ⟨[], rfl, rfl, by simp⟩
  | cons line rest ih =>
    obtain ⟨members, hloads⟩ := hobjects line List.mem_cons_self
    obtain ⟨rows, hrows, hfetch, hmem⟩ := ih (fun l hl => hlines l (List.mem_cons_of_mem _ hl))
      fun l hl => hobjects l (List.mem_cons_of_mem _ hl)
    refine ⟨rowOf members :: rows, ?_, ?_, ?_⟩
    · simp [objects, hlines line List.mem_cons_self, hloads, hrows]
    · rw [fetchRows, if_neg (hlines line List.mem_cons_self), hloads, hfetch]
      cases hpair : pairOf (rowOf members) with
      | none => simp [hpair, bind, Except.bind, pure, Except.pure]
      | some p => simp [hpair, bind, Except.bind, pure, Except.pure]
    · intro row
      rw [List.mem_cons, hmem, List.exists_mem_cons_iff]
      constructor
      · rintro (rfl | hrest)
        · exact .inl ⟨members, hloads, rfl⟩
        · exact .inr hrest
      · rintro (⟨members', hloads', rfl⟩ | hrest)
        · rw [hloads] at hloads'
          cases hloads'
          exact .inl rfl
        · exact .inr hrest

/-- A file whose first piece is an object is not taken for CSV. -/
theorem parseRows_objects {raw : ByteArray} {text : List Char} (hdecode : decode raw = some text)
    (hobjects : ∀ line ∈ Lines.pieces text, ∃ members,
      rd.loads (stripped line) = .value (.obj members)) :
    parseRows rd raw none = objects rd (Lines.splitLines text) := by
  have hsniff : sniffed "" text = false := by
    rw [sniffed]
    simp only [firstLine_eq]
    cases hpieces : Lines.pieces text with
    | nil => rfl
    | cons line rest =>
      obtain ⟨members, hloads⟩ := hobjects line (by rw [hpieces]; exact List.mem_cons_self)
      have hhead := rd.loads_object _ _ hloads
      have hstart : jsonStart text = true := by
        apply jsonStart_of_head
        rw [hpieces]
        show (line.dropWhile Texts.isSpace).head? = _
        rwa [← Lines.head?_strip, ← Lines.dropWhile_strip]
      simp [hstart]
  have hnone : ((none : Option String).getD "").toLower = "" := by decide +kernel
  rw [parseRows, hnone, rd.replace_eq raw text hdecode]
  simp only [hsniff, Bool.false_eq_true, if_false]

theorem fetchDataset_ok {raw : ByteArray} {pairs : List (Value × Value)}
    (h : fetchDataset rd raw = .ok pairs) :
    ∃ text, decode raw = some text ∧ fetchRows rd (Lines.pieces text) = .ok pairs := by
  rw [fetchDataset] at h
  cases hdecode : decode raw with
  | none => simp [hdecode] at h
  | some text =>
    refine ⟨text, rfl, ?_⟩
    rw [← fetchRows_splitLines]
    cases hfetch : fetchRows rd (Lines.splitLines text) with
    | error e => simp [hdecode, hfetch, bind, Except.bind] at h
    | ok rows =>
      simp only [hdecode, hfetch, bind, Except.bind] at h
      split_ifs at h
      cases h
      rfl

/-- What passed is what was parsed. -/
theorem parsed_of_validated {b : Builtins} {raw : ByteArray} {rows : List Row}
    (h : validated rd b raw = some rows) : parseRows rd raw none = some rows := by
  simp only [validated, Option.bind_eq_bind, Option.bind_eq_some_iff] at h
  obtain ⟨rows', hparse, report, -, hpassed⟩ := h
  split_ifs at hpassed
  cases hpassed
  exact hparse

/-- A dataset that passes can be trained on exactly if it is UTF-8, has an object on
every line that is not blank, and a pair on one. -/
theorem trainable_iff (rd : Reader) (b : Builtins) (raw : ByteArray) :
    Trainable rd b raw ↔ ((validated rd b raw).isSome = true → Lined rd raw) := by
  constructor
  · intro h hpass
    obtain ⟨rows, hrows⟩ := Option.isSome_iff_exists.mp hpass
    obtain ⟨pairs, hfetch, -, hne⟩ := h rows hrows
    obtain ⟨text, hdecode, hpairs⟩ := fetchDataset_ok hfetch
    have hlines : ∀ line ∈ Lines.pieces text, stripped line ≠ [] := fun _ => notBlank_of_mem
    have hobjects := fetchRows_ok hlines hpairs
    refine ⟨text, hdecode, hobjects, ?_⟩
    obtain ⟨rows', -, hfetch', hmem⟩ := fetchRows_eq hlines hobjects
    rw [hpairs] at hfetch'
    cases hfetch'
    obtain ⟨pair, hpair⟩ := List.exists_mem_of_ne_nil _ hne
    obtain ⟨row, hrow, hsome⟩ := List.mem_filterMap.mp hpair
    obtain ⟨line, hline, members, hloads, rfl⟩ := (hmem row).mp hrow
    exact ⟨line, hline, members, hloads, by rw [hsome]; rfl⟩
  · intro h rows hrows
    obtain ⟨text, hdecode, hobjects, line, hline, members, hloads, hsome⟩ :=
      h (by rw [hrows]; rfl)
    have hlines : ∀ line ∈ Lines.pieces text, stripped line ≠ [] := fun _ => notBlank_of_mem
    obtain ⟨rows', hrows', hfetch, hmem⟩ := fetchRows_eq hlines hobjects
    have hparsed := parsed_of_validated hrows
    rw [parseRows_objects hdecode hobjects, objects_splitLines, hrows'] at hparsed
    cases hparsed
    have hne : rows.filterMap pairOf ≠ [] := by
      obtain ⟨pair, hpair⟩ := Option.isSome_iff_exists.mp hsome
      have hrow := (hmem _).mpr ⟨line, hline, members, hloads, rfl⟩
      exact List.ne_nil_of_mem (List.mem_filterMap.mpr ⟨_, hrow, hpair⟩)
    refine ⟨_, ?_, rfl, hne⟩
    rw [fetchDataset, hdecode]
    simp only [fetchRows_splitLines, hfetch, bind, Except.bind, hne, if_false]

/-! ## A file that passes and cannot be read -/

def goodLine : List Char := "\x7b\"prompt\":\"a\",\"output\":\"b\"\x7d".toList

/-- The reader, on these two lines. -/
def twoKinds : Reader where
  loads text :=
    if text = goodLine then .value (.obj [("prompt", .str "a"), ("output", .str "b")])
    else if text = ['[', ']'] then .value (.arr [])
    else .malformed
  csv _ := none
  replace raw := (decode raw).getD []
  replace_eq := getD_decode
  loads_object text members h := by
    split_ifs at h with hgood
    · rw [hgood]
      decide +kernel
    all_goals cases h

/-- Ten good lines and an empty list. -/
def withList : List Char := (List.replicate 10 (goodLine ++ ['\n'])).flatten ++ ['[', ']']

/-- The gate passes over the list, which the trainer stops at. -/
theorem withList_stops :
    (validated twoKinds plain withList.utf8Encode).isSome = true ∧
      fetchDataset twoKinds withList.utf8Encode = .error .attribute ∧
      ¬ Trainable twoKinds plain withList.utf8Encode := by
  have hdecode := decode_utf8Encode withList
  have hsniff : sniffed ((none : Option String).getD "").toLower withList = false := by
    decide +kernel
  have hrows : ∃ rows, objects twoKinds (Lines.splitLines withList) = some rows ∧
      ((runRules plain .default rows).toOption.any Report.passed) = true := by
    have hany : ((objects twoKinds (Lines.splitLines withList)).any fun rows =>
        (runRules plain .default rows).toOption.any Report.passed) = true := by decide +kernel
    exact (Option.any_eq_true _ _).mp hany
  obtain ⟨rows, hobjects, hreport⟩ := hrows
  obtain ⟨report, hreport, hpassed⟩ := (Option.any_eq_true _ _).mp hreport
  have hvalidated : validated twoKinds plain withList.utf8Encode = some rows := by
    simp only [validated, parseRows, twoKinds.replace_eq _ _ hdecode, hsniff, hobjects]
    simp [hreport, hpassed]
  have hfetch : fetchDataset twoKinds withList.utf8Encode = .error .attribute := by
    have hlast : (match fetchRows twoKinds (Lines.splitLines withList) with
        | .ok _ => none
        | .error e => some e) = some FetchError.attribute := by decide +kernel
    rw [fetchDataset, hdecode]
    cases hlines : fetchRows twoKinds (Lines.splitLines withList) with
    | ok pairs =>
      rw [hlines] at hlast
      cases hlast
    | error e =>
      rw [hlines] at hlast
      cases hlast
      simp only [hlines, bind, Except.bind]
  refine ⟨by rw [hvalidated]; rfl, hfetch, ?_⟩
  intro h
  obtain ⟨pairs, hpairs, -⟩ := h rows hvalidated
  rw [hfetch] at hpairs
  cases hpairs

end MlopsLite.Gateway.Validation
