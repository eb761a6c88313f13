import MlopsLite.Lib.Conversions
import MlopsLite.Lib.Tally

/-!
# Validation — the rules

`run_rules` (`gateway/app/validation.py`) over rows that are parsed. A cell is a
decoded value; the key `none` is the one under which a CSV row has what goes
beyond its header. `float`, `str` and `round(a / b, 4)` are parameters, since
each is what the language makes of a value.
-/

namespace MlopsLite.Gateway.Validation

open Conversions (Value Fault)

abbrev Key := Option String

abbrev Row := Dict Key Value

/-- The builtins that the rules read cells and counts with. -/
structure Builtins where
  float : Value → Except Fault Number
  str : Value → String
  ratio : ℕ → ℕ → ℚ

/-- `GATE`. -/
def gate : String := "gate"

/-- `WARN`. -/
def warn : String := "warn"

inductive RuleName
  | requiredColumns
  | minRows
  | nullRate
  | valueRange
  | labelBalance
  deriving DecidableEq

namespace RuleName

def text : RuleName → String
  | requiredColumns => "required_columns"
  | minRows => "min_rows"
  | nullRate => "null_rate"
  | valueRange => "value_range"
  | labelBalance => "label_balance"

def default : RuleName → String
  | requiredColumns | minRows => gate
  | nullRate | valueRange | labelBalance => warn

def all : List RuleName := [requiredColumns, minRows, nullRate, valueRange, labelBalance]

end RuleName

/-- A column, and the bounds that it has. -/
structure Range where
  column : String
  low : Option Number
  high : Option Number

/-- The arguments of `run_rules`; an empty label column is none. -/
structure Config where
  requiredColumns : List (List String)
  minRows : Number
  maxNullRate : Number
  ranges : List Range
  labelColumn : String
  minLabelFraction : Number
  dispositions : List (String × String)

/-- The defaults of `run_rules`, where the environment sets none. -/
def Config.default : Config where
  requiredColumns := [["instruction", "prompt"], ["response", "output", "completion"]]
  minRows := .fin 10
  maxNullRate := .fin (1 / 5)
  ranges := []
  labelColumn := ""
  minLabelFraction := .fin (1 / 20)
  dispositions := []

def Config.disposition (cfg : Config) (name : RuleName) : String :=
  (cfg.dispositions.lookup name.text).getD name.default

/-! ## Rows and columns -/

/-- `r.get(c)`. -/
def cell (r : Row) (c : Key) : Value := (r.get? c).getD .null

/-- `_is_null`. -/
def isNull : Value → Bool
  | .null => true
  | .str s => (Texts.strip Texts.isSpace s.toList).isEmpty
  | _ => false

/-- `_present_columns`. -/
def presentColumns : List Row → List Key
  | [] => []
  | r :: rest => rest.foldl (fun cols r => cols.filter r.keys.contains) r.keys

/-- `sorted(present)`; `None` is not ordered beside a text. -/
def sortedColumns (cols : List Key) : Except Fault (List Key) :=
  if cols.contains none ∧ 2 ≤ cols.length then .error .type
  else .ok (cols.insertionSort fun a b => a.getD "" ≤ b.getD "")

def nulls (rows : List Row) (c : Key) : ℕ := rows.countP fun r => isNull (cell r c)

/-! ## The rules -/

section

variable (b : Builtins) (cfg : Config) (rows : List Row)

/-- A group is satisfied by one of its members. -/
def requiredHold (present : List Key) : Bool :=
  cfg.requiredColumns.all fun group => group.any fun m => present.contains (some m)

/-- The rounded rate of each column. -/
def nullRates (columns : List Key) : List (Key × ℚ) :=
  columns.map fun c => (c, if rows.length = 0 then 0 else b.ratio (nulls rows c) rows.length)

def worstRate (rates : List (Key × ℚ)) : ℚ := (rates.map Prod.snd).max?.getD 0

/-- `fv < lo or fv > hi`, for the bounds that are given. -/
def Range.outside (range : Range) (x : Number) : Bool :=
  range.low.any (fun lo => x.lt lo) || range.high.any (fun hi => hi.lt x)

/-- `float(v)`, a value that is no number passed over. -/
def readCell (v : Value) : Except Fault (Option Number) :=
  match b.float v with
  | .ok x => .ok (some x)
  | .error .type | .error .value => .ok none
  | .error fault => .error fault

/-- The first violation of a column. -/
def violation (range : Range) : List Row → Except Fault (Option Number)
  | [] => .ok none
  | r :: rest => do
    match ← readCell b (cell r (some range.column)) with
    | none => violation range rest
    | some x => if range.outside x then return some x else violation range rest

def violations : Except Fault (List (String × Number)) := do
  let found ← cfg.ranges.mapM fun range => do
    let x ← violation b range rows
    return x.map fun x => (range.column, x)
  return found.filterMap id

/-- The texts of the labels that are there. -/
def labels : List String :=
  if cfg.labelColumn = "" then []
  else rows.filterMap fun r =>
    match cell r (some cfg.labelColumn) with
    | .null => none
    | label => some (b.str label)

def labelBalance : Dict String ℕ := Tally.of (labels b cfg rows)

/-- `lb_value`. -/
def smallestFraction (balance : Dict String ℕ) : Option ℚ :=
  if balance.values.sum = 0 then none
  else some (b.ratio (balance.values.min?.getD 0) balance.values.sum)

end

structure Rule where
  name : RuleName
  passed : Bool
  disposition : String
  deriving DecidableEq

structure Report where
  passed : Bool
  rules : List Rule
  rowCount : ℕ
  columns : List Key
  nullRates : List (Key × ℚ)
  labelBalance : Dict String ℕ
  gateFailures : List RuleName
  warnings : List RuleName

/-- The names of the rules of a disposition that did not pass. -/
def failures (rules : List Rule) (disposition : String) : List RuleName :=
  (rules.filter fun r => r.disposition = disposition ∧ r.passed = false).map Rule.name

/-- Whether each rule passes; `rates` and `found` are what the columns and the ranges came
to. -/
def verdict (b : Builtins) (cfg : Config) (rows : List Row) (rates : List (Key × ℚ))
    (found : List (String × Number)) : RuleName → Bool
  | .requiredColumns => requiredHold cfg (presentColumns rows)
  | .minRows => cfg.minRows.le (.fin rows.length)
  | .nullRate => (Number.fin (worstRate rates)).le cfg.maxNullRate
  | .valueRange => found.isEmpty
  | .labelBalance =>
    (smallestFraction b (labelBalance b cfg rows)).all fun x => cfg.minLabelFraction.le (.fin x)

def reportOf (b : Builtins) (cfg : Config) (rows : List Row) (columns : List Key)
    (found : List (String × Number)) : Report :=
  let rates := nullRates b rows columns
  let rules := RuleName.all.map fun name =>
    ⟨name, verdict b cfg rows rates found name, cfg.disposition name⟩
  { passed := rules.all fun r => r.disposition ≠ gate || r.passed
    rules := rules
    rowCount := rows.length
    columns := columns
    nullRates := rates
    labelBalance := labelBalance b cfg rows
    gateFailures := failures rules gate
    warnings := failures rules warn }

/-- `run_rules`. -/
def runRules (b : Builtins) (cfg : Config) (rows : List Row) : Except Fault Report := do
  let columns ← sortedColumns (presentColumns rows)
  let found ← violations b cfg rows
  return reportOf b cfg rows columns found

/-! ## What a rule states -/

section

variable (b : Builtins) (cfg : Config) (rows : List Row)

/-- The columns that some row has. -/
def columns : List Key := rows.flatMap Dict.keys

/-- The fraction of rows whose cell is missing or blank. -/
def nullFraction (c : Key) : ℚ := nulls rows c / rows.length

def Range.inside (range : Range) (x : Number) : Bool :=
  range.low.all (fun lo => lo.le x) && range.high.all (fun hi => x.le hi)

/-- A label's fraction of all labels. -/
def labelFraction (label : String) : ℚ :=
  (labels b cfg rows).count label / (labels b cfg rows).length

/-- The rule holds of the rows, in exact arithmetic. -/
def Holds : RuleName → Prop
  | .requiredColumns => ∀ group ∈ cfg.requiredColumns, ∃ m ∈ group,
      rows ≠ [] ∧ ∀ r ∈ rows, some m ∈ r.keys
  | .minRows => cfg.minRows.le (.fin rows.length) = true
  | .nullRate => ∀ c ∈ columns rows,
      (Number.fin (nullFraction rows c)).le cfg.maxNullRate = true
  | .valueRange => ∀ range ∈ cfg.ranges, ∀ r ∈ rows, ∀ x,
      b.float (cell r (some range.column)) = .ok x → range.inside x = true
  | .labelBalance => ∀ label ∈ labels b cfg rows,
      cfg.minLabelFraction.le (.fin (labelFraction b cfg rows label)) = true

/-- A report is returned, each of its rules passed exactly if it holds, and the report
passed exactly if every rule that gates holds. -/
def Decides : Prop :=
  ∃ report, runRules b cfg rows = .ok report ∧
    report.rules.map Rule.name = RuleName.all ∧
    (∀ rule ∈ report.rules, rule.passed = true ↔ Holds b cfg rows rule.name) ∧
    (report.passed = true ↔ ∀ name, cfg.disposition name = gate → Holds b cfg rows name)

end

/-- The builtins on the cells of the examples; the quotient is rounded exactly. -/
def plain : Builtins where
  float
    | .num x => .ok x
    | .bool _ | .str _ | .null | .arr _ | .obj _ => .error .type
  str _ := ""
  ratio m n := Rounding.roundTo 4 (m / n)

end MlopsLite.Gateway.Validation
