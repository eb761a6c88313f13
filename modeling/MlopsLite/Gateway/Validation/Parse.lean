import MlopsLite.Gateway.Validation.Rules
import MlopsLite.Lib.Lines

/-!
# Validation — the rows of a dataset

`parse_rows` (`gateway/app/validation.py`) over bytes in any format and encoding.
`json.loads`, `csv.DictReader` and the decoding that replaces what is no UTF-8 are
the reader's.
-/

namespace MlopsLite.Gateway.Validation

open Conversions (Value)

/-- `raw.decode("utf-8")`; `none` where it raises. -/
def decode (raw : ByteArray) : Option (List Char) := raw.utf8Decode?.map Array.toList

theorem decode_utf8Encode (text : List Char) : decode text.utf8Encode = some text := by
  simp [decode]

theorem getD_decode (raw : ByteArray) (text : List Char) (h : decode raw = some text) :
    (decode raw).getD [] = text := by
  rw [h]
  rfl

/-- What `json.loads` makes of a text: a value, a `JSONDecodeError`, or another
exception (an integer of too many digits, a value too deep). -/
inductive Loaded
  | value (v : Value)
  | malformed
  | raised

structure Reader where
  loads : List Char → Loaded
  /-- `none` where the reader raises. -/
  csv : List Char → Option (List Row)
  /-- `raw.decode("utf-8", errors="replace")`. -/
  replace : ByteArray → List Char
  replace_eq : ∀ raw text, decode raw = some text → replace raw = text
  loads_object : ∀ text members, loads text = .value (.obj members) →
    (text.dropWhile Texts.isSpace).head? = some '\x7b'

/-- The object as a dict. -/
def rowOf (members : List (String × Value)) : Row :=
  members.foldl (fun row m => row.insert (some m.1) m.2) .empty

/-- `line.strip()`. -/
def stripped (line : List Char) : List Char := Texts.strip Texts.isSpace line

variable (rd : Reader)

/-- The loop of `parse_rows`: what is malformed or no object is passed over. -/
def objects : List (List Char) → Option (List Row)
  | [] => some []
  | line :: rest =>
    if stripped line = [] then objects rest
    else
      match rd.loads (stripped line) with
      | .value (.obj members) => (objects rest).map (rowOf members :: ·)
      | .value _ | .malformed => objects rest
      | .raised => none

/-- `text.lstrip().startswith(("{", "["))`. -/
def jsonStart (text : List Char) : Bool :=
  (text.dropWhile Texts.isSpace).head?.any fun c => c = '\x7b' ∨ c = '['

/-- The bytes are taken for CSV: by the hint, or by a comma in the first line. -/
def sniffed (fmt : String) (text : List Char) : Bool :=
  let firstLine := ((Lines.splitLines text).find? fun line => !Lines.blank line).getD []
  fmt = "csv" || (fmt = "" && firstLine.contains ',' && !jsonStart text)

/-- `parse_rows`; `none` where it raises. -/
def parseRows (raw : ByteArray) (fmt : Option String) : Option (List Row) :=
  let text := rd.replace raw
  let fmt := (fmt.getD "").toLower
  if sniffed fmt text then rd.csv text else objects rd (Lines.splitLines text)

/-! ## Lines and pieces -/

variable {rd}

theorem objects_cons_blank {line : List Char} (h : Lines.blank line = true)
    (rest : List (List Char)) : objects rd (line :: rest) = objects rd rest := by
  rw [objects, if_pos (by rw [stripped, Lines.strip_eq_nil_iff]; exact h)]

/-- Blank lines give nothing. -/
theorem objects_filter (lines : List (List Char)) :
    objects rd (lines.filter fun l => !Lines.blank l) = objects rd lines := by
  induction lines with
  | nil => rfl
  | cons line rest ih =>
    by_cases hblank : Lines.blank line = true
    · rw [List.filter_cons_of_neg (by simp [hblank]), ih, objects_cons_blank hblank]
    · rw [List.filter_cons_of_pos (by simp [hblank]), objects, objects, ih]

theorem objects_splitLines (text : List Char) :
    objects rd (Lines.splitLines text) = objects rd (Lines.pieces text) := by
  rw [← Lines.filter_splitLines, objects_filter]

theorem firstLine_eq (text : List Char) :
    ((Lines.splitLines text).find? fun line => !Lines.blank line).getD [] =
      (Lines.pieces text).head?.getD [] := by
  rw [← Lines.filter_splitLines, List.head?_filter]

/-- The reader finds a brace at the start if the first piece begins with one. -/
theorem jsonStart_of_head {text : List Char}
    (h : (((Lines.pieces text).head?.getD []).dropWhile Texts.isSpace).head? = some '\x7b') :
    jsonStart text = true := by
  rw [Lines.head?_pieces] at h
  rw [jsonStart, h]
  rfl

/-- What has no piece has no row. -/
theorem objects_nil_of_pieces {text : List Char} (h : Lines.pieces text = []) :
    objects rd (Lines.splitLines text) = some [] := by
  rw [objects_splitLines, h]
  rfl

end MlopsLite.Gateway.Validation
