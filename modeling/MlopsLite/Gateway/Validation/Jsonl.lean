import MlopsLite.Gateway.Validation.Parse
import MlopsLite.Lib.JsonText

/-!
# Validation — the ways to write a dataset

`json.loads` of a text without escaped lone surrogates, and the JSONL files there
are for a list of objects: one on a line, written in any way JSON allows.
-/

namespace MlopsLite.Gateway.Validation

open Conversions (Value)
open JsonTokens (Spells Token lex quotes strs)
open JsonText (tokens parse dict Distinct strings)

/-- What reading leaves open: the value of a number, the texts `json.loads` gives
up on with another exception than a `JSONDecodeError` (too many digits, too deep),
the CSV reader, and what becomes of bytes that are no UTF-8. -/
structure Codec where
  number : List Char → Number
  tooMuch : List Char → Bool
  csv : List Char → Option (List Row)
  replace : ByteArray → List Char
  replace_eq : ∀ raw text, decode raw = some text → replace raw = text

def byteOrderMark : Char := '\ufeff'

namespace Codec

variable (codec : Codec)

/-- `json.loads`. -/
def loads (text : List Char) : Loaded :=
  if text.head? = some byteOrderMark then .malformed
  else if codec.tooMuch text then .raised
  else
    match (lex codec.number text).bind parse with
    | some v => .value (dict v)
    | none => .malformed

variable {codec}

theorem loads_value {text : List Char} {v : Value} (h : codec.loads text = .value v) :
    ∃ w, lex codec.number text = some (tokens w) ∧ v = dict w := by
  rw [loads] at h
  split_ifs at h
  cases hw : (lex codec.number text).bind parse with
  | none => simp [hw] at h
  | some w =>
    obtain ⟨ts, hlex, hparse⟩ := Option.bind_eq_some_iff.mp hw
    rw [hw] at h
    cases h
    exact ⟨w, by rw [hlex, JsonText.tokens_of_parse hparse], rfl⟩

/-- Only an object's text is read as a dict. -/
theorem obj_of_dict {w : Value} {members : List (String × Value)} (h : dict w = .obj members) :
    ∃ members', w = .obj members' := by
  cases w with
  | obj members' => exact ⟨members', rfl⟩
  | arr items => simp at h
  | null => cases h
  | bool b => cases h
  | num n => cases h
  | str s => cases h

variable (codec) in
def reader : Reader where
  loads := codec.loads
  csv := codec.csv
  replace := codec.replace
  replace_eq := codec.replace_eq
  loads_object text members h := by
    obtain ⟨w, hlex, hdict⟩ := loads_value h
    obtain ⟨members', rfl⟩ := obj_of_dict hdict.symm
    rw [JsonText.tokens_obj] at hlex
    exact JsonTokens.head?_of_lex hlex

end Codec

/-! ## Files -/

def OneLine (text : List Char) : Prop := ∀ c ∈ text, c ≠ '\n' ∧ c ≠ '\r'

/-- A line without its end: blank, or an object in some spelling. -/
inductive Line (codec : Codec)
  | blank (text : List Char) (hblank : Lines.blank text = true) (hline : OneLine text)
  | object (members : List (String × Value)) (text : List Char)
      (hkeys : Distinct (.obj members))
      (hspells : Spells codec.number (tokens (.obj members)) text) (hline : OneLine text)

namespace Line

variable {codec : Codec}

def text : Line codec → List Char
  | .blank text _ _ => text
  | .object _ text _ _ _ => text

def object? : Line codec → Option (List (String × Value))
  | .blank _ _ _ => none
  | .object members _ _ _ _ => some members

end Line

inductive Ending
  | lf
  | crlf

def Ending.text : Ending → List Char
  | .lf => ['\n']
  | .crlf => ['\r', '\n']

/-- The lines that are ended, and the one that is not; it is blank where the file
ends with a line end. -/
structure Jsonl (codec : Codec) where
  bom : Bool
  ended : List (Line codec × Ending)
  last : Line codec

namespace Jsonl

variable {codec : Codec}

def lines (file : Jsonl codec) : List (Line codec) := file.ended.map Prod.fst ++ [file.last]

/-- The objects of the file, in order. -/
def objects (file : Jsonl codec) : List (List (String × Value)) :=
  file.lines.filterMap Line.object?

/-- The text of lines, one after another. -/
def body (ended : List (Line codec × Ending)) (last : Line codec) : List Char :=
  ended.flatMap (fun l => l.1.text ++ l.2.text) ++ last.text

def text (file : Jsonl codec) : List Char :=
  (if file.bom then [byteOrderMark] else []) ++ body file.ended file.last

def bytes (file : Jsonl codec) : ByteArray := (String.ofList file.text).toUTF8

theorem decode_bytes (file : Jsonl codec) : decode file.bytes = some file.text :=
  decode_utf8Encode file.text

def first (file : Jsonl codec) : Line codec := (file.ended.head?.map Prod.fst).getD file.last

end Jsonl

/-- The line boundaries that JSON allows in a string as they are. -/
def separators : List Char := ['\u0085', '\u2028', '\u2029']

/-- No object has such a character left unescaped or is too much for the reader,
and the byte-order mark, if there is one, is not before an object. -/
def Kept {codec : Codec} (file : Jsonl codec) : Prop :=
  (∀ line ∈ file.lines, line.object? ≠ none →
    (∀ c ∈ line.text, c ∉ separators) ∧ codec.tooMuch (stripped line.text) = false) ∧
  (file.bom = true → file.first.object? = none)

/-! ## Quotes and strings -/

/-- The strings of a row, keys included. -/
def rowStrings (row : Row) : ℕ := row.total fun _ v => 1 + strings v

theorem rowOf_eq (members : List (String × Value)) :
    rowOf members = Dict.ofItems (members.map fun m => (some m.1, m.2)) := by
  rw [rowOf, Dict.ofItems, List.foldl_map]

theorem rowStrings_le (members : List (String × Value)) :
    rowStrings (rowOf members) ≤ strings (.obj members : Value) := by
  rw [rowStrings, rowOf_eq, JsonText.strings_obj]
  refine (Dict.total_ofItems_le _ _).trans ?_
  rw [List.map_map]
  exact le_rfl

theorem rowStrings_rowOf {members : List (String × Value)}
    (h : Distinct (.obj members : Value)) :
    rowStrings (rowOf members) = strings (.obj members : Value) := by
  have hkeys : ((members.map fun m => ((some m.1 : Key), m.2)).map Prod.fst).Nodup := by
    cases h with
    | obj hkeys h =>
      have hsome := hkeys.map (Option.some_injective String)
      rwa [List.map_map] at hsome ⊢
  rw [rowStrings, rowOf_eq, Dict.total, Dict.items_ofItems hkeys, List.map_map,
    JsonText.strings_obj]
  rfl

/-- A line boundary neither ends nor escapes anything. -/
theorem inert_of_isBreak {c : Char} (h : Lines.isBreak c = true) : JsonTokens.Inert c :=
  JsonTokens.inert_of_isSpace (Lines.isSpace_of_isBreak h)

theorem quotes_blank {text : List Char} (h : Lines.blank text = true) :
    quotes false text = 0 := by
  induction text with
  | nil => rfl
  | cons c text ih =>
    rw [Lines.blank, List.all_cons, Bool.and_eq_true] at h
    rw [JsonTokens.quotes_inert (JsonTokens.inert_of_isSpace h.1)]
    exact ih h.2

theorem quotes_splitOnP (escaped : Bool) (text : List Char) :
    quotes escaped text = quotes escaped (Lines.first text) +
      ((text.splitOnP Lines.isBreak).tail.map (quotes false)).sum := by
  induction text generalizing escaped with
  | nil => cases escaped <;> rfl
  | cons c text ih =>
    by_cases hc : Lines.isBreak c = true
    · have hfirst : Lines.first (c :: text) = [] := by
        rw [Lines.first, List.takeWhile_cons_of_neg (by simp [hc])]
      have hhead := JsonTokens.quotes_append_inert (inert_of_isBreak hc) escaped [] text
      have hnone : quotes escaped [] = 0 := rfl
      rw [List.nil_append, hnone, Nat.zero_add] at hhead
      rw [hhead, hfirst, hnone, Nat.zero_add, Lines.splitOnP_break hc, List.tail_cons, ih,
        Lines.splitOnP_eq_first_cons, List.map_cons, List.sum_cons]
      rfl
    · have hfirst : Lines.first (c :: text) = c :: Lines.first text := by
        rw [Lines.first, List.takeWhile_cons_of_pos (by simp [hc]), Lines.first]
      rw [hfirst, Lines.splitOnP_keep hc, Lines.splitOnP_eq_first_cons, List.modifyHead_cons,
        List.tail_cons]
      cases escaped with
      | true => exact ih false
      | false =>
        show (if c = JsonTokens.quote then 1 else 0) +
          quotes (decide (c = JsonTokens.backslash)) text = _
        rw [ih, ← Nat.add_assoc]
        rfl

/-- The quotes of a text are those of its pieces. -/
theorem quotes_pieces (text : List Char) :
    ((Lines.pieces text).map (quotes false)).sum = quotes false text := by
  rw [quotes_splitOnP, Lines.pieces]
  rw [← List.sum_cons, ← List.map_cons, ← Lines.splitOnP_eq_first_cons]
  generalize text.splitOnP Lines.isBreak = pieces
  induction pieces with
  | nil => rfl
  | cons piece pieces ih =>
    rw [List.map_cons, List.sum_cons]
    by_cases hblank : Lines.blank piece = true
    · rw [List.filter_cons_of_neg (by simp [hblank]), ih, quotes_blank hblank, Nat.zero_add]
    · rw [List.filter_cons_of_pos (by simp [hblank]), List.map_cons, List.sum_cons, ih]

end MlopsLite.Gateway.Validation
