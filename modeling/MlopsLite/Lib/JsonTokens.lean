import MlopsLite.Lib.Json
import MlopsLite.Lib.Texts

/-!
# JsonTokens — the tokens of a JSON text

`Spells` says in which ways a list of tokens may be written, `lex` how the
tokens are found again, one character at a time. A text is a sequence of
Unicode characters, so an escaped surrogate counts only in a pair. `NaN` and
the infinities are read as numbers.
-/

namespace JsonTokens

/-- What is written without quotes and brackets. -/
inductive Scalar (ν : Type)
  | null
  | bool (b : Bool)
  | num (n : ν)

inductive Token (ν : Type)
  | punct (c : Char)
  | str (s : String)
  | scalar (x : Scalar ν)

namespace Token

variable {ν : Type}

def isStr : Token ν → Bool
  | .str _ => true
  | _ => false

def isScalar : Token ν → Bool
  | .scalar _ => true
  | _ => false

end Token

/-! ## Characters -/

def quote : Char := '\x22'

def backslash : Char := '\x5c'

def isWs (c : Char) : Bool := c = ' ' || c = '\t' || c = '\n' || c = '\r'

def isPunct (c : Char) : Bool := ['\x7b', '\x7d', '[', ']', ':', ','].contains c

/-- The characters of numbers and words. -/
def atomChar (c : Char) : Bool :=
  Texts.isDigit c || decide ('a' ≤ c ∧ c ≤ 'z') || decide ('A' ≤ c ∧ c ≤ 'Z') ||
    ['+', '-', '.'].contains c

/-- The character behind a backslash, other than `u`. -/
def unescape (c : Char) : Option Char :=
  [(quote, quote), (backslash, backslash), ('/', '/'), ('b', '\x08'), ('f', '\x0c'), ('n', '\n'),
    ('r', '\r'), ('t', '\t')].lookup c

def hexDigit (c : Char) : Option ℕ :=
  if '0' ≤ c ∧ c ≤ '9' then some (c.toNat - 48)
  else if 'a' ≤ c ∧ c ≤ 'f' then some (c.toNat - 87)
  else if 'A' ≤ c ∧ c ≤ 'F' then some (c.toNat - 55)
  else none

def hexValue (digits : List ℕ) : ℕ := digits.foldl (fun n d => 16 * n + d) 0

def hexCode (digits : List Char) : Option ℕ := (digits.mapM hexDigit).map hexValue

def isHigh (n : ℕ) : Bool := decide (0xd800 ≤ n ∧ n < 0xdc00)

def isLow (n : ℕ) : Bool := decide (0xdc00 ≤ n ∧ n < 0xe000)

/-- The character of a surrogate pair. -/
def combine (high low : ℕ) : ℕ := 0x10000 + (high - 0xd800) * 0x400 + (low - 0xdc00)

/-! ## Numbers and words -/

/-- What follows one or more digits. -/
def afterDigits (s : List Char) : Option (List Char) :=
  if s.head?.any Texts.isDigit then some (s.dropWhile Texts.isDigit) else none

def afterInt : List Char → Option (List Char)
  | '0' :: s => some s
  | s => afterDigits s

def afterFrac : List Char → Option (List Char)
  | '.' :: s => afterDigits s
  | s => some s

def afterSign : List Char → List Char
  | '+' :: s => s
  | '-' :: s => s
  | s => s

def afterExp : List Char → Option (List Char)
  | 'e' :: s => afterDigits (afterSign s)
  | 'E' :: s => afterDigits (afterSign s)
  | s => some s

def afterMinus : List Char → List Char
  | '-' :: s => s
  | s => s

/-- The grammar of numbers. -/
def isNumber (s : List Char) : Bool :=
  s.all atomChar && ((afterInt (afterMinus s)).bind afterFrac).bind afterExp = some []

def constants : List (List Char) :=
  [['N', 'a', 'N'], ['I', 'n', 'f', 'i', 'n', 'i', 't', 'y'],
    ['-', 'I', 'n', 'f', 'i', 'n', 'i', 't', 'y']]

variable {ν : Type} (number : List Char → ν)

/-- What a text without quotes and brackets stands for. -/
def scalar (t : List Char) : Option (Scalar ν) :=
  if t = ['n', 'u', 'l', 'l'] then some .null
  else if t = ['t', 'r', 'u', 'e'] then some (.bool true)
  else if t = ['f', 'a', 'l', 's', 'e'] then some (.bool false)
  else if isNumber t || constants.contains t then some (.num (number t))
  else none

/-! ## Writing -/

/-- `Body s t`: between its quotes the string `s` is written as `t`. -/
inductive Body : List Char → List Char → Prop
  | nil : Body [] []
  | raw {c s t} (hcontrol : 32 ≤ c.toNat) (hquote : c ≠ quote) (hbackslash : c ≠ backslash)
      (h : Body s t) : Body (c :: s) (c :: t)
  | short {c e s t} (he : unescape e = some c) (h : Body s t) :
      Body (c :: s) (backslash :: e :: t)
  | code {c s t} (digits : List Char) (hlength : digits.length = 4)
      (hcode : hexCode digits = some c.toNat) (h : Body s t) :
      Body (c :: s) (backslash :: 'u' :: (digits ++ t))
  | pair {c s t m n} (high low : List Char) (hhigh : high.length = 4) (hlow : low.length = 4)
      (hm : hexCode high = some m) (hn : hexCode low = some n) (hsurrogates : isHigh m ∧ isLow n)
      (hc : c.toNat = combine m n) (h : Body s t) :
      Body (c :: s) (backslash :: 'u' :: (high ++ backslash :: 'u' :: (low ++ t)))

/-- The tokens may be written so. -/
inductive Spells : List (Token ν) → List Char → Prop
  | nil : Spells [] []
  | space {c ts t} (hc : isWs c = true) (h : Spells ts t) : Spells ts (c :: t)
  | punct {c ts t} (hc : isPunct c = true) (h : Spells ts t) : Spells (.punct c :: ts) (c :: t)
  | str {s body ts t} (hs : Body s.toList body) (h : Spells ts t) :
      Spells (.str s :: ts) (quote :: (body ++ quote :: t))
  | scalar {x text ts t} (hx : scalar number text = some x) (h : Spells ts t) :
      Spells (.scalar x :: ts) (text ++ t)

/-- No two scalars are side by side. -/
def Separated (ts : List (Token ν)) : Prop :=
  ts.IsChain fun a b => ¬ (a.isScalar = true ∧ b.isScalar = true)

/-! ## Reading -/

/-- Where the reader is: between tokens, in a number or word, or in a string,
there possibly within an escape. -/
inductive Mode
  | between
  | atom (t : List Char)
  | text (s : List Char)
  | escape (s : List Char)
  | hex (s : List Char) (high : Option ℕ) (digits : List ℕ)
  | pair (s : List Char) (high : ℕ)
  | pairEscape (s : List Char) (high : ℕ)

/-- The end of a `\u` escape. -/
def code (s : List Char) (high : Option ℕ) (n : ℕ) : Option Mode :=
  match high with
  | none =>
    if isHigh n then some (.pair s n)
    else if n.isValidChar then some (.text (s ++ [Char.ofNat n]))
    else none
  | some m => if isLow n then some (.text (s ++ [Char.ofNat (combine m n)])) else none

/-- A character between tokens. -/
def start (c : Char) : Option (Mode × List (Token ν)) :=
  if isWs c then some (.between, [])
  else if isPunct c then some (.between, [.punct c])
  else if c = quote then some (.text [], [])
  else if atomChar c then some (.atom [c], [])
  else none

/-- A character in a mode: the next mode, and the tokens that end here. -/
def step : Mode → Char → Option (Mode × List (Token ν))
  | .between, c => start c
  | .atom t, c =>
    if atomChar c then some (.atom (t ++ [c]), [])
    else (scalar number t).bind fun x => (start c).map fun r => (r.1, .scalar x :: r.2)
  | .text s, c =>
    if c = quote then some (.between, [.str (.ofList s)])
    else if c = backslash then some (.escape s, [])
    else if c.toNat < 32 then none
    else some (.text (s ++ [c]), [])
  | .escape s, c =>
    if c = 'u' then some (.hex s none [], [])
    else (unescape c).map fun d => (.text (s ++ [d]), [])
  | .hex s high digits, c =>
    (hexDigit c).bind fun d =>
      if digits.length < 3 then some (.hex s high (digits ++ [d]), [])
      else (code s high (hexValue (digits ++ [d]))).map fun m => (m, [])
  | .pair s high, c => if c = backslash then some (.pairEscape s high, []) else none
  | .pairEscape s high, c => if c = 'u' then some (.hex s (some high) [], []) else none

/-- The end of the text. -/
def finish : Mode → Option (List (Token ν))
  | .between => some []
  | .atom t => (scalar number t).map fun x => [.scalar x]
  | _ => none

def run : Mode → List Char → Option (List (Token ν))
  | m, [] => finish number m
  | m, c :: t => (step number m c).bind fun r => (run r.1 t).map (r.2 ++ ·)

/-- The tokens of a text. -/
def lex (t : List Char) : Option (List (Token ν)) := run number .between t

variable {number}

/-! ### What each kind of character is not -/

theorem isWs_iff {c : Char} : isWs c = true ↔ c = ' ' ∨ c = '\t' ∨ c = '\n' ∨ c = '\r' := by
  simp [isWs, or_assoc]

theorem isPunct_iff {c : Char} :
    isPunct c = true ↔
      c = '\x7b' ∨ c = '\x7d' ∨ c = '[' ∨ c = ']' ∨ c = ':' ∨ c = ',' := by
  simp [isPunct]

theorem not_isWs_of_isPunct {c : Char} (h : isPunct c = true) : isWs c = false := by
  rcases isPunct_iff.mp h with rfl | rfl | rfl | rfl | rfl | rfl <;> decide

/-- Neither a quote nor a backslash: it does not end or escape anything. -/
def Inert (c : Char) : Prop := c ≠ quote ∧ c ≠ backslash

theorem inert_of_isWs {c : Char} (h : isWs c = true) : Inert c := by
  rcases isWs_iff.mp h with rfl | rfl | rfl | rfl <;> exact ⟨by decide, by decide⟩

theorem inert_of_isPunct {c : Char} (h : isPunct c = true) : Inert c := by
  rcases isPunct_iff.mp h with rfl | rfl | rfl | rfl | rfl | rfl <;>
    exact ⟨by decide, by decide⟩

theorem inert_of_atomChar {c : Char} (h : atomChar c = true) : Inert c := by
  constructor
  · rintro rfl
    revert h
    decide
  · rintro rfl
    revert h
    decide

theorem inert_of_hexDigit {c : Char} {n : ℕ} (h : hexDigit c = some n) : Inert c := by
  constructor
  · rintro rfl
    revert h
    simp [hexDigit, quote]
  · rintro rfl
    revert h
    simp [hexDigit, backslash]

theorem not_atomChar_of_isWs {c : Char} (h : isWs c = true) : atomChar c = false := by
  rcases isWs_iff.mp h with rfl | rfl | rfl | rfl <;> decide

theorem not_atomChar_of_isPunct {c : Char} (h : isPunct c = true) : atomChar c = false := by
  rcases isPunct_iff.mp h with rfl | rfl | rfl | rfl | rfl | rfl <;> decide

theorem ne_u_of_unescape {c d : Char} (h : unescape c = some d) : c ≠ 'u' := by
  rintro rfl
  have hnone : unescape 'u' = none := by decide
  rw [hnone] at h
  cases h

theorem step_ws {c : Char} (h : isWs c = true) :
    step number .between c = some (.between, []) := by
  rw [step, start, if_pos h]

theorem step_punct {c : Char} (h : isPunct c = true) :
    step number .between c = some (.between, [.punct c]) := by
  rw [step, start, if_neg (by simp [not_isWs_of_isPunct h]), if_pos h]

theorem step_quote : step number .between quote = some (.text [], []) := by
  rw [step, start, if_neg (by decide), if_neg (by decide), if_pos rfl]

theorem step_atomChar {c : Char} (h : atomChar c = true) :
    step number .between c = some (.atom [c], []) := by
  have hws : ¬ isWs c = true := by
    intro hws
    rw [not_atomChar_of_isWs hws] at h
    cases h
  have hpunct : ¬ isPunct c = true := by
    intro hpunct
    rw [not_atomChar_of_isPunct hpunct] at h
    cases h
  rw [step, start, if_neg hws, if_neg hpunct, if_neg (inert_of_atomChar h).1, if_pos h]

/-- `start` by the kind of its character. -/
theorem start_cases {c : Char} {m : Mode} {out : List (Token ν)} (h : start c = some (m, out)) :
    (isWs c = true ∧ m = .between ∧ out = []) ∨
      (isPunct c = true ∧ m = .between ∧ out = [.punct c]) ∨
      (c = quote ∧ m = .text [] ∧ out = []) ∨
      (atomChar c = true ∧ m = .atom [c] ∧ out = []) := by
  rw [start] at h
  split_ifs at h with hws hpunct hquote hatom
  · cases h
    exact .inl ⟨hws, rfl, rfl⟩
  · cases h
    exact .inr (.inl ⟨hpunct, rfl, rfl⟩)
  · cases h
    exact .inr (.inr (.inl ⟨hquote, rfl, rfl⟩))
  · cases h
    exact .inr (.inr (.inr ⟨hatom, rfl, rfl⟩))

/-! ### Scalars -/

theorem atomChar_of_scalar {t : List Char} {x : Scalar ν} (h : scalar number t = some x) :
    t ≠ [] ∧ t.all atomChar = true := by
  rw [scalar] at h
  split_ifs at h with hnull htrue hfalse hnumber
  · rw [hnull]
    decide
  · rw [htrue]
    decide
  · rw [hfalse]
    decide
  · rw [Bool.or_eq_true] at hnumber
    rcases hnumber with hnumber | hconstant
    · rw [isNumber, Bool.and_eq_true] at hnumber
      refine ⟨?_, hnumber.1⟩
      rintro rfl
      exact absurd hnumber.2 (by decide)
    · rw [List.contains_iff_mem, constants] at hconstant
      simp only [List.mem_cons, List.not_mem_nil, or_false] at hconstant
      rcases hconstant with rfl | rfl | rfl <;> decide

/-! ### What is written is read -/

/-- A character at which no token ends. -/
theorem run_silent {m m' : Mode} {c : Char} (h : step number m c = some (m', [])) (t : List Char) :
    run number m (c :: t) = run number m' t := by
  rw [run, h, Option.bind_some]
  exact congrFun Option.map_id _

/-- A character at which one token ends. -/
theorem run_token {m m' : Mode} {c : Char} {a : Token ν} (h : step number m c = some (m', [a]))
    (t : List Char) : run number m (c :: t) = (run number m' t).map (a :: ·) := by
  rw [run, h, Option.bind_some]
  rfl

theorem step_escape (s : List Char) :
    step number (.text s) backslash = some (.escape s, []) := by
  rw [step, if_neg (by decide), if_pos rfl]

theorem step_code (s : List Char) : step number (.escape s) 'u' = some (.hex s none [], []) := by
  rw [step, if_pos rfl]

theorem run_atom {p text t : List Char} (htext : text.all atomChar = true) :
    run number (.atom p) (text ++ t) = run number (.atom (p ++ text)) t := by
  induction text generalizing p with
  | nil => simp
  | cons c text ih =>
    rw [List.all_cons, Bool.and_eq_true] at htext
    have hstep : step number (.atom p) c = some (.atom (p ++ [c]), []) := by
      rw [step, if_pos htext.1]
    rw [List.cons_append, run_silent hstep, ih htext.2]
    simp

/-- A word ends where the text goes on with another character. -/
theorem run_scalar {x : Scalar ν} {p t : List Char} (hx : scalar number p = some x)
    (ht : ∀ c ∈ t.head?, atomChar c = false) :
    run number (.atom p) t = (run number .between t).map (.scalar x :: ·) := by
  cases t with
  | nil => simp [run, finish, hx]
  | cons c t =>
    have hc := ht c (by simp)
    rw [run, step, if_neg (by simp [hc]), hx, run, step]
    cases start (ν := ν) c with
    | none => rfl
    | some r => simp [Function.comp_def]

/-- Four digits are read as one number. -/
theorem run_hex {s digits t : List Char} {high : Option ℕ} {m : Mode} {before after : List ℕ}
    (hne : digits ≠ []) (hlength : before.length + digits.length = 4)
    (hdigits : digits.mapM hexDigit = some after)
    (hm : code s high (hexValue (before ++ after)) = some m) :
    run number (.hex s high before) (digits ++ t) = run number m t := by
  induction digits generalizing before after with
  | nil => exact absurd rfl hne
  | cons c digits ih =>
    rw [List.mapM_cons] at hdigits
    cases hd : hexDigit c with
    | none => simp [hd] at hdigits
    | some d =>
      cases hrest : digits.mapM hexDigit with
      | none => simp [hd, hrest] at hdigits
      | some rest =>
        simp only [hd, hrest, Option.pure_def, Option.bind_eq_bind, Option.bind_some,
          Option.some.injEq] at hdigits
        subst hdigits
        rw [List.cons_append]
        rw [List.length_cons] at hlength
        by_cases hlast : digits = []
        · subst hlast
          cases hrest
          rw [List.length_nil] at hlength
          have hstep : step number (.hex s high before) c = some (m, []) := by
            rw [step, hd, Option.bind_some, if_neg (by omega)]
            exact congrArg (Option.map fun m => (m, [])) hm
          rw [run_silent hstep, List.nil_append]
        · have hpos := List.length_pos_iff.mpr hlast
          have hstep : step number (.hex s high before) c =
              some (.hex s high (before ++ [d]), []) := by
            rw [step, hd, Option.bind_some, if_pos (by omega)]
          rw [run_silent hstep]
          exact ih hlast (by rw [List.length_append]; simp; omega) hrest
            (by rw [List.append_assoc]; exact hm)

theorem isValidChar_toNat (c : Char) : c.toNat.isValidChar := c.valid

theorem not_isHigh_toNat (c : Char) : isHigh c.toNat = false := by
  have hvalid := isValidChar_toNat c
  simp only [Nat.isValidChar] at hvalid
  simp only [isHigh, decide_eq_false_iff_not]
  omega

theorem code_char (s : List Char) (c : Char) :
    code s none c.toNat = some (.text (s ++ [c])) := by
  simp [code, not_isHigh_toNat, isValidChar_toNat, Char.ofNat_toNat]

theorem code_low {s : List Char} {c : Char} {m n : ℕ} (hn : isLow n = true)
    (hc : c.toNat = combine m n) : code s (some m) n = some (.text (s ++ [c])) := by
  simp [code, hn, ← hc, Char.ofNat_toNat]

/-- A string is read to its end. -/
theorem run_body {s body : List Char} (h : Body s body) (before t : List Char) :
    run number (.text before) (body ++ quote :: t) =
      (run number .between t).map (.str (.ofList (before ++ s)) :: ·) := by
  induction h generalizing before with
  | nil =>
    have hstep : step number (.text before) quote =
        some (.between, [.str (.ofList before)]) := by
      rw [step, if_pos rfl]
    rw [List.nil_append, run_token hstep, List.append_nil]
  | @raw c s u hcontrol hquote hbackslash h ih =>
    have hstep : step number (.text before) c = some (.text (before ++ [c]), []) := by
      rw [step, if_neg hquote, if_neg hbackslash, if_neg (by omega)]
    rw [List.cons_append, run_silent hstep, ih, List.append_assoc, List.singleton_append]
  | @short c e s u he h ih =>
    have hstep : step number (.escape before) e = some (.text (before ++ [c]), []) := by
      rw [step, if_neg (ne_u_of_unescape he), he, Option.map_some]
    rw [List.cons_append, List.cons_append, run_silent (step_escape _), run_silent hstep, ih,
      List.append_assoc, List.singleton_append]
  | @code c s u digits hlength hcode h ih =>
    rw [hexCode, Option.map_eq_some_iff] at hcode
    obtain ⟨values, hvalues, hvalue⟩ := hcode
    have hm : code before none (hexValue ([] ++ values)) = some (.text (before ++ [c])) := by
      rw [List.nil_append, hvalue]
      exact code_char before c
    rw [List.cons_append, List.cons_append, run_silent (step_escape _), run_silent (step_code _),
      List.append_assoc, run_hex (List.length_pos_iff.mp (by omega)) (by simpa using hlength)
        hvalues hm, ih, List.append_assoc, List.singleton_append]
  | @pair c s u m n high low hhigh hlow hm hn hsurrogates hc h ih =>
    rw [hexCode, Option.map_eq_some_iff] at hm hn
    obtain ⟨highs, hhighs, hhigher⟩ := hm
    obtain ⟨lows, hlows, hlower⟩ := hn
    have hfirst : code before none (hexValue ([] ++ highs)) = some (.pair before m) := by
      rw [List.nil_append, hhigher, code, if_pos hsurrogates.1]
    have hsecond : code before (some m) (hexValue ([] ++ lows)) =
        some (.text (before ++ [c])) := by
      rw [List.nil_append, hlower]
      exact code_low hsurrogates.2 hc
    have hbackslash : step number (.pair before m) backslash =
        some (.pairEscape before m, []) := by
      rw [step, if_pos rfl]
    have hu : step number (.pairEscape before m) 'u' = some (.hex before (some m) [], []) := by
      rw [step, if_pos rfl]
    have hshape : backslash :: 'u' :: (high ++ backslash :: 'u' :: (low ++ u)) ++ quote :: t =
        backslash :: 'u' :: (high ++ backslash :: 'u' :: (low ++ (u ++ quote :: t))) := by
      simp
    rw [hshape, run_silent (step_escape _), run_silent (step_code _),
      run_hex (List.length_pos_iff.mp (by omega)) (by simpa using hhigh) hhighs hfirst,
      run_silent hbackslash, run_silent hu,
      run_hex (List.length_pos_iff.mp (by omega)) (by simpa using hlow) hlows hsecond, ih,
      List.append_assoc, List.singleton_append]

/-- What follows a token that is no scalar does not go on with a word. -/
theorem head?_of_spells {ts : List (Token ν)} {t : List Char} (h : Spells number ts t)
    (hts : ∀ a ∈ ts.head?, a.isScalar = false) : ∀ c ∈ t.head?, atomChar c = false := by
  cases h with
  | nil => simp
  | space hc h =>
    rintro d hd
    cases hd
    exact not_atomChar_of_isWs hc
  | punct hc h =>
    rintro d hd
    cases hd
    exact not_atomChar_of_isPunct hc
  | str hs h =>
    rintro d hd
    cases hd
    decide
  | @scalar x text ts t hx h =>
    have hnot := hts (.scalar x) (by simp)
    cases hnot

theorem run_of_spells {ts : List (Token ν)} {t : List Char} (h : Spells number ts t)
    (hts : Separated ts) : run number .between t = some ts := by
  induction h with
  | nil => rfl
  | space hc h ih => rw [run_silent (step_ws hc), ih hts]
  | punct hc h ih => rw [run_token (step_punct hc), ih hts.tail, Option.map_some]
  | @str s body ts t hs h ih =>
    rw [run_silent step_quote, run_body hs, ih hts.tail, List.nil_append, String.ofList_toList,
      Option.map_some]
  | @scalar x text ts t hx h ih =>
    obtain ⟨hne, htext⟩ := atomChar_of_scalar hx
    have hnext : ∀ a ∈ ts.head?, a.isScalar = false := by
      intro a ha
      obtain ⟨more, rfl⟩ := List.head?_eq_some_iff.mp ha
      have hpair := List.IsChain.rel hts
      simpa [Token.isScalar] using hpair
    obtain ⟨c, more, rfl⟩ := List.exists_cons_of_ne_nil hne
    rw [List.all_cons, Bool.and_eq_true] at htext
    rw [List.cons_append, run_silent (step_atomChar htext.1), run_atom htext.2,
      List.singleton_append, run_scalar hx (head?_of_spells h hnext), ih hts.tail, Option.map_some]

/-- A text is read as what it was written from. -/
theorem lex_of_spells {ts : List (Token ν)} {t : List Char} (h : Spells number ts t)
    (hts : Separated ts) : lex number t = some ts := run_of_spells h hts

end JsonTokens
