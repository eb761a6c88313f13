import Mathlib

/-!
# UrlPath — from a path's text to the segments a server sees

The path part of the WHATWG URL parser for a special scheme: control
characters are dropped, `/` and `\` separate, dot-segments are removed, `?`
and `#` end the path, and what the path may not hold is percent-encoded. A
server decodes the path that was sent and splits it again. A list of
segments survives the journey exactly if no segment holds anything one of
these steps acts on.
-/

namespace UrlPath

/-! ## Percent-encoding -/

def hexValue? (c : Char) : Option Nat :=
  if '0' ≤ c ∧ c ≤ '9' then some (c.toNat - 48)
  else if 'a' ≤ c ∧ c ≤ 'f' then some (c.toNat - 87)
  else if 'A' ≤ c ∧ c ≤ 'F' then some (c.toNat - 55)
  else none

def hexDigit (n : Nat) : Char := if n < 10 then Char.ofNat (48 + n) else Char.ofNat (55 + n)

def percentByte (b : UInt8) : List Char := ['%', hexDigit (b.toNat / 16), hexDigit (b.toNat % 16)]

/-- UTF-8 percent-encode the characters of a set. -/
def encode (set : Char → Bool) (s : List Char) : List Char :=
  s.flatMap fun c => if set c then (String.utf8EncodeChar c).flatMap percentByte else [c]

/-- Percent-decode; a `%` that two hexadecimal digits do not follow stands for
itself. -/
def unquoteToBytes : List Char → List UInt8
  | [] => []
  | c :: rest =>
      match c, rest with
      | '%', h :: l :: rest' =>
          match hexValue? h, hexValue? l with
          | some a, some b => UInt8.ofNat (a * 16 + b) :: unquoteToBytes rest'
          | _, _ => String.utf8EncodeChar '%' ++ unquoteToBytes (h :: l :: rest')
      | c, rest => String.utf8EncodeChar c ++ unquoteToBytes rest

/-! ## UTF-8 with replacement -/

/-- `c` may follow the lead byte `b` of a sequence of three or four bytes. -/
def mayFollow (b c : UInt8) : Bool :=
  (b = 0xe0 ∧ 0xa0 ≤ c ∧ c ≤ 0xbf) ∨ (0xe1 ≤ b ∧ b ≤ 0xec ∧ 0x80 ≤ c ∧ c ≤ 0xbf) ∨
    (b = 0xed ∧ 0x80 ≤ c ∧ c ≤ 0x9f) ∨ (0xee ≤ b ∧ b ≤ 0xef ∧ 0x80 ≤ c ∧ c ≤ 0xbf) ∨
    (b = 0xf0 ∧ 0x90 ≤ c ∧ c ≤ 0xbf) ∨ (0xf1 ≤ b ∧ b ≤ 0xf3 ∧ 0x80 ≤ c ∧ c ≤ 0xbf) ∨
    (b = 0xf4 ∧ 0x80 ≤ c ∧ c ≤ 0x8f)

/-- The bytes after the first that one replacement character stands for. -/
def badTail : List UInt8 → Nat
  | b :: c :: rest =>
      if mayFollow b c then
        match rest with
        | d :: _ => if 0xf0 ≤ b ∧ 0x80 ≤ d ∧ d ≤ 0xbf then 2 else 1
        | [] => 1
      else 0
  | _ => 0

/-- Decode after skipping `k` bytes; what is not UTF-8 becomes U+FFFD. -/
def decodeFrom : Nat → List UInt8 → List Char
  | _, [] => []
  | k + 1, _ :: bs => decodeFrom k bs
  | 0, b :: bs =>
      match (b :: bs).toByteArray.utf8DecodeChar? 0 with
      | some c => c :: decodeFrom (c.utf8Size - 1) bs
      | none => '\uFFFD' :: decodeFrom (badTail (b :: bs)) bs

def unquote (s : List Char) : List Char := decodeFrom 0 (unquoteToBytes s)

example : unquote "a%2Fb%zz%C3%A9%ff%".toList = "a/b%zzé\uFFFD%".toList := by decide +kernel

/-! ## The path parser -/

/-- The code points the parser strips from the end of its input. -/
def isControlOrSpace (c : Char) : Bool := c.toNat ≤ 0x20

def isTabOrNewline (c : Char) : Bool := c = '\t' ∨ c = '\n' ∨ c = '\r'

/-- The path percent-encode set. -/
def pathSet (c : Char) : Bool :=
  c.toNat ≤ 0x1f ∨ 0x7e < c.toNat ∨
    c ∈ [' ', '"', '#', '<', '>', '?', '^', '\u0060', '\x7b', '\x7d']

/-- The special-query percent-encode set. -/
def querySet (c : Char) : Bool :=
  c.toNat ≤ 0x1f ∨ 0x7e < c.toNat ∨ c ∈ [' ', '"', '#', '<', '>', '\'']

def lower (c : Char) : Char := if 'A' ≤ c ∧ c ≤ 'Z' then Char.ofNat (c.toNat + 32) else c

def isSingleDot (s : List Char) : Bool :=
  s.map lower ∈ ["." |>.toList, "%2e".toList]

def isDoubleDot (s : List Char) : Bool :=
  s.map lower ∈ ["..".toList, ".%2e".toList, "%2e.".toList, "%2e%2e".toList]

/-- What the end of a segment does to the path: dot-segments are removed. -/
def endSegment (path : List (List Char)) (buffer : List Char) (slash : Bool) :
    List (List Char) :=
  if isDoubleDot buffer then if slash then path.dropLast else path.dropLast ++ [[]]
  else if isSingleDot buffer then if slash then path else path ++ [[]]
  else path ++ [buffer]

def isSeparator (c : Char) : Bool := c = '/' ∨ c = '\\'

def endsPath (c : Char) : Bool := c = '?' ∨ c = '#'

/-- Path state: the segments, and the input from the `?` or `#` on that ends
them. -/
def pathState : List Char → List Char → List (List Char) → List (List Char) × List Char
  | [], buffer, path => (endSegment path buffer false, [])
  | c :: rest, buffer, path =>
      if isSeparator c then pathState rest [] (endSegment path buffer true)
      else if endsPath c then (endSegment path buffer false, c :: rest)
      else pathState rest (buffer ++ encode pathSet [c]) path

/-- What the parser reads: no control characters or blanks at the end, no tabs
or newlines anywhere. -/
def trimmed (input : List Char) : List Char :=
  (input.rdropWhile isControlOrSpace).filter fun c => !isTabOrNewline c

/-- Query state, up to a `#`. -/
def queryOf : List Char → Option (List Char)
  | '?' :: rest => some (encode querySet (rest.takeWhile fun c => c ≠ '#'))
  | _ => none

/-- Path and query of a URL of a special scheme whose authority `/` and then
`input` follow. -/
def parse (input : List Char) : List (List Char) × Option (List Char) :=
  let (path, rest) := pathState (trimmed input) [] []
  (path, queryOf rest)

/-- The URL path serializer. -/
def serialize (path : List (List Char)) : List Char := path.flatMap fun s => '/' :: s

/-- The segments of a decoded path after its leading slash. -/
def segmentsOf (path : List Char) : List (List Char) := path.tail.splitOn '/'

/-- What a URL parser returns as the query: not empty, and percent-encoded. -/
structure Query where
  text : List Char
  ne_nil : text ≠ []
  encoded : ∀ c ∈ text, querySet c = false

def search : Option Query → List Char
  | none => []
  | some q => '?' :: q.text

/-- What a client puts behind the origin: the segments joined by slashes, and
the query it has parsed. -/
def target (segs : List (List Char)) (query : Option Query) : List Char :=
  ['/'].intercalate segs ++ search query

/-- The segments and the query a server reads from a request for `input`. -/
def received (input : List Char) : List (List Char) × Option (List Char) :=
  (segmentsOf (unquote (serialize (parse input).1)), (parse input).2)

/-! ## Decoding counts -/

def isAscii (c : Char) : Bool := c.toNat < 0x80

/-- Two hexadecimal digits come first. -/
def startsHex : List Char → Bool
  | h :: l :: _ => (hexValue? h).isSome && (hexValue? l).isSome
  | _ => false

/-- There is a `%` with two hexadecimal digits after it. -/
def hasEscape : List Char → Bool
  | [] => false
  | c :: rest => (c = '%' && startsHex rest) || hasEscape rest

/-- What decoding reads at a character: an escape, or the character itself. -/
theorem unquoteToBytes_plain {c : Char} {rest : List Char}
    (h : c = '%' → startsHex rest = false) :
    unquoteToBytes (c :: rest) = String.utf8EncodeChar c ++ unquoteToBytes rest := by
  by_cases hc : c = '%'
  · subst hc
    have hrest := h rfl
    cases rest with
    | nil => simp [unquoteToBytes]
    | cons a rest =>
      cases rest with
      | nil => simp [unquoteToBytes]
      | cons b rest =>
        rw [unquoteToBytes]
        split
        · rename_i ha hb
          simp [startsHex, ha, hb] at hrest
        · rfl
  · rw [unquoteToBytes]
    intro _ _ _ heq _
    exact absurd heq hc

theorem unquoteToBytes_escape {h l : Char} {a b : Nat} (rest : List Char)
    (hh : hexValue? h = some a) (hl : hexValue? l = some b) :
    unquoteToBytes ('%' :: h :: l :: rest) = UInt8.ofNat (a * 16 + b) :: unquoteToBytes rest := by
  rw [unquoteToBytes, hh, hl]

/-- Induction along a text as decoding reads it. -/
@[elab_as_elim]
theorem escapes_induction {motive : List Char → Prop} (nil : motive [])
    (plain : ∀ c rest, (c = '%' → startsHex rest = false) → motive rest → motive (c :: rest))
    (escape : ∀ h l a b rest, hexValue? h = some a → hexValue? l = some b → motive rest →
      motive ('%' :: h :: l :: rest)) (s : List Char) : motive s := by
  induction hn : s.length using Nat.strong_induction_on generalizing s with
  | _ n ih =>
    subst hn
    cases s with
    | nil => exact nil
    | cons c rest =>
      by_cases hesc : c = '%' ∧ startsHex rest = true
      · obtain ⟨rfl, hrest⟩ := hesc
        unfold startsHex at hrest
        split at hrest
        · rename_i h l rest
          obtain ⟨hh, hl⟩ := Bool.and_eq_true_iff.mp hrest
          obtain ⟨a, ha⟩ := Option.isSome_iff_exists.mp hh
          obtain ⟨b, hb⟩ := Option.isSome_iff_exists.mp hl
          refine escape h l a b rest ha hb (ih rest.length ?_ rest rfl)
          simp only [List.length_cons]
          omega
        · cases hrest
      · refine plain c rest (fun hc => ?_) (ih rest.length (Nat.lt_succ_self _) rest rfl)
        simpa [hc] using hesc

theorem hexValue?_ascii {c : Char} {a : Nat} (h : hexValue? c = some a) : isAscii c = true := by
  unfold hexValue? at h
  simp only [isAscii, decide_eq_true_eq]
  split_ifs at h with h1 h2 h3
  · exact lt_of_le_of_lt (Char.le_def.mp h1.2) (by decide)
  · exact lt_of_le_of_lt (Char.le_def.mp h2.2) (by decide)
  · exact lt_of_le_of_lt (Char.le_def.mp h3.2) (by decide)

theorem ofNat_lt_iff {n : Nat} (hn : n < 0x100) : UInt8.ofNat n < 0x80 ↔ n < 0x80 := by
  rw [UInt8.lt_iff_toNat_lt, UInt8.toNat_ofNat']
  show n % 2 ^ 8 < 128 ↔ n < 128
  rw [Nat.mod_eq_of_lt hn]

/-- An ASCII character is one byte below 0x80, any other has none. -/
theorem countP_utf8EncodeChar (c : Char) :
    (String.utf8EncodeChar c).countP (· < 0x80) = if isAscii c then 1 else 0 := by
  have hval : c.val.toNat = c.toNat := rfl
  have hcont : ∀ x, ¬ UInt8.ofNat (x % 0x40 + 0x80) < 0x80 := by
    intro x
    rw [ofNat_lt_iff (by omega)]
    omega
  have h2 : ∀ x, ¬ UInt8.ofNat (x % 0x20 + 0xc0) < 0x80 := by
    intro x
    rw [ofNat_lt_iff (by omega)]
    omega
  have h3 : ∀ x, ¬ UInt8.ofNat (x % 0x10 + 0xe0) < 0x80 := by
    intro x
    rw [ofNat_lt_iff (by omega)]
    omega
  have h4 : ∀ x, ¬ UInt8.ofNat (x % 0x08 + 0xf0) < 0x80 := by
    intro x
    rw [ofNat_lt_iff (by omega)]
    omega
  unfold String.utf8EncodeChar isAscii
  dsimp only
  rw [hval]
  by_cases h : c.toNat ≤ 0x7f
  · have hlt : c.toNat < 0x80 := by omega
    rw [if_pos h, List.countP_singleton]
    simp [ofNat_lt_iff (show c.toNat < 0x100 by omega), hlt]
  · have hno : ¬ decide (c.toNat < 0x80) = true := by simp; omega
    rw [if_neg h, if_neg hno]
    by_cases h' : c.toNat ≤ 0x7ff
    · rw [if_pos h']
      simp only [List.countP_cons, List.countP_nil, decide_eq_true_eq, hcont, h2, if_false]
    · rw [if_neg h']
      split <;> simp only [List.countP_cons, List.countP_nil, decide_eq_true_eq, hcont, h3, h4,
        if_false]

/-- Decoding an escape costs two ASCII characters at least; nothing else
changes their number. -/
theorem countP_unquoteToBytes_le (s : List Char) :
    (unquoteToBytes s).countP (· < 0x80) ≤ s.countP isAscii := by
  induction s using escapes_induction with
  | nil => exact Nat.le_refl _
  | plain c rest hc ih =>
    rw [unquoteToBytes_plain hc, List.countP_append, countP_utf8EncodeChar, List.countP_cons]
    omega
  | escape h l a b rest hh hl ih =>
    rw [unquoteToBytes_escape rest hh hl]
    simp only [List.countP_cons, hexValue?_ascii hh, hexValue?_ascii hl]
    split <;> simp <;> omega

theorem countP_unquoteToBytes_lt {s : List Char} (hs : hasEscape s = true) :
    (unquoteToBytes s).countP (· < 0x80) < s.countP isAscii := by
  induction s using escapes_induction with
  | nil => cases hs
  | plain c rest hc ih =>
    have hrest : hasEscape rest = true := by
      rw [hasEscape] at hs
      by_cases hp : c = '%'
      · simpa [hp, hc hp] using hs
      · simpa [hp] using hs
    rw [unquoteToBytes_plain hc, List.countP_append, countP_utf8EncodeChar, List.countP_cons]
    have := ih hrest
    omega
  | escape h l a b rest hh hl _ =>
    have hle := countP_unquoteToBytes_le rest
    have hpercent : isAscii '%' = true := by decide
    rw [unquoteToBytes_escape rest hh hl]
    simp only [List.countP_cons, hexValue?_ascii hh, hexValue?_ascii hl, hpercent, if_true]
    split <;> omega

theorem unquoteToBytes_of_no_escape {s : List Char} (hs : hasEscape s = false) :
    unquoteToBytes s = s.flatMap String.utf8EncodeChar := by
  induction s with
  | nil => rfl
  | cons c rest ih =>
    obtain ⟨hc, hrest⟩ : ¬ (c = '%' ∧ startsHex rest = true) ∧ hasEscape rest = false := by
      simpa [hasEscape] using hs
    rw [unquoteToBytes_plain fun hp => by simpa [hp] using hc, ih hrest, List.flatMap_cons]

/-! ## Decoding UTF-8 -/

theorem eq_append_of_decode {bs : List UInt8} {c : Char}
    (h : bs.toByteArray.utf8DecodeChar? 0 = some c) :
    ∃ rest, bs = String.utf8EncodeChar c ++ rest := by
  obtain ⟨l, hl⟩ := ByteArray.exists_of_utf8DecodeChar?_eq_some h
  refine ⟨l.data.toList, ?_⟩
  have hdata := congrArg (fun b : ByteArray => b.data.toList) hl
  simpa using hdata

theorem decode_utf8EncodeChar (c : Char) (bs : List UInt8) :
    (String.utf8EncodeChar c ++ bs).toByteArray.utf8DecodeChar? 0 = some c := by
  rw [List.toByteArray_append]
  exact ByteArray.utf8DecodeChar?_utf8EncodeChar_append

theorem utf8EncodeChar_ofNat {b : UInt8} (hb : b < 0x80) :
    String.utf8EncodeChar (Char.ofNat b.toNat) = [b] := by
  have hlt : b.toNat < 0x80 := UInt8.lt_iff_toNat_lt.mp hb
  have hval : (Char.ofNat b.toNat).val.toNat = b.toNat := by
    show (Char.ofNat b.toNat).toNat = b.toNat
    rw [Char.toNat_ofNat, if_pos]
    left
    omega
  rw [String.utf8EncodeChar, hval]
  show (if b.toNat ≤ 0x7f then _ else _) = _
  rw [if_pos (by omega), UInt8.ofNat_toNat]

theorem decode_ascii {b : UInt8} (bs : List UInt8) (hb : b < 0x80) :
    ((b :: bs).toByteArray.utf8DecodeChar? 0).isSome = true := by
  have hdecode := decode_utf8EncodeChar (Char.ofNat b.toNat) bs
  rw [utf8EncodeChar_ofNat hb, List.singleton_append] at hdecode
  rw [hdecode]
  rfl

theorem mayFollow_ge {b c : UInt8} (h : mayFollow b c = true) : ¬ c < 0x80 := by
  simp only [mayFollow, decide_eq_true_eq, UInt8.le_iff_toNat_le] at h
  rw [UInt8.lt_iff_toNat_lt]
  simp only [UInt8.reduceToNat] at *
  omega

/-- What a replacement character swallows after its first byte is no ASCII. -/
theorem countP_drop_badTail (b : UInt8) (bs : List UInt8) :
    (bs.drop (badTail (b :: bs))).countP (· < 0x80) = bs.countP (· < 0x80) := by
  cases bs with
  | nil => rfl
  | cons c rest =>
    unfold badTail
    dsimp only
    split
    · rename_i hc
      have hlt := mayFollow_ge hc
      cases rest with
      | nil => simp [hlt]
      | cons d rest =>
        dsimp only
        split
        · rename_i hd
          have hd : ¬ d < 0x80 := UInt8.not_lt.mpr hd.2.1
          simp [hlt, hd]
        · simp [hlt]
    · rfl

theorem countP_decodeFrom (k : Nat) (bs : List UInt8) :
    (decodeFrom k bs).countP isAscii = (bs.drop k).countP (· < 0x80) := by
  induction bs generalizing k with
  | nil => cases k <;> rfl
  | cons b bs ih =>
    cases k with
    | succ k => exact ih k
    | zero =>
      rw [decodeFrom, List.drop_zero]
      split
      · rename_i c hc
        obtain ⟨rest, hrest⟩ := eq_append_of_decode hc
        have hdrop : bs.drop (c.utf8Size - 1) = rest := by
          have hpos := c.utf8Size_pos
          have htail : bs = (b :: bs).drop 1 := rfl
          rw [htail, List.drop_drop, hrest, List.drop_left']
          rw [String.length_utf8EncodeChar]
          omega
        rw [List.countP_cons, ih, hdrop, hrest, List.countP_append, countP_utf8EncodeChar,
          Nat.add_comm]
      · rename_i hnone
        have hb : ¬ b < 0x80 := by
          intro hb
          have hsome := decode_ascii bs hb
          simp [hnone] at hsome
        have hfffd : isAscii '\uFFFD' = false := by decide
        rw [List.countP_cons, ih, countP_drop_badTail, List.countP_cons]
        simp [hb, hfffd]

theorem decodeFrom_append {k : Nat} (xs bs : List UInt8) (hk : xs.length = k) :
    decodeFrom k (xs ++ bs) = decodeFrom 0 bs := by
  induction xs generalizing k with
  | nil => rw [← hk]; rfl
  | cons x xs ih => rw [← hk]; exact ih rfl

theorem utf8EncodeChar_ne_nil (c : Char) : String.utf8EncodeChar c ≠ [] := by
  rw [← List.length_pos_iff, String.length_utf8EncodeChar]
  exact c.utf8Size_pos

theorem decodeFrom_utf8EncodeChar (c : Char) (rest : List UInt8) :
    decodeFrom 0 (String.utf8EncodeChar c ++ rest) = c :: decodeFrom 0 rest := by
  have hdecode := decode_utf8EncodeChar c rest
  have hlen := String.length_utf8EncodeChar c
  obtain ⟨b, bs, hbytes⟩ := List.exists_cons_of_ne_nil (utf8EncodeChar_ne_nil c)
  rw [hbytes, List.length_cons] at hlen
  rw [hbytes, List.cons_append] at hdecode ⊢
  rw [decodeFrom, hdecode]
  dsimp only
  rw [decodeFrom_append bs rest (by omega)]

theorem decodeFrom_flatMap (s : List Char) :
    decodeFrom 0 (s.flatMap String.utf8EncodeChar) = s := by
  induction s with
  | nil => rfl
  | cons c rest ih => rw [List.flatMap_cons, decodeFrom_utf8EncodeChar, ih]

theorem unquote_of_no_escape {s : List Char} (hs : hasEscape s = false) : unquote s = s := by
  rw [unquote, unquoteToBytes_of_no_escape hs, decodeFrom_flatMap]

theorem countP_unquote (s : List Char) :
    (unquote s).countP isAscii = (unquoteToBytes s).countP (· < 0x80) :=
  countP_decodeFrom 0 _

/-! ## Decoding sees through the encoding -/

/-- A percent-encode set that leaves escapes alone. -/
structure Transparent (set : Char → Bool) : Prop where
  percent : set '%' = false
  hex : ∀ c a, hexValue? c = some a → set c = false

def hexDigits : List Char :=
  ['0', '1', '2', '3', '4', '5', '6', '7', '8', '9', 'a', 'b', 'c', 'd', 'e', 'f', 'A', 'B', 'C',
    'D', 'E', 'F']

theorem mem_hexDigits {c : Char} {a : Nat} (h : hexValue? c = some a) : c ∈ hexDigits := by
  have hof : c = Char.ofNat c.toNat := (Char.ofNat_toNat c).symm
  unfold hexValue? at h
  simp only [Char.le_def, UInt32.le_iff_toNat_le] at h
  have hval : c.val.toNat = c.toNat := rfl
  rw [hval] at h
  split_ifs at h with h1 h2 h3
  · obtain ⟨hl, hu⟩ := h1
    change 48 ≤ c.toNat at hl
    change c.toNat ≤ 57 at hu
    rw [hof]
    interval_cases c.toNat <;> decide
  · obtain ⟨hl, hu⟩ := h2
    change 97 ≤ c.toNat at hl
    change c.toNat ≤ 102 at hu
    rw [hof]
    interval_cases c.toNat <;> decide
  · obtain ⟨hl, hu⟩ := h3
    change 65 ≤ c.toNat at hl
    change c.toNat ≤ 70 at hu
    rw [hof]
    interval_cases c.toNat <;> decide

theorem Transparent.of_digits {set : Char → Bool} (hp : set '%' = false)
    (hd : hexDigits.any set = false) : Transparent set where
  percent := hp
  hex := fun c _ h => by simpa using List.any_eq_false.mp hd c (mem_hexDigits h)

theorem pathSet_transparent : Transparent pathSet :=
  .of_digits (by decide) rfl

theorem querySet_transparent : Transparent querySet :=
  .of_digits (by decide) rfl

theorem hexValue?_hexDigit {n : Nat} (hn : n < 16) : hexValue? (hexDigit n) = some n := by
  interval_cases n <;> decide

theorem unquoteToBytes_percentByte (b : UInt8) (t : List Char) :
    unquoteToBytes (percentByte b ++ t) = b :: unquoteToBytes t := by
  have hb : b.toNat < 256 := b.toNat_lt
  show unquoteToBytes ('%' :: hexDigit (b.toNat / 16) :: hexDigit (b.toNat % 16) :: t) = _
  rw [unquoteToBytes_escape t (hexValue?_hexDigit (by omega)) (hexValue?_hexDigit (by omega)),
    Nat.div_add_mod' b.toNat 16, UInt8.ofNat_toNat]

theorem unquoteToBytes_percentBytes (bs : List UInt8) (t : List Char) :
    unquoteToBytes (bs.flatMap percentByte ++ t) = bs ++ unquoteToBytes t := by
  induction bs with
  | nil => rfl
  | cons b bs ih =>
    rw [List.flatMap_cons, List.append_assoc, unquoteToBytes_percentByte, ih, List.cons_append]

theorem encode_cons (set : Char → Bool) (c : Char) (s : List Char) :
    encode set (c :: s) =
      (if set c then (String.utf8EncodeChar c).flatMap percentByte else [c]) ++ encode set s := rfl

theorem encode_append (set : Char → Bool) (s t : List Char) :
    encode set (s ++ t) = encode set s ++ encode set t := List.flatMap_append

theorem encode_of_clean {set : Char → Bool} {s : List Char} (hs : ∀ c ∈ s, set c = false) :
    encode set s = s := by
  induction s with
  | nil => rfl
  | cons c s ih =>
    rw [encode_cons, hs c List.mem_cons_self, ih fun d hd => hs d (List.mem_cons_of_mem _ hd)]
    rfl

/-- An encoded character begins with a `%`, which is no hexadecimal digit. -/
theorem encode_cons_of_mem {set : Char → Bool} {c : Char} (hc : set c = true) (s : List Char) :
    ∃ t, encode set (c :: s) = '%' :: t := by
  obtain ⟨b, bs, hbytes⟩ := List.exists_cons_of_ne_nil (utf8EncodeChar_ne_nil c)
  rw [encode_cons, if_pos hc, hbytes]
  exact ⟨_, rfl⟩

theorem encode_cons_of_not_mem {set : Char → Bool} {c : Char} (hc : set c = false)
    (s : List Char) : encode set (c :: s) = c :: encode set s := by
  rw [encode_cons, hc]
  rfl

theorem Transparent.hexValue?_eq_none {set : Char → Bool} (hset : Transparent set) {c : Char}
    (hc : set c = true) : hexValue? c = none := by
  cases h : hexValue? c with
  | none => rfl
  | some a => simp [hset.hex c a h] at hc

theorem startsHex_encode {set : Char → Bool} (hset : Transparent set) (s : List Char) :
    startsHex (encode set s) = startsHex s := by
  cases s with
  | nil => rfl
  | cons h s =>
    cases hh : set h with
    | true =>
      have hnone := hset.hexValue?_eq_none hh
      have hpercent : hexValue? '%' = none := by decide
      obtain ⟨t, ht⟩ := encode_cons_of_mem hh s
      rw [ht]
      cases t <;> cases s <;> simp [startsHex, hnone, hpercent]
    | false =>
      rw [encode_cons_of_not_mem hh]
      cases s with
      | nil => rfl
      | cons l s =>
        cases hl : set l with
        | true =>
          have hnone := hset.hexValue?_eq_none hl
          have hpercent : hexValue? '%' = none := by decide
          obtain ⟨t, ht⟩ := encode_cons_of_mem hl s
          rw [ht]
          simp [startsHex, hnone, hpercent]
        | false =>
          rw [encode_cons_of_not_mem hl]
          rfl

/-- Encoding and decoding: the bytes are those of the text itself. -/
theorem unquoteToBytes_encode {set : Char → Bool} (hset : Transparent set) (s : List Char) :
    unquoteToBytes (encode set s) = unquoteToBytes s := by
  induction s using escapes_induction with
  | nil => rfl
  | plain c rest hc ih =>
    rw [unquoteToBytes_plain hc]
    cases hmem : set c with
    | true => rw [encode_cons, if_pos hmem, unquoteToBytes_percentBytes, ih]
    | false =>
      rw [encode_cons_of_not_mem hmem, unquoteToBytes_plain, ih]
      intro hp
      rw [startsHex_encode hset, hc hp]
  | escape h l a b rest hh hl ih =>
    rw [encode_cons_of_not_mem hset.percent, encode_cons_of_not_mem (hset.hex h a hh),
      encode_cons_of_not_mem (hset.hex l b hl), unquoteToBytes_escape _ hh hl,
      unquoteToBytes_escape _ hh hl, ih]

theorem unquote_encode {set : Char → Bool} (hset : Transparent set) (s : List Char) :
    unquote (encode set s) = unquote s := by
  rw [unquote, unquoteToBytes_encode hset, unquote]

/-! ## Dot-segments -/

theorem lower_eq {c d : Char} (h : lower c = d) :
    c = d ∨ (65 ≤ c.toNat ∧ c.toNat ≤ 90 ∧ c.toNat + 32 = d.toNat) := by
  unfold lower at h
  split at h
  · rename_i hc
    simp only [Char.le_def, UInt32.le_iff_toNat_le] at hc
    have hl : 65 ≤ c.toNat := hc.1
    have hu : c.toNat ≤ 90 := hc.2
    refine .inr ⟨hl, hu, ?_⟩
    rw [← h, Char.toNat_ofNat, if_pos]
    left
    omega
  · exact .inl h

theorem eq_of_lower {c d : Char} (h : lower c = d) (hd : d.toNat < 97) : c = d := by
  obtain hc | ⟨hl, _, hc⟩ := lower_eq h
  · exact hc
  · omega

theorem hexValue?_of_lower_e {c : Char} (h : lower c = 'e') : hexValue? c = some 14 := by
  obtain rfl | ⟨_, _, hc⟩ := lower_eq h
  · decide
  · have hE : c = 'E' := by
      rw [← Char.ofNat_toNat c, show c.toNat = 69 from Nat.add_right_cancel hc]
    rw [hE]
    decide

/-- The first character and the rest of a text of which the lower case is known. -/
theorem cons_of_lower {t s : List Char} {c : Char} (h : t.map lower = c :: s) (hc : c.toNat < 97) :
    ∃ t', t = c :: t' ∧ t'.map lower = s := by
  obtain ⟨d, t', rfl, hd, ht⟩ := List.map_eq_cons_iff.mp h
  exact ⟨t', by rw [eq_of_lower hd hc], ht⟩

/-- A dot, as itself or escaped, is a dot to the decoder. -/
theorem unquoteToBytes_dot {t s : List Char} (h : t.map lower = '.' :: s) :
    ∃ t', t'.map lower = s ∧ unquoteToBytes t = 0x2e :: unquoteToBytes t' := by
  obtain ⟨t', rfl, ht⟩ := cons_of_lower h (by decide)
  exact ⟨t', ht, unquoteToBytes_plain fun hp => absurd hp (by decide)⟩

theorem unquoteToBytes_escapedDot {t s : List Char} (h : t.map lower = '%' :: '2' :: 'e' :: s) :
    ∃ t', t'.map lower = s ∧ unquoteToBytes t = 0x2e :: unquoteToBytes t' := by
  obtain ⟨_, rfl, h2⟩ := cons_of_lower h (by decide)
  obtain ⟨_, rfl, he⟩ := cons_of_lower h2 (by decide)
  obtain ⟨e, t', rfl, he, ht⟩ := List.map_eq_cons_iff.mp he
  have htwo : hexValue? '2' = some 2 := by decide
  exact ⟨t', ht, unquoteToBytes_escape t' htwo (hexValue?_of_lower_e he)⟩

theorem unquoteToBytes_of_isSingleDot {t : List Char} (h : isSingleDot t = true) :
    unquoteToBytes t = [0x2e] := by
  simp only [isSingleDot, List.mem_cons, List.not_mem_nil, or_false, decide_eq_true_eq] at h
  obtain h | h := h
  · obtain ⟨t', ht, hbytes⟩ := unquoteToBytes_dot h
    rw [hbytes, List.map_eq_nil_iff.mp ht]
    rfl
  · obtain ⟨t', ht, hbytes⟩ := unquoteToBytes_escapedDot h
    rw [hbytes, List.map_eq_nil_iff.mp ht]
    rfl

theorem unquoteToBytes_of_isDoubleDot {t : List Char} (h : isDoubleDot t = true) :
    unquoteToBytes t = [0x2e, 0x2e] := by
  simp only [isDoubleDot, List.mem_cons, List.not_mem_nil, or_false, decide_eq_true_eq] at h
  obtain h | h | h | h := h
  · obtain ⟨t', ht, hbytes⟩ := unquoteToBytes_dot h
    obtain ⟨t'', ht', hbytes'⟩ := unquoteToBytes_dot ht
    rw [hbytes, hbytes', List.map_eq_nil_iff.mp ht']
    rfl
  · obtain ⟨t', ht, hbytes⟩ := unquoteToBytes_dot h
    obtain ⟨t'', ht', hbytes'⟩ := unquoteToBytes_escapedDot ht
    rw [hbytes, hbytes', List.map_eq_nil_iff.mp ht']
    rfl
  · obtain ⟨t', ht, hbytes⟩ := unquoteToBytes_escapedDot h
    obtain ⟨t'', ht', hbytes'⟩ := unquoteToBytes_dot ht
    rw [hbytes, hbytes', List.map_eq_nil_iff.mp ht']
    rfl
  · obtain ⟨t', ht, hbytes⟩ := unquoteToBytes_escapedDot h
    obtain ⟨t'', ht', hbytes'⟩ := unquoteToBytes_escapedDot ht
    rw [hbytes, hbytes', List.map_eq_nil_iff.mp ht']
    rfl

/-- The parser takes the segment for a dot-segment. -/
def isDot (s : List Char) : Bool :=
  isSingleDot (encode pathSet s) || isDoubleDot (encode pathSet s)

theorem unquoteToBytes_of_isDot {s : List Char} (h : isDot s = true) :
    unquoteToBytes s = [0x2e] ∨ unquoteToBytes s = [0x2e, 0x2e] := by
  rw [← unquoteToBytes_encode pathSet_transparent s]
  exact (Bool.or_eq_true_iff.mp h).imp unquoteToBytes_of_isSingleDot unquoteToBytes_of_isDoubleDot

theorem countP_pos_of_isDot {s : List Char} (h : isDot s = true) : 0 < s.countP isAscii := by
  refine Nat.lt_of_lt_of_le ?_ (countP_unquoteToBytes_le s)
  obtain hs | hs := unquoteToBytes_of_isDot h <;> rw [hs] <;> decide

/-- Without escapes a dot-segment is one or two dots. -/
theorem isDot_iff {s : List Char} (hs : hasEscape s = false) :
    isDot s = true ↔ s = ".".toList ∨ s = "..".toList := by
  constructor
  · intro h
    have hbytes := unquoteToBytes_of_isDot h
    rw [← unquote_of_no_escape hs, unquote]
    obtain hbytes | hbytes := hbytes <;> rw [hbytes]
    · exact .inl (by decide +kernel)
    · exact .inr (by decide +kernel)
  · rintro (rfl | rfl) <;> decide

/-! ## The path state, before the encoding -/

/-- `endSegment` on the text as it was read. -/
def rawEnd (path : List (List Char)) (buffer : List Char) (slash : Bool) : List (List Char) :=
  if isDoubleDot (encode pathSet buffer) then
    if slash then path.dropLast else path.dropLast ++ [[]]
  else if isSingleDot (encode pathSet buffer) then if slash then path else path ++ [[]]
  else path ++ [buffer]

def rawState : List Char → List Char → List (List Char) → List (List Char)
  | [], buffer, path => rawEnd path buffer false
  | c :: rest, buffer, path =>
      if isSeparator c then rawState rest [] (rawEnd path buffer true)
      else if endsPath c then rawEnd path buffer false
      else rawState rest (buffer ++ [c]) path

/-- The part of the input that path state reads. -/
def pathText (input : List Char) : List Char := input.takeWhile fun c => !endsPath c

/-- The input cut at its separators, `buffer` before it. -/
def pieces : List Char → List Char → List (List Char)
  | buffer, [] => [buffer]
  | buffer, c :: rest =>
      if isSeparator c then buffer :: pieces [] rest
      else if endsPath c then [buffer]
      else pieces (buffer ++ [c]) rest

def slashed (c : Char) : Char := if c = '\\' then '/' else c

theorem endSegment_map (path : List (List Char)) (buffer : List Char) (slash : Bool) :
    endSegment (path.map (encode pathSet)) (encode pathSet buffer) slash =
      (rawEnd path buffer slash).map (encode pathSet) := by
  unfold endSegment rawEnd
  rw [← List.map_dropLast]
  split_ifs <;> simp [encode]

theorem pathState_fst (input buffer : List Char) (path : List (List Char)) :
    (pathState input (encode pathSet buffer) (path.map (encode pathSet))).1 =
      (rawState input buffer path).map (encode pathSet) := by
  induction input generalizing buffer path with
  | nil => exact endSegment_map path buffer false
  | cons c rest ih =>
    rw [pathState, rawState]
    split_ifs
    · rw [endSegment_map]
      exact ih [] (rawEnd path buffer true)
    · exact endSegment_map path buffer false
    · rw [← encode_append]
      exact ih (buffer ++ [c]) path

theorem pathState_snd (input buffer : List Char) (path : List (List Char)) :
    (pathState input buffer path).2 = input.dropWhile fun c => !endsPath c := by
  induction input generalizing buffer path with
  | nil => rfl
  | cons c rest ih =>
    rw [pathState, List.dropWhile_cons]
    cases hsep : isSeparator c with
    | true =>
      have hend : endsPath c = false := by
        simp only [isSeparator, decide_eq_true_eq] at hsep
        obtain rfl | rfl := hsep <;> decide
      simp [hend, ih]
    | false => cases hend : endsPath c <;> simp [ih]

theorem serialize_append (p q : List (List Char)) :
    serialize (p ++ q) = serialize p ++ serialize q := List.flatMap_append

theorem serialize_cons (s : List Char) (p : List (List Char)) :
    serialize (s :: p) = '/' :: s ++ serialize p := rfl

theorem serialize_map_encode (p : List (List Char)) :
    serialize (p.map (encode pathSet)) = encode pathSet (serialize p) := by
  have hslash : pathSet '/' = false := by decide
  induction p with
  | nil => rfl
  | cons s p ih =>
    rw [List.map_cons, serialize_cons, serialize_cons, ih, encode_append,
      encode_cons_of_not_mem hslash]

/-- The server's reading of a parsed path depends on the text before the encoding. -/
theorem unquote_serialize (input : List Char) :
    unquote (serialize (pathState input [] []).1) =
      unquote (serialize (rawState input [] [])) := by
  have hraw : (pathState input [] []).1 = (rawState input [] []).map (encode pathSet) :=
    pathState_fst input [] []
  rw [hraw, serialize_map_encode, unquote_encode pathSet_transparent]

/-- A dot-segment leaves the path, or the path without its last segment. -/
theorem rawEnd_of_isDot {buffer : List Char} (h : isDot buffer = true) (path : List (List Char))
    (slash : Bool) :
    ∃ q, (q = path ∨ q = path.dropLast) ∧
      rawEnd path buffer slash = if slash then q else q ++ [[]] := by
  unfold rawEnd
  cases h2 : isDoubleDot (encode pathSet buffer) with
  | true => exact ⟨path.dropLast, .inr rfl, by simp⟩
  | false =>
    have h1 : isSingleDot (encode pathSet buffer) = true := by simpa [isDot, h2] using h
    exact ⟨path, .inl rfl, by simp [h1]⟩

theorem rawEnd_of_not_isDot {buffer : List Char} (h : isDot buffer = false)
    (path : List (List Char)) (slash : Bool) : rawEnd path buffer slash = path ++ [buffer] := by
  obtain ⟨h1, h2⟩ := Bool.or_eq_false_iff.mp h
  simp [rawEnd, h1, h2]

theorem rawEnd_ne_nil (path : List (List Char)) (buffer : List Char) :
    rawEnd path buffer false ≠ [] := by
  cases hdot : isDot buffer with
  | true =>
    obtain ⟨q, _, hq⟩ := rawEnd_of_isDot hdot path false
    simp [hq]
  | false => simp [rawEnd_of_not_isDot hdot]

theorem rawState_ne_nil (input buffer : List Char) (path : List (List Char)) :
    rawState input buffer path ≠ [] := by
  induction input generalizing buffer path with
  | nil => exact rawEnd_ne_nil path buffer
  | cons c rest ih =>
    rw [rawState]
    split_ifs
    · exact ih _ _
    · exact rawEnd_ne_nil path buffer
    · exact ih _ _

/-! ## Nothing is lost only if nothing is removed -/

theorem countP_serialize_dropLast (p : List (List Char)) :
    (serialize p.dropLast).countP isAscii ≤ (serialize p).countP isAscii := by
  obtain ⟨t, ht⟩ := List.dropLast_prefix p
  conv_rhs => rw [← ht, serialize_append, List.countP_append]
  exact Nat.le_add_right _ _

theorem countP_serialize_concat (p : List (List Char)) (s : List Char) :
    (serialize (p ++ [s])).countP isAscii =
      (serialize p).countP isAscii + 1 + s.countP isAscii := by
  have hslash : isAscii '/' = true := by decide
  rw [serialize_append, List.countP_append, serialize_cons, List.countP_append, List.countP_cons,
    hslash]
  simp [serialize]
  omega

/-- Every dot-segment costs an ASCII character. -/
theorem countP_rawEnd (path : List (List Char)) (buffer : List Char) (slash : Bool) :
    (serialize (rawEnd path buffer slash)).countP isAscii + (if isDot buffer then 1 else 0) ≤
      (serialize path).countP isAscii + 1 + buffer.countP isAscii := by
  cases hdot : isDot buffer with
  | true =>
    obtain ⟨q, hq, hend⟩ := rawEnd_of_isDot hdot path slash
    have hpos := countP_pos_of_isDot hdot
    have hle : (serialize q).countP isAscii ≤ (serialize path).countP isAscii := by
      obtain rfl | rfl := hq
      · exact Nat.le_refl _
      · exact countP_serialize_dropLast path
    rw [hend]
    cases slash with
    | true =>
      simp only [if_true]
      omega
    | false =>
      simp only [Bool.false_eq_true, if_false, if_true, countP_serialize_concat, List.countP_nil]
      omega
  | false => simp [rawEnd_of_not_isDot hdot, countP_serialize_concat]

theorem countP_pathText_cons {c : Char} {rest : List Char} (hend : endsPath c = false) :
    (pathText (c :: rest)).countP isAscii =
      (if isAscii c then 1 else 0) + (pathText rest).countP isAscii := by
  rw [pathText, List.takeWhile_cons]
  simp only [hend, Bool.not_false, if_true, List.countP_cons]
  rw [Nat.add_comm]
  rfl

theorem isSeparator_spec {c : Char} (h : isSeparator c = true) :
    endsPath c = false ∧ isAscii c = true ∧ slashed c = '/' := by
  simp only [isSeparator, decide_eq_true_eq] at h
  obtain rfl | rfl := h <;> decide

theorem isSeparator_of_endsPath {c : Char} (h : endsPath c = true) : isSeparator c = false := by
  cases hsep : isSeparator c with
  | false => rfl
  | true => exact absurd h (by simp [(isSeparator_spec hsep).1])

/-- The path holds no more ASCII characters than were read, and fewer if a
dot-segment was among the pieces. -/
theorem countP_rawState (input buffer : List Char) (path : List (List Char)) :
    (serialize (rawState input buffer path)).countP isAscii +
        (if (pieces buffer input).any isDot then 1 else 0) ≤
      (serialize path).countP isAscii + 1 + buffer.countP isAscii +
        (pathText input).countP isAscii := by
  induction input generalizing buffer path with
  | nil =>
    have hend := countP_rawEnd path buffer false
    simpa [rawState, pieces, pathText] using hend
  | cons c rest ih =>
    rw [rawState, pieces]
    cases hsep : isSeparator c with
    | true =>
      obtain ⟨hends, hascii, _⟩ := isSeparator_spec hsep
      have hend := countP_rawEnd path buffer true
      have hrest := ih [] (rawEnd path buffer true)
      rw [countP_pathText_cons hends, hascii]
      simp only [if_true, List.any_cons, List.countP_nil] at hrest ⊢
      cases hdot : isDot buffer <;> simp only [hdot, Bool.false_eq_true, if_false, if_true,
        Bool.true_or, Bool.false_or] at hend ⊢
      · omega
      · split at hrest <;> omega
    | false =>
      cases hends : endsPath c with
      | true =>
        have hend := countP_rawEnd path buffer false
        have htext : pathText (c :: rest) = [] := by simp [pathText, hends]
        simpa [htext] using hend
      | false =>
        have hrest := ih (buffer ++ [c]) path
        rw [countP_pathText_cons hends]
        simp only [Bool.false_eq_true, if_false, List.countP_append, List.countP_singleton]
          at hrest ⊢
        omega

theorem rawState_eq_append {input buffer : List Char} (h : (pieces buffer input).any isDot = false)
    (path : List (List Char)) : rawState input buffer path = path ++ pieces buffer input := by
  induction input generalizing buffer path with
  | nil =>
    have hdot : isDot buffer = false := by simpa [pieces] using h
    exact rawEnd_of_not_isDot hdot path false
  | cons c rest ih =>
    rw [pieces] at h ⊢
    rw [rawState]
    split_ifs at h ⊢
    · obtain ⟨hdot, hrest⟩ := Bool.or_eq_false_iff.mp (List.any_cons ▸ h)
      rw [rawEnd_of_not_isDot hdot, ih hrest, List.append_assoc]
      rfl
    · have hdot : isDot buffer = false := by simpa using h
      exact rawEnd_of_not_isDot hdot path false
    · exact ih h path

theorem pieces_pathText (input buffer : List Char) :
    pieces buffer (pathText input) = pieces buffer input := by
  induction input generalizing buffer with
  | nil => rfl
  | cons c rest ih =>
    rw [pathText, List.takeWhile_cons]
    cases hends : endsPath c with
    | true =>
      have hsep := isSeparator_of_endsPath hends
      simp [pieces, hends, hsep]
    | false =>
      simp only [Bool.not_false, if_true, pieces, hends, Bool.false_eq_true, if_false]
      rw [show rest.takeWhile (fun c => !endsPath c) = pathText rest from rfl, ih, ih]

theorem serialize_pieces (input buffer : List Char) :
    serialize (pieces buffer input) = '/' :: (buffer ++ (pathText input).map slashed) := by
  induction input generalizing buffer with
  | nil => simp [pieces, pathText, serialize]
  | cons c rest ih =>
    rw [pieces]
    cases hsep : isSeparator c with
    | true =>
      obtain ⟨hends, _, hslash⟩ := isSeparator_spec hsep
      rw [if_pos rfl, serialize_cons, ih]
      simp [pathText, hends, hslash]
    | false =>
      have hslash : slashed c = c := by
        rw [slashed, if_neg]
        rintro rfl
        simp [isSeparator] at hsep
      cases hends : endsPath c with
      | true => simp [pathText, hends, serialize]
      | false => simp [pathText, hends, hslash, ih]

/-! ## The journey -/

theorem not_mem_of_mem_splitOn {α : Type*} [DecidableEq α] {x : α} {xs l : List α}
    (h : l ∈ xs.splitOn x) : x ∉ l := by
  induction xs generalizing l with
  | nil =>
    have hl : l = [] := by simpa using h
    simp [hl]
  | cons y ys ih =>
    rw [List.splitOn_cons_eq_if_modifyHead] at h
    split at h
    · obtain rfl | h := List.mem_cons.mp h
      · exact List.not_mem_nil
      · exact ih h
    · rename_i hy
      cases hsp : ys.splitOn x with
      | nil => exact absurd hsp (List.splitOn_ne_nil x ys)
      | cons z zs =>
        rw [hsp, List.modifyHead_cons] at h
        obtain rfl | h := List.mem_cons.mp h
        · have hz : x ∉ z := ih (hsp ▸ List.mem_cons_self)
          have hxy : x ≠ y := fun heq => hy (by simp [heq])
          simp [hxy, hz]
        · exact ih (hsp ▸ List.mem_cons_of_mem z h)

theorem mem_intercalate {α : Type*} {c x : α} {segs : List (List α)} {s : List α} (hs : s ∈ segs)
    (hc : c ∈ s) : c ∈ [x].intercalate segs := by
  induction segs with
  | nil => cases hs
  | cons t segs ih =>
    cases segs with
    | nil =>
      rw [List.mem_singleton.mp hs] at hc
      simpa using hc
    | cons u segs =>
      rw [List.intercalate_cons_cons]
      obtain rfl | hs := List.mem_cons.mp hs
      · simp [hc]
      · simp [ih hs]

theorem mem_of_mem_intercalate {α : Type*} {c x : α} {segs : List (List α)}
    (hc : c ∈ [x].intercalate segs) : c = x ∨ ∃ s ∈ segs, c ∈ s := by
  induction segs with
  | nil => cases hc
  | cons t segs ih =>
    cases segs with
    | nil => exact .inr ⟨t, List.mem_cons_self, by simpa using hc⟩
    | cons u segs =>
      rw [List.intercalate_cons_cons] at hc
      simp only [List.mem_append, List.mem_singleton] at hc
      obtain (hc | hc) | hc := hc
      · exact .inr ⟨t, List.mem_cons_self, hc⟩
      · exact .inl hc
      · exact (ih hc).imp id fun ⟨s, hs, hc⟩ => ⟨s, List.mem_cons_of_mem t hs, hc⟩

/-- Joined segments end as the last one does, behind a slash if there are more. -/
theorem intercalate_getLast {x : Char} {segs : List (List Char)} {s : List Char}
    (hs : s ∈ segs.getLast?) :
    ∃ xs, [x].intercalate segs = xs ++ s ∧ ∀ c ∈ xs.getLast?, c = x := by
  induction segs with
  | nil => cases hs
  | cons t segs ih =>
    cases segs with
    | nil =>
      have hs : t = s := by simpa using hs
      exact ⟨[], by simp [hs], by simp⟩
    | cons u segs =>
      have hs' : s ∈ (u :: segs).getLast? := by simpa using hs
      obtain ⟨xs, hxs, hlast⟩ := ih hs'
      refine ⟨t ++ x :: xs, by simp [List.intercalate_cons_cons, hxs], ?_⟩
      cases xs with
      | nil => simp
      | cons y xs => simpa using hlast

/-- A character the parser acts on. -/
def isActive (c : Char) : Bool := isSeparator c || endsPath c || isTabOrNewline c

theorem pieces_chunk {s : List Char} (hs : ∀ c ∈ s, isSeparator c = false ∧ endsPath c = false)
    (buffer rest : List Char) : pieces buffer (s ++ rest) = pieces (buffer ++ s) rest := by
  induction s generalizing buffer with
  | nil => simp
  | cons c s ih =>
    obtain ⟨hsep, hend⟩ := hs c List.mem_cons_self
    rw [List.cons_append, pieces, hsep, hend]
    simpa using ih (fun d hd => hs d (List.mem_cons_of_mem c hd)) (buffer ++ [c])

theorem pieces_stop {rest : List Char} (hrest : ∀ c ∈ rest.head?, endsPath c = true)
    (buffer : List Char) : pieces buffer rest = [buffer] := by
  cases rest with
  | nil => rfl
  | cons c rest =>
    have hend : endsPath c = true := hrest c rfl
    have hsep := isSeparator_of_endsPath hend
    simp [pieces, hend, hsep]

/-- What the parser reads of a path is cut where the segments were joined. -/
theorem pieces_intercalate {s : List Char} {segs : List (List Char)} {rest : List Char}
    (hs : ∀ t ∈ s :: segs, ∀ c ∈ t, isSeparator c = false ∧ endsPath c = false)
    (hrest : ∀ c ∈ rest.head?, endsPath c = true) (buffer : List Char) :
    pieces buffer (['/'].intercalate (s :: segs) ++ rest) = (buffer ++ s) :: segs := by
  have hhead := hs s List.mem_cons_self
  induction segs generalizing s buffer with
  | nil => rw [List.intercalate_singleton, pieces_chunk hhead, pieces_stop hrest]
  | cons u segs ih =>
    have htail : ∀ t ∈ u :: segs, ∀ c ∈ t, isSeparator c = false ∧ endsPath c = false :=
      fun t ht => hs t (List.mem_cons_of_mem s ht)
    have hslash : isSeparator '/' = true := by decide
    have hrec := ih htail [] (htail u List.mem_cons_self)
    rw [List.intercalate_cons_cons, List.append_assoc, List.append_assoc, pieces_chunk hhead,
      List.singleton_append, pieces, hslash, if_pos rfl, hrec, List.nil_append]

theorem serialize_eq_intercalate {segs : List (List Char)} (h : segs ≠ []) :
    serialize segs = '/' :: ['/'].intercalate segs := by
  induction segs with
  | nil => exact absurd rfl h
  | cons s segs ih =>
    cases segs with
    | nil => simp [serialize]
    | cons t segs =>
      rw [serialize_cons, ih (List.cons_ne_nil t segs), List.intercalate_cons_cons]
      simp

/-! ### Escapes across segments -/

theorem startsHex_append_slash (s t : List Char) :
    startsHex (s ++ '/' :: t) = startsHex s := by
  have hslash : hexValue? '/' = none := by decide
  match s with
  | [] => cases t <;> simp [startsHex, hslash]
  | [a] => simp [startsHex, hslash]
  | a :: b :: s => rfl

theorem hasEscape_append_slash (s t : List Char) :
    hasEscape (s ++ '/' :: t) = (hasEscape s || hasEscape t) := by
  induction s with
  | nil => simp [hasEscape]
  | cons c s ih => simp [hasEscape, ih, startsHex_append_slash, Bool.or_assoc]

theorem hasEscape_serialize (segs : List (List Char)) :
    hasEscape (serialize segs) = segs.any hasEscape := by
  induction segs with
  | nil => rfl
  | cons s segs ih =>
    rw [serialize_cons, List.any_cons, ← ih, List.cons_append]
    cases segs with
    | nil => simp [serialize, hasEscape]
    | cons t segs =>
      rw [serialize_cons, List.cons_append, hasEscape]
      simp [hasEscape_append_slash, hasEscape]

/-! ### What survives -/

/-- No step of the journey acts on the segments. -/
structure Inert (segs : List (List Char)) (query : Option Query) : Prop where
  plain : ∀ s ∈ segs, ∀ c ∈ s, isActive c = false
  escape : ∀ s ∈ segs, hasEscape s = false
  dots : ∀ s ∈ segs, s ≠ ".".toList ∧ s ≠ "..".toList
  last : query = none → ∀ s ∈ segs.getLast?, ∀ c ∈ s.getLast?, isControlOrSpace c = false

/-! ### The parser's own cleaning -/

theorem Query.last (q : Query) :
    ∀ hq : '?' :: q.text ≠ [], isControlOrSpace (('?' :: q.text).getLast hq) = false := by
  intro hq
  rw [List.getLast_cons q.ne_nil]
  have hmem := q.encoded _ (List.getLast_mem q.ne_nil)
  simp only [querySet, decide_eq_false_iff_not, not_or] at hmem
  obtain ⟨hcontrol, _, hset⟩ := hmem
  simp only [isControlOrSpace, decide_eq_false_iff_not]
  intro hle
  have hspace : (q.text.getLast q.ne_nil).toNat = 32 := by omega
  apply hset
  rw [← Char.ofNat_toNat (q.text.getLast q.ne_nil), hspace]
  decide

theorem Query.no_newline (q : Query) : ∀ c ∈ '?' :: q.text, isTabOrNewline c = false := by
  intro c hc
  obtain rfl | hc := List.mem_cons.mp hc
  · decide
  · cases htab : isTabOrNewline c with
    | false => rfl
    | true =>
      have hmem := q.encoded c hc
      simp only [isTabOrNewline, decide_eq_true_eq] at htab
      obtain rfl | rfl | rfl := htab <;> exact absurd hmem (by decide)

theorem search_head (query : Option Query) : ∀ c ∈ (search query).head?, endsPath c = true := by
  cases query with
  | none => simp [search]
  | some q =>
    intro c hc
    have hc : '?' = c := by simpa [search] using hc
    subst hc
    decide

/-- What is left of the path's text once the parser has cleaned its input. -/
def kept (path : List Char) (query : Option Query) : List Char :=
  (if query.isNone then path.rdropWhile isControlOrSpace else path).filter
    fun c => !isTabOrNewline c

theorem trimmed_eq (path : List Char) (query : Option Query) :
    trimmed (path ++ search query) = kept path query ++ search query := by
  cases query with
  | none => simp [trimmed, kept, search]
  | some q =>
    have hlast : (path ++ '?' :: q.text).rdropWhile isControlOrSpace = path ++ '?' :: q.text := by
      rw [List.rdropWhile_eq_self_iff]
      intro hne
      rw [List.getLast_append_of_ne_nil _ (List.cons_ne_nil '?' q.text)]
      simp [q.last]
    have hfilter : ('?' :: q.text).filter (fun c => !isTabOrNewline c) = '?' :: q.text := by
      rw [List.filter_eq_self]
      intro c hc
      simp [q.no_newline c hc]
    rw [search, trimmed, hlast, List.filter_append, hfilter]
    rfl

theorem kept_sublist (path : List Char) (query : Option Query) :
    (kept path query).Sublist path := by
  refine List.filter_sublist.trans ?_
  split
  · exact (List.rdropWhile_prefix _ path).sublist
  · exact List.Sublist.refl path

theorem kept_eq_self {path : List Char} {query : Option Query}
    (hnew : ∀ c ∈ path, isTabOrNewline c = false)
    (hlast : query = none → ∀ c ∈ path.getLast?, isControlOrSpace c = false) :
    kept path query = path := by
  have hdrop : (if query.isNone then path.rdropWhile isControlOrSpace else path) = path := by
    cases query with
    | none =>
      show path.rdropWhile isControlOrSpace = path
      rw [List.rdropWhile_eq_self_iff]
      intro hne
      simp [hlast rfl _ (List.getLast_mem_getLast? hne)]
    | some q => rfl
  rw [kept, hdrop, List.filter_eq_self]
  intro c hc
  simp [hnew c hc]

theorem pathText_append (xs : List Char) {rest : List Char}
    (hrest : ∀ c ∈ rest.head?, endsPath c = true) : pathText (xs ++ rest) = pathText xs := by
  induction xs with
  | nil =>
    cases rest with
    | nil => rfl
    | cons c rest => simp [pathText, hrest c rfl]
  | cons x xs ih =>
    rw [pathText, pathText, List.cons_append, List.takeWhile_cons, List.takeWhile_cons]
    split
    · exact congrArg (x :: ·) ih
    · rfl

theorem pathText_sublist (path : List Char) (query : Option Query) :
    (pathText (trimmed (path ++ search query))).Sublist (kept path query) := by
  rw [trimmed_eq, pathText_append _ (search_head query)]
  exact List.takeWhile_sublist _

theorem dropWhile_search {path : List Char} (hpath : ∀ c ∈ path, endsPath c = false)
    (query : Option Query) :
    (path ++ search query).dropWhile (fun c => !endsPath c) = search query := by
  have hnone : path.dropWhile (fun c => !endsPath c) = [] := by
    rw [List.dropWhile_eq_nil_iff]
    intro c hc
    simp [hpath c hc]
  rw [List.dropWhile_append, hnone]
  cases query with
  | none => rfl
  | some q => simp [search, endsPath]

theorem queryOf_search (query : Option Query) : queryOf (search query) = query.map Query.text := by
  cases query with
  | none => rfl
  | some q =>
    have hhash : ∀ c ∈ q.text, decide (c ≠ '#') = true := by
      intro c hc
      have hmem := q.encoded c hc
      rw [decide_eq_true_eq]
      rintro rfl
      exact absurd hmem (by decide)
    show some (encode querySet (q.text.takeWhile fun c => c ≠ '#')) = some q.text
    rw [List.takeWhile_eq_self_iff.mpr hhash, encode_of_clean q.encoded]

/-! ### Both directions -/

theorem received_eq (segs : List (List Char)) (query : Option Query) :
    received (target segs query) =
      (segmentsOf (unquote (serialize (rawState (trimmed (target segs query)) [] []))),
        queryOf ((trimmed (target segs query)).dropWhile fun c => !endsPath c)) := by
  unfold received parse
  dsimp only
  rw [unquote_serialize, pathState_snd]

theorem unquote_slash_cons (s : List Char) : ∃ t, unquote ('/' :: s) = '/' :: t := by
  rw [unquote, unquoteToBytes_plain fun hp => absurd hp (by decide)]
  exact ⟨_, by rw [decodeFrom_utf8EncodeChar]⟩

/-- A path arrives with its first slash, so its segments determine it. -/
theorem eq_intercalate_of_segmentsOf {raw segs : List (List Char)} (hraw : raw ≠ [])
    (h : segmentsOf (unquote (serialize raw)) = segs) :
    unquote (serialize raw) = '/' :: ['/'].intercalate segs := by
  obtain ⟨s, raw, rfl⟩ := List.exists_cons_of_ne_nil hraw
  obtain ⟨t, ht⟩ := unquote_slash_cons (s ++ serialize raw)
  rw [serialize_cons, List.cons_append] at h ⊢
  rw [ht] at h ⊢
  rw [← h, segmentsOf, List.tail_cons, List.intercalate_splitOn]

/-- What a journey that returns the segments has left alone: no dot-segment, no
escape, no character. -/
structure Undisturbed (segs : List (List Char)) (query : Option Query) (input : List Char) :
    Prop where
  dots : (pieces [] input).any isDot = false
  escape : hasEscape (serialize (pieces [] input)) = false
  text : pathText input = ['/'].intercalate segs
  slashes : (['/'].intercalate segs).map slashed = ['/'].intercalate segs
  kept : kept (['/'].intercalate segs) query = ['/'].intercalate segs

theorem undisturbed {segs : List (List Char)} {query : Option Query} {input : List Char}
    (hinput : trimmed (target segs query) = input)
    (h : segmentsOf (unquote (serialize (rawState input [] []))) = segs) :
    Undisturbed segs query input := by
  have hpath := eq_intercalate_of_segmentsOf (rawState_ne_nil input [] []) h
  have hread : (pathText input).Sublist (UrlPath.kept (['/'].intercalate segs) query) :=
    hinput ▸ pathText_sublist (['/'].intercalate segs) query
  have hkept := kept_sublist (['/'].intercalate segs) query
  -- the ASCII characters of the path, counted along the journey
  have hslash : isAscii '/' = true := by decide
  have hcount := congrArg (List.countP isAscii) hpath
  rw [countP_unquote, List.countP_cons, hslash, if_pos rfl] at hcount
  have hdecoded := countP_unquoteToBytes_le (serialize (rawState input [] []))
  have hparsed := countP_rawState input [] []
  have hle := (hread.trans hkept).countP_le (p := isAscii)
  have hnil : (serialize []).countP isAscii = 0 := rfl
  rw [hnil, List.countP_nil] at hparsed
  have hdots : (pieces [] input).any isDot = false := by
    cases hdot : (pieces [] input).any isDot with
    | false => rfl
    | true =>
      rw [if_pos hdot] at hparsed
      omega
  have hpieces := rawState_eq_append hdots []
  rw [List.nil_append] at hpieces
  rw [hpieces] at hpath hcount hdecoded hparsed
  have hesc : hasEscape (serialize (pieces [] input)) = false := by
    cases hesc : hasEscape (serialize (pieces [] input)) with
    | false => rfl
    | true =>
      have hlt := countP_unquoteToBytes_lt hesc
      omega
  rw [unquote_of_no_escape hesc, serialize_pieces, List.nil_append] at hpath
  have hmap := (List.cons_eq_cons.mp hpath).2
  -- nothing was dropped from the text either, for its length is the same
  have hlen := congrArg List.length hmap
  rw [List.length_map] at hlen
  have hsame := (hread.trans hkept).eq_of_length hlen
  exact {
    dots := hdots
    escape := hesc
    text := hsame
    slashes := hsame ▸ hmap
    kept := hkept.eq_of_length (Nat.le_antisymm hkept.length_le (hlen ▸ hread.length_le)) }

theorem slashed_eq_self {s : List Char} (h : s.map slashed = s) : '\\' ∉ s := by
  intro hmem
  rw [← h] at hmem
  obtain ⟨c, _, hc⟩ := List.mem_map.mp hmem
  unfold slashed at hc
  split at hc
  · exact absurd hc (by decide)
  · contradiction

theorem Undisturbed.inert {segs : List (List Char)} {query : Option Query} {input : List Char}
    (hsegs : ∀ s ∈ segs, '/' ∉ s) (hne : segs ≠ []) (h : Undisturbed segs query input) :
    Inert segs query := by
  have hback := slashed_eq_self h.slashes
  have hends : ∀ c ∈ ['/'].intercalate segs, endsPath c = false := by
    intro c hc
    rw [← h.text] at hc
    simpa using List.mem_takeWhile_imp hc
  have hnew : ∀ c ∈ ['/'].intercalate segs, isTabOrNewline c = false := by
    intro c hc
    rw [← h.kept] at hc
    simpa using List.of_mem_filter hc
  have hplain : ∀ s ∈ segs, ∀ c ∈ s, isSeparator c = false ∧ endsPath c = false := by
    intro s hs c hc
    have hmem : c ∈ ['/'].intercalate segs := mem_intercalate hs hc
    refine ⟨?_, hends c hmem⟩
    simp only [isSeparator, decide_eq_false_iff_not, not_or]
    exact ⟨fun heq => hsegs s hs (heq ▸ hc), fun heq => hback (heq ▸ hmem)⟩
  -- what was read is cut into the segments again
  have hcut : pieces [] input = segs := by
    obtain ⟨s, segs, rfl⟩ := List.exists_cons_of_ne_nil hne
    have htext : pieces [] (pathText input) = pieces [] input := pieces_pathText input []
    rw [← htext, h.text]
    have hends : ∀ c ∈ ([] : List Char).head?, endsPath c = true := by simp
    simpa using pieces_intercalate hplain hends []
  have hesc : ∀ s ∈ segs, hasEscape s = false := by
    have hesc := h.escape
    rw [hcut, hasEscape_serialize] at hesc
    simpa using hesc
  constructor
  · intro s hs c hc
    obtain ⟨hsep, hend⟩ := hplain s hs c hc
    simp [isActive, hsep, hend, hnew c (mem_intercalate hs hc)]
  · exact hesc
  · intro s hs
    have hdot : isDot s = false := by
      have hdots := h.dots
      rw [hcut] at hdots
      exact Bool.eq_false_iff.mpr (List.any_eq_false.mp hdots s hs)
    have hiff := isDot_iff (hesc s hs)
    rw [hdot] at hiff
    exact not_or.mp fun hs => Bool.false_ne_true (hiff.mpr hs)
  · intro hnone s hs c hc
    obtain ⟨xs, hxs, _⟩ := intercalate_getLast (x := '/') hs
    have hdrop : (['/'].intercalate segs).rdropWhile isControlOrSpace = ['/'].intercalate segs := by
      refine (List.rdropWhile_prefix _ _).sublist.eq_of_length_le ?_
      have hkept := congrArg List.length h.kept
      rw [UrlPath.kept, hnone] at hkept
      exact hkept ▸ List.length_filter_le _ _
    have hJ : (['/'].intercalate segs).getLast? = some c := by
      rw [hxs, List.getLast?_append, Option.mem_def.mp hc]
      rfl
    have hne' : ['/'].intercalate segs ≠ [] := by
      intro hnil
      rw [hnil] at hJ
      cases hJ
    have hnot := List.rdropWhile_eq_self_iff.mp hdrop hne'
    rw [List.getLast?_eq_some_getLast hne', Option.some_inj] at hJ
    rw [hJ] at hnot
    exact Bool.eq_false_iff.mpr hnot

theorem Inert.trimmed_eq {segs : List (List Char)} {query : Option Query}
    (h : Inert segs query) : trimmed (target segs query) = target segs query := by
  rw [target, UrlPath.trimmed_eq, kept_eq_self]
  · intro c hc
    obtain rfl | ⟨s, hs, hc⟩ := mem_of_mem_intercalate hc
    · decide
    · have hplain := h.plain s hs c hc
      simp only [isActive, Bool.or_eq_false_iff] at hplain
      exact hplain.2
  · intro hnone c hc
    cases hlast : segs.getLast? with
    | none =>
      rw [List.getLast?_eq_none_iff.mp hlast] at hc
      cases hc
    | some s =>
      obtain ⟨xs, hxs, hslash⟩ := intercalate_getLast (x := '/') hlast
      rw [hxs, List.getLast?_append] at hc
      cases hs : s.getLast? with
      | none =>
        rw [hs] at hc
        rw [hslash c hc]
        decide
      | some d =>
        rw [hs] at hc
        obtain rfl : d = c := by simpa using hc
        exact h.last hnone s hlast d hs

/-- The segments and the query of a request reach the server as they were if
and only if no step of the journey acts on them. -/
theorem received_eq_iff {segs : List (List Char)} (hne : segs ≠ []) (query : Option Query) :
    received (target segs query) = (segs, query.map Query.text) ↔ Inert segs query := by
  rw [received_eq]
  constructor
  · intro h
    have hsegs := (Prod.mk.inj h).1
    refine Undisturbed.inert ?_ hne (undisturbed rfl hsegs)
    intro s hs
    rw [← hsegs] at hs
    exact not_mem_of_mem_splitOn hs
  · intro h
    have hplain : ∀ s ∈ segs, ∀ c ∈ s, isSeparator c = false ∧ endsPath c = false := by
      intro s hs c hc
      have hactive := h.plain s hs c hc
      simp only [isActive, Bool.or_eq_false_iff] at hactive
      exact hactive.1
    have hcut : pieces [] (target segs query) = segs := by
      obtain ⟨s, segs, rfl⟩ := List.exists_cons_of_ne_nil hne
      exact pieces_intercalate hplain (search_head query) []
    have hdots : (pieces [] (target segs query)).any isDot = false := by
      rw [hcut, List.any_eq_false]
      intro s hs hdot
      exact (not_or.mpr (h.dots s hs)) ((isDot_iff (h.escape s hs)).mp hdot)
    have hesc : hasEscape (serialize segs) = false := by
      rw [hasEscape_serialize, List.any_eq_false]
      intro s hs
      simp [h.escape s hs]
    have hslash : ∀ s ∈ segs, '/' ∉ s := by
      intro s hs hmem
      exact absurd (hplain s hs '/' hmem).1 (by decide)
    have hjoined : ∀ c ∈ ['/'].intercalate segs, endsPath c = false := by
      intro c hc
      obtain rfl | ⟨s, hs, hc⟩ := mem_of_mem_intercalate hc
      · decide
      · exact (hplain s hs c hc).2
    rw [h.trimmed_eq, rawState_eq_append hdots, List.nil_append, hcut, unquote_of_no_escape hesc,
      serialize_eq_intercalate hne, segmentsOf, List.tail_cons,
      List.splitOn_intercalate '/' hslash hne, target, dropWhile_search hjoined, queryOf_search]

end UrlPath
