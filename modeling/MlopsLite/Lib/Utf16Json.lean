import MlopsLite.Lib.Dict
import MlopsLite.Lib.JsonTokens

/-!
# Utf16Json — values whose strings are UTF-16

A string is the list of its code units, so a surrogate may stand alone. `dumps`
writes ASCII, as `json.dumps` does, with a `gap` behind its commas and colons; `parse`
reads any spelling. Which words are numbers, and what they are, is left to the
reader's `number`.
-/

namespace Utf16Json

open JsonTokens (quote backslash isWs atomChar unescape hexDigit)

abbrev Units := List UInt16

inductive Doc (ν : Type)
  | null
  | bool (b : Bool)
  | num (n : ν)
  | str (s : Units)
  | arr (items : List (Doc ν))
  | obj (members : List (Units × Doc ν))

variable {ν μ : Type}

namespace Doc

/-- What holds of a value because it holds of the values in it. -/
theorem induct {P : Doc ν → Prop} (null : P .null) (bool : ∀ b, P (.bool b))
    (num : ∀ n, P (.num n)) (str : ∀ s, P (.str s))
    (arr : ∀ items, (∀ v ∈ items, P v) → P (.arr items))
    (obj : ∀ members, (∀ m ∈ members, P m.2) → P (.obj members)) (v : Doc ν) : P v :=
  @Doc.rec ν P (fun items => ∀ v ∈ items, P v) (fun members => ∀ m ∈ members, P m.2)
    (fun m => P m.2) null bool num str arr obj (fun _ h => nomatch h)
    (fun _ _ hv hitems => List.forall_mem_cons.mpr ⟨hv, hitems⟩) (fun _ h => nomatch h)
    (fun _ _ hm hmembers => List.forall_mem_cons.mpr ⟨hm, hmembers⟩) (fun _ _ hv => hv) v

/-- No object has two members of one name, and every number is one of `P`. -/
inductive WellFormed (P : ν → Prop) : Doc ν → Prop
  | null : WellFormed P .null
  | bool (b : Bool) : WellFormed P (.bool b)
  | num {n : ν} (h : P n) : WellFormed P (.num n)
  | str (s : Units) : WellFormed P (.str s)
  | arr {items : List (Doc ν)} (h : ∀ v ∈ items, WellFormed P v) : WellFormed P (.arr items)
  | obj {members : List (Units × Doc ν)} (hkeys : (members.map Prod.fst).Nodup)
      (h : ∀ m ∈ members, WellFormed P m.2) : WellFormed P (.obj members)

/-- Every number in it is one of `P`. -/
inductive Numbers (P : ν → Prop) : Doc ν → Prop
  | null : Numbers P .null
  | bool (b : Bool) : Numbers P (.bool b)
  | num {n : ν} (h : P n) : Numbers P (.num n)
  | str (s : Units) : Numbers P (.str s)
  | arr {items : List (Doc ν)} (h : ∀ v ∈ items, Numbers P v) : Numbers P (.arr items)
  | obj {members : List (Units × Doc ν)} (h : ∀ m ∈ members, Numbers P m.2) :
      Numbers P (.obj members)

theorem WellFormed.numbers {P : ν → Prop} {v : Doc ν} (h : v.WellFormed P) : v.Numbers P := by
  induction h with
  | null => exact .null
  | bool b => exact .bool b
  | num h => exact .num h
  | str s => exact .str s
  | arr _ ih => exact .arr ih
  | obj _ _ ih => exact .obj ih

theorem numbers_of_forall {P : ν → Prop} (h : ∀ n, P n) (v : Doc ν) : v.Numbers P := by
  induction v using Doc.induct with
  | null => exact .null
  | bool b => exact .bool b
  | num n => exact .num (h n)
  | str s => exact .str s
  | arr items ih => exact .arr ih
  | obj members ih => exact .obj ih

mutual

/-- The value with other numbers. -/
def map (f : ν → μ) : Doc ν → Doc μ
  | .null => .null
  | .bool b => .bool b
  | .num n => .num (f n)
  | .str s => .str s
  | .arr items => .arr (mapItems f items)
  | .obj members => .obj (mapMembers f members)

def mapItems (f : ν → μ) : List (Doc ν) → List (Doc μ)
  | [] => []
  | v :: items => map f v :: mapItems f items

def mapMembers (f : ν → μ) : List (Units × Doc ν) → List (Units × Doc μ)
  | [] => []
  | m :: members => (m.1, map f m.2) :: mapMembers f members

end

@[simp] theorem map_arr (f : ν → μ) (items : List (Doc ν)) :
    map f (.arr items) = .arr (items.map (map f)) := by
  have hitems : mapItems f items = items.map (map f) := by
    induction items with
    | nil => rfl
    | cons v items ih => rw [mapItems, ih, List.map_cons]
  rw [map, hitems]

@[simp] theorem map_obj (f : ν → μ) (members : List (Units × Doc ν)) :
    map f (.obj members) = .obj (members.map fun m => (m.1, map f m.2)) := by
  have hmembers : mapMembers f members = members.map fun m => (m.1, map f m.2) := by
    induction members with
    | nil => rfl
    | cons m members ih => rw [mapMembers, ih, List.map_cons]
  rw [map, hmembers]

@[simp] theorem map_id (v : Doc ν) : v.map id = v := by
  induction v using Doc.induct with
  | null | bool | num | str => rfl
  | arr items ih => rw [map_arr, List.map_congr_left ih, List.map_id']
  | obj members ih =>
    have hsame : ∀ m ∈ members, (m.1, map id m.2) = m := fun m hm => by rw [ih m hm]
    rw [map_obj, List.map_congr_left hsame, List.map_id']

end Doc

/-! ## Writing -/

def hexChar (n : ℕ) : Char := "0123456789abcdef".toList.getD n '0'

/-- The number in four hexadecimal digits. -/
def hex4 (n : ℕ) : List Char :=
  [hexChar (n / 4096 % 16), hexChar (n / 256 % 16), hexChar (n / 16 % 16), hexChar (n % 16)]

/-- A code unit between quotes. -/
def escape (u : UInt16) : List Char :=
  match u.toNat with
  | 0x22 => [backslash, quote]
  | 0x5c => [backslash, backslash]
  | 0x0a => [backslash, 'n']
  | 0x0d => [backslash, 'r']
  | 0x09 => [backslash, 't']
  | 0x0c => [backslash, 'f']
  | 0x08 => [backslash, 'b']
  | n => if 0x20 ≤ n ∧ n ≤ 0x7e then [Char.ofNat n] else backslash :: 'u' :: hex4 n

def dumpStr (s : Units) : List Char := quote :: (s.flatMap escape ++ [quote])

/-- Texts, with commas between them. -/
def joined (gap : List Char) (xs : List (List Char)) : List Char := (',' :: gap).intercalate xs

variable (gap : List Char) (write : ν → List Char)

mutual

/-- `json.dumps`. -/
def dumps : Doc ν → List Char
  | .null => ['n', 'u', 'l', 'l']
  | .bool true => ['t', 'r', 'u', 'e']
  | .bool false => ['f', 'a', 'l', 's', 'e']
  | .num n => write n
  | .str s => dumpStr s
  | .arr items => '[' :: (joined gap (dumpItems items) ++ [']'])
  | .obj members => '\x7b' :: (joined gap (dumpMembers members) ++ ['\x7d'])

def dumpItems : List (Doc ν) → List (List Char)
  | [] => []
  | v :: items => dumps v :: dumpItems items

def dumpMembers : List (Units × Doc ν) → List (List Char)
  | [] => []
  | m :: members => (dumpStr m.1 ++ ':' :: (gap ++ dumps m.2)) :: dumpMembers members

end

/-- `"key": value`. -/
def dumpMember (m : Units × Doc ν) : List Char := dumpStr m.1 ++ ':' :: (gap ++ dumps gap write m.2)

@[simp] theorem dumps_arr (items : List (Doc ν)) :
    dumps gap write (.arr items) =
      '[' :: (joined gap (items.map (dumps gap write)) ++ [']']) := by
  have hitems : dumpItems gap write items = items.map (dumps gap write) := by
    induction items with
    | nil => rfl
    | cons v items ih => rw [dumpItems, ih, List.map_cons]
  rw [dumps, hitems]

@[simp] theorem dumps_obj (members : List (Units × Doc ν)) :
    dumps gap write (.obj members) =
      '\x7b' :: (joined gap (members.map (dumpMember gap write)) ++ ['\x7d']) := by
  have hmembers : dumpMembers gap write members = members.map (dumpMember gap write) := by
    induction members with
    | nil => rfl
    | cons m members ih => rw [dumpMembers, ih, List.map_cons, dumpMember]
  rw [dumps, hmembers]

/-! ## Reading -/

/-- The code units of a character. -/
def units (c : Char) : Units :=
  if c.toNat < 0x10000 then [UInt16.ofNat c.toNat]
  else [UInt16.ofNat (0xd800 + (c.toNat - 0x10000) / 0x400),
    UInt16.ofNat (0xdc00 + (c.toNat - 0x10000) % 0x400)]

/-- The characters of code units, if no surrogate stands alone. -/
def chars : Units → Option (List Char)
  | [] => some []
  | [u] => if u.toNat < 0xd800 ∨ 0xe000 ≤ u.toNat then some [Char.ofNat u.toNat] else none
  | u :: v :: us =>
    if u.toNat < 0xd800 ∨ 0xe000 ≤ u.toNat then (chars (v :: us)).map (Char.ofNat u.toNat :: ·)
    else if u.toNat < 0xdc00 ∧ 0xdc00 ≤ v.toNat ∧ v.toNat < 0xe000 then
      (chars us).map
        (Char.ofNat (0x10000 + (u.toNat - 0xd800) * 0x400 + (v.toNat - 0xdc00)) :: ·)
    else none

def hex4? (a b c d : Char) : Option UInt16 := do
  let a ← hexDigit a
  let b ← hexDigit b
  let c ← hexDigit c
  let d ← hexDigit d
  return UInt16.ofNat (a * 4096 + b * 256 + c * 16 + d)

/-- A string, and what is behind its closing quote. -/
def body : List Char → Option (Units × List Char)
  | [] => none
  | c :: t =>
    if c = quote then some ([], t)
    else if c = backslash then
      match t with
      | 'u' :: a :: b :: d :: e :: t =>
        (hex4? a b d e).bind fun u => (body t).map fun r => (u :: r.1, r.2)
      | e :: t => (unescape e).bind fun d => (body t).map fun r => (units d ++ r.1, r.2)
      | [] => none
    else if c.toNat < 32 then none
    else (body t).map fun r => (units c ++ r.1, r.2)

def skip (s : List Char) : List Char := s.dropWhile isWs

variable (number : List Char → Option ν)

/-- A word without quotes or brackets. -/
def word (t : List Char) : Option (Doc ν) :=
  if t = ['n', 'u', 'l', 'l'] then some .null
  else if t = ['t', 'r', 'u', 'e'] then some (.bool true)
  else if t = ['f', 'a', 'l', 's', 'e'] then some (.bool false)
  else (number t).map .num

/-- An object of the members there were. -/
def object (members : List (Units × Doc ν)) : Doc ν := .obj (Dict.ofItems members).items

mutual

/-- A value, and what is behind it; `fuel` bounds the depth. -/
def value : ℕ → List Char → Option (Doc ν × List Char)
  | 0, _ => none
  | fuel + 1, s =>
    match skip s with
    | [] => none
    | c :: t =>
      if c = quote then (body t).map fun r => (.str r.1, r.2)
      else if c = '[' then
        if (skip t).head? = some ']' then some (.arr [], (skip t).tail)
        else (items fuel t).map fun r => (.arr r.1, r.2)
      else if c = '\x7b' then
        if (skip t).head? = some '\x7d' then some (.obj [], (skip t).tail)
        else (members fuel t).map fun r => (object r.1, r.2)
      else (word number ((c :: t).takeWhile atomChar)).map fun v =>
        (v, (c :: t).dropWhile atomChar)

/-- The items of an array, from one of them on. -/
def items : ℕ → List Char → Option (List (Doc ν) × List Char)
  | 0, _ => none
  | fuel + 1, s =>
    match value fuel s with
    | none => none
    | some (v, t) =>
      match skip t with
      | ']' :: t => some ([v], t)
      | ',' :: t => (items fuel t).map fun r => (v :: r.1, r.2)
      | _ => none

/-- The members of an object, from one of them on. -/
def members : ℕ → List Char → Option (List (Units × Doc ν) × List Char)
  | 0, _ => none
  | fuel + 1, s =>
    match skip s with
    | [] => none
    | c :: t =>
      if c = quote then
        match body t with
        | none => none
        | some (key, t) =>
          match skip t with
          | ':' :: t =>
            match value fuel t with
            | none => none
            | some (v, t) =>
              match skip t with
              | '\x7d' :: t => some ([(key, v)], t)
              | ',' :: t => (members fuel t).map fun r => ((key, v) :: r.1, r.2)
              | _ => none
          | _ => none
      else none

end

/-- The value of a text. -/
def parse (s : List Char) : Option (Doc ν) :=
  match value number (s.length + 1) s with
  | some (v, t) => if skip t = [] then some v else none
  | none => none

/-! ## Strings -/

theorem chars_units (c : Char) (us : Units) : chars (units c ++ us) = (chars us).map (c :: ·) := by
  have hvalid : c.toNat < 0xd800 ∨ 0xdfff < c.toNat ∧ c.toNat < 0x110000 := c.valid
  rw [units]
  split_ifs with hsmall
  · have hu : (UInt16.ofNat c.toNat).toNat = c.toNat := by
      rw [UInt16.toNat_ofNat']
      exact Nat.mod_eq_of_lt hsmall
    have hplain : c.toNat < 0xd800 ∨ 0xe000 ≤ c.toNat := by omega
    cases us with
    | nil => simp [chars, hu, hplain]
    | cons v us =>
      rw [List.singleton_append, chars, hu, if_pos hplain, Char.ofNat_toNat]
  · have hhigh : (UInt16.ofNat (0xd800 + (c.toNat - 0x10000) / 0x400)).toNat =
        0xd800 + (c.toNat - 0x10000) / 0x400 := by
      rw [UInt16.toNat_ofNat']
      exact Nat.mod_eq_of_lt (by omega)
    have hlow : (UInt16.ofNat (0xdc00 + (c.toNat - 0x10000) % 0x400)).toNat =
        0xdc00 + (c.toNat - 0x10000) % 0x400 := by
      rw [UInt16.toNat_ofNat']
      exact Nat.mod_eq_of_lt (by omega)
    have hsum : 0x10000 + (0xd800 + (c.toNat - 0x10000) / 0x400 - 0xd800) * 0x400 +
        (0xdc00 + (c.toNat - 0x10000) % 0x400 - 0xdc00) = c.toNat := by omega
    rw [List.cons_append, List.cons_append, List.nil_append, chars, hhigh, hlow,
      if_neg (by omega), if_pos (by omega), hsum, Char.ofNat_toNat]

theorem chars_flatMap_units (s : List Char) : chars (s.flatMap units) = some s := by
  induction s with
  | nil => rfl
  | cons c s ih => rw [List.flatMap_cons, chars_units, ih, Option.map_some]

theorem hexDigit_hexChar {n : ℕ} (h : n < 16) : hexDigit (hexChar n) = some n := by
  revert n
  decide

theorem hex4?_hex4 {n : ℕ} (h : n < 0x10000) :
    hex4? (hexChar (n / 4096 % 16)) (hexChar (n / 256 % 16)) (hexChar (n / 16 % 16))
      (hexChar (n % 16)) = some (UInt16.ofNat n) := by
  have hmod : ∀ m, m % 16 < 16 := fun m => Nat.mod_lt m (by decide)
  simp only [hex4?, hexDigit_hexChar (hmod _), Option.pure_def, Option.bind_eq_bind,
    Option.bind_some]
  congr 2
  omega

theorem body_quote (t : List Char) : body (quote :: t) = some ([], t) := by
  rw [body.eq_def]
  simp

theorem body_hex {n : ℕ} (h : n < 0x10000) (t : List Char) :
    body (backslash :: 'u' :: (hex4 n ++ t)) =
      (body t).map fun r => (UInt16.ofNat n :: r.1, r.2) := by
  have hne : backslash ≠ quote := by decide
  rw [body.eq_def]
  simp only [hex4, List.cons_append, List.nil_append, if_neg hne, if_true, hex4?_hex4 h,
    Option.bind_some]

theorem body_short {e d : Char} (h : unescape e = some d) (t : List Char) :
    body (backslash :: e :: t) = (body t).map fun r => (units d ++ r.1, r.2) := by
  have hne : backslash ≠ quote := by decide
  have hu : e ≠ 'u' := JsonTokens.ne_u_of_unescape h
  rw [body.eq_def]
  simp only [if_neg hne, if_true]
  split
  · rename_i heq
    cases heq
    exact absurd rfl hu
  · rename_i heq
    cases heq
    rw [h, Option.bind_some]
  · rename_i heq
    cases heq

theorem body_raw {c : Char} (hcontrol : ¬ c.toNat < 32) (hquote : c ≠ quote)
    (hbackslash : c ≠ backslash) (t : List Char) :
    body (c :: t) = (body t).map fun r => (units c ++ r.1, r.2) := by
  rw [body.eq_def]
  simp only [if_neg hquote, if_neg hbackslash, if_neg hcontrol]

theorem units_ofNat {n : ℕ} (h : n < 0x80) : units (Char.ofNat n) = [UInt16.ofNat n] := by
  have hn : (Char.ofNat n).toNat = n := by
    rw [Char.toNat_ofNat, if_pos (.inl (by omega))]
  rw [units, hn, if_pos (by omega)]

/-- What is written for a code unit is read as the unit. -/
theorem body_escape (u : UInt16) (t : List Char) :
    body (escape u ++ t) = (body t).map fun r => (u :: r.1, r.2) := by
  have hlt : u.toNat < 0x10000 := u.toNat_lt
  have hu : UInt16.ofNat u.toNat = u := UInt16.ofNat_toNat
  generalize hn : u.toNat = n at *
  subst hu
  have hshort : ∀ {e d : Char} {m : ℕ}, unescape e = some d → units d = [UInt16.ofNat m] →
      body (backslash :: e :: t) = (body t).map fun r => (UInt16.ofNat m :: r.1, r.2) := by
    intro e d m he hd
    rw [body_short he, hd]
    rfl
  rw [escape, hn]
  split
  · exact hshort rfl rfl
  · exact hshort rfl rfl
  · exact hshort rfl rfl
  · exact hshort rfl rfl
  · exact hshort rfl rfl
  · exact hshort rfl rfl
  · exact hshort rfl rfl
  · rename_i hquote hbackslash _ _ _ _ _
    split_ifs with hprint
    · have hc : (Char.ofNat n).toNat = n := by
        rw [Char.toNat_ofNat, if_pos (.inl (by omega))]
      rw [List.singleton_append, body_raw, units_ofNat (by omega)]
      · rfl
      · rw [hc]
        omega
      · intro heq
        apply hquote
        rw [← hc, heq]
        rfl
      · intro heq
        apply hbackslash
        rw [← hc, heq]
        rfl
    · exact body_hex hlt t

theorem body_dumpStr (s : Units) (t : List Char) :
    body (s.flatMap escape ++ quote :: t) = some (s, t) := by
  induction s with
  | nil => exact body_quote t
  | cons u s ih =>
    rw [List.flatMap_cons, List.append_assoc, body_escape, ih]
    rfl

/-! ## What is written is read -/

theorem skip_cons {c : Char} (h : isWs c = false) (t : List Char) : skip (c :: t) = c :: t := by
  rw [skip, List.dropWhile_cons_of_neg (by simp [h])]

section

variable {gap : List Char} {write : ν → List Char} {number : List Char → Option μ} {f : ν → μ}

/-- The text of a number is a word, and is read as a number. -/
structure Reads (write : ν → List Char) (number : List Char → Option μ) (f : ν → μ) (n : ν) :
    Prop where
  nonempty : write n ≠ []
  atoms : (write n).all atomChar = true
  read : word number (write n) = some (.num (f n))

theorem value_word {w rest : List Char} {v : Doc μ} (hne : w ≠ []) (hall : w.all atomChar = true)
    (hword : word number w = some v) (hrest : ∀ c ∈ rest.head?, atomChar c = false) (fuel : ℕ) :
    value number (fuel + 1) (w ++ rest) = some (v, rest) := by
  obtain ⟨c, w, rfl⟩ := List.exists_cons_of_ne_nil hne
  rw [List.all_cons, Bool.and_eq_true] at hall
  have hatom := hall.1
  have hws : isWs c = false := by
    by_contra h
    rw [JsonTokens.not_atomChar_of_isWs (by simpa using h)] at hatom
    cases hatom
  have hnot : c ≠ quote ∧ c ≠ '[' ∧ c ≠ '\x7b' := by
    refine ⟨(JsonTokens.inert_of_atomChar hatom).1, ?_, ?_⟩ <;>
      · rintro rfl
        revert hatom
        decide
  have hdrop : rest.dropWhile atomChar = rest := by
    cases rest with
    | nil => rfl
    | cons d rest => exact List.dropWhile_cons_of_neg (by simp [hrest d (by simp)])
  have htake : rest.takeWhile atomChar = [] := by
    cases rest with
    | nil => rfl
    | cons d rest => exact List.takeWhile_cons_of_neg (by simp [hrest d (by simp)])
  have hwhole : ∀ d ∈ c :: w, atomChar d = true := by
    intro d hd
    rcases List.mem_cons.mp hd with rfl | hd
    · exact hatom
    · exact List.all_eq_true.mp hall.2 d hd
  have htaken : ((c :: w) ++ rest).takeWhile atomChar = c :: w := by
    rw [List.takeWhile_append_of_pos hwhole, htake, List.append_nil]
  have hdropped : ((c :: w) ++ rest).dropWhile atomChar = rest := by
    rw [List.dropWhile_append_of_pos hwhole, hdrop]
  rw [List.cons_append] at htaken hdropped ⊢
  rw [value, skip_cons hws]
  simp only [if_neg hnot.1, if_neg hnot.2.1, if_neg hnot.2.2, htaken, hdropped, hword,
    Option.map_some]

/-- A text begins with what is neither white space nor the end of anything. -/
theorem dumps_head {P : ν → Prop} (hP : ∀ n, P n → Reads write number f n) {v : Doc ν}
    (h : v.WellFormed P) : ∃ c t, dumps gap write v = c :: t ∧ isWs c = false ∧ c ≠ ']' ∧
      c ≠ '\x7d' := by
  cases h with
  | null => exact ⟨_, _, by rw [dumps], by decide, by decide, by decide⟩
  | bool b =>
    cases b
    · exact ⟨_, _, by rw [dumps], by decide, by decide, by decide⟩
    · exact ⟨_, _, by rw [dumps], by decide, by decide, by decide⟩
  | @num n h =>
    obtain ⟨hne, hall, -⟩ := hP n h
    obtain ⟨c, t, heq⟩ := List.exists_cons_of_ne_nil hne
    rw [heq, List.all_cons, Bool.and_eq_true] at hall
    refine ⟨c, t, by rw [dumps, heq], ?_, ?_, ?_⟩
    · by_contra hws
      have hnot := JsonTokens.not_atomChar_of_isWs (by simpa using hws)
      rw [hall.1] at hnot
      cases hnot
    · rintro rfl
      exact absurd hall.1 (by decide)
    · rintro rfl
      exact absurd hall.1 (by decide)
  | str s => exact ⟨_, _, by rw [dumps, dumpStr], by decide, by decide, by decide⟩
  | arr h => exact ⟨_, _, dumps_arr _ _ _, by decide, by decide, by decide⟩
  | obj hkeys h => exact ⟨_, _, dumps_obj _ _ _, by decide, by decide, by decide⟩

/-- The reader gets past the text of a value. -/
def Back (gap : List Char) (write : ν → List Char) (number : List Char → Option μ) (f : ν → μ)
    (v : Doc ν) : Prop :=
  ∀ fuel rest, (dumps gap write v).length ≤ fuel → (∀ c ∈ rest.head?, atomChar c = false) →
    value number fuel (dumps gap write v ++ rest) = some (v.map f, rest)

theorem joined_cons (x : List Char) (xs : List (List Char)) :
    joined gap (x :: xs) = x ++ if xs = [] then [] else ',' :: (gap ++ joined gap xs) := by
  cases xs with
  | nil => simp [joined, List.intercalate]
  | cons y ys => simp [joined, List.intercalate]

theorem skip_gap (hgap : gap.all isWs = true) (t : List Char) : skip (gap ++ t) = skip t := by
  rw [skip, skip, List.dropWhile_append_of_pos (List.all_eq_true.mp hgap)]

theorem value_gap (hgap : gap.all isWs = true) (number : List Char → Option μ) (fuel : ℕ)
    (s : List Char) : value number fuel (gap ++ s) = value number fuel s := by
  cases fuel with
  | zero => rfl
  | succ fuel => rw [value, skip_gap hgap, value]

theorem items_gap (hgap : gap.all isWs = true) (number : List Char → Option μ) (fuel : ℕ)
    (s : List Char) : items number fuel (gap ++ s) = items number fuel s := by
  cases fuel with
  | zero => rfl
  | succ fuel => rw [items, value_gap hgap, items]

theorem members_gap (hgap : gap.all isWs = true) (number : List Char → Option μ) (fuel : ℕ)
    (s : List Char) : members number fuel (gap ++ s) = members number fuel s := by
  cases fuel with
  | zero => rfl
  | succ fuel => rw [members, skip_gap hgap, members]

theorem items_dumps (hgap : gap.all isWs = true) {vs : List (Doc ν)} (hne : vs ≠ [])
    (h : ∀ v ∈ vs, Back gap write number f v) (hhead : ∀ v ∈ vs, dumps gap write v ≠ [])
    (fuel : ℕ) (rest : List Char)
    (hfuel : (joined gap (vs.map (dumps gap write))).length < fuel) :
    items number fuel (joined gap (vs.map (dumps gap write)) ++ ']' :: rest) =
      some (vs.map (Doc.map f), rest) := by
  induction vs generalizing fuel with
  | nil => exact absurd rfl hne
  | cons v vs ih =>
    obtain ⟨fuel, rfl⟩ : ∃ n, fuel = n + 1 := ⟨fuel - 1, by omega⟩
    rw [List.map_cons, joined_cons] at hfuel ⊢
    have hv := h v List.mem_cons_self
    have hpos := List.length_pos_iff.mpr (hhead v List.mem_cons_self)
    rw [List.length_append] at hfuel
    rw [items]
    by_cases hvs : vs = []
    · subst hvs
      rw [List.map_nil, if_pos rfl, List.append_nil,
        hv fuel (']' :: rest) (by omega) (by rintro _ ⟨⟩; decide)]
      dsimp only
      rw [skip_cons (by decide)]
      rfl
    · rw [if_neg (by simpa using hvs)] at hfuel ⊢
      have hshape : dumps gap write v ++ (',' :: (gap ++ joined gap (vs.map (dumps gap write)))) ++
          ']' :: rest = dumps gap write v ++ (',' :: (gap ++
            (joined gap (vs.map (dumps gap write)) ++ ']' :: rest))) := by
        simp
      rw [hshape, hv fuel _ (by omega) (by rintro _ ⟨⟩; decide)]
      dsimp only
      rw [skip_cons (by decide)]
      rw [List.length_cons, List.length_append] at hfuel
      have hrest := ih hvs (fun w hw => h w (List.mem_cons_of_mem _ hw))
        (fun w hw => hhead w (List.mem_cons_of_mem _ hw)) fuel (by omega)
      simp only [items_gap hgap, hrest, Option.map_some, List.map_cons]

/-- A member is read up to what is behind its value. -/
theorem members_member (hgap : gap.all isWs = true) {m : Units × Doc ν}
    (h : Back gap write number f m.2) (fuel : ℕ) (rest : List Char) (hfuel : (dumpMember gap write m).length ≤ fuel)
    (hrest : ∀ c ∈ rest.head?, atomChar c = false) :
    members number (fuel + 1) (dumpMember gap write m ++ rest) =
      match skip rest with
      | '\x7d' :: t => some ([(m.1, m.2.map f)], t)
      | ',' :: t => (members number fuel t).map fun r => ((m.1, m.2.map f) :: r.1, r.2)
      | _ => none := by
  have hshape : dumpMember gap write m ++ rest =
      quote :: (m.1.flatMap escape ++ quote :: ':' :: (gap ++ (dumps gap write m.2 ++ rest))) := by
    simp [dumpMember, dumpStr]
  have hlength : (dumps gap write m.2).length ≤ fuel := by
    rw [dumpMember, List.length_append, List.length_cons, List.length_append] at hfuel
    omega
  rw [hshape, members, skip_cons (by decide)]
  dsimp only
  rw [if_pos rfl, body_dumpStr]
  dsimp only
  rw [skip_cons (by decide)]
  simp only [value_gap hgap, h fuel rest hlength hrest]

theorem members_dumps (hgap : gap.all isWs = true) {ms : List (Units × Doc ν)} (hne : ms ≠ [])
    (h : ∀ m ∈ ms, Back gap write number f m.2) (fuel : ℕ) (rest : List Char)
    (hfuel : (joined gap (ms.map (dumpMember gap write))).length < fuel) :
    members number fuel (joined gap (ms.map (dumpMember gap write)) ++ '\x7d' :: rest) =
      some (ms.map fun m => (m.1, m.2.map f), rest) := by
  induction ms generalizing fuel with
  | nil => exact absurd rfl hne
  | cons m ms ih =>
    obtain ⟨fuel, rfl⟩ : ∃ n, fuel = n + 1 := ⟨fuel - 1, by omega⟩
    rw [List.map_cons, joined_cons] at hfuel ⊢
    have hm := h m List.mem_cons_self
    have hpos : 0 < (dumpMember gap write m).length := by
      rw [dumpMember, dumpStr]
      simp
    rw [List.length_append] at hfuel
    by_cases hms : ms = []
    · subst hms
      rw [List.map_nil, if_pos rfl, List.append_nil,
        members_member hgap hm fuel _ (by omega) (by rintro _ ⟨⟩; decide), skip_cons (by decide)]
      rfl
    · rw [if_neg (by simpa using hms)] at hfuel ⊢
      have hshape : dumpMember gap write m ++
          (',' :: (gap ++ joined gap (ms.map (dumpMember gap write)))) ++ '\x7d' :: rest =
          dumpMember gap write m ++ (',' :: (gap ++
            (joined gap (ms.map (dumpMember gap write)) ++ '\x7d' :: rest))) := by
        simp
      rw [List.length_cons, List.length_append] at hfuel
      rw [hshape, members_member hgap hm fuel _ (by omega) (by rintro _ ⟨⟩; decide),
        skip_cons (by decide)]
      have hrest := ih hms (fun w hw => h w (List.mem_cons_of_mem _ hw)) fuel (by omega)
      simp only [members_gap hgap, hrest, Option.map_some, List.map_cons]

theorem object_of_nodup {ms : List (Units × Doc ν)} (h : (ms.map Prod.fst).Nodup) :
    object ms = .obj ms := by
  rw [object, Dict.items_ofItems h]

/-- The text of a value is read as the value. -/
theorem back (hgap : gap.all isWs = true) {P : ν → Prop}
    (hP : ∀ n, P n → Reads write number f n) {v : Doc ν} (h : v.WellFormed P) : Back gap write number f v := by
  have hword : ∀ {w : List Char} {v : Doc ν}, dumps gap write v = w → w ≠ [] →
      w.all atomChar = true → word number w = some (v.map f) → Back gap write number f v := by
    intro w v hw hne hall hv fuel rest hfuel hrest
    have hpos := List.length_pos_iff.mpr hne
    rw [hw] at hfuel ⊢
    obtain ⟨fuel, rfl⟩ : ∃ n, fuel = n + 1 := ⟨fuel - 1, by omega⟩
    exact value_word hne hall hv hrest fuel
  induction h with
  | null => exact hword (by rw [dumps]) (by decide) (by decide) rfl
  | bool b =>
    cases b
    · exact hword (by rw [dumps]) (by decide) (by decide) rfl
    · exact hword (by rw [dumps]) (by decide) (by decide) rfl
  | @num n hn =>
    obtain ⟨hne, hall, hread⟩ := hP n hn
    exact hword (by rw [dumps]) hne hall hread
  | str s =>
    intro fuel rest hfuel hrest
    have hshape : dumps gap write (.str s) ++ rest =
        quote :: (s.flatMap escape ++ quote :: rest) := by
      simp [dumps, dumpStr]
    rw [dumps, dumpStr, List.length_cons] at hfuel
    obtain ⟨fuel, rfl⟩ : ∃ n, fuel = n + 1 := ⟨fuel - 1, by omega⟩
    rw [hshape, value, skip_cons (by decide)]
    dsimp only
    rw [if_pos rfl, body_dumpStr]
    rfl
  | @arr vs h ih =>
    intro fuel rest hfuel hrest
    rw [dumps_arr] at hfuel ⊢
    rw [List.length_cons, List.length_append, List.length_singleton] at hfuel
    obtain ⟨fuel, rfl⟩ : ∃ n, fuel = n + 1 := ⟨fuel - 1, by omega⟩
    rw [List.cons_append, List.append_assoc, List.singleton_append, value, skip_cons (by decide)]
    dsimp only
    rw [if_neg (by decide), if_pos rfl]
    by_cases hvs : vs = []
    · subst hvs
      rw [Doc.map_arr]
      rfl
    · obtain ⟨v, more, rfl⟩ := List.exists_cons_of_ne_nil hvs
      obtain ⟨c, t, hhead, hws, hbracket, -⟩ := dumps_head hP (h v List.mem_cons_self)
      have hnot : (skip (joined gap ((v :: more).map (dumps gap write)) ++ ']' :: rest)).head? ≠
          some ']' := by
        rw [List.map_cons, joined_cons, hhead, List.cons_append, List.cons_append,
          skip_cons hws]
        simpa using hbracket
      have hne : ∀ w ∈ v :: more, dumps gap write w ≠ [] := by
        intro w hw
        obtain ⟨_, _, hcons, -⟩ := dumps_head hP (h w hw)
        rw [hcons]
        exact List.cons_ne_nil _ _
      rw [if_neg hnot, items_dumps hgap hvs ih hne fuel rest (by omega), Option.map_some,
        Doc.map_arr]
  | @obj ms hkeys h ih =>
    intro fuel rest hfuel hrest
    rw [dumps_obj] at hfuel ⊢
    rw [List.length_cons, List.length_append, List.length_singleton] at hfuel
    obtain ⟨fuel, rfl⟩ : ∃ n, fuel = n + 1 := ⟨fuel - 1, by omega⟩
    rw [List.cons_append, List.append_assoc, List.singleton_append, value, skip_cons (by decide)]
    dsimp only
    rw [if_neg (by decide), if_neg (by decide), if_pos rfl]
    by_cases hms : ms = []
    · subst hms
      rw [Doc.map_obj]
      rfl
    · obtain ⟨m, more, rfl⟩ := List.exists_cons_of_ne_nil hms
      have hnot : (skip (joined gap ((m :: more).map (dumpMember gap write)) ++
          '\x7d' :: rest)).head? ≠ some '\x7d' := by
        rw [List.map_cons, joined_cons, dumpMember, dumpStr, List.cons_append,
          List.cons_append, List.cons_append, skip_cons (by decide)]
        simp [quote]
      have hkeys' : (((m :: more).map fun m => (m.1, m.2.map f)).map Prod.fst).Nodup := by
        rw [List.map_map]
        exact hkeys
      rw [if_neg hnot, members_dumps hgap hms ih fuel rest (by omega), Option.map_some,
        object_of_nodup hkeys', Doc.map_obj]

/-- `json.dumps` and back, with the numbers as the reader has them. -/
theorem parse_dumps (hgap : gap.all isWs = true) {P : ν → Prop}
    (hP : ∀ n, P n → Reads write number f n) {v : Doc ν} (h : v.WellFormed P) : parse number (dumps gap write v) = some (v.map f) := by
  have hback := back hgap hP h ((dumps gap write v).length + 1) [] (by omega) (by simp)
  rw [List.append_nil] at hback
  rw [parse, hback]
  rfl

/-! ## What is written is printable -/

/-- From the space to the tilde. -/
def Printable (c : Char) : Prop := 32 ≤ c.toNat ∧ c.toNat < 127

instance (c : Char) : Decidable (Printable c) := inferInstanceAs (Decidable (_ ∧ _))

theorem printable_of_all {s : List Char} (h : (s.all fun c => Printable c) = true) :
    ∀ c ∈ s, Printable c := fun c hc => of_decide_eq_true (List.all_eq_true.mp h c hc)

theorem printable_of_atomChar {c : Char} (h : atomChar c = true) : Printable c := by
  have hbounds : ∀ {low high : Char}, low ≤ c ∧ c ≤ high → low.toNat ≤ c.toNat ∧
      c.toNat ≤ high.toNat := fun h => ⟨h.1, h.2⟩
  simp only [atomChar, Texts.isDigit, Bool.or_eq_true, decide_eq_true_eq, List.contains_iff_mem,
    List.mem_cons, List.not_mem_nil, or_false] at h
  rcases h with ((h | h) | h) | rfl | rfl | rfl
  · have := hbounds h
    simp only [Char.reduceToNat] at this
    exact ⟨by omega, by omega⟩
  · have := hbounds h
    simp only [Char.reduceToNat] at this
    exact ⟨by omega, by omega⟩
  · have := hbounds h
    simp only [Char.reduceToNat] at this
    exact ⟨by omega, by omega⟩
  all_goals decide

theorem printable_hexChar (n : ℕ) : Printable (hexChar n) := by
  by_cases h : n < 16
  · revert n
    decide
  · have hdefault : hexChar n = '0' := by
      rw [hexChar, List.getD_eq_default]
      exact not_lt.mp h
    rw [hdefault]
    decide

theorem printable_escape (u : UInt16) : ∀ c ∈ escape u, Printable c := by
  rw [escape]
  split
  · exact printable_of_all rfl
  · exact printable_of_all rfl
  · exact printable_of_all rfl
  · exact printable_of_all rfl
  · exact printable_of_all rfl
  · exact printable_of_all rfl
  · exact printable_of_all rfl
  · split_ifs with hprint
    · have hc : (Char.ofNat u.toNat).toNat = u.toNat := by
        rw [Char.toNat_ofNat, if_pos (.inl (by omega))]
      rintro _ (_ | ⟨_, ⟨⟩⟩)
      exact ⟨by omega, by omega⟩
    · intro c hc
      simp only [hex4, List.mem_cons, List.not_mem_nil, or_false] at hc
      rcases hc with rfl | rfl | rfl | rfl | rfl | rfl
      · decide
      · decide
      all_goals exact printable_hexChar _

theorem printable_dumpStr (s : Units) : ∀ c ∈ dumpStr s, Printable c := by
  intro c hc
  rw [dumpStr, List.mem_cons, List.mem_append, List.mem_singleton, List.mem_flatMap] at hc
  rcases hc with rfl | ⟨u, -, hc⟩ | rfl
  · decide
  · exact printable_escape u c hc
  · decide

theorem printable_joined (hgap : ∀ c ∈ gap, Printable c) {xs : List (List Char)}
    (h : ∀ x ∈ xs, ∀ c ∈ x, Printable c) :
    ∀ c ∈ joined gap xs, Printable c := by
  induction xs with
  | nil => simp [joined, List.intercalate]
  | cons x xs ih =>
    intro c hc
    rw [joined_cons, List.mem_append] at hc
    rcases hc with hc | hc
    · exact h x List.mem_cons_self c hc
    · split_ifs at hc
      · cases hc
      · rw [List.mem_cons, List.mem_append] at hc
        rcases hc with rfl | hc | hc
        · decide
        · exact hgap c hc
        · exact ih (fun y hy => h y (List.mem_cons_of_mem _ hy)) c hc

theorem printable_dumps (hgap : ∀ c ∈ gap, Printable c) {P : ν → Prop}
    (hP : ∀ n, P n → (write n).all atomChar = true) {v : Doc ν} (h : v.Numbers P) : ∀ c ∈ dumps gap write v, Printable c := by
  induction h with
  | null =>
    rw [dumps]
    exact printable_of_all rfl
  | bool b =>
    cases b
    · rw [dumps]
      exact printable_of_all rfl
    · rw [dumps]
      exact printable_of_all rfl
  | @num n hn =>
    intro c hc
    rw [dumps] at hc
    exact printable_of_atomChar (List.all_eq_true.mp (hP n hn) c hc)
  | str s =>
    rw [dumps]
    exact printable_dumpStr s
  | @arr vs h ih =>
    intro c hc
    rw [dumps_arr, List.mem_cons, List.mem_append, List.mem_singleton] at hc
    rcases hc with rfl | hc | rfl
    · decide
    · exact printable_joined hgap (List.forall_mem_map.mpr ih) c hc
    · decide
  | @obj ms h ih =>
    intro c hc
    rw [dumps_obj, List.mem_cons, List.mem_append, List.mem_singleton] at hc
    rcases hc with rfl | hc | rfl
    · decide
    · refine printable_joined hgap (List.forall_mem_map.mpr fun m hm d hd => ?_) c hc
      rw [dumpMember, List.mem_append, List.mem_cons, List.mem_append] at hd
      rcases hd with hd | rfl | hd | hd
      · exact printable_dumpStr m.1 d hd
      · decide
      · exact hgap d hd
      · exact ih m hm d hd
    · decide

end

end Utf16Json
