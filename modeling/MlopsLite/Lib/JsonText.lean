import MlopsLite.Lib.Dict
import MlopsLite.Lib.JsonQuotes

/-!
# JsonText — what a JSON text says

`tokens` are a value's, `parse` reads them with a stack of the arrays and objects
that are open: it reads just the tokens of a value, and each of those. `dict` is
what becomes of repeated keys.
-/

namespace JsonText

open JsonTokens

variable {ν : Type}

/-! ## The tokens of a value -/

/-- One after the other, with commas between them. -/
def separate : List (List (Token ν)) → List (Token ν)
  | [] => []
  | entry :: entries => entry ++ entries.flatMap (.punct ',' :: ·)

mutual

def tokens : Json ν → List (Token ν)
  | .null => [.scalar .null]
  | .bool b => [.scalar (.bool b)]
  | .num n => [.scalar (.num n)]
  | .str s => [.str s]
  | .arr items => .punct '[' :: (separate (itemTokens items) ++ [.punct ']'])
  | .obj members => .punct '\x7b' :: (separate (memberTokens members) ++ [.punct '\x7d'])

def itemTokens : List (Json ν) → List (List (Token ν))
  | [] => []
  | v :: items => tokens v :: itemTokens items

def memberTokens : List (String × Json ν) → List (List (Token ν))
  | [] => []
  | m :: members => (.str m.1 :: .punct ':' :: tokens m.2) :: memberTokens members

end

/-- `"key": value`. -/
def entry (m : String × Json ν) : List (Token ν) := .str m.1 :: .punct ':' :: tokens m.2

@[simp] theorem tokens_str (s : String) : tokens (.str s : Json ν) = [.str s] := by
  rw [tokens]

@[simp] theorem tokens_arr (items : List (Json ν)) :
    tokens (.arr items) = .punct '[' :: (separate (items.map tokens) ++ [.punct ']']) := by
  have hitems : itemTokens items = items.map tokens := by
    induction items with
    | nil => rfl
    | cons v items ih => rw [itemTokens, ih, List.map_cons]
  rw [tokens, hitems]

@[simp] theorem tokens_obj (members : List (String × Json ν)) :
    tokens (.obj members) =
      .punct '\x7b' :: (separate (members.map entry) ++ [.punct '\x7d']) := by
  have hmembers : memberTokens members = members.map entry := by
    induction members with
    | nil => rfl
    | cons m members ih => rw [memberTokens, ih, List.map_cons, entry]
  rw [tokens, hmembers]

/-- What holds of a value because it holds of the values in it. -/
theorem induct {P : Json ν → Prop} (null : P .null) (bool : ∀ b, P (.bool b))
    (num : ∀ n, P (.num n)) (str : ∀ s, P (.str s))
    (arr : ∀ items, (∀ v ∈ items, P v) → P (.arr items))
    (obj : ∀ members, (∀ m ∈ members, P m.2) → P (.obj members)) (v : Json ν) : P v :=
  @Json.rec ν P (fun items => ∀ v ∈ items, P v) (fun members => ∀ m ∈ members, P m.2)
    (fun m => P m.2) null bool num str arr obj (fun _ h => nomatch h)
    (fun _ _ hv hitems => List.forall_mem_cons.mpr ⟨hv, hitems⟩) (fun _ h => nomatch h)
    (fun _ _ hm hmembers => List.forall_mem_cons.mpr ⟨hm, hmembers⟩) (fun _ _ hv => hv) v

/-- The comma after what has been listed. -/
def comma : List (List (Token ν)) → List (Token ν)
  | [] => []
  | _ => [.punct ',']

@[simp] theorem separate_nil : separate ([] : List (List (Token ν))) = [] := rfl

@[simp] theorem comma_nil : comma ([] : List (List (Token ν))) = [] := rfl

@[simp] theorem comma_concat (entries : List (List (Token ν))) (e : List (Token ν)) :
    comma (entries ++ [e]) = [.punct ','] := by
  cases entries <;> rfl

@[simp] theorem separate_concat (entries : List (List (Token ν))) (e : List (Token ν)) :
    separate (entries ++ [e]) = separate entries ++ comma entries ++ e := by
  cases entries with
  | nil => simp [separate, comma]
  | cons d entries => simp [separate, comma]

/-! ## Reading -/

/-- What is open: an array with its items, an object with its members and the key
whose value is due. -/
inductive Frame (ν : Type)
  | arr (items : List (Json ν))
  | obj (members : List (String × Json ν)) (key : String)

/-- What is due, with the frames around it, the innermost first: a value, a key, a
colon, or what follows an item or a member. -/
inductive State (ν : Type)
  | value (stack : List (Frame ν))
  | member (stack : List (Frame ν)) (members : List (String × Json ν))
  | colon (stack : List (Frame ν)) (members : List (String × Json ν)) (key : String)
  | items (stack : List (Frame ν)) (items : List (Json ν)) (last : Json ν)
  | members (stack : List (Frame ν)) (members : List (String × Json ν)) (last : String × Json ν)
  | done (v : Json ν)

/-- A value has been read. -/
def deliver (v : Json ν) : List (Frame ν) → State ν
  | [] => .done v
  | .arr items :: stack => .items stack items v
  | .obj members key :: stack => .members stack members (key, v)

def ofScalar : Scalar ν → Json ν
  | .null => .null
  | .bool b => .bool b
  | .num n => .num n

def step : State ν → Token ν → Option (State ν)
  | .value stack, .scalar x => some (deliver (ofScalar x) stack)
  | .value stack, .str s => some (deliver (.str s) stack)
  | .value stack, .punct '[' => some (.value (.arr [] :: stack))
  | .value stack, .punct '\x7b' => some (.member stack [])
  | .value (.arr [] :: stack), .punct ']' => some (deliver (.arr []) stack)
  | .member stack members, .str key => some (.colon stack members key)
  | .member stack [], .punct '\x7d' => some (deliver (.obj []) stack)
  | .colon stack members key, .punct ':' => some (.value (.obj members key :: stack))
  | .items stack items last, .punct ',' => some (.value (.arr (items ++ [last]) :: stack))
  | .items stack items last, .punct ']' => some (deliver (.arr (items ++ [last])) stack)
  | .members stack members last, .punct ',' => some (.member stack (members ++ [last]))
  | .members stack members last, .punct '\x7d' => some (deliver (.obj (members ++ [last])) stack)
  | _, _ => none

def result : State ν → Option (Json ν)
  | .done v => some v
  | _ => none

/-- The state after some tokens. -/
def run (s : State ν) (ts : List (Token ν)) : Option (State ν) := ts.foldlM step s

/-- The value with these tokens. -/
def parse (ts : List (Token ν)) : Option (Json ν) := (run (.value []) ts).bind result

theorem run_cons {s s' : State ν} {a : Token ν} (h : step s a = some s') (ts : List (Token ν)) :
    run s (a :: ts) = run s' ts := by
  rw [run, List.foldlM_cons, h]
  rfl

/-! ### Just the tokens of a value are read -/

/-- What has been read of a frame. -/
def openedBy : Frame ν → List (Token ν)
  | .arr items => .punct '[' :: (separate (items.map tokens) ++ comma (items.map tokens))
  | .obj members key =>
      .punct '\x7b' :: (separate (members.map entry) ++ comma (members.map entry) ++
        [.str key, .punct ':'])

def opened : List (Frame ν) → List (Token ν)
  | [] => []
  | f :: stack => opened stack ++ openedBy f

/-- What has been read when the reader is in a state. -/
def spent : State ν → List (Token ν)
  | .value stack => opened stack
  | .member stack members =>
      opened stack ++ .punct '\x7b' ::
        (separate (members.map entry) ++ comma (members.map entry))
  | .colon stack members key =>
      opened stack ++ .punct '\x7b' ::
        (separate (members.map entry) ++ comma (members.map entry) ++ [.str key])
  | .items stack items last =>
      opened stack ++ .punct '[' :: separate ((items ++ [last]).map tokens)
  | .members stack members last =>
      opened stack ++ .punct '\x7b' :: separate ((members ++ [last]).map entry)
  | .done v => tokens v

theorem spent_deliver (v : Json ν) (stack : List (Frame ν)) :
    spent (deliver v stack) = opened stack ++ tokens v := by
  match stack with
  | [] => rfl
  | .arr items :: stack =>
    simp [deliver, spent, opened, openedBy]
  | .obj members key :: stack =>
    simp [deliver, spent, opened, openedBy, entry]

@[simp] theorem tokens_ofScalar (x : Scalar ν) : tokens (ofScalar x) = [.scalar x] := by
  cases x <;> simp [ofScalar, tokens]

theorem spent_step {s s' : State ν} {a : Token ν} (h : step s a = some s') :
    spent s' = spent s ++ [a] := by
  revert h
  fun_cases step s a
  all_goals rintro ⟨⟩
  -- the token completes a value
  case case1 | case2 | case5 | case7 | case10 | case12 =>
    rw [spent_deliver]
    simp [spent, opened, openedBy]
  all_goals simp [spent, opened, openedBy]

theorem spent_run {s s' : State ν} {ts : List (Token ν)} (h : run s ts = some s') :
    spent s' = spent s ++ ts := by
  induction ts generalizing s with
  | nil =>
    cases h
    exact (List.append_nil _).symm
  | cons a ts ih =>
    rw [run, List.foldlM_cons] at h
    obtain ⟨s₁, hstep, hrun⟩ := Option.bind_eq_some_iff.mp h
    rw [ih hrun, spent_step hstep, List.append_assoc, List.singleton_append]

/-- What is read are the tokens of a value. -/
theorem tokens_of_parse {ts : List (Token ν)} {v : Json ν} (h : parse ts = some v) :
    ts = tokens v := by
  obtain ⟨s, hrun, hresult⟩ := Option.bind_eq_some_iff.mp h
  have hspent := spent_run hrun
  cases s with
  | done w =>
    cases hresult
    rw [spent, spent, opened, List.nil_append] at hspent
    exact hspent.symm
  | _ => cases hresult

/-! ### Each value is read -/

/-- The reader gets past a value, whatever is open. -/
def Reads (v : Json ν) : Prop :=
  ∀ stack ts, run (.value stack) (tokens v ++ ts) = run (deliver v stack) ts

theorem run_items {more : List (Json ν)} (h : ∀ v ∈ more, Reads v) (stack : List (Frame ν))
    (items : List (Json ν)) (last : Json ν) (ts : List (Token ν)) :
    run (.items stack items last)
        ((more.map tokens).flatMap (.punct ',' :: ·) ++ .punct ']' :: ts) =
      run (deliver (.arr (items ++ last :: more)) stack) ts := by
  induction more generalizing items last with
  | nil => exact run_cons rfl ts
  | cons v more ih =>
    have hcomma : step (.items stack items last) (.punct ',') =
        some (.value (.arr (items ++ [last]) :: stack)) := rfl
    rw [List.map_cons, List.flatMap_cons, List.cons_append, List.cons_append, List.append_assoc,
      run_cons hcomma, h v List.mem_cons_self, deliver,
      ih (fun w hw => h w (List.mem_cons_of_mem _ hw)), List.append_assoc, List.singleton_append]

theorem run_members {more : List (String × Json ν)} (h : ∀ m ∈ more, Reads m.2)
    (stack : List (Frame ν)) (members : List (String × Json ν)) (last : String × Json ν)
    (ts : List (Token ν)) :
    run (.members stack members last)
        ((more.map entry).flatMap (.punct ',' :: ·) ++ .punct '\x7d' :: ts) =
      run (deliver (.obj (members ++ last :: more)) stack) ts := by
  induction more generalizing members last with
  | nil => exact run_cons rfl ts
  | cons m more ih =>
    have hcomma : step (.members stack members last) (.punct ',') =
        some (.member stack (members ++ [last])) := rfl
    have hkey : step (.member stack (members ++ [last])) (.str m.1) =
        some (.colon stack (members ++ [last]) m.1) := rfl
    have hcolon : step (.colon stack (members ++ [last]) m.1) (.punct ':') =
        some (.value (.obj (members ++ [last]) m.1 :: stack)) := rfl
    rw [List.map_cons, List.flatMap_cons, List.cons_append, List.cons_append, List.append_assoc,
      run_cons hcomma, entry, List.cons_append, run_cons hkey, List.cons_append, run_cons hcolon,
      h m List.mem_cons_self, deliver, ih (fun w hw => h w (List.mem_cons_of_mem _ hw)),
      List.append_assoc, List.singleton_append]

theorem reads (v : Json ν) : Reads v := by
  induction v using induct with
  | null => exact fun stack ts => run_cons rfl ts
  | bool b => exact fun stack ts => run_cons rfl ts
  | num n => exact fun stack ts => run_cons rfl ts
  | str s => exact fun stack ts => run_cons rfl ts
  | arr items ih =>
    intro stack ts
    have hopen : step (.value stack) (.punct '[') =
        some (.value (.arr [] :: stack)) := rfl
    rw [tokens_arr, List.cons_append, run_cons hopen, List.append_assoc, List.singleton_append]
    cases items with
    | nil => exact run_cons rfl ts
    | cons v items =>
      rw [List.map_cons, separate, List.append_assoc, ih v List.mem_cons_self, deliver,
        run_items fun w hw => ih w (List.mem_cons_of_mem _ hw)]
      rfl
  | obj members ih =>
    intro stack ts
    have hopen : step (.value stack) (.punct '\x7b') = some (.member stack []) := rfl
    rw [tokens_obj, List.cons_append, run_cons hopen, List.append_assoc, List.singleton_append]
    cases members with
    | nil => exact run_cons rfl ts
    | cons m members =>
      have hkey : step (.member stack []) (.str m.1) = some (.colon stack [] m.1) := rfl
      have hcolon : step (.colon stack [] m.1) (.punct ':') =
          some (.value (.obj [] m.1 :: stack)) := rfl
      rw [List.map_cons, separate, List.append_assoc, entry, List.cons_append, run_cons hkey,
        List.cons_append, run_cons hcolon, ih m List.mem_cons_self, deliver,
        run_members fun w hw => ih w (List.mem_cons_of_mem _ hw)]
      rfl

/-- The tokens of a value are read as the value. -/
theorem parse_tokens (v : Json ν) : parse (tokens v) = some v := by
  have hread := reads v [] []
  rw [List.append_nil] at hread
  rw [parse, hread]
  rfl

/-- The reader reads the tokens of each value, and no others. -/
theorem parse_eq_some_iff {ts : List (Token ν)} {v : Json ν} :
    parse ts = some v ↔ ts = tokens v := by
  constructor
  · exact tokens_of_parse
  · rintro rfl
    exact parse_tokens v

/-! ### Scalars are apart -/

theorem separated_cons {ts : List (Token ν)} (h : Separated ts) (c : Char) :
    Separated (.punct c :: ts) := by
  refine List.IsChain.cons h fun b _ hboth => ?_
  cases hboth.1

theorem separated_concat {ts ts' : List (Token ν)} (h : Separated ts) (h' : Separated ts')
    (c : Char) : Separated (ts ++ .punct c :: ts') := by
  refine List.IsChain.append h (separated_cons h' c) fun a _ b hb hboth => ?_
  cases hb
  cases hboth.2

theorem separated_separate {entries : List (List (Token ν))} (h : ∀ e ∈ entries, Separated e) :
    Separated (separate entries) := by
  induction entries with
  | nil => exact List.IsChain.nil
  | cons e entries ih =>
    have he := h e List.mem_cons_self
    cases entries with
    | nil => simpa [separate] using he
    | cons d entries =>
      have hrest := ih fun d' hd' => h d' (List.mem_cons_of_mem _ hd')
      simpa [separate] using separated_concat he hrest ','

theorem separated_tokens (v : Json ν) : Separated (tokens v) := by
  induction v using induct with
  | null => exact List.IsChain.singleton _
  | bool b => exact List.IsChain.singleton _
  | num n => exact List.IsChain.singleton _
  | str s => exact List.IsChain.singleton _
  | arr items ih =>
    rw [tokens_arr]
    refine separated_cons (separated_concat (separated_separate ?_) List.IsChain.nil ']') '['
    exact List.forall_mem_map.mpr ih
  | obj members ih =>
    rw [tokens_obj]
    refine separated_cons (separated_concat (separated_separate ?_) List.IsChain.nil _) _
    refine List.forall_mem_map.mpr fun m hm => ?_
    exact separated_concat (List.IsChain.singleton (Token.str m.1)) (ih m hm) ':'

/-! ## Repeated keys -/

mutual

/-- The value with dicts for its objects: a repeated key keeps its first place and
its last value. -/
def dict : Json ν → Json ν
  | .arr items => .arr (dictItems items)
  | .obj members => .obj (Dict.ofItems (dictMembers members)).items
  | .null => .null
  | .bool b => .bool b
  | .num n => .num n
  | .str s => .str s

def dictItems : List (Json ν) → List (Json ν)
  | [] => []
  | v :: items => dict v :: dictItems items

def dictMembers : List (String × Json ν) → List (String × Json ν)
  | [] => []
  | m :: members => (m.1, dict m.2) :: dictMembers members

end

@[simp] theorem dict_arr (items : List (Json ν)) : dict (.arr items) = .arr (items.map dict) := by
  have hitems : dictItems items = items.map dict := by
    induction items with
    | nil => rfl
    | cons v items ih => rw [dictItems, ih, List.map_cons]
  rw [dict, hitems]

@[simp] theorem dict_obj (members : List (String × Json ν)) :
    dict (.obj members) = .obj (Dict.ofItems (members.map fun m => (m.1, dict m.2))).items := by
  have hmembers : dictMembers members = members.map fun m => (m.1, dict m.2) := by
    induction members with
    | nil => rfl
    | cons m members ih => rw [dictMembers, ih, List.map_cons]
  rw [dict, hmembers]

/-- No object in the value has two members of one name. -/
inductive Distinct : Json ν → Prop
  | null : Distinct .null
  | bool (b : Bool) : Distinct (.bool b)
  | num (n : ν) : Distinct (.num n)
  | str (s : String) : Distinct (.str s)
  | arr {items : List (Json ν)} (h : ∀ v ∈ items, Distinct v) : Distinct (.arr items)
  | obj {members : List (String × Json ν)} (hkeys : (members.map Prod.fst).Nodup)
      (h : ∀ m ∈ members, Distinct m.2) : Distinct (.obj members)

theorem dict_of_distinct {v : Json ν} (h : Distinct v) : dict v = v := by
  induction h with
  | null => rfl
  | bool b => rfl
  | num n => rfl
  | str s => rfl
  | arr h ih =>
    rw [dict_arr, List.map_congr_left ih, List.map_id']
  | obj hkeys h ih =>
    rw [dict_obj, List.map_congr_left fun m hm => by rw [ih m hm], List.map_id',
      Dict.items_ofItems hkeys]

/-! ## Strings -/

/-- The strings of a value, keys included. -/
def strings (v : Json ν) : ℕ := strs (tokens v)

theorem strs_separate (entries : List (List (Token ν))) :
    strs (separate entries) = (entries.map strs).sum := by
  cases entries with
  | nil => rfl
  | cons e entries =>
    rw [separate, strs_append, List.map_cons, List.sum_cons]
    congr 1
    induction entries with
    | nil => rfl
    | cons d entries ih =>
      rw [List.flatMap_cons, strs_append, ih, List.map_cons, List.sum_cons]
      rfl

theorem strings_arr (items : List (Json ν)) :
    strings (.arr items) = (items.map strings).sum := by
  rw [strings, tokens_arr]
  show strs (separate (items.map tokens) ++ [.punct ']']) = _
  rw [strs_append, strs_separate, List.map_map]
  rfl

theorem strings_obj (members : List (String × Json ν)) :
    strings (.obj members) = (members.map fun m => 1 + strings m.2).sum := by
  rw [strings, tokens_obj]
  show strs (separate (members.map entry) ++ [.punct '\x7d']) = _
  rw [strs_append, strs_separate, List.map_map]
  have hentry : strs ∘ entry = fun m : String × Json ν => 1 + strings m.2 := by
    funext m
    show strs ([.str m.1] ++ ([.punct ':'] ++ tokens m.2)) = _
    rw [strs_append, strs_append]
    show 1 + (0 + strings m.2) = _
    rw [Nat.zero_add]
  rw [hentry]
  rfl

/-- No string comes in with a dict. -/
theorem strings_dict_le (v : Json ν) : strings (dict v) ≤ strings v := by
  induction v using induct with
  | null => exact le_rfl
  | bool b => exact le_rfl
  | num n => exact le_rfl
  | str s => exact le_rfl
  | arr items ih =>
    rw [dict_arr, strings_arr, strings_arr, List.map_map]
    exact List.sum_le_sum ih
  | obj members ih =>
    rw [dict_obj, strings_obj, strings_obj]
    refine (Dict.total_ofItems_le _ fun _ v => 1 + strings v).trans ?_
    rw [List.map_map]
    exact List.sum_le_sum fun m hm => Nat.add_le_add_left (ih m hm) 1

end JsonText
