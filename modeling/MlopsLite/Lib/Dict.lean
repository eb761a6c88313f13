import Mathlib

/-!
# Dict — insertion-ordered finite maps

A `Dict` is the list of its items, oldest first, with distinct keys: a
replaced value keeps its place, a new key goes to the end. The order is
part of the data (a scan returns the FIRST match), so this is not the
order-free `Finmap`.

`Dict.total f` folds the items through an additive measure. Its three
update laws (`total_insert`, `total_modify`, `total_erase`) are stated in
cancellation-free form, so they hold in every commutative monoid.
-/

/-- An insertion-ordered map: items with distinct keys. -/
@[ext]
structure Dict (κ α : Type) where
  items : List (κ × α)
  nodup : (items.map Prod.fst).Nodup

namespace Dict

variable {κ α β : Type}

/-- The empty map. -/
def empty : Dict κ α := ⟨[], by simp⟩

def keys (d : Dict κ α) : List κ := d.items.map Prod.fst

def values (d : Dict κ α) : List α := d.items.map Prod.snd

/-- No item at all (the truth value of an empty container). -/
def isEmpty (d : Dict κ α) : Bool := d.items.isEmpty

/-- Rewrite every value in place. -/
def map (d : Dict κ α) (f : κ → α → β) : Dict κ β where
  items := d.items.map fun kv => (kv.1, f kv.1 kv.2)
  nodup := by simpa [List.map_map, Function.comp_def] using d.nodup

/-- Fold every item through a measure. -/
def total [AddCommMonoid β] (d : Dict κ α) (f : κ → α → β) : β :=
  (d.items.map fun kv => f kv.1 kv.2).sum

section Total

variable [AddCommMonoid β]

@[simp] theorem total_empty (f : κ → α → β) : (empty : Dict κ α).total f = 0 := rfl

@[simp] theorem total_map {γ : Type} (d : Dict κ α) (g : κ → α → γ) (f : κ → γ → β) :
    (d.map g).total f = d.total fun k v => f k (g k v) := by
  simp [total, map, List.map_map, Function.comp_def]

end Total

variable [DecidableEq κ]

/-- The value under a key. -/
def get? (d : Dict κ α) (k : κ) : Option α := d.items.lookup k

/-- Rewrite the value under one key in place; nothing when it is absent. -/
def modify (d : Dict κ α) (k : κ) (f : α → α) : Dict κ α :=
  d.map fun k' v => if k' = k then f v else v

/-- Drop a key; nothing when it is absent. -/
def erase (d : Dict κ α) (k : κ) : Dict κ α where
  items := d.items.filter fun kv => kv.1 ≠ k
  nodup := d.nodup.sublist (List.filter_sublist.map _)

theorem lookup_eq_none {k : κ} {l : List (κ × α)} :
    l.lookup k = none ↔ k ∉ l.map Prod.fst := by
  induction l with
  | nil => simp
  | cons kv l ih =>
    obtain ⟨k', v⟩ := kv
    by_cases h : k = k'
    · simp [h]
    · simp [List.lookup_cons, h, beq_false_of_ne h, ih]

/-- Replace the value under `k` in place, or append the new item. -/
def insert (d : Dict κ α) (k : κ) (v : α) : Dict κ α :=
  match h : d.get? k with
  | some _ => d.modify k fun _ => v
  | none => ⟨d.items ++ [(k, v)], by
      have hk : k ∉ d.items.map Prod.fst := lookup_eq_none.mp h
      rw [List.map_append, List.map_singleton]
      refine List.nodup_append.mpr ⟨d.nodup, by simp, fun a ha b hb hab => hk ?_⟩
      have hak : a = k := hab.trans (List.mem_singleton.mp hb)
      exact hak ▸ ha⟩

/-! ## Point reads -/

@[simp] theorem get?_empty (k : κ) : (empty : Dict κ α).get? k = none := rfl

@[simp] theorem get?_map (d : Dict κ α) (f : κ → α → β) (k : κ) :
    (d.map f).get? k = (d.get? k).map (f k) := by
  obtain ⟨l, hl⟩ := d
  simp only [get?, map]
  clear hl
  induction l with
  | nil => rfl
  | cons kv l ih =>
    obtain ⟨k', v⟩ := kv
    by_cases h : k = k'
    · subst h
      simp
    · simp [List.lookup_cons, beq_false_of_ne h, ih]

theorem get?_modify (d : Dict κ α) (k k' : κ) (f : α → α) :
    (d.modify k f).get? k' = if k' = k then (d.get? k').map f else d.get? k' := by
  rw [modify, get?_map]
  by_cases h : k' = k <;> simp [h]

@[simp] theorem get?_modify_self (d : Dict κ α) (k : κ) (f : α → α) :
    (d.modify k f).get? k = (d.get? k).map f := by
  simp [get?_modify]

theorem get?_modify_ne (d : Dict κ α) {k k' : κ} (f : α → α) (h : k' ≠ k) :
    (d.modify k f).get? k' = d.get? k' := by
  simp [get?_modify, h]

/-- Two rewrites of one key are one. -/
theorem modify_modify (d : Dict κ α) (k : κ) (f g : α → α) :
    (d.modify k f).modify k g = d.modify k fun v => g (f v) := by
  ext1
  simp only [modify, map, List.map_map]
  refine List.map_congr_left fun kv _ => ?_
  by_cases h : kv.1 = k <;> simp [h]

/-- Rewriting an absent key does nothing. -/
theorem modify_of_none {d : Dict κ α} {k : κ} (f : α → α) (h : d.get? k = none) :
    d.modify k f = d := by
  have hk : k ∉ d.items.map Prod.fst := lookup_eq_none.mp h
  ext1
  show (d.items.map fun kv => (kv.1, if kv.1 = k then f kv.2 else kv.2)) = d.items
  refine (List.map_congr_left fun kv hkv => ?_).trans (List.map_id _)
  have hne : kv.1 ≠ k := fun heq => hk (heq ▸ List.mem_map_of_mem (f := Prod.fst) hkv)
  simp [hne]

theorem get?_erase (d : Dict κ α) (k k' : κ) :
    (d.erase k).get? k' = if k' = k then none else d.get? k' := by
  obtain ⟨l, hl⟩ := d
  simp only [get?, erase]
  clear hl
  induction l with
  | nil => simp
  | cons kv l ih =>
    obtain ⟨a, v⟩ := kv
    by_cases ha : a = k
    · subst ha
      rw [List.filter_cons_of_neg (by simp), ih]
      by_cases h : k' = a
      · simp [h]
      · simp [h, List.lookup_cons, beq_false_of_ne h]
    · rw [List.filter_cons_of_pos (by simpa using ha), List.lookup_cons, ih, List.lookup_cons]
      by_cases h : k' = a
      · subst h
        simp [ha]
      · simp [beq_false_of_ne h]

@[simp] theorem get?_erase_self (d : Dict κ α) (k : κ) : (d.erase k).get? k = none := by
  simp [get?_erase]

theorem get?_erase_ne (d : Dict κ α) {k k' : κ} (h : k' ≠ k) :
    (d.erase k).get? k' = d.get? k' := by
  simp [get?_erase, h]

theorem insert_of_none {d : Dict κ α} {k : κ} (v : α) (h : d.get? k = none) :
    (d.insert k v).items = d.items ++ [(k, v)] := by
  unfold insert
  split
  · simp_all
  · rfl

theorem insert_of_some {d : Dict κ α} {k : κ} {old : α} (v : α) (h : d.get? k = some old) :
    d.insert k v = d.modify k fun _ => v := by
  unfold insert
  split
  · rfl
  · simp_all

theorem get?_insert (d : Dict κ α) (k k' : κ) (v : α) :
    (d.insert k v).get? k' = if k' = k then some v else d.get? k' := by
  cases h : d.get? k with
  | some old =>
    rw [insert_of_some v h, get?_modify]
    by_cases hk : k' = k
    · subst hk
      simp [h]
    · simp [hk]
  | none =>
    have hi := insert_of_none v h
    simp only [get?] at h ⊢
    rw [hi, List.lookup_append]
    by_cases hk : k' = k
    · subst hk
      simp [h]
    · simp [hk, List.lookup_cons, beq_false_of_ne hk]

@[simp] theorem get?_insert_self (d : Dict κ α) (k : κ) (v : α) :
    (d.insert k v).get? k = some v := by
  simp [get?_insert]

theorem get?_insert_ne (d : Dict κ α) {k k' : κ} (v : α) (h : k' ≠ k) :
    (d.insert k v).get? k' = d.get? k' := by
  simp [get?_insert, h]

/-! ## Items and point reads agree -/

theorem mem_items {d : Dict κ α} {k : κ} {v : α} :
    (k, v) ∈ d.items ↔ d.get? k = some v := by
  obtain ⟨l, hl⟩ := d
  simp only [get?]
  induction l with
  | nil => simp
  | cons kv l ih =>
    obtain ⟨a, w⟩ := kv
    simp only [List.map_cons, List.nodup_cons] at hl
    by_cases h : k = a
    · subst h
      have hne : (k, v) ∉ l := fun hm => hl.1 (List.mem_map_of_mem (f := Prod.fst) hm)
      simp [hne, eq_comm]
    · simp [List.lookup_cons, h, beq_false_of_ne h, ih hl.2]

theorem mem_values {d : Dict κ α} {v : α} : v ∈ d.values ↔ ∃ k, d.get? k = some v := by
  simp only [values, List.mem_map, Prod.exists, exists_eq_right, mem_items]

theorem mem_keys {d : Dict κ α} {k : κ} : k ∈ d.keys ↔ ∃ v, d.get? k = some v := by
  simp only [keys, List.mem_map, Prod.exists, exists_and_right, exists_eq_right, mem_items]

omit [DecidableEq κ] in
@[simp] theorem keys_map (d : Dict κ α) (f : κ → α → β) : (d.map f).keys = d.keys := by
  simp [keys, map, List.map_map, Function.comp_def]

/-- A replaced value keeps its place. -/
theorem keys_insert_of_some {d : Dict κ α} {k : κ} {old : α} (v : α) (h : d.get? k = some old) :
    (d.insert k v).keys = d.keys := by
  rw [insert_of_some v h]
  exact keys_map ..

/-- Keep the items whose key passes. -/
def filterKeys (d : Dict κ α) (p : κ → Bool) : Dict κ α where
  items := d.items.filter fun kv => p kv.1
  nodup := d.nodup.sublist (List.filter_sublist.map _)

theorem get?_filterKeys (d : Dict κ α) (p : κ → Bool) (k : κ) :
    (d.filterKeys p).get? k = if p k then d.get? k else none := by
  have hiff : ∀ v, (d.filterKeys p).get? k = some v ↔ d.get? k = some v ∧ p k = true := by
    intro v
    rw [← mem_items, ← mem_items]
    exact List.mem_filter
  apply Option.ext
  intro v
  rw [hiff]
  by_cases hp : p k = true <;> simp [hp]

/-- Keep the items that pass. -/
def filter (d : Dict κ α) (p : κ → α → Bool) : Dict κ α where
  items := d.items.filter fun kv => p kv.1 kv.2
  nodup := d.nodup.sublist (List.filter_sublist.map _)

theorem get?_filter (d : Dict κ α) (p : κ → α → Bool) (k : κ) :
    (d.filter p).get? k = (d.get? k).filter (p k) := by
  apply Option.ext
  intro v
  rw [Option.filter_eq_some_iff, ← mem_items, ← mem_items]
  exact List.mem_filter

/-- Write every item of `e` over `d`. -/
def update (d e : Dict κ α) : Dict κ α := e.items.foldl (fun acc kv => acc.insert kv.1 kv.2) d

/-- The items written one after another. -/
def ofItems (items : List (κ × α)) : Dict κ α :=
  items.foldl (fun acc kv => acc.insert kv.1 kv.2) empty

/-- Items under distinct keys are kept as they are. -/
theorem items_ofItems {items : List (κ × α)} (h : (items.map Prod.fst).Nodup) :
    (ofItems items).items = items := by
  have hfold : ∀ (l : List (κ × α)) (acc : Dict κ α), (l.map Prod.fst).Nodup →
      (∀ kv ∈ l, acc.get? kv.1 = none) →
      (l.foldl (fun acc kv => acc.insert kv.1 kv.2) acc).items = acc.items ++ l := by
    intro l
    induction l with
    | nil =>
      intro acc _ _
      exact (List.append_nil _).symm
    | cons kv l ih =>
      intro acc hl hfresh
      obtain ⟨hkv, hl⟩ := List.nodup_cons.mp hl
      rw [List.foldl_cons, ih _ hl, insert_of_none _ (hfresh kv List.mem_cons_self),
        List.append_assoc, List.singleton_append]
      intro kv' hkv'
      have hne : kv'.1 ≠ kv.1 := fun heq => hkv (heq ▸ List.mem_map_of_mem hkv')
      rw [get?_insert_ne _ _ hne]
      exact hfresh kv' (List.mem_cons_of_mem _ hkv')
  exact (hfold items empty h fun _ _ => get?_empty _).trans (List.nil_append _)

theorem get?_update (d e : Dict κ α) (k : κ) :
    (d.update e).get? k = (e.get? k).or (d.get? k) := by
  obtain ⟨items, hnodup⟩ := e
  have hfold : ∀ (l : List (κ × α)) (acc : Dict κ α), (l.map Prod.fst).Nodup →
      (l.foldl (fun acc kv => acc.insert kv.1 kv.2) acc).get? k =
        (l.lookup k).or (acc.get? k) := by
    intro l
    induction l with
    | nil =>
      intro acc _
      rfl
    | cons kv l ih =>
      intro acc hl
      obtain ⟨a, v⟩ := kv
      obtain ⟨ha, hl⟩ := List.nodup_cons.mp hl
      rw [List.foldl_cons, ih _ hl, get?_insert]
      by_cases hk : k = a
      · subst hk
        have hnone : l.lookup k = none := lookup_eq_none.mpr ha
        simp [hnone]
      · simp [List.lookup_cons, hk, beq_false_of_ne hk]
  exact hfold items d hnodup

theorem isEmpty_iff {d : Dict κ α} : d.isEmpty = true ↔ ∀ k, d.get? k = none := by
  rw [isEmpty, List.isEmpty_iff]
  constructor
  · intro h k
    simp [get?, h]
  · intro h
    refine List.eq_nil_iff_forall_not_mem.mpr fun kv hkv => ?_
    have := mem_items.mp hkv
    simp [h] at this

/-! ## Totals -/

variable [AddCommMonoid β]

theorem total_congr {d : Dict κ α} {f g : κ → α → β}
    (h : ∀ k v, d.get? k = some v → f k v = g k v) : d.total f = d.total g := by
  refine congrArg List.sum (List.map_congr_left fun kv hkv => ?_)
  exact h kv.1 kv.2 (mem_items.mp hkv)

/-- One item of a total, split off. -/
theorem total_split {d : Dict κ α} {k : κ} {v : α} (f : κ → α → β) (h : d.get? k = some v) :
    d.total f = f k v + d.total fun k' v' => if k' = k then 0 else f k' v' := by
  obtain ⟨l, hl⟩ := d
  simp only [get?, total] at h ⊢
  induction l with
  | nil => simp at h
  | cons kv l ih =>
    obtain ⟨a, w⟩ := kv
    simp only [List.map_cons, List.nodup_cons] at hl
    by_cases hk : k = a
    · subst hk
      have hw : w = v := by simpa [List.lookup_cons] using h
      subst hw
      have hrest : l.map (fun kv => if kv.1 = k then (0 : β) else f kv.1 kv.2)
          = l.map fun kv => f kv.1 kv.2 := by
        refine List.map_congr_left fun kv hkv => if_neg fun heq => hl.1 ?_
        exact heq ▸ List.mem_map_of_mem (f := Prod.fst) hkv
      simp [hrest]
    · have hl' : l.lookup k = some v := by
        simpa [List.lookup_cons, beq_false_of_ne hk] using h
      simp only [List.map_cons, List.sum_cons, ih hl.2 hl', if_neg (Ne.symm hk)]
      exact add_left_comm _ _ _

theorem total_insert {d : Dict κ α} {k : κ} (v : α) (f : κ → α → β) (h : d.get? k = none) :
    (d.insert k v).total f = d.total f + f k v := by
  simp [total, insert_of_none v h]

theorem total_modify {d : Dict κ α} {k : κ} {v : α} (g : α → α) (f : κ → α → β)
    (h : d.get? k = some v) :
    (d.modify k g).total f
      = f k (g v) + d.total fun k' v' => if k' = k then 0 else f k' v' := by
  have hg : (d.modify k g).get? k = some (g v) := by simp [h]
  rw [total_split f hg, modify, total_map]
  congr 1
  refine total_congr fun k' v' _ => ?_
  by_cases hk : k' = k <;> simp [hk]

/-- A rewrite changes the total by the item it rewrites. -/
theorem total_modify_add {d : Dict κ α} {k : κ} {v : α} (g : α → α) (f : κ → α → β)
    (h : d.get? k = some v) : (d.modify k g).total f + f k v = d.total f + f k (g v) := by
  have hsplit := total_split f h
  rw [total_modify g f h, hsplit]
  ac_rfl

theorem total_erase (d : Dict κ α) (k : κ) (f : κ → α → β) :
    (d.erase k).total f = d.total fun k' v' => if k' = k then 0 else f k' v' := by
  obtain ⟨l, hl⟩ := d
  simp only [total, erase]
  clear hl
  induction l with
  | nil => rfl
  | cons kv l ih =>
    by_cases hk : kv.1 = k
    · rw [List.filter_cons_of_neg (by simpa using hk), ih]
      simp [hk]
    · rw [List.filter_cons_of_pos (by simpa using hk), List.map_cons, List.map_cons,
        List.sum_cons, List.sum_cons, ih, if_neg hk]

/-- Totals are monotone in the measure. -/
theorem total_le_total [Preorder β] [AddLeftMono β] {d : Dict κ α} {f g : κ → α → β}
    (h : ∀ k v, d.get? k = some v → f k v ≤ g k v) : d.total f ≤ d.total g := by
  refine List.sum_le_sum fun kv hkv => ?_
  exact h kv.1 kv.2 (mem_items.mp hkv)

/-- A rewrite the measure does not see. -/
theorem total_modify_of_eq (d : Dict κ α) (k : κ) {g : α → α} {f : κ → α → β}
    (h : ∀ v, f k (g v) = f k v) : (d.modify k g).total f = d.total f := by
  rw [modify, total_map]
  refine total_congr fun k' v _ => ?_
  by_cases hk : k' = k
  · rw [if_pos hk, hk, h]
  · rw [if_neg hk]

theorem total_eq_zero {d : Dict κ α} {f : κ → α → ℕ} :
    d.total f = 0 ↔ ∀ k v, d.get? k = some v → f k v = 0 := by
  simp only [total, List.sum_eq_zero_iff_forall_eq_nat, List.forall_mem_map, Prod.forall, mem_items]

/-- Dropping an item lowers a total of nonnegative measures. -/
theorem total_erase_le [PartialOrder β] [CanonicallyOrderedAdd β] [AddLeftMono β] (d : Dict κ α)
    (k : κ) (f : κ → α → β) : (d.erase k).total f ≤ d.total f := by
  rw [total_erase]
  refine total_le_total fun k' v _ => ?_
  split
  · exact zero_le
  · exact le_rfl

/-- Every item written counts for at most its own measure. -/
theorem total_ofItems_le (items : List (κ × α)) (f : κ → α → ℕ) :
    (ofItems items).total f ≤ (items.map fun kv => f kv.1 kv.2).sum := by
  have hfold : ∀ (l : List (κ × α)) (acc : Dict κ α),
      (l.foldl (fun acc kv => acc.insert kv.1 kv.2) acc).total f ≤
        acc.total f + (l.map fun kv => f kv.1 kv.2).sum := by
    intro l
    induction l with
    | nil =>
      intro acc
      exact le_rfl
    | cons kv l ih =>
      intro acc
      have hinsert : (acc.insert kv.1 kv.2).total f ≤ acc.total f + f kv.1 kv.2 := by
        cases h : acc.get? kv.1 with
        | none => exact (total_insert kv.2 f h).le
        | some old =>
          rw [insert_of_some kv.2 h]
          exact (Nat.le_add_right _ _).trans (total_modify_add _ f h).le
      rw [List.foldl_cons, List.map_cons, List.sum_cons, ← Nat.add_assoc]
      exact (ih _).trans (Nat.add_le_add_right hinsert _)
  exact (hfold items empty).trans (Nat.zero_add _).le

end Dict
