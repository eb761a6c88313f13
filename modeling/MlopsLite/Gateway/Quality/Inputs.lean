import MlopsLite.Lib.Newest

/-!
# Quality — captured inputs

The names of captured inputs and what a prune takes (`gateway/app/quality.py`).
-/

namespace MlopsLite.Gateway.Quality

/-- Microseconds, as the index keeps them. -/
abbrev Time := ℕ

structure Config where
  capN : ℤ
  ttl : ℚ

def shadowModalities : List String := ["text-generation", "image-classification", "asr"]

def normalizeModality (modality : String) : String :=
  if modality = "llm" then "text-generation"
  else if modality = "vision" then "image-classification"
  else modality

/-! ## What a prune takes -/

variable (cfg : Config)

def Config.older (now ts : Time) : Bool := 0 < cfg.ttl ∧ cfg.ttl < (now : ℚ) - ts

def expired (records : List (String × Time)) (now : Time) : List String :=
  (records.filter fun r => cfg.older now r.2).map Prod.fst

def fresh (records : List (String × Time)) (now : Time) : List (String × Time) :=
  records.filter fun r => r.1 ∉ expired cfg records now

def overCap (records : List (String × Time)) (now : Time) : List String :=
  if 0 < cfg.capN then
    (Newest.overflow Prod.snd cfg.capN.toNat (fresh cfg records now)).map Prod.fst
  else []

/-- `inputs_to_prune`. -/
def inputsToPrune (records : List (String × Time)) (now : Time) : List String :=
  (expired cfg records now ++ overCap cfg records now).dedup.insertionSort (· ≤ ·)

variable {cfg} {records : List (String × Time)} {now : Time} {key : String} {ts : Time}

theorem mem_inputsToPrune : key ∈ inputsToPrune cfg records now ↔
    key ∈ expired cfg records now ∨ key ∈ overCap cfg records now := by
  simp [inputsToPrune]

theorem older_mono {ts' now' : Time} (h : cfg.older now ts' = true) (hts : ts ≤ ts')
    (hnow : now ≤ now') : cfg.older now' ts = true := by
  obtain ⟨hpos, hlt⟩ := of_decide_eq_true h
  refine decide_eq_true ⟨hpos, lt_of_lt_of_le hlt ?_⟩
  exact sub_le_sub (Nat.cast_le.mpr hnow) (Nat.cast_le.mpr hts)

/-- What is left is within the TTL … -/
theorem fresh_of_kept (h : (key, ts) ∈ records) (hkept : key ∉ inputsToPrune cfg records now) :
    cfg.older now ts = false := by
  rw [mem_inputsToPrune, not_or] at hkept
  by_contra hold
  refine hkept.1 (List.mem_map.mpr ⟨(key, ts), List.mem_filter.mpr ⟨h, ?_⟩, rfl⟩)
  simpa using hold

/-- … and fits. -/
theorem length_kept (hcap : 0 < cfg.capN) :
    (records.filter fun r => r.1 ∉ inputsToPrune cfg records now).length ≤ cfg.capN.toNat := by
  have hfits : ((fresh cfg records now).filter fun r =>
      r ∉ Newest.overflow Prod.snd cfg.capN.toNat (fresh cfg records now)).length ≤ cfg.capN.toNat :=
    Newest.length_filter_le
  refine le_trans ?_ hfits
  rw [fresh, List.filter_filter]
  refine (List.monotone_filter_right records fun r hr => ?_).length_le
  have hkept := of_decide_eq_true hr
  rw [mem_inputsToPrune, not_or, overCap, if_pos hcap] at hkept
  rw [Bool.and_eq_true]
  exact ⟨decide_eq_true fun hover => hkept.2 (List.mem_map_of_mem hover),
    decide_eq_true hkept.1⟩

/-- What is taken is older than the TTL, or enough records are newer. -/
theorem of_mem_inputsToPrune (hnodup : (records.map Prod.snd).Nodup)
    (h : key ∈ inputsToPrune cfg records now) :
    ∃ ts, (key, ts) ∈ records ∧ (cfg.older now ts = true ∨
      0 < cfg.capN ∧ cfg.capN.toNat ≤ (records.filter fun r => ts < r.2).length) := by
  rcases mem_inputsToPrune.mp h with h | h
  · obtain ⟨⟨key, ts⟩, hr, rfl⟩ := List.mem_map.mp h
    obtain ⟨hr, hold⟩ := List.mem_filter.mp hr
    exact ⟨ts, hr, .inl hold⟩
  · rw [overCap] at h
    split_ifs at h with hcap
    · obtain ⟨⟨key, ts⟩, hr, rfl⟩ := List.mem_map.mp h
      have hsub : List.Sublist (fresh cfg records now) records := List.filter_sublist
      refine ⟨ts, hsub.subset (Newest.mem_of_mem_overflow hr), .inr ⟨hcap, ?_⟩⟩
      have hnodup' := hnodup.sublist (hsub.map Prod.snd)
      exact (Newest.le_length_newer hnodup' hr).trans (hsub.filter _).length_le
    · cases h

/-! ## Names -/

/-- `f"{n:015d}"`. -/
def padded (n : ℕ) : List Char := List.replicate (15 - (Nat.toDigits 10 n).length) '0' ++
  Nat.toDigits 10 n

/-- `_input_key`. -/
def inputKey (modality predictionId : String) (ts : Time) : String :=
  "inputs/" ++ normalizeModality modality ++ "/" ++ String.ofList (padded (ts / 1000)) ++ "-" ++
    predictionId ++ ".json"

/-- A list is cut at the first place of a separator in one way. -/
theorem cut_unique {α : Type} {sep : α} {xs ys us vs : List α} (hx : sep ∉ xs) (hy : sep ∉ ys)
    (h : xs ++ sep :: us = ys ++ sep :: vs) : us = vs := by
  induction xs generalizing ys with
  | nil =>
    cases ys with
    | nil => exact (List.cons.inj h).2
    | cons y ys => exact absurd ((List.cons.inj h).1 ▸ List.mem_cons_self ..) hy
  | cons x xs ih =>
    cases ys with
    | nil => exact absurd ((List.cons.inj h).1 ▸ List.mem_cons_self ..) hx
    | cons y ys =>
      rw [List.mem_cons, not_or] at hx hy
      exact ih hx.2 hy.2 (List.cons.inj h).2

theorem dash_notMem_padded (n : ℕ) : '-' ∉ padded n := by
  rw [padded, List.mem_append, not_or]
  constructor
  · intro h
    exact absurd (List.eq_of_mem_replicate h) (by decide)
  · intro h
    exact absurd (Nat.isDigit_of_mem_toDigits (by decide) (by decide) h) (by decide)

theorem slash_notMem {modality : String} (h : normalizeModality modality ∈ shadowModalities) :
    '/' ∉ (normalizeModality modality).toList := by
  generalize normalizeModality modality = m at h
  simp only [shadowModalities, List.mem_cons, List.not_mem_nil, or_false] at h
  rcases h with rfl | rfl | rfl <;> decide

/-- The name has the prediction in it. -/
theorem inputKey_inj {m m' id id' : String} {ts ts' : Time}
    (hm : normalizeModality m ∈ shadowModalities) (hm' : normalizeModality m' ∈ shadowModalities)
    (h : inputKey m id ts = inputKey m' id' ts') : id = id' := by
  have hlist := congrArg String.toList h
  simp only [inputKey, String.toList_append, String.toList_ofList, List.append_assoc,
    List.append_cancel_left_eq] at hlist
  have hslash := cut_unique (slash_notMem hm) (slash_notMem hm') hlist
  have hdash := cut_unique (dash_notMem_padded _) (dash_notMem_padded _) hslash
  have hid : id.toList = id'.toList := List.append_cancel_right hdash
  exact String.toList_inj.mp hid

end MlopsLite.Gateway.Quality
