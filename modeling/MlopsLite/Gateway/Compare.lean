import MlopsLite.Gateway.Console.Gate

/-!
# Compare — the champion and the gate

`compare` (`gateway/app/evaluation.py`) beside `gate`: both read the tags of the
serving version and of another one. The gate refuses what is worse than a bound,
in the candidate's direction, and a comparison with `nan` is false, so what cannot
be compared passes. `compare` takes the champion's direction and no tolerance.
-/

namespace MlopsLite.Gateway.Compare

open Policy (Version Eval GateConfig Winner computeVerdict incumbentOf regressed higher directionOr)
open Console.Gate (Registry gate)

/-! ## The code -/

inductive CompareError
  | noChampion
  | championNoMetric
  | challengerNoMetric
  | mismatch
  deriving DecidableEq, Repr

structure Comparison where
  metric : String
  direction : String
  benchmark : Option String
  benchmarkHash : Option String
  champion : Version × Number
  challenger : Version × Number
  winner : Winner
  delta : Number
  benchmarkMismatch : Bool

/-- A tag of a version. -/
def tag (r : Registry) (m : String) (v : Version) (key : String) : Option String :=
  (r.versions.get? (m, v)).bind fun tags => tags.get? key

def winner (champ chall : Eval) : Winner :=
  if champ.value.eq chall.value then .tie
  else if champ.value.lt chall.value = decide (champ.direction = higher) then .challenger
  else .champion

def compare (float : String → Option Number) (r : Registry) (m : String) (v : Version) :
    Except CompareError Comparison :=
  match r.servingVersion m with
  | none => .error .noChampion
  | some champion =>
    match r.readEval float m champion, r.readEval float m v with
    | none, _ => .error .championNoMetric
    | some _, none => .error .challengerNoMetric
    | some champ, some chall =>
      if champ.metric ≠ chall.metric ∨ champ.modality ≠ chall.modality then .error .mismatch
      else .ok
        { metric := champ.metric
          direction := champ.direction
          benchmark := tag r m champion "eval_benchmark"
          benchmarkHash := tag r m champion "eval_benchmark_hash"
          champion := (champion, champ.value)
          challenger := (v, chall.value)
          winner := winner champ chall
          delta := (chall.value - champ.value).round 6
          benchmarkMismatch :=
            tag r m champion "eval_benchmark_hash" ≠ tag r m v "eval_benchmark_hash" }

/-! ## What it is for -/

/-- Where the tolerance ends. -/
def bound (tolerance : Number) (direction : String) (inc : Number) : Number :=
  if direction = higher then inc - tolerance * inc.abs else inc + tolerance * inc.abs

def Within (tolerance : Number) (direction : String) (cand inc : Number) : Prop :=
  if direction = higher then (bound tolerance direction inc).le cand = true
  else cand.le (bound tolerance direction inc) = true

def Beyond (tolerance : Number) (direction : String) (cand inc : Number) : Prop :=
  if direction = higher then cand.lt (bound tolerance direction inc) = true
  else (bound tolerance direction inc).lt cand = true

def Better (direction : String) (cand inc : Number) : Prop :=
  if direction = higher then inc.lt cand = true else cand.lt inc = true

/-- A version and another one that serves, with like metrics. -/
structure Pair (float : String → Option Number) (r : Registry) (m : String) (v : Version)
    (cand inc : Eval) : Prop where
  serving : ∃ i, r.servingVersion m = some i ∧ i ≠ v ∧ r.readEval float m i = some inc
  candidate : r.readEval float m v = some cand
  metric : cand.metric = inc.metric
  modality : cand.modality = inc.modality

variable (cfg : Policy.Settings) (float : String → Option Number) (r : Registry) (m : String)
  (v : Version) (overriding : Bool)

/-- The gate lets through only what is within tolerance, and agrees with `compare`. -/
structure Sound : Prop where
  within : (gate cfg float r m v overriding).verdict = .pass → ∀ i inc,
    r.servingVersion m = some i → i ≠ v → r.readEval float m i = some inc →
      ∃ cand, r.readEval float m v = some cand ∧
        Within cfg.gate.tolerance cand.direction cand.value inc.value
  overridden : overriding = true → (gate cfg float r m v overriding).verdict ≠ .blocked
  regression : overriding = false → ∀ cand inc, Pair float r m v cand inc →
    Beyond cfg.gate.tolerance cand.direction cand.value inc.value →
      (gate cfg float r m v overriding).verdict ≠ .pass
  winner : ∀ c, compare float r m v = .ok c → c.winner = .challenger →
    (gate cfg float r m v overriding).verdict = .pass

/-- The numbers have a bound: no `nan`, no infinite tolerance of 0, and no infinity
less itself. -/
def HasBound (tolerance : Number) (direction : String) : Number → Prop
  | .nan => False
  | .fin inc => match tolerance with
    | .nan => False
    | .inf _ => inc ≠ 0
    | .fin _ => True
  | .inf s => match tolerance with
    | .nan => False
    | .inf t => if direction = higher then s ≠ t else s = t
    | .fin q => q ≠ 0 ∧ if direction = higher then s ≠ decide (q < 0) else s = decide (q < 0)

variable {cfg float r m v overriding} {cand inc : Eval} {tolerance x y : Number} {d : String}

/-! ## Bounds -/

/-- The tolerance of an infinity. -/
theorem inf_bound_ne_nan {s t : Bool} {margin : Number} (h : margin = .inf t) :
    (if d = higher then Number.inf s - margin else Number.inf s + margin) ≠ .nan ↔
      if d = higher then s ≠ t else s = t := by
  subst h
  split <;> cases s <;> cases t <;> decide

theorem bound_ne_nan : bound tolerance d y ≠ .nan ↔ HasBound tolerance d y := by
  cases y with
  | nan =>
    have hnan : bound tolerance d .nan = .nan := by
      unfold bound
      split <;> rfl
    exact iff_of_false (fun h => h hnan) id
  | fin q =>
    cases tolerance with
    | nan =>
      have hnan : bound .nan d (.fin q) = .nan := by
        unfold bound
        split <;> rfl
      exact iff_of_false (fun h => h hnan) id
    | inf t =>
      have hmargin : Number.inf t * (Number.fin q).abs = Number.infTimes t |q| := rfl
      rw [bound, hmargin]
      show _ ↔ q ≠ 0
      by_cases hq : q = 0
      · rw [Number.infTimes, if_pos (abs_eq_zero.mpr hq)]
        refine iff_of_false (fun h => h ?_) (not_not_intro hq)
        split <;> rfl
      · rw [Number.infTimes, if_neg (fun h => hq (abs_eq_zero.mp h))]
        refine iff_of_true ?_ hq
        split <;> exact Number.noConfusion
    | fin t =>
      refine iff_of_true ?_ trivial
      unfold bound
      split <;> exact Number.noConfusion
  | inf s =>
    cases tolerance with
    | nan =>
      have hnan : bound .nan d (.inf s) = .nan := by
        unfold bound
        split <;> rfl
      exact iff_of_false (fun h => h hnan) id
    | inf t =>
      have hmargin : Number.inf t * (Number.inf s).abs = .inf t := by
        cases t <;> rfl
      exact inf_bound_ne_nan hmargin
    | fin q =>
      have hmargin : Number.fin q * (Number.inf s).abs = Number.infTimes false q := rfl
      rw [bound, hmargin]
      show _ ↔ q ≠ 0 ∧ _
      by_cases hq : q = 0
      · rw [Number.infTimes, if_pos hq]
        refine iff_of_false (fun h => h ?_) (fun h => h.1 hq)
        split <;> rfl
      · have hinf : Number.infTimes false q = .inf (decide (q < 0)) := by
          rw [Number.infTimes, if_neg hq, Bool.false_xor]
        rw [inf_bound_ne_nan hinf]
        exact ⟨fun h => ⟨hq, h⟩, And.right⟩

/-- What is not beyond the bound is within it, unless there is none to compare with. -/
theorem within_of_not_beyond (hx : x ≠ .nan) (hbound : bound tolerance d y ≠ .nan)
    (h : ¬ Beyond tolerance d x y) : Within tolerance d x y := by
  unfold Within Beyond at *
  split at h
  · rw [if_pos ‹_›, Number.le_eq_not_lt hbound hx]
    simpa using h
  · rw [if_neg ‹_›, Number.le_eq_not_lt hx hbound]
    simpa using h

theorem not_beyond_of_nan (h : x = .nan ∨ bound tolerance d y = .nan) :
    ¬ Beyond tolerance d x y := by
  unfold Beyond
  split
  · rw [Number.lt_of_nan h]
    exact Bool.false_ne_true
  · rw [Number.lt_of_nan h.symm]
    exact Bool.false_ne_true

theorem not_within_of_nan (h : x = .nan ∨ bound tolerance d y = .nan) :
    ¬ Within tolerance d x y := by
  unfold Within
  split
  · rw [Number.le_of_nan h.symm]
    exact Bool.false_ne_true
  · rw [Number.le_of_nan h]
    exact Bool.false_ne_true

/-! ## The gate on a pair -/

theorem directionOr_ne_empty (d : Option String) (metric : String) : directionOr d metric ≠ "" := by
  have hfor : (Policy.directionFor metric).getD higher ≠ "" := by
    unfold Policy.directionFor
    simp only [List.lookup]
    repeat' split
    all_goals decide
  unfold directionOr
  split
  · split
    · exact hfor
    · assumption
  · exact hfor

theorem directionOr_read {e : Eval} (h : r.readEval float m v = some e) :
    directionOr (some e.direction) e.metric = e.direction := by
  obtain ⟨tags, -, h⟩ := Option.bind_eq_some_iff.mp h
  simp only [Eval.read, Option.bind_eq_bind, Option.bind_eq_some_iff, Option.pure_def,
    Option.some.injEq] at h
  obtain ⟨metric, -, text, -, value, -, rfl⟩ := h
  exact if_neg (directionOr_ne_empty _ _)

theorem regressed_iff (hcand : r.readEval float m v = some cand) :
    regressed cfg.gate cand inc = true ↔
      Beyond cfg.gate.tolerance cand.direction cand.value inc.value := by
  unfold regressed Beyond bound
  rw [directionOr_read hcand]
  split <;> rfl

theorem gate_of_pair (h : Pair float r m v cand inc) :
    (gate cfg float r m v overriding).verdict =
      if regressed cfg.gate cand inc = false then .pass
      else if overriding then .warn
      else if cfg.gate.mode = "warn" then .warn
      else .blocked := by
  obtain ⟨⟨i, hserving, hne, hinc⟩, hcand, hmetric, hmodality⟩ := h
  have hincumbent : incumbentOf (some i) v = some i := if_neg fun h => hne (Option.some.inj h)
  rw [gate, hserving, Policy.gateVerdict, hincumbent, hcand]
  simp only [Option.bind_some, hinc, Option.isSome_some, computeVerdict, Bool.not_true,
    Bool.false_eq_true, if_false, ne_eq, hmetric, hmodality, not_true_eq_false, or_self]
  cases regressed cfg.gate cand inc with
  | false => rfl
  | true =>
    cases overriding with
    | true => rfl
    | false =>
      simp only [Bool.not_true, Bool.false_eq_true, if_false]
      split <;> rfl

/-- A version that does not serve passes only in a pair, against an evaluated one. -/
theorem pair_of_pass (hpass : (gate cfg float r m v overriding).verdict = .pass) {i : Version}
    (hserving : r.servingVersion m = some i) (hne : i ≠ v)
    (hinc : r.readEval float m i = some inc) : ∃ cand, Pair float r m v cand inc := by
  have hincumbent : incumbentOf (some i) v = some i := if_neg fun h => hne (Option.some.inj h)
  rw [gate, hserving, Policy.gateVerdict, hincumbent] at hpass
  cases hcand : r.readEval float m v with
  | none =>
    rw [hcand] at hpass
    simp only [Option.bind_some, hinc, Option.isSome_some, computeVerdict, Bool.not_true,
      Bool.false_eq_true, if_false] at hpass
    split at hpass <;> cases hpass
  | some cand =>
    have hlike : cand.metric = inc.metric ∧ cand.modality = inc.modality := by
      by_contra hunlike
      have hunlike : cand.metric ≠ inc.metric ∨ cand.modality ≠ inc.modality := by tauto
      rw [hcand] at hpass
      simp only [Option.bind_some, hinc, Option.isSome_some, computeVerdict, Bool.not_true,
        Bool.false_eq_true, if_false, if_pos hunlike] at hpass
      split at hpass <;> cases hpass
    exact ⟨cand, ⟨i, hserving, hne, hinc⟩, hcand, hlike.1, hlike.2⟩

theorem gate_of_beyond (h : Pair float r m v cand inc)
    (hbeyond : Beyond cfg.gate.tolerance cand.direction cand.value inc.value) :
    (gate cfg float r m v overriding).verdict ≠ .pass := by
  rw [gate_of_pair h, if_neg (by simp [(regressed_iff h.candidate).mpr hbeyond])]
  split
  · exact Policy.VerdictKind.noConfusion
  · split <;> exact Policy.VerdictKind.noConfusion

theorem gate_of_not_beyond (h : Pair float r m v cand inc)
    (hbeyond : ¬ Beyond cfg.gate.tolerance cand.direction cand.value inc.value) :
    (gate cfg float r m v overriding).verdict = .pass := by
  have hfalse : regressed cfg.gate cand inc = false := by
    rwa [← Bool.not_eq_true, regressed_iff h.candidate]
  rw [gate_of_pair h, if_pos hfalse]

theorem gate_overridden : (gate cfg float r m v true).verdict ≠ .blocked := by
  unfold gate Policy.gateVerdict computeVerdict
  dsimp only
  split
  · exact Policy.VerdictKind.noConfusion
  · split
    · simp
    · simp
    · split
      · simp
      · split
        · exact Policy.VerdictKind.noConfusion
        · simp

/-! ## The champion and the challenger -/

/-- `compare` on a pair: the challenger wins if it is better in the champion's direction. -/
theorem winner_iff {champ chall : Eval} (hchamp : champ.value ≠ .nan) (hchall : chall.value ≠ .nan) :
    winner champ chall = .challenger ↔ Better champ.direction chall.value champ.value := by
  unfold winner Better
  by_cases heq : champ.value = chall.value
  · rw [if_pos ((Number.eq_iff hchamp).mpr heq), heq]
    refine iff_of_false Winner.noConfusion ?_
    have hself : chall.value.lt chall.value = false := by
      cases chall.value with
      | nan => rfl
      | inf s => cases s <;> rfl
      | fin q => exact decide_eq_false (lt_irrefl q)
    rw [hself, ite_self]
    exact Bool.false_ne_true
  · have hne : champ.value.eq chall.value ≠ true := fun h => heq ((Number.eq_iff hchamp).mp h)
    rw [if_neg hne]
    by_cases hdir : champ.direction = higher
    · rw [if_pos hdir]
      simp [hdir]
    · rw [if_neg hdir, Number.lt_or_lt hchall hchamp (Ne.symm heq)]
      simp [hdir]

/-- Who wins is a pair, or the serving version itself. -/
theorem compare_ok {c : Comparison} (h : compare float r m v = .ok c) :
    r.servingVersion m = some v ∨ ∃ cand inc, Pair float r m v cand inc ∧ c.winner = winner inc cand := by
  unfold compare at h
  cases hserving : r.servingVersion m with
  | none =>
    rw [hserving] at h
    cases h
  | some i =>
    rw [hserving] at h
    dsimp only at h
    by_cases hi : i = v
    · exact Or.inl (hi ▸ rfl)
    · cases hinc : r.readEval float m i with
      | none =>
        rw [hinc] at h
        cases h
      | some inc =>
        cases hcand : r.readEval float m v with
        | none =>
          rw [hinc, hcand] at h
          cases h
        | some cand =>
          rw [hinc, hcand] at h
          dsimp only at h
          split at h
          · cases h
          · rename_i hlike
            obtain ⟨hmetric, hmodality⟩ := not_or.mp hlike
            cases h
            exact Or.inr ⟨cand, inc, ⟨⟨i, hserving, hi, hinc⟩, hcand, (not_not.mp hmetric).symm,
              (not_not.mp hmodality).symm⟩, rfl⟩

theorem compare_of_pair (h : Pair float r m v cand inc) :
    ∃ c, compare float r m v = .ok c ∧ c.winner = winner inc cand := by
  obtain ⟨⟨i, hserving, hne, hinc⟩, hcand, hmetric, hmodality⟩ := h
  unfold compare
  rw [hserving]
  dsimp only
  rw [hinc, hcand]
  dsimp only
  rw [if_neg (by simp [hmetric, hmodality])]
  exact ⟨_, rfl, rfl⟩

theorem Pair.unique {cand' inc' : Eval} (h : Pair float r m v cand inc)
    (h' : Pair float r m v cand' inc') : cand = cand' ∧ inc = inc' := by
  obtain ⟨⟨i, hserving, -, hinc⟩, hcand, -, -⟩ := h
  obtain ⟨⟨i', hserving', -, hinc'⟩, hcand', -, -⟩ := h'
  rw [hserving] at hserving'
  cases hserving'
  rw [hinc] at hinc'
  rw [hcand] at hcand'
  exact ⟨Option.some.inj hcand', Option.some.inj hinc'⟩

theorem HasBound.inc_ne_nan (h : HasBound tolerance d y) : y ≠ .nan := by
  rintro rfl
  exact h

/-- The gate is sound on a version exactly if the metrics of its pair can be compared
with the tolerance, and the candidate is not at once better than the incumbent in the
incumbent's direction and beyond the tolerance in its own. -/
theorem sound_iff (cfg : Policy.Settings) (float : String → Option Number) (r : Registry)
    (m : String) (v : Version) (overriding : Bool) :
    Sound cfg float r m v overriding ↔ ∀ cand inc, Pair float r m v cand inc →
      (cand.value ≠ .nan ∧ HasBound cfg.gate.tolerance cand.direction inc.value) ∧
      ¬ (Better inc.direction cand.value inc.value ∧
        Beyond cfg.gate.tolerance cand.direction cand.value inc.value) := by
  constructor
  · intro h cand inc hpair
    have hnumbers : cand.value ≠ .nan ∧ HasBound cfg.gate.tolerance cand.direction inc.value := by
      by_contra hnan
      have hnan : cand.value = .nan ∨ bound cfg.gate.tolerance cand.direction inc.value = .nan := by
        rw [← bound_ne_nan] at hnan
        tauto
      -- nothing is beyond such a bound, so the gate passes
      have hpass : (gate cfg float r m v overriding).verdict = .pass :=
        gate_of_not_beyond hpair (not_beyond_of_nan hnan)
      obtain ⟨i, hserving, hne, hinc⟩ := hpair.serving
      obtain ⟨cand', hcand', hwithin⟩ := h.within hpass i inc hserving hne hinc
      rw [hpair.candidate] at hcand'
      cases hcand'
      exact not_within_of_nan hnan hwithin
    refine ⟨hnumbers, fun ⟨hbetter, hbeyond⟩ => ?_⟩
    obtain ⟨c, hc, hwinner⟩ := compare_of_pair hpair
    rw [winner_iff hnumbers.2.inc_ne_nan hnumbers.1 |>.mpr hbetter] at hwinner
    exact gate_of_beyond hpair hbeyond (h.winner c hc hwinner)
  · intro h
    refine ⟨fun hpass i inc hserving hne hinc => ?_, ?_, fun _ cand inc hpair hbeyond => ?_,
      fun c hc hwinner => ?_⟩
    · obtain ⟨cand, hpair⟩ := pair_of_pass hpass hserving hne hinc
      obtain ⟨⟨hcand, hbound⟩, -⟩ := h cand inc hpair
      exact ⟨cand, hpair.candidate, within_of_not_beyond hcand (bound_ne_nan.mpr hbound)
        fun hbeyond => gate_of_beyond hpair hbeyond hpass⟩
    · rintro rfl
      exact gate_overridden
    · exact gate_of_beyond hpair hbeyond
    · rcases compare_ok hc with hserving | ⟨cand, inc, hpair, hwin⟩
      · have hincumbent : incumbentOf (some v) v = none := if_pos rfl
        rw [gate, hserving, Policy.gateVerdict, hincumbent]
        rfl
      · obtain ⟨⟨hcand, hbound⟩, hnot⟩ := h cand inc hpair
        rw [hwin, winner_iff hbound.inc_ne_nan hcand] at hwinner
        exact gate_of_not_beyond hpair fun hbeyond => hnot ⟨hwinner, hbeyond⟩

/-- With one direction and no tolerance below zero what is better is not beyond it. -/
theorem not_beyond_of_better (htolerance : tolerance.lt (.fin 0) = false) (h : Better d x y) :
    ¬ Beyond tolerance d x y := by
  have hmargin := Number.margin_nonneg y htolerance
  unfold Better at h
  unfold Beyond bound
  split
  · rw [if_pos ‹_›] at h
    intro hbeyond
    have hself := Number.lt_trans h hbeyond
    rw [Number.not_lt_sub y hmargin] at hself
    cases hself
  · rw [if_neg ‹_›] at h
    intro hbeyond
    have hself := Number.lt_trans hbeyond h
    rw [Number.not_add_lt y hmargin] at hself
    cases hself

/-- An accuracy of 0.9 that serves, and a version that was logged as `nan`. -/
def oneUnscored : Registry where
  versions := (Dict.empty.insert ("clf", "1")
      ((Dict.empty.insert "eval_metric" "accuracy").insert "eval_value" "0.9")).insert ("clf", "2")
    ((Dict.empty.insert "eval_metric" "accuracy").insert "eval_value" "nan")
  serving := Dict.empty.insert "clf" "1"

def parse (text : String) : Option Number :=
  if text = "nan" then some .nan else if text = "0.9" then some (.fin (9 / 10)) else none

/-- The gate passes it. -/
theorem nan_passes :
    ¬ Sound ⟨⟨"block", .fin (1 / 100), "warn"⟩, 3600, 60, 1800, 3600⟩ parse oneUnscored "clf" "2" false := by
  intro h
  have hpass : (gate ⟨⟨"block", .fin (1 / 100), "warn"⟩, 3600, 60, 1800, 3600⟩ parse oneUnscored
      "clf" "2" false).verdict = .pass := by decide +kernel
  obtain ⟨cand, hcand, hwithin⟩ := h.within hpass "1" ⟨"1", "accuracy", .fin (9 / 10), "higher", none⟩
    (by decide +kernel) (by decide) (by decide +kernel)
  have hvalue : (oneUnscored.readEval parse "clf" "2").map Eval.value = some .nan := by decide +kernel
  rw [hcand] at hvalue
  exact not_within_of_nan (Or.inl (Option.some.inj hvalue)) hwithin

end MlopsLite.Gateway.Compare
