import MlopsLite.Gateway.Policy.Scheduler

/-!
# Policy — auto-promotion and its audit

The scheduler gates a candidate, `promote` gates it again and moves the
alias, and an audit record is written with the first of the two verdicts.
They are the same verdict where nothing that the gates read has changed; and
the record is written where no call between the move and it has failed.
-/

namespace MlopsLite.Gateway.Policy.Promotions

variable {cfg : Settings} {x x' y : World} {s s' : Sys} {m : ModelName} {v : Version}

/-! ## Audit records -/

/-- The audit records of a candidate. -/
def audits (x : World) (m : ModelName) (v : Version) : List Suggestion :=
  x.suggestions.filter fun r => r.state = .autoPromoted ∧ r.modelName = m ∧ r.candidateVersion = v

/-- The move has one record, with its verdict. -/
def Audited (x : World) (mv : Move) : Prop :=
  ∃ r, audits x mv.modelName mv.version = [r] ∧ r.gateVerdict = mv.verdict

def AllAudited (x : World) : Prop := ∀ mv ∈ x.history.moves, Audited x mv

theorem audits_insert (x : World) (m : ModelName) (v : Version) (gate : Verdict)
    (shadow : Option Winner) (byPolicy : Bool) (m' : ModelName) (v' : Version) :
    audits (x.insertSuggestion m v gate shadow .autoPromoted byPolicy) m' v' =
      audits x m' v' ++ if m = m' ∧ v = v' then
        [⟨x.nextId, m, v, gate, shadow, .autoPromoted, byPolicy⟩] else [] := by
  simp only [audits, World.insertSuggestion, List.filter_append, List.filter_singleton]
  congr 1
  by_cases h : m = m' ∧ v = v' <;> simp [h]

theorem audits_insert_of_ne (x : World) (m : ModelName) (v : Version) (gate : Verdict)
    (shadow : Option Winner) {state : SuggestionState} (hstate : state ≠ .autoPromoted)
    (byPolicy : Bool) (m' : ModelName) (v' : Version) :
    audits (x.insertSuggestion m v gate shadow state byPolicy) m' v' = audits x m' v' := by
  simp [audits, World.insertSuggestion, List.filter_append, hstate]

/-- To resolve a suggestion neither makes nor ends an audit record. -/
theorem audits_resolve (x : World) (id : SuggestionId) {state : SuggestionState}
    (hstate : state ≠ .autoPromoted) (m : ModelName) (v : Version) :
    audits (x.resolveSuggestion id state) m v = audits x m v := by
  simp only [audits, World.resolveSuggestion]
  induction x.suggestions with
  | nil => rfl
  | cons r rest ih =>
    rw [List.map_cons, List.filter_cons, List.filter_cons, ih]
    split
    · rename_i hopen
      simp [hopen.2, hstate]
    · rfl

/-! ## What the gates read -/

/-- The reads of one gate. -/
def reads (serving : Option Version) (v : Version) (candidate incumbent : Option Eval) :
    List Seen :=
  [.serving serving, .eval v candidate] ++
    (incumbentOf serving v).elim [] fun i => [.eval i incumbent]

/-- A gate's verdict is what its reads make it; `promote`'s is against what
served. -/
def Saw (cfg : Settings) (reader : Reader) (v : Version) (verdict : Verdict) (x : World) : Prop :=
  ∃ serving candidate incumbent,
    x.history.reads reader = reads serving v candidate incumbent ∧
    verdict = gateVerdict cfg serving v candidate incumbent false ∧
    (incumbentOf serving v = none → incumbent = none) ∧
    (reader = .promotion .policy → serving = x.history.against reader)

/-- Two gates that read the same judge the same. -/
theorem Saw.eq {r r' : Reader} {verdict verdict' : Verdict} (h : Saw cfg r v verdict x)
    (h' : Saw cfg r' v verdict' x) (heq : x.history.reads r = x.history.reads r') :
    verdict = verdict' := by
  obtain ⟨serving, candidate, incumbent, hreads, rfl, hnone, -⟩ := h
  obtain ⟨serving', candidate', incumbent', hreads', rfl, hnone', -⟩ := h'
  rw [hreads, hreads'] at heq
  simp only [reads, List.cons_append, List.nil_append, List.cons.injEq, Seen.serving.injEq,
    Seen.eval.injEq, true_and] at heq
  obtain ⟨rfl, rfl, hrest⟩ := heq
  cases hinc : incumbentOf serving v with
  | none => rw [hnone hinc, hnone' hinc]
  | some i =>
    simp only [hinc, Option.elim_some, List.cons.injEq, Seen.eval.injEq, true_and, and_true]
      at hrest
    rw [hrest]

/-! ## The rule -/

/-- A move of a candidate has no record. -/
def Unaudited (x : World) (m : ModelName) (v : Version) : Prop :=
  (∃ mv ∈ x.history.moves, mv.modelName = m ∧ mv.version = v) ∧ audits x m v = []

/-- The call goes on as the gate before it found things: `promote` reads what
serves; an alias is moved where both gates read the same, and not for a
candidate that has its record; and no call between the move and its record
fails. -/
def Steady (c : Choice) (x : World) : Op → Prop
  | .servingVersion (.promotion .policy) m => c = .fate .done ∨ x.serving.get? m = none
  | .setAlias .policy m v _ => c ≠ .fate .fails → x.serving.get? m ≠ some v →
      x.history.reads (.promotion .policy) = x.history.reads .judge ∧ c ≠ .fate .lost ∧
        audits x m v = []
  | .findSuggestion m v .autoPromoted => Unaudited x m v → c = .fate .done
  | .insertSuggestion m v _ _ .autoPromoted _ => Unaudited x m v → c ≠ .fate .fails
  | _ => True

/-- The gateway does not stop between a move and its record. -/
def Kept (c : Choice) (x : World) : Prop :=
  c = .restart → ∀ mv ∈ x.history.moves, audits x mv.modelName mv.version ≠ []

/-- A move was made on a pass, computed against what served. -/
def Green (cfg : Settings) (mv : Move) : Prop :=
  mv.verdict.verdict = .pass ∧ ∃ candidate incumbent,
    mv.verdict = gateVerdict cfg mv.against mv.version candidate incumbent false

structure Inv (cfg : Settings) (x : World) : Prop where
  single : ∀ m v, (audits x m v).length ≤ 1
  green : ∀ mv ∈ x.history.moves, Green cfg mv
  audited : ∀ mv ∈ x.history.moves, audits x mv.modelName mv.version = [] ∨ Audited x mv

/-- What only the scheduler changes. -/
structure Same (x y : World) : Prop where
  audits : audits y = audits x
  moves : y.history.moves = x.history.moves
  reads : ∀ r, r = .judge ∨ r = .promotion .policy →
    y.history.reads r = x.history.reads r ∧ y.history.against r = x.history.against r

theorem Same.refl (x : World) : Same x x := ⟨rfl, rfl, fun _ _ => ⟨rfl, rfl⟩⟩

theorem Same.trans {z : World} (h : Same x y) (h' : Same y z) : Same x z where
  audits := h'.audits.trans h.audits
  moves := h'.moves.trans h.moves
  reads r hr := ⟨(h'.reads r hr).1.trans (h.reads r hr).1, (h'.reads r hr).2.trans (h.reads r hr).2⟩

theorem Same.audited (h : Same x y) {mv : Move} (ha : Audited x mv) : Audited y mv := by
  unfold Audited
  rw [h.audits]
  exact ha

theorem Same.allAudited (h : Same x y) (ha : AllAudited x) : AllAudited y := by
  intro mv hmv
  rw [h.moves] at hmv
  exact h.audited (ha mv hmv)

theorem Same.saw (h : Same x y) {r : Reader} (hr : r = .judge ∨ r = .promotion .policy)
    {verdict : Verdict} (hsaw : Saw cfg r v verdict x) : Saw cfg r v verdict y := by
  unfold Saw
  rw [(h.reads r hr).1, (h.reads r hr).2]
  exact hsaw

theorem Inv.same (hinv : Inv cfg x) (h : Same x y) : Inv cfg y where
  single m v := by
    rw [h.audits]
    exact hinv.single m v
  green mv hmv := by
    rw [h.moves] at hmv
    exact hinv.green mv hmv
  audited mv hmv := by
    rw [h.moves] at hmv
    rw [h.audits]
    exact (hinv.audited mv hmv).imp_right h.audited

/-- A call that keeps to `Same`. -/
def quiet : Op → Bool
  | .servingVersion r _ | .readEval r _ _ => !(r = .judge || r = .promotion .policy)
  | .setAlias mover _ _ _ => mover = .operator
  | .insertSuggestion _ _ _ _ state _ | .resolveSuggestion _ state => state ≠ .autoPromoted
  | _ => true

theorem same_of_did {o : Op} (h : Did cfg x o x') (ho : quiet o = true) : Same x x' := by
  cases h with
  | inserted m v gate shadow state byPolicy =>
    have hstate : state ≠ .autoPromoted := by simpa [quiet] using ho
    refine ⟨?_, rfl, fun _ _ => ⟨rfl, rfl⟩⟩
    funext m' v'
    exact audits_insert_of_ne x m v gate shadow hstate byPolicy m' v'
  | resolved id state =>
    have hstate : state ≠ .autoPromoted := by simpa [quiet] using ho
    refine ⟨?_, rfl, fun _ _ => ⟨rfl, rfl⟩⟩
    funext m' v'
    exact audits_resolve x id hstate m' v'
  | moved mover m v verdict =>
    have hmover : mover = .operator := by simpa [quiet] using ho
    subst hmover
    exact ⟨rfl, rfl, fun _ _ => ⟨rfl, rfl⟩⟩
  | seenServing reader m v =>
    refine ⟨rfl, rfl, fun r hr => ?_⟩
    have hne : r ≠ reader := by
      rintro rfl
      rcases hr with rfl | rfl <;> simp [quiet] at ho
    exact ⟨Function.update_of_ne hne .., Function.update_of_ne hne ..⟩
  | seenEval reader m v e =>
    refine ⟨rfl, rfl, fun r hr => ?_⟩
    have hne : r ≠ reader := by
      rintro rfl
      rcases hr with rfl | rfl <;> simp [quiet] at ho
    exact ⟨Function.update_of_ne hne .., rfl⟩
  | _ => exact ⟨rfl, rfl, fun _ _ => ⟨rfl, rfl⟩⟩

/-- Only the scheduler moves an alias by policy, or records it. -/
abbrev spec (cfg : Settings) (t : ThreadId) : Code.Spec World Choice Op Reply where
  exec := exec cfg
  inv := Inv cfg
  cond := Steady
  rely x y := y.epoch = x.epoch ∧ (t = scheduler → Same x y)
  guar x y := y.epoch = x.epoch ∧ (t ≠ scheduler → Same x y)

theorem keeps_of_quiet {α : Type} {t : ThreadId} {J : World → Prop}
    (hJ : ∀ x y, Same x y → J x → J y) (hstable : ∀ x y, J x → (spec cfg t).rely x y → J y)
    {code : Prog α} (h : code.Calls fun o => quiet o = true) : code.Keeps (spec cfg t) J := by
  refine Code.keeps_of_calls h ?_ hstable
  intro c x o x' r ho hx hinv _ he
  have hdid := did_of_exec he
  have hsame := same_of_did hdid ho
  exact ⟨hinv.same hsame, ⟨epoch_of_did hdid, fun _ => hsame⟩, hJ x x' hsame hx⟩

theorem stable_of_same {J : World → Prop} (hJ : ∀ x y, Same x y → J x → J y) (x y : World)
    (hx : J x) (hrely : (spec cfg scheduler).rely x y) : J y := hJ x y (hrely.2 rfl) hx

/-! ## A gate -/

/-- A read of a gate, which touches no other gate's. -/
structure Reading (r : Reader) (x y : World) : Prop where
  epoch : y.epoch = x.epoch
  audits : audits y = audits x
  moves : y.history.moves = x.history.moves
  others : ∀ r', r' ≠ r →
    y.history.reads r' = x.history.reads r' ∧ y.history.against r' = x.history.against r'

theorem Reading.allAudited {r : Reader} (h : Reading r x y) (ha : AllAudited x) :
    AllAudited y := by
  unfold AllAudited Audited
  rw [h.moves, h.audits]
  exact ha

theorem Inv.reading {r : Reader} (hinv : Inv cfg x) (h : Reading r x y) : Inv cfg y where
  single m v := by
    rw [h.audits]
    exact hinv.single m v
  green mv hmv := by
    rw [h.moves] at hmv
    exact hinv.green mv hmv
  audited mv hmv := by
    rw [h.moves] at hmv
    unfold Audited
    rw [h.audits]
    exact hinv.audited mv hmv

theorem reading_serving (x : World) (m : ModelName) (v : Option Version) (r : Reader) :
    Reading r x (x.seesServing m v r) where
  epoch := rfl
  audits := rfl
  moves := rfl
  others _ hr' := ⟨Function.update_of_ne hr' .., Function.update_of_ne hr' ..⟩

theorem reading_eval (x : World) (v : Version) (e : Option Eval) (r : Reader) :
    Reading r x (x.seesEval v e r) where
  epoch := rfl
  audits := rfl
  moves := rfl
  others _ hr' := ⟨Function.update_of_ne hr' .., rfl⟩

theorem of_exec_serving (cfg : Settings) {c : Choice} {r : Reader} {serving : Option Version}
    (h : exec cfg c x (.servingVersion r m) = some (x', serving)) :
    x' = x.seesServing m serving r ∧
      (c = .fate .done ∨ x.serving.get? m = none → serving = x.serving.get? m) := by
  cases c <;> simp only [exec, reduceCtorEq] at h
  rename_i f
  obtain ⟨rfl, rfl⟩ := Prod.mk.inj (Option.some.inj h)
  refine ⟨rfl, fun hread => ?_⟩
  rcases hread with hdone | hnone
  · rw [if_pos (Choice.fate.inj hdone)]
  · rw [hnone, ite_self]

theorem of_exec_eval (cfg : Settings) {c : Choice} {r : Reader} {e : Option Eval}
    (h : exec cfg c x (.readEval r m v) = some (x', e)) : x' = x.seesEval v e r := by
  cases c <;> simp only [exec, reduceCtorEq] at h
  obtain ⟨rfl, rfl⟩ := Prod.mk.inj (Option.some.inj h)
  rfl

/-- A gate of the scheduler ends with what it saw, and with what does not
depend on its reads. -/
theorem meets_gate {r : Reader} (hr : r = .judge ∨ r = .promotion .policy) {K : World → Prop}
    (hsame : ∀ x y, Same x y → K x → K y) (hown : ∀ x y, Reading r x y → K x → K y)
    {raises : Err → World → Prop} (hx : K x) :
    (gate cfg r m v false).Meets (spec cfg scheduler)
      (fun verdict y => K y ∧ Saw cfg r v verdict y) raises x := by
  refine Code.meets_bind (Code.meets_op ?_)
  intro c x₁ serving hinv hread he
  obtain ⟨rfl, hserving⟩ := of_exec_serving cfg he
  have hreading := reading_serving x m serving r
  refine ⟨hinv.reading hreading, ⟨rfl, fun h => absurd rfl h⟩, fun y hy hrely => ?_⟩
  have hy₁ := hrely.2 rfl
  have hKy : K y := hsame _ _ hy₁ (hown _ _ hreading hx)
  have hfirst : y.history.reads r = [.serving serving] :=
    (hy₁.reads r hr).1.trans (x.seesServing_reads m serving r)
  have hagainst : r = .promotion .policy → serving = y.history.against r := by
    intro hpolicy
    rw [(hy₁.reads r hr).2]
    subst hpolicy
    exact (hserving hread).trans (x.seesServing_against m serving _).symm
  refine Code.meets_bind (Code.meets_op ?_)
  intro c y₁ candidate hinv _ he
  obtain rfl := of_exec_eval cfg he
  have hreading := reading_eval y v candidate r
  refine ⟨hinv.reading hreading, ⟨rfl, fun h => absurd rfl h⟩, fun z hz hrely => ?_⟩
  have hz₁ := hrely.2 rfl
  have hKz : K z := hsame _ _ hz₁ (hown _ _ hreading hKy)
  have hsecond : z.history.reads r = [.serving serving, .eval v candidate] := by
    rw [(hz₁.reads r hr).1, World.seesEval_reads, hfirst]
    rfl
  have hagainst : r = .promotion .policy → serving = z.history.against r := fun h =>
    (hagainst h).trans (hz₁.reads r hr).2.symm
  cases hinc : incumbentOf serving v with
  | none =>
    refine ⟨hKz, serving, candidate, none, ?_, rfl, fun _ => rfl, hagainst⟩
    rw [hsecond, reads, hinc]
    rfl
  | some i =>
    refine Code.meets_bind (Code.meets_op ?_)
    intro c z₁ incumbent hinv _ he
    obtain rfl := of_exec_eval cfg he
    have hreading := reading_eval z i incumbent r
    refine ⟨hinv.reading hreading, ⟨rfl, fun h => absurd rfl h⟩, fun w _ hrely => ?_⟩
    have hw₁ := hrely.2 rfl
    refine ⟨hsame _ _ hw₁ (hown _ _ hreading hKz), serving, candidate, incumbent, ?_, rfl, ?_, ?_⟩
    · rw [(hw₁.reads r hr).1, World.seesEval_reads, hsecond, reads, hinc]
      rfl
    · intro hnone
      cases hinc.symm.trans hnone
    · exact fun h => (hagainst h).trans (hw₁.reads r hr).2.symm

/-! ## The alias and its record -/

/-- All moves have their record but the last, of a candidate that has none. -/
def LastUnaudited (m : ModelName) (v : Version) (verdict : Verdict) (x : World) : Prop :=
  audits x m v = [] ∧ ∃ before against,
    x.history.moves = before ++ [⟨m, v, verdict, against⟩] ∧ ∀ mv ∈ before, Audited x mv

theorem LastUnaudited.same {verdict : Verdict} (h : LastUnaudited m v verdict x) (hs : Same x y) :
    LastUnaudited m v verdict y := by
  obtain ⟨hnone, before, against, hmoves, hbefore⟩ := h
  exact ⟨hs.audits ▸ hnone, before, against, hs.moves.trans hmoves,
    fun mv hmv => hs.audited (hbefore mv hmv)⟩

/-- Whose record is to be written: nobody's, or the last move's. -/
def Due (m : ModelName) (v : Version) (verdict : Verdict) (x : World) : Prop :=
  AllAudited x ∨ LastUnaudited m v verdict x

theorem Due.same {verdict : Verdict} (h : Due m v verdict x) (hs : Same x y) :
    Due m v verdict y := h.imp hs.allAudited fun h => h.same hs

theorem LastUnaudited.unaudited {verdict : Verdict} (h : LastUnaudited m v verdict x) :
    Unaudited x m v := by
  obtain ⟨hnone, before, against, hmoves, -⟩ := h
  exact ⟨⟨⟨m, v, verdict, against⟩, by simp [hmoves], rfl, rfl⟩, hnone⟩

theorem audited_insert_of_ne {verdict : Verdict} {shadow : Option Winner} {byPolicy : Bool}
    (hnone : audits x m v = []) {mv : Move} (h : Audited x mv) :
    Audited (x.insertSuggestion m v verdict shadow .autoPromoted byPolicy) mv := by
  obtain ⟨r, hr, hverdict⟩ := h
  have hne : ¬(m = mv.modelName ∧ v = mv.version) := by
    rintro ⟨rfl, rfl⟩
    cases hnone.symm.trans hr
  refine ⟨r, ?_, hverdict⟩
  rw [audits_insert, if_neg hne, List.append_nil, hr]

/-- The insertion of a record. -/
theorem allAudited_insert {verdict : Verdict} (shadow : Option Winner) (byPolicy : Bool)
    (hnone : audits x m v = []) (hdue : Due m v verdict x) :
    AllAudited (x.insertSuggestion m v verdict shadow .autoPromoted byPolicy) := by
  intro mv hmv
  rcases hdue with hall | ⟨-, before, against, hmoves, hbefore⟩
  · exact audited_insert_of_ne hnone (hall mv hmv)
  · have hmv : mv ∈ before ++ [⟨m, v, verdict, against⟩] := hmoves ▸ hmv
    rcases List.mem_append.mp hmv with hmv | hmv
    · exact audited_insert_of_ne hnone (hbefore mv hmv)
    · obtain rfl := List.mem_singleton.mp hmv
      refine ⟨⟨x.nextId, m, v, verdict, shadow, .autoPromoted, byPolicy⟩, ?_, rfl⟩
      rw [audits_insert, if_pos ⟨rfl, rfl⟩, hnone]
      rfl

theorem inv_insert {verdict : Verdict} (shadow : Option Winner) (byPolicy : Bool)
    (hinv : Inv cfg x) (hnone : audits x m v = []) (hdue : Due m v verdict x) :
    Inv cfg (x.insertSuggestion m v verdict shadow .autoPromoted byPolicy) where
  single m' v' := by
    rw [audits_insert]
    split
    · rename_i heq
      obtain ⟨rfl, rfl⟩ := heq
      rw [hnone]
      exact le_rfl
    · rw [List.append_nil]
      exact hinv.single m' v'
  green := hinv.green
  audited mv hmv := .inr (allAudited_insert shadow byPolicy hnone hdue mv hmv)

/-- A lookup finds the record, or fails. -/
theorem of_exec_find (cfg : Settings) {c : Choice} {found : Option (Option Suggestion)}
    (h : exec cfg c x (.findSuggestion m v .autoPromoted) = some (x', found)) :
    x' = x ∧ ((c ≠ .fate .done ∧ found = none) ∨
      (found = some none ∧ audits x m v = []) ∨ ∃ r, found = some (some r) ∧ audits x m v ≠ []) := by
  cases c <;> simp only [exec, reduceCtorEq] at h
  rename_i f
  cases f with
  | done =>
    obtain ⟨rfl, rfl⟩ := Prod.mk.inj (Option.some.inj h)
    refine ⟨rfl, .inr ?_⟩
    cases hfind : x.suggestions.find? fun r =>
        r.modelName = m ∧ r.candidateVersion = v ∧ r.state = .autoPromoted with
    | none =>
      refine .inl ⟨rfl, List.filter_eq_nil_iff.mpr fun r hr => ?_⟩
      have := List.find?_eq_none.mp hfind r hr
      simp only [decide_eq_true_eq] at this ⊢
      tauto
    | some r =>
      refine .inr ⟨r, rfl, fun hnil => ?_⟩
      have hsat := List.find?_some hfind
      have := List.filter_eq_nil_iff.mp hnil r (List.mem_of_find?_eq_some hfind)
      simp only [decide_eq_true_eq] at this hsat
      tauto
  | fails =>
    obtain ⟨rfl, rfl⟩ := Prod.mk.inj (Option.some.inj h)
    exact ⟨rfl, .inl ⟨by simp, rfl⟩⟩
  | lost =>
    obtain ⟨rfl, rfl⟩ := Prod.mk.inj (Option.some.inj h)
    exact ⟨rfl, .inl ⟨by simp, rfl⟩⟩

theorem of_exec_insert (cfg : Settings) {c : Choice} {verdict : Verdict} {shadow : Option Winner}
    {state : SuggestionState} {byPolicy ok : Bool}
    (h : exec cfg c x (.insertSuggestion m v verdict shadow state byPolicy) = some (x', ok)) :
    (c = .fate .fails ∧ x' = x) ∨ x' = x.insertSuggestion m v verdict shadow state byPolicy := by
  cases c <;> simp only [exec, reduceCtorEq] at h
  rcases of_writeAs h with ⟨rfl, rfl, -⟩ | ⟨-, rfl, -⟩ | ⟨-, rfl, -⟩
  · exact .inl ⟨rfl, rfl⟩
  · exact .inr rfl
  · exact .inr rfl

theorem meets_createSuggestion {verdict : Verdict} (shadow : Option Winner) (byPolicy : Bool)
    (hdue : Due m v verdict x) :
    (createSuggestion m v verdict shadow .autoPromoted byPolicy).Meets (spec cfg scheduler)
      (fun _ => AllAudited) (fun _ => AllAudited) x := by
  refine Code.meets_bind (Code.meets_bind (Code.meets_op ?_))
  intro c x₁ found hinv hfind he
  obtain ⟨rfl, hfound⟩ := of_exec_find cfg he
  refine ⟨hinv, ⟨rfl, fun _ => .refl _⟩, fun y hy hrely => ?_⟩
  have hsame := hrely.2 rfl
  rcases hfound with ⟨hfails, rfl⟩ | ⟨rfl, hnone⟩ | ⟨r, rfl, hsome⟩
  · -- the lookup failed: no record was due
    rcases hdue with hall | hlast
    · exact hsame.allAudited hall
    · exact absurd (hfind hlast.unaudited) hfails
  · have hdue := hdue.same hsame
    have hnone : audits y m v = [] := hsame.audits ▸ hnone
    refine Code.meets_bind (Code.meets_op ?_)
    intro c y₁ ok hinv hinsert he
    have hall := allAudited_insert shadow byPolicy hnone hdue
    have hwritten := inv_insert shadow byPolicy hinv hnone hdue
    rcases of_exec_insert cfg he with ⟨hfails, rfl⟩ | rfl
    · have hall : AllAudited y₁ := by
        rcases hdue with hall | hlast
        · exact hall
        · exact absurd hfails (hinsert hlast.unaudited)
      refine ⟨hinv, ⟨rfl, fun h => absurd rfl h⟩, fun z _ hrely => ?_⟩
      exact keeps_okStore ok z ((hrely.2 rfl).allAudited hall)
    · refine ⟨hwritten, ⟨rfl, fun h => absurd rfl h⟩, fun z _ hrely => ?_⟩
      exact keeps_okStore ok z ((hrely.2 rfl).allAudited hall)
  · rcases hdue with hall | hlast
    · exact hsame.allAudited hall
    · exact absurd hlast.1 hsome

theorem of_exec_alias (cfg : Settings) {c : Choice} {verdict : Verdict} {ok : Bool} {mover : Mover}
    (h : exec cfg c x (.setAlias mover m v verdict) = some (x', ok)) :
    (c = .fate .fails ∧ x' = x ∧ ok = false) ∨
      (c ≠ .fate .fails ∧ x' = x.setAlias mover m v verdict ∧ (ok = false → c = .fate .lost)) := by
  cases c <;> simp only [exec, reduceCtorEq] at h
  rcases of_writeAs h with ⟨rfl, rfl, rfl⟩ | ⟨rfl, rfl, rfl⟩ | ⟨rfl, rfl, rfl⟩
  · exact .inl ⟨rfl, rfl, rfl⟩
  · exact .inr ⟨by simp, rfl, by simp⟩
  · exact .inr ⟨by simp, rfl, fun _ => rfl⟩

/-- A write of the version that serves moves nothing. -/
theorem same_setAlias (verdict : Verdict) (hserving : x.serving.get? m = some v) :
    Same x (x.setAlias .policy m v verdict) := by
  refine ⟨rfl, ?_, fun _ _ => ⟨rfl, rfl⟩⟩
  simp [World.setAlias, hserving]

theorem moves_setAlias {verdict : Verdict} (hserving : x.serving.get? m ≠ some v) :
    (x.setAlias .policy m v verdict).history.moves = x.history.moves ++
      [⟨m, v, verdict, x.history.against (.promotion .policy)⟩] := by
  simp [World.setAlias, hserving]

theorem lastUnaudited_setAlias {verdict : Verdict} (hserving : x.serving.get? m ≠ some v)
    (hall : AllAudited x) (hnone : audits x m v = []) :
    LastUnaudited m v verdict (x.setAlias .policy m v verdict) :=
  ⟨hnone, _, _, moves_setAlias hserving, hall⟩

theorem inv_setAlias {verdict : Verdict} (hinv : Inv cfg x)
    (hserving : x.serving.get? m ≠ some v) (hnone : audits x m v = [])
    (hgreen : Green cfg ⟨m, v, verdict, x.history.against (.promotion .policy)⟩) :
    Inv cfg (x.setAlias .policy m v verdict) where
  single := hinv.single
  green mv hmv := by
    rw [moves_setAlias hserving] at hmv
    rcases List.mem_append.mp hmv with hmv | hmv
    · exact hinv.green mv hmv
    · exact List.mem_singleton.mp hmv ▸ hgreen
  audited mv hmv := by
    rw [moves_setAlias hserving] at hmv
    rcases List.mem_append.mp hmv with hmv | hmv
    · exact hinv.audited mv hmv
    · obtain rfl := List.mem_singleton.mp hmv
      exact .inl hnone

theorem green_of_saw {verdict : Verdict} (hpass : verdict.verdict = .pass)
    (hsaw : Saw cfg (.promotion .policy) v verdict x) :
    Green cfg ⟨m, v, verdict, x.history.against (.promotion .policy)⟩ := by
  obtain ⟨serving, candidate, incumbent, -, hverdict, -, hagainst⟩ := hsaw
  refine ⟨hpass, candidate, incumbent, ?_⟩
  rw [← hagainst rfl]
  exact hverdict

/-- `promote` moves the alias for the verdict that the scheduler has judged
by, or refuses. -/
theorem meets_promote {verdict : Verdict} (hpass : verdict.verdict = .pass)
    (hall : AllAudited x) (hsaw : Saw cfg .judge v verdict x) :
    (promote cfg .policy m v false).Meets (spec cfg scheduler)
      (fun promoted y => if promoted.promoted then Due m v verdict y else AllAudited y)
      (fun _ => AllAudited) x := by
  let K (y : World) : Prop := AllAudited y ∧ Saw cfg .judge v verdict y
  have hsame : ∀ y z, Same y z → K y → K z := fun _ _ h hK =>
    ⟨h.allAudited hK.1, h.saw (.inl rfl) hK.2⟩
  have hown : ∀ y z, Reading (.promotion .policy) y z → K y → K z := by
    intro y z h hK
    refine ⟨h.allAudited hK.1, ?_⟩
    obtain ⟨serving, candidate, incumbent, hreads, hverdict, hnone, -⟩ := hK.2
    refine ⟨serving, candidate, incumbent, ?_, hverdict, hnone, by simp⟩
    exact ((h.others .judge (by simp)).1).trans hreads
  refine Code.meets_bind ((meets_gate (.inr rfl) hsame hown ⟨hall, hsaw⟩).mono ?_ fun _ _ h => h)
  intro verdict' y ⟨⟨hall, hsaw⟩, hsaw'⟩
  split
  · exact hall
  · refine Code.meets_bind (Code.meets_op ?_)
    intro c y₁ ok hinv hmove he
    rcases of_exec_alias cfg he with ⟨-, rfl, rfl⟩ | ⟨hfails, rfl, hok⟩
    · exact ⟨hinv, ⟨rfl, fun h => absurd rfl h⟩, fun z _ hrely => (hrely.2 rfl).allAudited hall⟩
    · by_cases hserving : y.serving.get? m = some v
      · have hsame := same_setAlias verdict' hserving
        refine ⟨hinv.same hsame, ⟨rfl, fun h => absurd rfl h⟩, fun z _ hrely => ?_⟩
        have hall := (hrely.2 rfl).allAudited (hsame.allAudited hall)
        cases ok with
        | true => exact .inl hall
        | false => exact hall
      · -- the two gates have read the same
        obtain ⟨hreads, hlost, hnone⟩ := hmove hfails hserving
        obtain rfl := hsaw.eq hsaw' hreads.symm
        have hok : ok = true := by
          by_contra hno
          exact hlost (hok (by simpa using hno))
        subst hok
        refine ⟨inv_setAlias hinv hserving hnone (green_of_saw hpass hsaw'),
          ⟨rfl, fun h => absurd rfl h⟩, fun z _ hrely => ?_⟩
        exact .inr ((lastUnaudited_setAlias hserving hall hnone).same (hrely.2 rfl))

/-! ## A tick -/

theorem keeps_judgeCandidate (p : ModelPolicy) (status : Status) (v : Version) (now : ℚ) :
    (judgeCandidate cfg p status v now).Keeps (spec cfg scheduler) AllAudited := by
  have hquiet : ∀ {α : Type} {code : Prog α}, (code.Calls fun o => quiet o = true) →
      code.Keeps (spec cfg scheduler) AllAudited := fun h =>
    keeps_of_quiet (fun _ _ => Same.allAudited) (stable_of_same fun _ _ => Same.allAudited) h
  have hsave : ∀ st (actions : List Action), (saveStatus p.modelName st >>= fun _ =>
      (pure actions : Prog (List Action))).Keeps (spec cfg scheduler) AllAudited := fun _ _ =>
    Code.keeps_bind (hquiet (calls_write (calls_ask rfl))) fun _ => Code.keeps_ret _
  intro x hx
  refine Code.meets_bind ((meets_gate (.inl rfl) (fun _ _ => Same.allAudited)
    (fun _ _ => Reading.allAudited) hx).mono ?_ fun _ _ h => h)
  intro verdict y ⟨hall, hsaw⟩
  -- the verdict is about what the gate read until the alias is moved
  let K (z : World) : Prop := AllAudited z ∧ Saw cfg .judge v verdict z
  have hK : ∀ y z, Same y z → K y → K z := fun _ _ h hK =>
    ⟨h.allAudited hK.1, h.saw (.inl rfl) hK.2⟩
  have hshadow : (shadowFn p.modelName v).Keeps (spec cfg scheduler) K :=
    keeps_of_quiet hK (stable_of_same hK) (calls_shadowFn rfl)
  refine Code.meets_bind ((hshadow y ⟨hall, hsaw⟩).mono ?_ fun _ _ h => h.1)
  intro shadow z ⟨hall, hsaw⟩
  split
  · exact hsave _ _ z hall
  · rename_i hgreen
    have hpass : verdict.verdict = .pass := by
      have hgreen : green verdict shadow = true := by simpa using hgreen
      unfold green at hgreen
      exact of_decide_eq_true (Bool.and_eq_true_iff.mp hgreen).1
    split
    · refine Code.meets_bind ((meets_promote hpass hall hsaw).mono ?_ fun _ _ h => h)
      intro promoted w hw
      split
      · rename_i hpromoted
        rw [if_pos hpromoted] at hw
        refine Code.meets_bind ((meets_createSuggestion shadow true hw).mono ?_ fun _ _ h => h)
        exact fun _ u hall => hsave _ _ u hall
      · rename_i hrefused
        rw [if_neg hrefused] at hw
        exact hsave _ _ w hw
    · refine Code.keeps_bind (hquiet ?_) (fun _ => hsave _ _) z hall
      refine Code.calls_bind (calls_read (calls_ask rfl)) fun found => ?_
      split
      · trivial
      · exact calls_write (calls_ask rfl)

/-- What neither the retrains nor a request calls. -/
theorem quiet_of_not_promotes {o : Op} (h : o.promotes = false) : quiet o = true := by
  cases o <;> first | rfl | cases h

theorem quiet_of_route {t : ThreadId} {o : Op} (h : o.ofRoute t = true) : quiet o = true := by
  unfold Op.ofRoute at h
  split at h <;> first | rfl | cases h

theorem keeps_tick : (tick cfg).Keeps (spec cfg scheduler) AllAudited := by
  have hquiet : ∀ {α : Type} {code : Prog α}, (code.Calls fun o => quiet o = true) →
      code.Keeps (spec cfg scheduler) AllAudited := fun h =>
    keeps_of_quiet (fun _ _ => Same.allAudited) (stable_of_same fun _ _ => Same.allAudited) h
  refine Policy.keeps_tick (hquiet (calls_ask rfl)) (hquiet (calls_ask rfl)) ?_ ?_ ?_
  · exact fun p now => hquiet (calls_retryPending (fun _ => quiet_of_not_promotes) cfg p now)
  · exact fun p now => hquiet (calls_runDueChecks (fun _ => quiet_of_not_promotes) cfg p now)
  · exact fun p now => keeps_pollWatch (fun _ => hquiet (calls_ask rfl))
      (fun _ _ => hquiet (calls_ask rfl)) (fun _ => hquiet (calls_ask rfl))
      fun status v => keeps_judgeCandidate p status v now

theorem sound (cfg : Settings) :
    Code.Sound (machine cfg) (Inv cfg) (fun _ => Steady) (fun _ => Kept)
      (fun t => (spec cfg t).rely) (fun t => (spec cfg t).guar)
      fun t x => t = scheduler → AllAudited x where
  refl t x := ⟨rfl, fun _ => .refl x⟩
  trans t x y z hxy hyz := ⟨hyz.1.trans hxy.1, fun ht => (hxy.2 ht).trans (hyz.2 ht)⟩
  epoch t x y h := h.1
  epoch_guar t x y h := h.1
  others t u x y htu h := ⟨h.1, fun hu => h.2 fun ht => htu (ht.trans hu.symm)⟩
  stable t x y hrest hrely ht := (hrely.2 ht).allAudited (hrest ht)
  spawn t c x code hspawn y _ hrest := by
    by_cases ht : t = scheduler
    · subst ht
      rw [eq_tick_of_spawn x hspawn]
      exact (keeps_tick y (hrest rfl)).mono (fun _ _ h _ => h) fun _ _ h _ => h
    · have hroute := calls_of_route x ht hspawn
      have hkeeps : code.Keeps (spec cfg t) fun _ => True :=
        keeps_of_quiet (fun _ _ _ h => h) (fun _ _ h _ => h)
          (hroute.mono fun _ => quiet_of_route)
      exact (hkeeps y trivial).mono (fun _ _ _ h => absurd h ht) fun _ _ _ h => absurd h ht
  env t c x x' hinv hkept henv := by
    obtain ⟨hrows, -, -, hcases⟩ := of_env t henv
    have hmoves : x'.history.moves = x.history.moves := by
      rcases hcases with ⟨-, hhistory, -⟩ | ⟨-, rfl⟩
      · rw [hhistory]
      · rfl
    have haudits : audits x' = audits x := by
      funext m v
      unfold audits
      rw [hrows]
    refine ⟨⟨?_, ?_, ?_⟩, ?_⟩
    · exact haudits ▸ hinv.single
    · exact hmoves ▸ hinv.green
    · unfold Audited
      rw [haudits, hmoves]
      exact hinv.audited
    · rcases hcases with ⟨heq, hhistory, -⟩ | ⟨hrestart, rfl⟩
      · exact .inl fun u => ⟨heq, fun _ => ⟨haudits, hmoves, fun _ _ => by rw [hhistory]; simp⟩⟩
      · refine .inr ⟨Nat.lt_succ_self _, fun u _ mv hmv => ?_⟩
        rw [hmoves] at hmv
        unfold Audited
        rw [haudits]
        exact (hinv.audited mv hmv).resolve_left (hkept hrestart mv hmv)
  finish t x r hinv hrest :=
    ⟨⟨hinv.single, hinv.green, hinv.audited⟩, hrest,
      fun _ _ => ⟨rfl, fun _ => ⟨rfl, rfl, fun _ _ => ⟨rfl, rfl⟩⟩⟩⟩

/-! ## Over a run -/

/-- The step keeps things as the gate found them. -/
def Steadily (s : Sys) (a : Act) : Prop :=
  (∀ o, (s.pc a.1).call? s.shared.epoch = some o → Steady a.2 s.shared o) ∧ Kept a.2 s.shared

/-- A tick is under way. -/
def Ticking (s : Sys) : Prop := ∃ code, s.pc scheduler = some (s.shared.epoch, code)

/-- Where every step keeps things as the gate found them, an alias is moved on
a pass against what served, a candidate has at most one record, and outside a
tick each move has its record, with its verdict. -/
theorem promotes_green_and_audits (cfg : Settings) (now : ℚ) (s : Sys)
    (h : Runs.Reachable (next cfg) Steadily (Sys.init now) s) :
    (∀ mv ∈ s.shared.history.moves, Green cfg mv) ∧
      (∀ m v, (audits s.shared m v).length ≤ 1) ∧
      (¬ Ticking s → ∀ mv ∈ s.shared.history.moves, Audited s.shared mv) := by
  have h0 : Inv cfg (.init now) :=
    ⟨fun _ _ => Nat.zero_le _, List.forall_mem_nil _, List.forall_mem_nil _⟩
  have hruns : Runs.Reachable (next cfg)
      (Code.OkStep (machine cfg) (fun _ => Steady) fun _ => Kept) (Sys.init now) s :=
    h.mono fun _ _ hok => Code.okStep_of_call (fun _ => hok.2) hok.1
  have hs := (sound cfg).holds h0 (fun _ _ => List.forall_mem_nil _) hruns
  refine ⟨hs.global.green, hs.global.single, fun hidle => ?_⟩
  have hthread := hs.thread scheduler
  cases hpc : s.pc scheduler with
  | none =>
    rw [hpc] at hthread
    exact hthread rfl
  | some running =>
    obtain ⟨e, code⟩ := running
    rw [hpc] at hthread
    rcases hthread with ⟨-, hrest⟩ | ⟨rfl, -⟩
    · exact hrest rfl
    · exact absurd ⟨code, hpc⟩ hidle

/-! ## A promotion, and one by a stale verdict -/

def isAlias : Op → Bool
  | .setAlias .. => true
  | _ => false

/-- A call that `Steady` asks something of. -/
def asked : Op → Bool
  | .servingVersion .. | .setAlias .. | .findSuggestion .. | .insertSuggestion .. => true
  | _ => false

/-- No call fails, and an alias is moved by two gates that read the same,
before anything was suggested. -/
def Smooth (s : Sys) (a : Act) : Prop :=
  a.2 ≠ .restart ∧
    let call := (s.pc a.1).call? s.shared.epoch
    (call.any asked = true → a.2 = .fate .done) ∧
    (call.any isAlias = true → s.shared.suggestions = [] ∧
      s.shared.history.reads (.promotion .policy) = s.shared.history.reads .judge)

instance (s : Sys) (a : Act) : Decidable (Smooth s a) :=
  inferInstanceAs (Decidable (_ ∧ (_ → _) ∧ (_ → _)))

theorem steadily_of_smooth {a : Act} (h : Smooth s a) : Steadily s a := by
  obtain ⟨hrestart, hasked, hmove⟩ := h
  refine ⟨fun o hcall => ?_, fun h => absurd h hrestart⟩
  rw [hcall] at hasked hmove
  unfold Steady
  split
  · exact .inl (hasked rfl)
  · intro _ _
    obtain ⟨hnone, hreads⟩ := hmove rfl
    refine ⟨hreads, ?_, ?_⟩
    · rw [hasked rfl]
      simp
    · unfold audits
      rw [hnone]
      rfl
  · exact fun _ => hasked rfl
  · intro _
    rw [hasked rfl]
    simp
  · trivial

/-- The first candidate is green, is promoted and has its record. -/
def promoted : List Act := launched "m" .autoOnGreen ++ foundGreen "2" ++ List.replicate 7 done

theorem promoted_audited :
    ∃ s : Sys, ¬ Ticking s ∧ s.shared.history.moves ≠ [] ∧
      ∀ mv ∈ s.shared.history.moves, Green .defaults mv ∧ Audited s.shared mv := by
  have hrun : (Runs.run (next .defaults) Smooth (Sys.init 1000) promoted).map
      (fun s => (s.pc scheduler).isNone && decide (s.shared.history.moves ≠ [])) = some true := by
    decide +kernel
  obtain ⟨s, hs, hp⟩ := Runs.exists_reachable hrun
  have hs := hs.mono fun _ _ => steadily_of_smooth
  obtain ⟨hidle, hmoves⟩ := Bool.and_eq_true_iff.mp hp
  have hidle : ¬ Ticking s := by
    rintro ⟨code, hpc⟩
    rw [hpc] at hidle
    cases hidle
  obtain ⟨hgreen, -, haudited⟩ := promotes_green_and_audits .defaults 1000 s hs
  exact ⟨s, hidle, of_decide_eq_true hmoves, fun mv hmv => ⟨hgreen mv hmv, haudited hidle mv hmv⟩⟩

/-- An operator's promotion, whose gate makes `n` reads and passes or warns. -/
def operatorPromotes (v : Version) (n : ℕ) : List Act :=
  (1, .promote "m" v false) :: List.replicate (n + 2) (1, .fate .done)

def evaluated (v : Version) (value : ℚ) : Act :=
  (1, .evaluate "m" v (some ⟨v, "accuracy", .fin value, "higher", none⟩))

/-- Version 2 is better than 1, which serves; before it is promoted an
operator has 3 serve, which has no metric. -/
def overtaken : List Act :=
  [evaluated "1" 80, evaluated "2" 90] ++ operatorPromotes "1" 2 ++ launched "m" .autoOnGreen ++
    [done, (scheduler, .polled (.completed (some "2"))), done, done, done,
      (scheduler, .shadowed (some none))] ++
    operatorPromotes "3" 3 ++ [done, done, done, done]

/-- The alias is moved under a warning. -/
theorem overtaken_moves_on_warn :
    ¬ ∀ cfg now s, Runs.Reachable (next cfg) Runs.anyStep (Sys.init now) s →
      ∀ mv ∈ s.shared.history.moves, mv.verdict.verdict = .pass := by
  have hrun : (Runs.run (next .defaults) Runs.anyStep (Sys.init 1000) overtaken).map
      (fun s => decide (∃ mv ∈ s.shared.history.moves, mv.verdict.verdict = .warn)) =
      some true := by
    decide +kernel
  obtain ⟨s, hs, hp⟩ := Runs.exists_reachable hrun
  obtain ⟨mv, hmv, hwarn⟩ := of_decide_eq_true hp
  intro hall
  cases hwarn.symm.trans (hall .defaults 1000 s hs mv hmv)

end MlopsLite.Gateway.Policy.Promotions
