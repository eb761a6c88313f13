import MlopsLite.Gateway.Activation.Service

/-!
# Activation — the bound on attempts

Every pass that returns leaves its operation terminal or has counted an
attempt. `_maybe_degrade` ends an operation at its last attempt; a pointer
write that fails and a health that names another identity are counted
without it. Where those two come before the last attempt, an operation is
terminal after `MAX_ATTEMPTS` completed passes (`attempts_bounded`).
-/

namespace MlopsLite.Gateway

namespace Service

/-- A pointer write of `_commit_pointer` fails, or the agent is resident with
another identity, before the last attempt only. -/
def Decisive (maxAttempts : ℕ) (s : Service) (c : Choice) : Prop :=
  match s.pc, c with
  | .commitPointer _ op, .wrote _ raised _ => raised.isSome = true → op.attempts + 1 < maxAttempts
  | .identify _ op, .health i => op.resident i = false → op.attempts + 1 < maxAttempts
  | _, _ => True

/-- A transition that keeps the pass going. -/
def Continues : ActivationState → Stage → Bool
  | .committing, .committing | .reloading, .reloading | .rollingBack, .rollingBack => true
  | _, _ => false

/-- A transition ends the operation, counts an attempt before the last one,
or keeps the pass going. -/
def Fair (maxAttempts : ℕ) (op : Activation) (t : Transition) (stage : Stage) : Prop :=
  t.state.nonterminal = false ∨ (t.bump = true ∧ op.attempts + 1 < maxAttempts) ∨
    (t.bump = false ∧ Continues t.state stage = true)

/-- What a pass knows of the row it works on. -/
def Knows (maxAttempts : ℕ) (s : Service) : RunPc → Prop
  | .idle | .read _ => True
  | .commitPointer id op => s.stores.operations.get? id = some op ∧ op.state = .prepared
  | .reload id op | .identify id op =>
      s.stores.operations.get? id = some op ∧ op.state = .reloading
  | .rollBack id op _ => s.stores.operations.get? id = some op ∧ op.state = .rollingBack
  | .cas id e t stage => e.nonterminal = true ∧ ∃ op, s.stores.operations.get? id = some op ∧
      op.state = e ∧ Fair maxAttempts op t stage
  | .reread .. => False
  | .returned id => ∃ op, s.stores.operations.get? id = some op ∧
      (op.state.nonterminal = true → s.completed id < op.attempts)

/-- Attempts count the completed passes, and do not reach the limit. -/
structure Counted (maxAttempts : ℕ) (s : Service) : Prop where
  live : ∀ id op, s.stores.operations.get? id = some op → op.state.nonterminal = true →
    s.completed id ≤ op.attempts ∧ op.attempts < maxAttempts
  fresh : ∀ id, s.stores.operations.get? id = none → s.completed id = 0
  pass : Knows maxAttempts s s.pc

variable {maxAttempts : ℕ} {s s' : Service} {id k : OperationId} {op : Activation}
  {t : Transition} {stage : Stage} {c : Choice}

theorem nonterminal_of_continues (h : Continues t.state stage = true) :
    t.state.nonterminal = true := by
  cases hs : t.state <;> cases stage <;> simp_all [Continues, ActivationState.nonterminal]

theorem fair_forward (op : Activation) {a : ActivationState} (h : Continues a stage = true) :
    Fair maxAttempts op (forward a) stage :=
  .inr (.inr ⟨rfl, h⟩)

theorem fair_maybeDegrade (op : Activation) (code reason : String)
    (stay : Option ActivationState) :
    Fair maxAttempts op (maybeDegrade maxAttempts op code reason stay) stage := by
  unfold maybeDegrade
  split
  · exact .inl rfl
  · rename_i hlast
    refine .inr (.inl ⟨rfl, ?_⟩)
    omega

theorem fair_reloadRefused (op : Activation) (r : ReloadResult) :
    Fair maxAttempts op (reloadRefused maxAttempts op r) .rollingBack := by
  unfold reloadRefused
  split
  · exact fair_maybeDegrade ..
  · split
    · exact .inr (.inr ⟨rfl, rfl⟩)
    · exact fair_maybeDegrade ..

/-- The rest of a pass knows its row, if it may return where it does. -/
theorem knows_dispatch (hrow : s.stores.operations.get? id = some op)
    (hret : op.state.nonterminal = true → Continues op.state stage = false →
      s.completed id < op.attempts) : Knows maxAttempts s (dispatch id op stage) := by
  have hreturned : Continues op.state stage = false → Knows maxAttempts s (.returned id) :=
    fun hstop => ⟨op, hrow, fun hlive => hret hlive hstop⟩
  cases hop : op.state with
  | committing =>
    cases stage <;> simp only [dispatch, hop]
    · exact ⟨rfl, op, hrow, hop, fair_forward op rfl⟩
    all_goals exact hreturned (by rw [hop]; rfl)
  | reloading =>
    cases stage <;> simp only [dispatch, hop]
    · exact ⟨hrow, hop⟩
    · exact ⟨hrow, hop⟩
    all_goals exact hreturned (by rw [hop]; rfl)
  | rollingBack =>
    cases stage <;> simp only [dispatch, hop]
    · exact ⟨hrow, hop⟩
    · exact ⟨hrow, hop⟩
    · exact ⟨hrow, hop⟩
    all_goals exact hreturned (by rw [hop]; rfl)
  | _ =>
    cases stage <;> simp only [dispatch, hop]
    all_goals exact hreturned (by rw [hop]; rfl)

/-- `begin` returns for a terminal operation only. -/
theorem knows_begin (hrow : s.stores.operations.get? id = some op) :
    Knows maxAttempts s (begin id op) := by
  unfold begin
  split
  · rename_i hop
    exact ⟨hrow, hop⟩
  · rename_i hop
    cases hstate : op.state with
    | prepared => exact absurd hstate hop
    | committing =>
      simp only [dispatch, hstate]
      exact ⟨rfl, op, hrow, hstate, fair_forward op rfl⟩
    | reloading | rollingBack =>
      simp only [dispatch, hstate]
      exact ⟨hrow, hstate⟩
    | _ =>
      simp only [dispatch, hstate]
      refine ⟨op, hrow, fun hlive => ?_⟩
      rw [hstate] at hlive
      cases hlive

/-- After a compare-and-set: the row is moved, and the pass knows it. -/
theorem Counted.cas {e : ActivationState} (h : Counted maxAttempts s)
    (hpc : s.pc = .cas id e t stage) :
    Counted maxAttempts { s with
      stores := (s.stores.cas id e t).1, pc := answered id stage (s.stores.cas id e t).2 } := by
  have hpass := h.pass
  rw [hpc] at hpass
  obtain ⟨he, op, hrow, hop, hfair⟩ := hpass
  obtain ⟨hcount, hlimit⟩ := h.live id op hrow (by rw [hop]; exact he)
  rcases Stores.cas_cases s.stores id e t with hlost | ⟨op', hrow', -, hmoved⟩
  · simp [Stores.cas, hrow, hop] at hlost
  cases hrow.symm.trans hrow'
  rw [hmoved]
  have hnew : (s.stores.operations.insert id (t.apply op)).get? id = some (t.apply op) := by simp
  -- where the operation is not over, the attempt was counted or the pass goes on
  have hbumped : t.state.nonterminal = true → Continues t.state stage = false →
      s.completed id < (t.apply op).attempts := by
    intro hlive hstop
    rcases hfair with hover | ⟨hbump, -⟩ | ⟨-, hcont⟩
    · cases hlive.symm.trans hover
    · simp only [Transition.apply, hbump, if_true]
      omega
    · cases hstop.symm.trans hcont
  constructor
  · intro k opk hk hlive
    by_cases hkid : k = id
    · subst hkid
      cases hnew.symm.trans hk
      rcases hfair with hover | ⟨hbump, hlast⟩ | ⟨hbump, -⟩
      · cases hlive.symm.trans hover
      · simp only [Transition.apply, hbump, if_true]
        omega
      · simp only [Transition.apply, hbump, Bool.false_eq_true, if_false]
        omega
    · exact h.live k opk ((Dict.get?_insert_ne _ _ hkid).symm.trans hk) hlive
  · intro k hk
    by_cases hkid : k = id
    · subst hkid
      cases hnew.symm.trans hk
    · exact h.fresh k ((Dict.get?_insert_ne _ _ hkid).symm.trans hk)
  · simp only [answered]
    split
    · rename_i hrolling
      exact ⟨hnew, hrolling.2⟩
    · exact knows_dispatch hnew hbumped

theorem insertNew_cases (x : Stores) (id : OperationId) (n : NewActivation) :
    insertNew x id n = x ∨ (x.operations.get? id = none ∧
      insertNew x id n = { x with operations := x.operations.insert id n.row }) := by
  unfold insertNew Stores.create
  by_cases hvalid : n.valid = true
  · cases hfree : x.occupied || (x.operations.get? id).isSome with
    | true => exact .inl (by simp [hvalid])
    | false =>
      have hnone : x.operations.get? id = none := by
        simpa using (Bool.or_eq_false_iff.mp hfree).2
      exact .inr ⟨hnone, by simp [hvalid]⟩
  · exact .inl (by simp [hvalid])

/-- A submit adds a row under a fresh id, or none. -/
theorem submit_cases (x : Stores) (id : OperationId) (n : NewActivation) :
    submit x id n = x ∨ (x.operations.get? id = none ∧
      submit x id n = { x with operations := x.operations.insert id n.row }) := by
  unfold submit
  split
  · split
    · exact .inl rfl
    · exact insertNew_cases x id n
  · exact insertNew_cases x id n

theorem Counted.submit (h : Counted maxAttempts s) (hmax : 0 < maxAttempts) (n : NewActivation) :
    Counted maxAttempts { s with stores := submit s.stores id n } := by
  rcases submit_cases s.stores id n with hsame | ⟨hnone, hnew⟩
  · rw [hsame]
    exact h
  · rw [hnew]
    have hold : ∀ k op, s.stores.operations.get? k = some op →
        (s.stores.operations.insert id n.row).get? k = some op := by
      intro k op hk
      have hne : k ≠ id := by
        rintro rfl
        cases hnone.symm.trans hk
      exact (Dict.get?_insert_ne _ _ hne).trans hk
    constructor
    · intro k op hk hlive
      by_cases hkid : k = id
      · subst hkid
        simp only [Dict.get?_insert_self, Option.some.injEq] at hk
        subst hk
        rw [h.fresh k hnone]
        exact ⟨le_rfl, hmax⟩
      · exact h.live k op ((Dict.get?_insert_ne _ _ hkid).symm.trans hk) hlive
    · intro k hk
      by_cases hkid : k = id
      · subst hkid
        exact h.fresh k hnone
      · exact h.fresh k ((Dict.get?_insert_ne _ _ hkid).symm.trans hk)
    · have hpass := h.pass
      change Knows maxAttempts _ s.pc
      cases hpc : s.pc with
      | idle | read => trivial
      | reread =>
        rw [hpc] at hpass
        exact hpass
      | commitPointer k op | reload k op | identify k op | rollBack k op stage =>
        rw [hpc] at hpass
        exact ⟨hold k op hpass.1, hpass.2⟩
      | cas k e t stage =>
        rw [hpc] at hpass
        obtain ⟨he, op, hrow, hrest⟩ := hpass
        exact ⟨he, op, hold k op hrow, hrest⟩
      | returned k =>
        rw [hpc] at hpass
        obtain ⟨op, hrow, hlive⟩ := hpass
        exact ⟨op, hold k op hrow, hlive⟩

/-- The same table under another control point. -/
theorem Counted.goto (h : Counted maxAttempts s) {x : Stores}
    (hx : x.operations = s.stores.operations) {pc : RunPc} (hpc : Knows maxAttempts s pc) :
    Counted maxAttempts { s with stores := x, pc := pc } := by
  obtain ⟨operations, pointer⟩ := x
  cases hx
  refine ⟨h.live, h.fresh, ?_⟩
  cases pc <;> exact hpc

theorem operations_written (x : Stores) {y : Stores} (hy : y.operations = x.operations)
    (raised : Option String) (took : Bool) :
    (written x y raised took).operations = x.operations := by
  unfold written
  split
  · exact hy
  · rfl

theorem operations_restoreServingLlm (x : Stores) (previous : Option String) (now : Epoch) :
    (restoreServingLlm x previous now).operations = x.operations := by
  unfold restoreServingLlm
  split <;> rfl

theorem Counted.next (h : Counted maxAttempts s) (hmax : 0 < maxAttempts)
    (hok : Decisive maxAttempts s c) (hn : next maxAttempts s c = some s') :
    Counted maxAttempts s' := by
  cases c with
  | submit id n =>
    cases hn
    exact h.submit hmax n
  | run id =>
    cases hpc : s.pc <;> simp only [Service.next, hpc, reduceCtorEq] at hn
    cases hn
    exact h.goto rfl trivial
  | go =>
    cases hpc : s.pc <;> simp only [Service.next, hpc, reduceCtorEq] at hn
    case read id =>
      split at hn
      · cases hn
        exact h.goto rfl trivial
      · rename_i op hrow
        cases hn
        exact h.goto rfl (knows_begin hrow)
    case cas id e t stage =>
      cases hn
      exact h.cas hpc
    case reread id stage =>
      have hpass := h.pass
      rw [hpc] at hpass
      exact hpass.elim
    case returned id =>
      cases hn
      have hpass := h.pass
      rw [hpc] at hpass
      obtain ⟨op, hrow, hlive⟩ := hpass
      refine ⟨fun k opk hk hlivek => ?_, fun k hk => ?_, trivial⟩
      · by_cases hkid : k = id
        · subst hkid
          cases hrow.symm.trans hk
          obtain ⟨-, hlimit⟩ := h.live k op hrow hlivek
          have hcount := hlive hlivek
          simp only [Function.update_self]
          omega
        · simp only [Function.update_of_ne hkid]
          exact h.live k opk hk hlivek
      · have hne : k ≠ id := by
          rintro rfl
          cases hrow.symm.trans hk
        simp only [Function.update_of_ne hne]
        exact h.fresh k hk
  | wrote now raised took =>
    cases hpc : s.pc <;> simp only [Service.next, hpc, reduceCtorEq] at hn
    case commitPointer id op =>
      cases hn
      have hpass := h.pass
      rw [hpc] at hpass
      simp only [Decisive, hpc] at hok
      have hops := operations_written s.stores
        (y := setServingLlm s.stores op.targetModel op.actor now) rfl raised took
      refine h.goto hops ?_
      cases raised with
      | none => exact ⟨rfl, op, hpass.1, hpass.2, fair_forward op rfl⟩
      | some cls => exact ⟨rfl, op, hpass.1, hpass.2, .inr (.inl ⟨rfl, hok rfl⟩)⟩
    case rollBack id op stage =>
      cases hn
      have hpass := h.pass
      rw [hpc] at hpass
      refine h.goto (operations_written _ (operations_restoreServingLlm ..) raised took) ?_
      cases raised <;> exact ⟨rfl, op, hpass.1, hpass.2, .inl rfl⟩
  | reloaded r =>
    cases hpc : s.pc <;> simp only [Service.next, hpc, reduceCtorEq] at hn
    case reload id op =>
      have hpass := h.pass
      rw [hpc] at hpass
      split at hn
      · cases hn
        exact h.goto rfl hpass
      · cases hn
        exact h.goto rfl ⟨rfl, op, hpass.1, hpass.2, fair_reloadRefused op r⟩
  | health i =>
    cases hpc : s.pc <;> simp only [Service.next, hpc, reduceCtorEq] at hn
    case identify id op =>
      cases hn
      have hpass := h.pass
      rw [hpc] at hpass
      simp only [Decisive, hpc] at hok
      refine h.goto rfl ⟨rfl, op, hpass.1, hpass.2, ?_⟩
      split
      · exact .inl rfl
      · rename_i hother
        exact .inr (.inl ⟨rfl, hok (by simpa using hother)⟩)
  | ends =>
    cases hpc : s.pc <;> simp only [Service.next, hpc, reduceCtorEq] at hn
    all_goals
      cases hn
      exact h.goto rfl trivial

theorem counted_of_reachable (hmax : 0 < maxAttempts)
    (h : Runs.Reachable (next maxAttempts) (Decisive maxAttempts) init s) :
    Counted maxAttempts s := by
  have h0 : Counted maxAttempts init :=
    ⟨fun _ _ hop => (by cases hop), fun _ _ => rfl, trivial⟩
  refine h.invariant h0 ?_
  intro s c s' _ hI hok hn
  exact hI.next hmax hok hn

/-- After `MAX_ATTEMPTS` completed passes an operation is terminal; when that
holds of all, the next one can be created. -/
theorem attempts_bounded (maxAttempts : ℕ) (s : Service) (hmax : 0 < maxAttempts)
    (h : Runs.Reachable (next maxAttempts) (Decisive maxAttempts) init s) :
    (∀ id op, s.stores.operations.get? id = some op → maxAttempts ≤ s.completed id →
      op.state.nonterminal = false) ∧
    ((∀ id op, s.stores.operations.get? id = some op → maxAttempts ≤ s.completed id) →
      s.stores.occupied = false) := by
  have hcounted := counted_of_reachable hmax h
  have hover : ∀ id op, s.stores.operations.get? id = some op → maxAttempts ≤ s.completed id →
      op.state.nonterminal = false := by
    intro id op hop hdone
    cases hlive : op.state.nonterminal with
    | false => rfl
    | true =>
      obtain ⟨hcount, hlimit⟩ := hcounted.live id op hop hlive
      omega
  refine ⟨hover, fun hall => ?_⟩
  cases hocc : s.stores.occupied with
  | false => rfl
  | true =>
    obtain ⟨id, op, hop, hlive⟩ := Stores.occupied_iff.mp hocc
    cases hlive.symm.trans (hover id op hop (hall id op hop))

/-! ## Runs -/

def promotion : NewActivation :=
  { idempotencyKey := "promote:llama@2", actor := "operator", targetModel := "llama",
    targetVersion := "2", previousModel := some "base", previousVersion := none,
    requiresPreemption := false }

def refusal : ReloadResult := ⟨some "deferred", false, some "job", none⟩

/-- A pass in which the agent defers. -/
def deferredPass : List Choice := [.run "op", .go, .reloaded refusal, .go, .go]

/-- Five passes, each deferred; the first writes the pointer. -/
def deferredToTheEnd : List Choice :=
  ([.submit "op" promotion, .run "op", .go, .wrote 1 none true, .go, .go, .reloaded refusal, .go,
    .go] : List Choice) ++ deferredPass ++ deferredPass ++ deferredPass ++ deferredPass

instance (s : Service) (c : Choice) : Decidable (Decisive 5 s c) := by
  unfold Decisive
  split <;> infer_instance

theorem deferredToTheEnd_degrades : ∃ s : Service, s.completed "op" = 5 ∧
    ∃ op, s.stores.operations.get? "op" = some op ∧ op.state.nonterminal = false := by
  have hrun : (Runs.run (next 5) (Decisive 5) init deferredToTheEnd).map (fun s =>
      decide (s.completed "op" = 5) && (s.stores.operations.get? "op").isSome) = some true := by
    decide +kernel
  obtain ⟨s, hs, hp⟩ := Runs.exists_reachable hrun
  obtain ⟨hcount, hrow⟩ := Bool.and_eq_true_iff.mp hp
  obtain ⟨op, hop⟩ := Option.isSome_iff_exists.mp hrow
  have hfive := of_decide_eq_true hcount
  exact ⟨s, hfive, op, hop,
    (attempts_bounded 5 s (by decide) hs).1 "op" op hop hfive.ge⟩

/-- The agent loads, and its health names the old model. -/
def mismatchedPass : List Choice :=
  [.run "op", .go, .reloaded ⟨some "loaded", false, none, none⟩, .health ⟨some "base", some "1"⟩,
    .go, .go]

/-- The pointer cannot be written. -/
def unwrittenPass : List Choice :=
  [.run "op", .go, .wrote 1 (some "OperationalError") false, .go, .go]

/-- Three passes without the pointer, three with the wrong model resident. -/
def neverDecided : List Choice :=
  ([.submit "op" promotion] : List Choice) ++ unwrittenPass ++ unwrittenPass ++ unwrittenPass ++
    ([.run "op", .go, .wrote 1 none true, .go, .go, .reloaded ⟨some "loaded", false, none, none⟩,
      .health ⟨some "base", some "1"⟩, .go, .go] : List Choice) ++ mismatchedPass ++
    mismatchedPass

/-- Six completed passes, and the operation still blocks every other. -/
theorem neverDecided_blocks :
    ¬ ∀ s, Runs.Reachable (next 5) Runs.anyStep init s →
      ∀ id op, s.stores.operations.get? id = some op → 5 ≤ s.completed id →
        op.state.nonterminal = false := by
  have hrun : (Runs.run (next 5) Runs.anyStep init neverDecided).map (fun s =>
      decide (s.completed "op" = 6) &&
        (s.stores.operations.get? "op").any fun op => op.state.nonterminal) = some true := by
    decide +kernel
  obtain ⟨s, hs, hp⟩ := Runs.exists_reachable hrun
  obtain ⟨hcount, hany⟩ := Bool.and_eq_true_iff.mp hp
  obtain ⟨op, hop, hlive⟩ := (Option.any_eq_true _ _).mp hany
  intro hall
  have hsix := of_decide_eq_true hcount
  cases hlive.symm.trans (hall s hs "op" op hop (by omega))

end Service

end MlopsLite.Gateway
