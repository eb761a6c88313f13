import MlopsLite.Gateway.Activation.Attempts
import MlopsLite.Lib.Interleaving

/-!
# Activation — any number of workers

Submits, retries and reconcile passes over one table, in any interleaving: a
worker stands at a control point of a pass, or between the lookup and the
INSERT of `submit`. The run lock is left out, so that a restarted gateway,
or a second one, adds nothing. What the agent answers is kept in a log, in
order; an operation is `active` only where the log has the answers for it
(`activation_safety`).
-/

namespace MlopsLite.Gateway

abbrev WorkerId := ℕ

/-- The state transition contract (`contracts/promotion-activation.md`). -/
def ActivationState.allowedNext : ActivationState → List ActivationState
  | .prepared => [.committing, .rollingBack, .degraded]
  | .committing => [.reloading, .rollingBack, .degraded]
  | .reloading => [.active, .rollingBack, .degraded]
  | .rollingBack => [.rolledBack, .degraded]
  | .active | .rolledBack | .degraded => []

/-- The model and the version an operation is to activate. -/
def Activation.target (op : Activation) : String × String := (op.targetModel, op.targetVersion)

/-- An answer of the agent, with the worker that asked: to a reload keyed by
an operation and its target, or to the health read after it. -/
inductive Answer
  | reloaded (w : WorkerId) (id : OperationId) (target : String × String) (r : ReloadResult)
  | health (w : WorkerId) (id : OperationId) (i : Identity)
  deriving DecidableEq

/-- A worker is in a pass, or about to insert what it has not found. -/
inductive WorkerPc
  | pass (pc : RunPc)
  | inserting (id : OperationId) (n : NewActivation)
  deriving DecidableEq

/-- `step` is a step of the pass; a worker may die at any of its points. -/
inductive WorkerChoice
  | submit (id : OperationId) (n : NewActivation)
  | insert
  | dies
  | step (c : Choice)
  deriving DecidableEq

def Choice.submits : Choice → Bool
  | .submit .. => true
  | _ => false

abbrev Workers := Interleaving.State WorkerId (Stores × List Answer) WorkerPc

namespace Workers

def init : Workers := ⟨(Stores.init, []), fun _ => .pass .idle⟩

/-- `submit` before its INSERT: an operation in flight under the key is
returned, and nothing is inserted. -/
def lookUp (x : Stores) (id : OperationId) (n : NewActivation) : WorkerPc :=
  match x.findByKey n.idempotencyKey with
  | some (_, op) => if op.state.nonterminal then .pass .idle else .inserting id n
  | none => .inserting id n

/-- A step of one worker on the stores. -/
def workerStep (maxAttempts : ℕ) (c : WorkerChoice) (x : Stores) :
    WorkerPc → Option (Stores × WorkerPc)
  | .inserting id n =>
      match c with
      | .insert => some (Service.insertNew x id n, .pass .idle)
      | .dies => some (x, .pass .idle)
      | .submit .. | .step _ => none
  | .pass pc =>
      match c with
      | .submit id n => if pc = .idle then some (x, lookUp x id n) else none
      | .insert => none
      | .dies => some (x, .pass .idle)
      | .step c =>
          if c.submits then none
          else (Service.next maxAttempts ⟨x, pc, fun _ => 0⟩ c).map fun s =>
            (s.stores, .pass s.pc)

/-- What a step hears from the agent. -/
def heard (w : WorkerId) (c : WorkerChoice) : WorkerPc → List Answer
  | .pass (.reload id op) =>
      match c with
      | .step (.reloaded r) => [.reloaded w id op.target r]
      | _ => []
  | .pass (.identify id _) =>
      match c with
      | .step (.health i) => [.health w id i]
      | _ => []
  | _ => []

def advance (maxAttempts : ℕ) :
    Interleaving.Program WorkerId (Stores × List Answer) WorkerPc WorkerChoice :=
  fun w c x pc =>
    (workerStep maxAttempts c x.1 pc).map fun r => ((r.1, x.2 ++ heard w c pc), r.2)

abbrev next (maxAttempts : ℕ) := Interleaving.next (advance maxAttempts)

/-! ## Rows -/

/-- What one step may do to the row under an id. -/
inductive RowStep : Option Activation → Option Activation → Prop
  | same (row : Option Activation) : RowStep row row
  | created (n : NewActivation) : RowStep none (some n.row)
  | retried (op : Activation) (t : Transition) (hlive : op.state.nonterminal = true)
      (hstate : t.state = op.state) : RowStep (some op) (some (t.apply op))
  | moved (op : Activation) (t : Transition) (hedge : t.state ∈ op.state.allowedNext) :
      RowStep (some op) (some (t.apply op))

theorem nonterminal_of_allowedNext {a b : ActivationState} (h : b ∈ a.allowedNext) :
    a.nonterminal = true := by
  cases a <;> first | rfl | cases h

/-- A row is never dropped, and keeps its target. -/
theorem RowStep.target {row : Option Activation} {op : Activation} (h : RowStep (some op) row) :
    ∃ op', row = some op' ∧ op'.target = op.target := by
  cases h with
  | same => exact ⟨op, rfl, rfl⟩
  | retried _ t _ _ | moved _ t _ => exact ⟨t.apply op, rfl, rfl⟩

/-- A terminal row stays as it is. -/
theorem RowStep.terminal {row : Option Activation} {op : Activation} (h : RowStep (some op) row)
    (hover : op.state.nonterminal = false) : row = some op := by
  cases h with
  | same => rfl
  | retried _ t hlive _ => cases hlive.symm.trans hover
  | moved _ t hedge => cases (nonterminal_of_allowedNext hedge).symm.trans hover

/-- The rows of two stores, one by one. -/
def RowSteps (x y : Stores) : Prop :=
  ∀ id, RowStep (x.operations.get? id) (y.operations.get? id)

theorem RowSteps.of_eq {x y : Stores} (h : y.operations = x.operations) : RowSteps x y := by
  intro id
  rw [h]
  exact .same _

/-- One row in flight. -/
def OneLive (x : Stores) : Prop :=
  ∀ id k op op', x.operations.get? id = some op → x.operations.get? k = some op' →
    op.state.nonterminal = true → op'.state.nonterminal = true → id = k

/-- The row under `id` has the target. -/
def Named (x : Stores) (id : OperationId) (target : String × String) : Prop :=
  ∃ op, x.operations.get? id = some op ∧ op.target = target

theorem Named.steps {x y : Stores} {id : OperationId} {target : String × String}
    (h : Named x id target) (hxy : RowSteps x y) : Named y id target := by
  obtain ⟨op, hop, rfl⟩ := h
  have hstep := hxy id
  rw [hop] at hstep
  obtain ⟨op', hop', htarget⟩ := hstep.target
  exact ⟨op', hop', htarget⟩

/-! ## What the log confirms -/

/-- `w` heard of a reload of `id` that loaded `target`, and then of an
identity that is `target`. -/
def Confirmed (log : List Answer) (w : WorkerId) (id : OperationId) (target : String × String) :
    Prop :=
  ∃ r i, r.loaded = true ∧ i.servingModel = some target.1 ∧ pyStr i.servingVersion = target.2 ∧
    [Answer.reloaded w id target r, Answer.health w id i].Sublist log

theorem Confirmed.mono {log log' : List Answer} {w : WorkerId} {id : OperationId}
    {target : String × String} (h : Confirmed log w id target) (hlog : log <+: log') :
    Confirmed log' w id target := by
  obtain ⟨r, i, hr, hm, hv, hsub⟩ := h
  exact ⟨r, i, hr, hm, hv, hsub.trans hlog.sublist⟩

/-- The rows that are `active` are confirmed. -/
def ActiveConfirmed (x : Stores) (log : List Answer) : Prop :=
  ∀ id op, x.operations.get? id = some op → op.state = .active →
    ∃ w, Confirmed log w id op.target

/-! ## What a worker knows -/

/-- The transition a pass is about to make from `e`. -/
def Allowed (e : ActivationState) (t : Transition) : Prop :=
  (e.nonterminal = true ∧ t.state = e) ∨ t.state ∈ e.allowedNext

/-- Of the operation it has read, a worker knows the target, and of a
reload that it loaded. -/
def Standing (w : WorkerId) (x : Stores) (log : List Answer) : RunPc → Prop
  | .idle | .read _ | .reread .. | .returned _ | .rollBack .. | .commitPointer .. => True
  | .reload id op => op.state = .reloading ∧ Named x id op.target
  | .identify id op => Named x id op.target ∧
      ∃ r, r.loaded = true ∧ Answer.reloaded w id op.target r ∈ log
  | .cas id e t _ => Allowed e t ∧
      (t.state = .active → ∃ target, Named x id target ∧ Confirmed log w id target)

def At (w : WorkerId) (s : Stores × List Answer) : WorkerPc → Prop
  | .pass pc => Standing w s.1 s.2 pc
  | .inserting .. => True

/-- How a step moves what the workers share. -/
structure Grows (s s' : Stores × List Answer) : Prop where
  rows : RowSteps s.1 s'.1
  log : s.2 <+: s'.2

variable {maxAttempts : ℕ} {w : WorkerId} {x y : Stores} {log log' : List Answer}
  {id : OperationId} {op : Activation} {t : Transition} {stage : Stage}

theorem Standing.grows {pc : RunPc} (h : Standing w x log pc) (hxy : RowSteps x y)
    (hlog : log <+: log') : Standing w y log' pc := by
  cases pc with
  | idle | read | reread | returned | rollBack | commitPointer => trivial
  | reload id op => exact ⟨h.1, h.2.steps hxy⟩
  | identify id op =>
    obtain ⟨hnamed, r, hr, hmem⟩ := h
    exact ⟨hnamed.steps hxy, r, hr, hlog.subset hmem⟩
  | cas id e t stage =>
    refine ⟨h.1, fun hactive => ?_⟩
    obtain ⟨target, hnamed, hconf⟩ := h.2 hactive
    exact ⟨target, hnamed.steps hxy, hconf.mono hlog⟩

theorem standing_dispatch (hrow : x.operations.get? id = some op) :
    Standing w x log (Service.dispatch id op stage) := by
  have hnamed : Named x id op.target := ⟨op, hrow, rfl⟩
  cases stage with
  | committing =>
    simp only [Service.dispatch]
    split
    · exact ⟨.inr (by simp [Service.forward, ActivationState.allowedNext]),
        by simp [Service.forward]⟩
    · split
      · rename_i hop
        exact ⟨hop, hnamed⟩
      · split <;> trivial
  | reloading =>
    simp only [Service.dispatch]
    split
    · rename_i hop
      exact ⟨hop, hnamed⟩
    · split <;> trivial
  | rollingBack =>
    simp only [Service.dispatch]
    split <;> trivial
  | _ => trivial

theorem standing_begin (hrow : x.operations.get? id = some op) :
    Standing w x log (Service.begin id op) := by
  unfold Service.begin
  split
  · trivial
  · exact standing_dispatch hrow

theorem standing_answered {r : Option Activation} (hrow : ∀ op, r = some op →
    x.operations.get? id = some op) : Standing w x log (Service.answered id stage r) := by
  cases r with
  | none => trivial
  | some op =>
    simp only [Service.answered]
    split
    · trivial
    · exact standing_dispatch (hrow op rfl)

/-- What `_reload_and_verify` records of an answer that is not a load. -/
theorem allowed_reloadRefused (maxAttempts : ℕ) (hop : op.state = .reloading)
    (r : ReloadResult) :
    Allowed .reloading (Service.reloadRefused maxAttempts op r) ∧
      (Service.reloadRefused maxAttempts op r).state ≠ .active := by
  have hdegrade : ∀ code reason stay, stay = none ∨ stay = some .reloading →
      Allowed .reloading (Service.maybeDegrade maxAttempts op code reason stay) ∧
        (Service.maybeDegrade maxAttempts op code reason stay).state ≠ .active := by
    intro code reason stay hstay
    unfold Service.maybeDegrade
    split
    · exact ⟨.inr (by simp [ActivationState.allowedNext]), by simp⟩
    · rcases hstay with rfl | rfl
      · exact ⟨.inl ⟨rfl, hop⟩, by simp [hop]⟩
      · exact ⟨.inl ⟨rfl, rfl⟩, by simp⟩
  unfold Service.reloadRefused
  split
  · exact hdegrade _ _ _ (.inl rfl)
  · split
    · exact ⟨.inr (by simp [Service.unresolvable, ActivationState.allowedNext]),
        by simp [Service.unresolvable]⟩
    · exact hdegrade _ _ _ (.inr rfl)

/-! ## Steps -/

/-- A compare-and-set that moves its row as the contract allows. -/
theorem rowSteps_cas (x : Stores) (id : OperationId) {e : ActivationState} (h : Allowed e t) :
    RowSteps x (x.cas id e t).1 := by
  rcases Stores.cas_cases x id e t with hsame | ⟨op, hrow, rfl, hmoved⟩
  · rw [hsame]
    exact .of_eq rfl
  · rw [hmoved]
    intro k
    by_cases hk : k = id
    · subst hk
      simp only [Dict.get?_insert_self, hrow]
      rcases h with ⟨hlive, hstate⟩ | hedge
      · exact .retried op t hlive hstate
      · exact .moved op t hedge
    · simp only [Dict.get?_insert_ne _ _ hk]
      exact .same _

theorem rowSteps_insertNew (x : Stores) (id : OperationId) (n : NewActivation) :
    RowSteps x (Service.insertNew x id n) := by
  rcases Service.insertNew_cases x id n with hsame | ⟨hfree, hnew⟩
  · rw [hsame]
    exact .of_eq rfl
  · rw [hnew]
    intro k
    by_cases hk : k = id
    · subst hk
      simp only [Dict.get?_insert_self, hfree]
      exact .created n
    · simp only [Dict.get?_insert_ne _ _ hk]
      exact .same _

theorem OneLive.cas (h : OneLive x) (id : OperationId) {e : ActivationState} (he : Allowed e t) :
    OneLive (x.cas id e t).1 := by
  rcases Stores.cas_cases x id e t with hsame | ⟨op, hrow, rfl, hmoved⟩
  · rw [hsame]
    exact h
  · rw [hmoved]
    have hlive : op.state.nonterminal = true := by
      rcases he with ⟨hlive, -⟩ | hedge
      · exact hlive
      · exact nonterminal_of_allowedNext hedge
    -- a live row of the new table was live before, under the same id
    have hwas : ∀ k op', (x.operations.insert id (t.apply op)).get? k = some op' →
        op'.state.nonterminal = true →
        ∃ old, x.operations.get? k = some old ∧ old.state.nonterminal = true := by
      intro k op' hk hlive'
      by_cases hkid : k = id
      · subst hkid
        exact ⟨op, hrow, hlive⟩
      · exact ⟨op', (Dict.get?_insert_ne _ _ hkid).symm.trans hk, hlive'⟩
    intro j k opj opk hj hk hlivej hlivek
    obtain ⟨oldj, hoj, hlj⟩ := hwas j opj hj hlivej
    obtain ⟨oldk, hok, hlk⟩ := hwas k opk hk hlivek
    exact h j k oldj oldk hoj hok hlj hlk

/-- The index refuses a second row in flight. -/
theorem OneLive.insertNew (h : OneLive x) (id : OperationId) (n : NewActivation) :
    OneLive (Service.insertNew x id n) := by
  unfold Service.insertNew Stores.create
  by_cases hfree : x.occupied = false
  · have hover : ∀ k op, x.operations.get? k = some op → op.state.nonterminal = false := by
      intro k op hk
      by_contra hlive
      have hocc := Stores.occupied_iff.mpr ⟨k, op, hk, by simpa using hlive⟩
      cases hfree.symm.trans hocc
    split
    · rename_i y hy
      split at hy
      · cases hy
      · split at hy
        · cases hy
        · cases hy
          intro j k opj opk hj hk hlivej hlivek
          have hnew : ∀ i opi, (x.operations.insert id n.row).get? i = some opi →
              opi.state.nonterminal = true → i = id := by
            intro i opi hi hlive
            by_contra hne
            have hold := hover i opi ((Dict.get?_insert_ne _ _ hne).symm.trans hi)
            cases hold.symm.trans hlive
          exact (hnew j opj hj hlivej).trans (hnew k opk hk hlivek).symm
    · exact h
  · have hocc : x.occupied = true := by simpa using hfree
    by_cases hvalid : n.valid = true
    · simpa [hvalid, hocc] using h
    · simpa [hvalid] using h

theorem ActiveConfirmed.cas (h : ActiveConfirmed x log) (id : OperationId) {e : ActivationState}
    (hactive : t.state = .active → ∃ target, Named x id target ∧ Confirmed log w id target) :
    ActiveConfirmed (x.cas id e t).1 log := by
  rcases Stores.cas_cases x id e t with hsame | ⟨op, hrow, -, hmoved⟩
  · rw [hsame]
    exact h
  · rw [hmoved]
    intro k op' hk hstate
    by_cases hkid : k = id
    · subst hkid
      simp only [Dict.get?_insert_self, Option.some.injEq] at hk
      subst hk
      obtain ⟨target, ⟨named, hnamed, rfl⟩, hconf⟩ := hactive hstate
      cases hrow.symm.trans hnamed
      exact ⟨w, hconf⟩
    · exact h k op' ((Dict.get?_insert_ne _ _ hkid).symm.trans hk) hstate

theorem ActiveConfirmed.insertNew (h : ActiveConfirmed x log) (id : OperationId)
    (n : NewActivation) : ActiveConfirmed (Service.insertNew x id n) log := by
  rcases Service.insertNew_cases x id n with hsame | ⟨-, hnew⟩
  · rw [hsame]
    exact h
  · rw [hnew]
    intro k op hk hstate
    by_cases hkid : k = id
    · subst hkid
      simp only [Dict.get?_insert_self, Option.some.injEq] at hk
      subst hk
      cases hstate
    · exact h k op ((Dict.get?_insert_ne _ _ hkid).symm.trans hk) hstate

/-- What holds of the shared state. -/
structure Safe (s : Stores × List Answer) : Prop where
  one : OneLive s.1
  active : ActiveConfirmed s.1 s.2

/-- What a worker's step does: rows move as the contract allows, and the
worker knows what it needs at its next point. -/
structure StepsTo (w : WorkerId) (s s' : Stores × List Answer) (pc' : WorkerPc) : Prop where
  rows : RowSteps s.1 s'.1
  safe : Safe s'
  at' : At w s' pc'

theorem ActiveConfirmed.mono (h : ActiveConfirmed x log) (hlog : log <+: log') :
    ActiveConfirmed x log' := by
  intro id op hop hactive
  obtain ⟨w, hconf⟩ := h id op hop hactive
  exact ⟨w, hconf.mono hlog⟩

/-- A step that leaves the operations as they are. -/
theorem StepsTo.still (hsafe : Safe (x, log)) (hops : y.operations = x.operations)
    (hlog : log <+: log') {pc' : WorkerPc} (hat : At w (y, log') pc') :
    StepsTo w (x, log) (y, log') pc' := by
  refine ⟨.of_eq hops, ⟨?_, ?_⟩, hat⟩
  · intro id k op op' hid hk
    rw [hops] at hid hk
    exact hsafe.one id k op op' hid hk
  · intro id op hid
    rw [hops] at hid
    exact hsafe.active.mono hlog id op hid

theorem StepsTo.cas (hsafe : Safe (x, log)) {e : ActivationState}
    (hat : Standing w x log (.cas id e t stage)) :
    StepsTo w (x, log) ((x.cas id e t).1, log)
      (.pass (Service.answered id stage (x.cas id e t).2)) := by
  obtain ⟨hallowed, hactive⟩ := hat
  refine ⟨rowSteps_cas x id hallowed, ⟨hsafe.one.cas id hallowed, hsafe.active.cas id hactive⟩,
    standing_answered fun op hop => ?_⟩
  rcases Stores.cas_cases x id e t with hsame | ⟨old, -, -, hmoved⟩
  · rw [hsame] at hop
    cases hop
  · rw [hmoved] at hop ⊢
    cases hop
    simp

/-- A step that asks the agent nothing. -/
theorem StepsTo.quiet (hsafe : Safe (x, log)) (hops : y.operations = x.operations)
    {pc' : RunPc} (hat : Standing w y log pc') :
    StepsTo w (x, log) (y, log ++ []) (.pass pc') := by
  rw [List.append_nil]
  exact .still hsafe hops (List.prefix_refl log) hat

/-- A transition forward is an edge, and not to `active` but from the health
read. -/
theorem standing_cas {e : ActivationState} (hedge : t.state ∈ e.allowedNext)
    (hactive : t.state ≠ .active) : Standing w x log (.cas id e t stage) :=
  ⟨.inr hedge, fun h => absurd h hactive⟩

/-- A step of a pass. -/
theorem stepsTo_pass {pc : RunPc} {c : Choice} {s' : Service} (hsafe : Safe (x, log))
    (hat : Standing w x log pc) (hc : ∀ k n, c ≠ .submit k n)
    (hn : Service.next maxAttempts ⟨x, pc, fun _ => 0⟩ c = some s') :
    StepsTo w (x, log) (s'.stores, log ++ heard w (.step c) (.pass pc)) (.pass s'.pc) := by
  cases c with
  | submit k n => exact absurd rfl (hc k n)
  | run k =>
    cases pc <;> simp only [Service.next, reduceCtorEq] at hn
    cases hn
    exact .quiet hsafe rfl trivial
  | go =>
    cases pc <;> simp only [Service.next, reduceCtorEq] at hn
    case read k =>
      split at hn
      · cases hn
        exact .quiet hsafe rfl trivial
      · rename_i op hrow
        cases hn
        exact .quiet hsafe rfl (standing_begin hrow)
    case cas k e t stage =>
      cases hn
      simpa [heard] using StepsTo.cas hsafe hat
    case reread k stage =>
      split at hn
      · cases hn
        exact .quiet hsafe rfl trivial
      · rename_i op hrow
        cases hn
        exact .quiet hsafe rfl (standing_dispatch hrow)
    case returned k =>
      cases hn
      exact .quiet hsafe rfl trivial
  | wrote now raised took =>
    cases pc <;> simp only [Service.next, reduceCtorEq] at hn
    case commitPointer k op =>
      cases hn
      refine .quiet hsafe (Service.operations_written x
        (y := Service.setServingLlm x op.targetModel op.actor now) rfl raised took) ?_
      cases raised with
      | none =>
        exact standing_cas (by simp [Service.forward, ActivationState.allowedNext])
          (by simp [Service.forward])
      | some cls => exact ⟨.inl ⟨rfl, rfl⟩, by simp [Service.pointerFailed]⟩
    case rollBack k op stage =>
      cases hn
      refine .quiet hsafe
        (Service.operations_written x (Service.operations_restoreServingLlm ..) raised took) ?_
      cases raised with
      | none =>
        exact standing_cas (by simp [Service.forward, ActivationState.allowedNext])
          (by simp [Service.forward])
      | some cls =>
        exact standing_cas (by simp [Service.rollbackFailed, ActivationState.allowedNext])
          (by simp [Service.rollbackFailed])
  | reloaded r =>
    cases pc <;> simp only [Service.next, reduceCtorEq] at hn
    case reload k op =>
      have hgrows : log <+: log ++ [Answer.reloaded w k op.target r] := List.prefix_append ..
      split at hn
      · rename_i hr
        cases hn
        exact .still hsafe rfl hgrows ⟨hat.2, r, hr, by simp⟩
      · cases hn
        obtain ⟨hallowed, hactive⟩ := allowed_reloadRefused maxAttempts hat.1 r
        exact .still hsafe rfl hgrows ⟨hallowed, fun h => absurd h hactive⟩
  | health i =>
    cases pc <;> simp only [Service.next, reduceCtorEq] at hn
    case identify k op =>
      cases hn
      obtain ⟨hnamed, r, hr, hmem⟩ := hat
      refine .still hsafe rfl (List.prefix_append log [Answer.health w k i]) ?_
      split
      · rename_i hres
        simp only [Activation.resident, Bool.and_eq_true, decide_eq_true_eq] at hres
        refine ⟨.inr (by simp [Service.forward, ActivationState.allowedNext]), fun _ => ?_⟩
        -- the load was heard before the identity
        have hsub : [Answer.reloaded w k op.target r].Sublist log := List.singleton_sublist.mpr hmem
        exact ⟨op.target, hnamed, r, i, hr, hres.1, hres.2, hsub.append (List.Sublist.refl _)⟩
      · exact ⟨.inl ⟨rfl, rfl⟩, by simp [Service.verifyPending]⟩
  | ends =>
    cases pc <;> simp only [Service.next, reduceCtorEq] at hn
    all_goals
      cases hn
      have hidle : StepsTo w (x, log) (x, log) (.pass .idle) :=
        .still hsafe rfl (List.prefix_refl log) trivial
      simpa [heard] using hidle

/-- A step of a worker. -/
theorem stepsTo_workerStep {pc pc' : WorkerPc} {c : WorkerChoice} (hsafe : Safe (x, log))
    (hat : At w (x, log) pc) (hn : workerStep maxAttempts c x pc = some (y, pc')) :
    StepsTo w (x, log) (y, log ++ heard w c pc) pc' := by
  have hstay : ∀ k, At w (x, log) k → StepsTo w (x, log) (x, log ++ []) k := by
    intro k hk
    rw [List.append_nil]
    exact .still hsafe rfl (List.prefix_refl log) hk
  cases pc with
  | inserting id n =>
    cases c <;> simp only [workerStep, reduceCtorEq] at hn
    case insert =>
      cases hn
      have hinsert : StepsTo w (x, log) (Service.insertNew x id n, log) (.pass .idle) :=
        ⟨rowSteps_insertNew x id n, ⟨hsafe.one.insertNew id n, hsafe.active.insertNew id n⟩, trivial⟩
      simpa [heard] using hinsert
    case dies =>
      cases hn
      exact hstay _ trivial
  | pass pc =>
    cases c <;> simp only [workerStep, reduceCtorEq] at hn
    case submit k n =>
      split at hn
      · rename_i hidle
        cases hn
        subst hidle
        refine hstay _ ?_
        unfold lookUp
        split
        · split <;> trivial
        · trivial
      · cases hn
    case dies =>
      cases hn
      have hidle : StepsTo w (x, log) (x, log) (.pass .idle) :=
        .still hsafe rfl (List.prefix_refl log) trivial
      cases pc <;> simpa [heard] using hidle
    case step c =>
      split at hn
      · cases hn
      · rename_i hc
        obtain ⟨s', hs', hy⟩ := Option.map_eq_some_iff.mp hn
        cases hy
        refine stepsTo_pass hsafe hat ?_ hs'
        rintro k n rfl
        exact hc rfl

theorem holds_of_reachable {s : Workers}
    (h : Runs.Reachable (next maxAttempts) Runs.anyStep init s) :
    Interleaving.Holds Safe At s := by
  have h0 : Interleaving.Holds Safe At init := by
    refine ⟨⟨?_, ?_⟩, fun _ => trivial⟩
    · intro id k op op' hid
      cases hid
    · intro id op hid
      cases hid
  refine Interleaving.threadwise (R := fun _ => Grows) h0 ?_ ?_ h
  · intro s w c x pc _ hI _ hn
    obtain ⟨r, hr, hx⟩ := Option.map_eq_some_iff.mp hn
    cases hx
    have hstep := stepsTo_workerStep hI.global (hI.thread w) hr
    exact ⟨hstep.safe, hstep.at', hstep.rows, List.prefix_append ..⟩
  · intro w u x y pc hgrows _ hat
    cases pc with
    | inserting => trivial
    | pass pc => exact Standing.grows hat hgrows.rows hgrows.log

def loadedLlama : ReloadResult := ⟨some "loaded", false, none, none⟩

/-- Worker 0 submits and dies with the answer to its reload; worker 1, which
has read the same operation, is answered in turn and records it. -/
def takenOver : List (WorkerId × WorkerChoice) :=
  [(0, .submit "op" Service.promotion), (0, .insert), (0, .step (.run "op")), (0, .step .go),
    (0, .step (.wrote 1 none true)), (0, .step .go), (0, .step .go), (1, .step (.run "op")),
    (1, .step .go), (0, .step (.reloaded loadedLlama)), (0, .dies),
    (1, .step (.reloaded loadedLlama)), (1, .step (.health ⟨some "llama", some "2"⟩)),
    (1, .step .go)]

end Workers

end MlopsLite.Gateway
