import MlopsLite.Gateway.Activation.Service
import MlopsLite.Gateway.Policy.Evaluation
import MlopsLite.Lib.CodeLog
import MlopsLite.PlatformLib.LlmResolve

/-!
# Promotion — going live

`go_live` (`gateway/app/promotion.py`) with `promote` (`gateway/app/registry.py`) and
`activate`, `submit`, `assert_no_conflict` and `_untracked`
(`gateway/app/activation.py`), over what they ask of the registry, the stores and the
agent, which answer anything: other promotions, the reconciler and the agent run
between any two calls.
-/

namespace MlopsLite.Gateway.Promotion

open PlatformLib.LlmResolve (Kind Base)
open Policy (Verdict VerdictKind)

/-- `llm_target_info` of a text-generation version. -/
structure LlmTarget where
  kind : Kind
  base : Option Base
  error : Option String

/-- An operation and its row. -/
abbrev Operation := OperationId × Activation

/-- Why an activation is refused. -/
inductive Refusal
  | keyInFlight (key : String) (existing : Activation)
  | inProgress (current : Option Operation)

/-- `RegistryError`, `ActivationError`, any other exception. -/
inductive Raised
  | registry (text : String)
  | activation (refusal : Refusal)
  | other

/-- What a call of the registry raises. -/
inductive Fault
  | registry (text : String)
  | other

inductive Op
  | listVersions (name : String)
  | llmTargetInfo (name version : String)
  | currentActivation
  | gate (name version : String) (overriding : Bool)
  | servingVersion (name : String)
  | setAlias (name version : String)
  | getServingLlm
  | findByKey (key : String)
  | create (n : NewActivation)
  | run (id : OperationId) (preempt : Bool)
  | setServingLlm (name : String)
  | requestLlmReload (preempt : Bool)
  | restoreServingLlm (prior : Option ServingLlm)

/-- An error is `str(e)`, of a pass the class of `e`; a failure of the store that only
the log tells of is `()`. A pass ends with the record and what its evidence says of the
reload. -/
@[reducible] def Reply : Op → Type
  | .listVersions _ => Except Fault (List String)
  | .llmTargetInfo .. => Except Fault (Option LlmTarget)
  | .currentActivation | .findByKey _ => Except Unit (Option Operation)
  | .gate .. => Except Fault Verdict
  | .servingVersion _ => Option String
  | .setAlias .. => Except String Unit
  | .getServingLlm => Option ServingLlm
  | .create _ => Except CreateError Operation
  | .run .. => Except String (Activation × Option ReloadResult)
  | .setServingLlm _ | .restoreServingLlm _ => Except String Unit
  | .requestLlmReload _ => ReloadResult

abbrev Prog (α : Type) := Code Op Reply Raised α

abbrev Event := Code.Event Op Reply

abbrev Log := List Event

def ask (o : Op) : Prog (Reply o) := Code.op o

def orRaise {α : Type} : Except Fault α → Prog α
  | .ok a => pure a
  | .error (.registry text) => .raise (.registry text)
  | .error .other => .raise .other

/-- The store's own exceptions. -/
def orOther {ε α : Type} : Except ε α → Prog α
  | .ok a => pure a
  | .error _ => .raise .other

/-! ## The activation -/

/-- An operation that is not over, for another target. -/
def elsewhere (op : Activation) (name version : String) : Bool :=
  op.state.nonterminal && !(op.targetModel = name ∧ op.targetVersion = version)

def idempotencyKey (name version : String) : String := s!"promote:{name}@{version}"

/-- `prior` is a row of the pointer, which has no version. -/
def newActivation (name version : String) (prior : Option ServingLlm) (preempt : Bool) :
    NewActivation :=
  { idempotencyKey := idempotencyKey name version, actor := "operator", targetModel := name,
    targetVersion := version, previousModel := prior.map ServingLlm.modelName,
    previousVersion := none, requiresPreemption := preempt }

/-- The new operation of `submit`. -/
def record (n : NewActivation) : Prog Operation := do
  match ← ask (.create n) with
  | .ok op => return op
  | .error .database => .raise .other
  | .error .conflict =>
      let current ← ask .currentActivation >>= orOther
      .raise (.activation (.inProgress current))

def submit (name version : String) (prior : Option ServingLlm) (preempt : Bool) :
    Prog Operation := do
  let key := idempotencyKey name version
  let existing ← ask (.findByKey key) >>= orOther
  match existing.filter fun op => op.2.state.nonterminal with
  | some op =>
      if elsewhere op.2 name version then .raise (.activation (.keyInFlight key op.2))
      else return op
  | none => record (newActivation name version prior preempt)

/-- `assert_no_conflict`; the store may be down. -/
def assertNoConflict (name version : String) : Prog Unit := do
  match ← ask .currentActivation with
  | .ok (some op) =>
      if elsewhere op.2 name version then .raise (.activation (.inProgress (some op)))
      else return ()
  | .ok none | .error _ => return ()

/-- The operation of an answer, with its row where the pass was not interrupted. -/
abbrev Tracked := OperationId × Option Activation

/-- `serving_llm` in the answer; `target` is its kind and its base. -/
structure View where
  active : Option String
  target : Option LlmTarget
  reload : Option ReloadResult
  rolledBack : Option Bool
  pointerError : Option String
  error : Option String
  activation : Option Tracked

/-- The pointer was not written. -/
def View.unwritten (error : String) (tracked : Option Tracked) : View :=
  ⟨none, none, none, none, none, some error, tracked⟩

/-- The pointer is that of before, or could not be written back. -/
def View.back (active : Option String) (llm : LlmTarget) (reload : Option ReloadResult)
    (pointerError : Option (Option String)) (tracked : Option Tracked) : View :=
  ⟨active, some llm, reload, some pointerError.isNone, pointerError.join, none, tracked⟩

def View.live (name : String) (llm : LlmTarget) (reload : Option ReloadResult)
    (error : Option String) (tracked : Option Tracked) : View :=
  ⟨some name, some llm, reload, none, none, error, tracked⟩

/-- `_view`. -/
def view (id : OperationId) (op : Activation) (reload : Option ReloadResult) (name : String)
    (llm : LlmTarget) : View :=
  let tracked : Option Tracked := some (id, some op)
  if op.state = .rolledBack then .back op.previousModel llm reload none tracked
  else if op.state = .degraded ∧ op.lastErrorCode = some "pointer_error" then
    .back op.previousModel llm reload (some op.lastError) tracked
  else if op.state = .prepared then
    .unwritten (orElse op.lastError "pointer write failed") tracked
  else .live name llm reload none tracked

/-- `_untracked`: one shot, without a record. -/
def untracked (name : String) (prior : Option ServingLlm) (preempt : Bool) (llm : LlmTarget) :
    Prog View := do
  match ← ask (.setServingLlm name) with
  | .error e => return .unwritten e none
  | .ok () =>
      let reload ← ask (.requestLlmReload preempt)
      if reload.unresolvable then
        let restored ← ask (.restoreServingLlm prior)
        let pointerError := match restored with
          | .ok () => none
          | .error e => some (some e)
        return .back (prior.map ServingLlm.modelName) llm (some reload) pointerError none
      else return .live name llm (some reload) none none

def interrupted (id : OperationId) (cls : String) : String :=
  s!"activation interrupted ({cls}) — reconciliation resumes operation {id}"

def activate (name version : String) (prior : Option ServingLlm) (preempt : Bool)
    (llm : LlmTarget) : Prog View := do
  match ← (submit name version prior preempt).result with
  | .error (.activation refusal) => .raise (.activation refusal)
  | .error _ => untracked name prior preempt llm
  | .ok (id, _) =>
      match ← ask (.run id preempt) with
      | .error cls => return .live name llm none (some (interrupted id cls)) (some (id, none))
      | .ok (final, reload) => return view id final reload name llm

/-! ## The registry -/

/-- What `promote` returns, and what is added to it. -/
structure Promoted where
  name : String
  servingVersion : Option String
  promoted : Bool
  verdict : Verdict
  servingLlm : Option View

def promote (name version : String) (overriding : Bool) : Prog Promoted := do
  let verdict ← ask (.gate name version overriding) >>= orRaise
  if verdict.verdict = .blocked then
    let serving ← ask (.servingVersion name)
    return ⟨name, serving, false, verdict, none⟩
  else
    match ← ask (.setAlias name version) with
    | .error e => .raise (.registry e)
    | .ok () => return ⟨name, some version, true, verdict, none⟩

/-! ## Going live -/

inductive GoLiveOutcome
  | notFound
  | refused
  | conflict
  | blocked
  | promoted
  | error
  deriving DecidableEq

def GoLiveOutcome.httpStatus : GoLiveOutcome → ℕ
  | .notFound => 404
  | .refused | .conflict => 409
  | .blocked | .promoted => 200
  | .error => 502

inductive Detail
  | registryError (text : String)
  | noVersion (name version : String)
  | promotionRefused (error : String)
  | activationRefused (refusal : Refusal)

structure GoLiveResult where
  outcome : GoLiveOutcome
  body : Except Detail Promoted
  metricStatuses : List String

def GoLiveResult.ok (r : GoLiveResult) : Bool := r.outcome.httpStatus = 200

def GoLiveResult.failed (outcome : GoLiveOutcome) (detail : Detail) (metrics : List String) :
    GoLiveResult :=
  ⟨outcome, .error detail, metrics⟩

/-- From the alias on. -/
def launch (name version : String) (preempt : Bool) (target : Option LlmTarget)
    (res : Promoted) : Prog GoLiveResult := do
  match target.filter fun _ => res.promoted with
  | none => return ⟨.promoted, .ok res, ["ok"]⟩
  | some llm =>
      let prior ← ask .getServingLlm
      match ← (activate name version prior preempt llm).result with
      | .error (.activation refusal) =>
          return .failed .conflict (.activationRefused refusal) ["ok", "conflict"]
      | .error e => .raise e
      | .ok sl =>
          let metrics := if sl.rolledBack.isSome then ["ok", "unresolvable"] else ["ok"]
          return ⟨.promoted, .ok { res with servingLlm := some sl }, metrics⟩

/-- The gated promotion, and what follows it. -/
def promoteAndLaunch (name version : String) (overriding preempt : Bool)
    (target : Option LlmTarget) : Prog GoLiveResult := do
  match ← (promote name version overriding).result with
  | .error (.registry text) => return .failed .error (.registryError text) ["error"]
  | .error e => .raise e
  | .ok res =>
      if !res.promoted then return ⟨.blocked, .ok res, ["blocked"]⟩
      else launch name version preempt target res

/-- The checks before the alias may move: the target, or the answer. -/
def precheck (name version : String) : Prog (Except GoLiveResult (Option LlmTarget)) := do
  match ← ask (.listVersions name) with
  | .error .other => .raise .other
  | .error (.registry text) => return .error (.failed .error (.registryError text) [])
  | .ok versions =>
      if version ∉ versions then
        return .error (.failed .notFound (.noVersion name version) [])
      else
        match ← ask (.llmTargetInfo name version) with
        | .error .other => .raise .other
        | .error (.registry text) => return .error (.failed .error (.registryError text) [])
        | .ok none => return .ok none
        | .ok (some llm) =>
            match llm.error.filter (· ≠ "") with
            | some error =>
                return .error (.failed .refused (.promotionRefused error) ["refused"])
            | none =>
                match ← (assertNoConflict name version).result with
                | .error (.activation refusal) =>
                    return .error (.failed .conflict (.activationRefused refusal) ["conflict"])
                | .error e => .raise e
                | .ok () => return .ok (some llm)

def goLive (name version : String) (overriding preempt : Bool) : Prog GoLiveResult := do
  match ← precheck name version with
  | .error answer => return answer
  | .ok target => promoteAndLaunch name version overriding preempt target

/-! ## What has happened -/

/-- It asks for an activation, or writes the pointer. -/
@[simp] def Op.activates : Op → Bool
  | .findByKey _ | .create _ | .run .. => true
  | .setServingLlm _ | .requestLlmReload _ | .restoreServingLlm _ => true
  | .listVersions _ | .llmTargetInfo .. | .currentActivation | .gate .. => false
  | .servingVersion _ | .setAlias .. | .getServingLlm => false

/-- No activation so far. -/
def Still (l : Log) : Prop := ∀ ev ∈ l, ev.1.activates = false

/-- The alias was moved. -/
def Moved (name version : String) (l : Log) : Prop := ⟨.setAlias name version, .ok ()⟩ ∈ l

/-- An operation in flight, as found, does not stand in the way. -/
def Free (name version : String) : Except Unit (Option Operation) → Prop
  | .ok (some op) => elsewhere op.2 name version = false
  | .ok none | .error _ => True

/-- The version is there, it resolves if it is an LLM, and then no other activation was
in flight when last looked at. -/
def Cleared (name version : String) (target : Option LlmTarget) (l : Log) : Prop :=
  (∃ versions, ⟨.listVersions name, .ok versions⟩ ∈ l ∧ version ∈ versions) ∧
  ⟨.llmTargetInfo name version, .ok target⟩ ∈ l ∧
  ∀ llm, target = some llm → llm.error.filter (· ≠ "") = none ∧
    ∃ found, ⟨.currentActivation, found⟩ ∈ l ∧ Free name version found

/-- The store could not take the operation. -/
def Unrecorded (l : Log) : Prop :=
  (∃ key, ⟨.findByKey key, .error ()⟩ ∈ l) ∨ (∃ n, ⟨.create n, .error .database⟩ ∈ l) ∨
    ∃ n, ⟨.create n, .error .conflict⟩ ∈ l ∧ ⟨.currentActivation, .error ()⟩ ∈ l

/-- The operation is one of this target, found or created. -/
def Recorded (name version : String) (id : OperationId) (l : Log) : Prop :=
  (∃ op, ⟨.findByKey (idempotencyKey name version), .ok (some (id, op))⟩ ∈ l ∧
    op.state.nonterminal = true ∧ op.targetModel = name ∧ op.targetVersion = version) ∨
  ∃ n op, ⟨.create n, .ok (id, op)⟩ ∈ l

/-- What may be done after what has been done. The pointer is read after the alias has
moved and before anything is activated; what is recorded and what is written back is the
pointer read then, and it is written here only where the store takes no operation. -/
def Rule (name version : String) (preempt : Bool) (p : Log) : Event → Prop
  | ⟨.gate n v _, _⟩ => n = name ∧ v = version ∧ Still p ∧ ∃ target, Cleared name version target p
  | ⟨.setAlias n v, _⟩ => n = name ∧ v = version ∧ Still p ∧ (∀ r, ⟨.setAlias n v, r⟩ ∉ p) ∧
      (∃ target, Cleared name version target p) ∧
      ∃ overriding verdict, ⟨.gate name version overriding, .ok verdict⟩ ∈ p ∧
        verdict.verdict ≠ .blocked
  | ⟨.getServingLlm, _⟩ => Moved name version p ∧ Still p
  | ⟨.findByKey key, _⟩ => Moved name version p ∧ key = idempotencyKey name version
  | ⟨.create n, _⟩ => Moved name version p ∧
      ∃ prior, ⟨.getServingLlm, prior⟩ ∈ p ∧ n = newActivation name version prior preempt
  | ⟨.run id confirmed, _⟩ => Moved name version p ∧ Recorded name version id p ∧
      confirmed = preempt
  | ⟨.setServingLlm n, _⟩ => Moved name version p ∧ n = name ∧ Unrecorded p
  | ⟨.requestLlmReload confirmed, _⟩ => ⟨.setServingLlm name, .ok ()⟩ ∈ p ∧ confirmed = preempt
  | ⟨.restoreServingLlm prior, _⟩ => ⟨.getServingLlm, prior⟩ ∈ p ∧
      ∃ confirmed r, ⟨.requestLlmReload confirmed, r⟩ ∈ p ∧ r.unresolvable = true
  | _ => True

/-- `serving_llm` says what was done. -/
def Shown (name : String) (l : Log) (v : View) : Prop :=
  match v.activation with
  | some (id, some op) => ∃ confirmed reload llm, ⟨.run id confirmed, .ok (op, reload)⟩ ∈ l ∧
      v = view id op reload name llm
  | some (id, none) => v.active = some name ∧
      ∃ confirmed cls, ⟨.run id confirmed, .error cls⟩ ∈ l ∧ v.error = some (interrupted id cls)
  | none =>
      (v.active = none ∧ v.rolledBack = none ∧
        ∃ e, ⟨.setServingLlm name, .error e⟩ ∈ l ∧ v.error = some e) ∨
      (v.active = some name ∧ v.rolledBack = none ∧ ∃ confirmed r,
        ⟨.requestLlmReload confirmed, r⟩ ∈ l ∧ v.reload = some r ∧ r.unresolvable = false) ∨
      ∃ prior restored, ⟨.restoreServingLlm prior, restored⟩ ∈ l ∧
        v.active = prior.map ServingLlm.modelName ∧ v.rolledBack = some restored.toBool ∧
        ∀ e, restored = .error e → v.pointerError = some e

/-- The answer says what was done. -/
structure Honest (name version : String) (l : Log) (r : GoLiveResult) : Prop where
  answered : r.ok = r.body.toBool
  aliased : r.metricStatuses.head? = some "ok" ↔ Moved name version l
  promoted : ∀ res, r.body = .ok res → (res.promoted = true ↔ Moved name version l)
  still : ¬ Moved name version l → Still l
  overtaken : r.outcome = .conflict ∧ Moved name version l ↔
    r.metricStatuses = ["ok", "conflict"]
  unresolvable : "unresolvable" ∈ r.metricStatuses ↔
    ∃ res v, r.body = .ok res ∧ res.servingLlm = some v ∧ v.rolledBack.isSome = true
  serving : ∀ res, r.body = .ok res → res.promoted = true →
    ∃ target, ⟨.llmTargetInfo name version, .ok target⟩ ∈ l ∧
      res.servingLlm.isSome = target.isSome
  shown : ∀ res v, r.body = .ok res → res.servingLlm = some v → Shown name l v

@[simp] theorem still_nil : Still [] := by simp [Still]

@[simp] theorem still_cons {ev : Event} {l : Log} :
    Still (ev :: l) ↔ ev.1.activates = false ∧ Still l := by simp [Still]

@[simp] theorem still_append {l l' : Log} : Still (l ++ l') ↔ Still l ∧ Still l' := by
  simp [Still, or_imp, forall_and]

theorem Shown.mono {name : String} {l l' : Log} {v : View} (h : Shown name l v) (hsub : l ⊆ l') :
    Shown name l' v := by
  unfold Shown at h ⊢
  split at h
  · obtain ⟨confirmed, reload, llm, hmem, hv⟩ := h
    exact ⟨confirmed, reload, llm, hsub hmem, hv⟩
  · obtain ⟨hactive, confirmed, cls, hmem, herror⟩ := h
    exact ⟨hactive, confirmed, cls, hsub hmem, herror⟩
  · obtain ⟨hactive, hback, e, hmem, herror⟩ | ⟨hactive, hback, c, r, hmem, hreload⟩ |
      ⟨prior, restored, hmem, hrest⟩ := h
    · exact .inl ⟨hactive, hback, e, hsub hmem, herror⟩
    · exact .inr (.inl ⟨hactive, hback, c, r, hsub hmem, hreload⟩)
    · exact .inr (.inr ⟨prior, restored, hsub hmem, hrest⟩)

/-! ## Executions -/

section

variable {name version : String} {prior : Option ServingLlm} {preempt overriding : Bool}
  {llm : LlmTarget} {p l : Log}

/-- What `submit` does, after the log `p`. -/
structure SubmitSpec (name version : String) (preempt : Bool) (p l : Log)
    (out : Except Raised Operation) : Prop where
  guarded : Code.Guarded (Rule name version preempt) p l
  recorded : ∀ op, out = .ok op → Recorded name version op.1 (p ++ l)
  unrecorded : out = .error .other → Unrecorded (p ++ l)
  refused : ∀ text, out ≠ .error (.registry text)

theorem of_orOther {ε α γ : Type} {reply : Except ε α} {f : α → Prog γ} {out : Except Raised γ}
    (he : (orOther reply >>= f).Ends l out) :
    (∃ e, reply = .error e ∧ l = [] ∧ out = .error .other) ∨
      ∃ a, reply = .ok a ∧ (f a).Ends l out := by
  cases reply with
  | error e => exact .inl ⟨e, rfl, he.of_raise⟩
  | ok a => exact .inr ⟨a, rfl, he⟩

theorem record_spec (hmoved : Moved name version p) (hprior : ⟨.getServingLlm, prior⟩ ∈ p)
    {out : Except Raised Operation}
    (he : (record (newActivation name version prior preempt)).Ends l out) :
    SubmitSpec name version preempt p l out := by
  have hcreate (r : Except CreateError Operation) : Rule name version preempt p
      ⟨.create (newActivation name version prior preempt), r⟩ := ⟨hmoved, prior, hprior, rfl⟩
  obtain ⟨created, l₁, rfl, hcreated⟩ := Code.Ends.of_call he
  match created with
  | .ok op =>
    obtain ⟨rfl, rfl⟩ := hcreated.of_ret
    refine ⟨⟨hcreate _, trivial⟩, ?_, by simp, by simp⟩
    intro op' hop
    obtain rfl := Except.ok.inj hop
    exact .inr ⟨_, op.2, List.mem_append_right _ (.head _)⟩
  | .error .database =>
    obtain ⟨rfl, rfl⟩ := hcreated.of_raise
    refine ⟨⟨hcreate _, trivial⟩, by simp, fun _ => ?_, by simp⟩
    exact .inr (.inl ⟨_, List.mem_append_right _ (.head _)⟩)
  | .error .conflict =>
    obtain ⟨current, l₂, rfl, hcurrent⟩ := Code.Ends.of_call hcreated
    rcases of_orOther hcurrent with ⟨e, rfl, rfl, rfl⟩ | ⟨c, rfl, hraise⟩
    · refine ⟨⟨hcreate _, trivial, trivial⟩, by simp, fun _ => ?_, by simp⟩
      exact .inr (.inr ⟨_, List.mem_append_right _ (.head _), by simp⟩)
    · obtain ⟨rfl, rfl⟩ := hraise.of_raise
      exact ⟨⟨hcreate _, trivial, trivial⟩, by simp, by simp, by simp⟩

theorem SubmitSpec.cons {out : Except Raised Operation} {ev : Event}
    (h : SubmitSpec name version preempt (p ++ [ev]) l out)
    (hrule : Rule name version preempt p ev) :
    SubmitSpec name version preempt p (ev :: l) out := by
  have happend : p ++ ev :: l = p ++ [ev] ++ l := by simp
  constructor
  · exact ⟨hrule, h.guarded⟩
  · rw [happend]
    exact h.recorded
  · rw [happend]
    exact h.unrecorded
  · exact h.refused

theorem submit_spec (hmoved : Moved name version p) (hprior : ⟨.getServingLlm, prior⟩ ∈ p)
    {out : Except Raised Operation} (he : (submit name version prior preempt).Ends l out) :
    SubmitSpec name version preempt p l out := by
  obtain ⟨found, l₁, rfl, hfound⟩ := Code.Ends.of_call he
  have hrule : Rule name version preempt p ⟨.findByKey (idempotencyKey name version), found⟩ :=
    ⟨hmoved, rfl⟩
  rcases of_orOther hfound with ⟨e, rfl, rfl, rfl⟩ | ⟨found, rfl, hrest⟩
  · refine ⟨⟨hrule, trivial⟩, by simp, fun _ => ?_, by simp⟩
    exact .inl ⟨_, List.mem_append_right _ (.head _)⟩
  · split at hrest
    · rename_i op hop
      obtain ⟨rfl, hlive⟩ := Option.filter_eq_some_iff.mp hop
      split at hrest
      · obtain ⟨rfl, rfl⟩ := hrest.of_raise
        exact ⟨⟨hrule, trivial⟩, by simp, by simp, by simp⟩
      · rename_i hhere
        obtain ⟨rfl, rfl⟩ := hrest.of_ret
        refine ⟨⟨hrule, trivial⟩, ?_, by simp, by simp⟩
        intro op' hop'
        obtain rfl := Except.ok.inj hop'
        have htarget : op.2.targetModel = name ∧ op.2.targetVersion = version := by
          simpa [elsewhere, hlive] using hhere
        exact .inl ⟨op.2, List.mem_append_right _ (.head _), hlive, htarget⟩
    · apply SubmitSpec.cons _ hrule
      exact record_spec (List.mem_append_left _ hmoved) (List.mem_append_left _ hprior) hrest

/-- What `activate` does, after the log `p`. -/
structure ActivateSpec (name version : String) (preempt : Bool) (p l : Log)
    (out : Except Raised View) : Prop where
  guarded : Code.Guarded (Rule name version preempt) p l
  shown : ∀ v, out = .ok v → Shown name l v
  refused : ∀ e, out = .error e → ∃ refusal, e = .activation refusal

theorem untracked_spec (hmoved : Moved name version p) (hprior : ⟨.getServingLlm, prior⟩ ∈ p)
    (hlost : Unrecorded p) {out : Except Raised View}
    (he : (untracked name prior preempt llm).Ends l out) :
    ActivateSpec name version preempt p l out := by
  obtain ⟨written, l₁, rfl, hwritten⟩ := Code.Ends.of_call he
  have hset : Rule name version preempt p ⟨.setServingLlm name, written⟩ := ⟨hmoved, rfl, hlost⟩
  match written with
  | .error e =>
    obtain ⟨rfl, rfl⟩ := hwritten.of_ret
    refine ⟨⟨hset, trivial⟩, ?_, by simp⟩
    intro v hv
    obtain rfl := Except.ok.inj hv
    exact .inl ⟨rfl, rfl, e, .head _, rfl⟩
  | .ok () =>
    obtain ⟨reload, l₂, rfl, hreload⟩ := Code.Ends.of_call hwritten
    have hask : Rule name version preempt (p ++ [⟨.setServingLlm name, .ok ()⟩])
        ⟨.requestLlmReload preempt, reload⟩ := ⟨by simp, rfl⟩
    dsimp only [Code.bind] at hreload
    split at hreload
    · rename_i hunresolvable
      obtain ⟨restored, l₃, rfl, hrestored⟩ := Code.Ends.of_call hreload
      obtain ⟨rfl, rfl⟩ := Code.Ends.of_ret hrestored
      refine ⟨⟨hset, hask, ⟨?_, preempt, reload, by simp, hunresolvable⟩, trivial⟩,
        ?_, by simp⟩
      · simp [hprior]
      · intro v hv
        obtain rfl := Except.ok.inj hv
        refine .inr (.inr ⟨prior, restored, by simp, rfl, ?_, ?_⟩)
        · cases restored <;> rfl
        · rintro e rfl
          rfl
    · rename_i hunresolvable
      obtain ⟨rfl, rfl⟩ := Code.Ends.of_ret hreload
      refine ⟨⟨hset, hask, trivial⟩, ?_, by simp⟩
      intro v hv
      obtain rfl := Except.ok.inj hv
      refine .inr (.inl ⟨rfl, rfl, preempt, reload, by simp, rfl, ?_⟩)
      simpa using hunresolvable

theorem activate_spec (hmoved : Moved name version p) (hprior : ⟨.getServingLlm, prior⟩ ∈ p)
    {out : Except Raised View} (he : (activate name version prior preempt llm).Ends l out) :
    ActivateSpec name version preempt p l out := by
  obtain ⟨submitted, l₁, l₂, rfl, hsubmitted, hrest⟩ := Code.Ends.of_result_bind he
  have hsubmit := submit_spec hmoved hprior hsubmitted
  match submitted with
  | .error (.registry text) => exact absurd rfl (hsubmit.refused text)
  | .error (.activation refusal) =>
    obtain ⟨rfl, rfl⟩ := Code.Ends.of_raise hrest
    exact ⟨by simpa using hsubmit.guarded, by simp, by simp⟩
  | .error .other =>
    have hlost := hsubmit.unrecorded rfl
    have hrun := untracked_spec (List.mem_append_left l₁ hmoved) (List.mem_append_left l₁ hprior)
      hlost hrest
    refine ⟨Code.guarded_append.mpr ⟨hsubmit.guarded, hrun.guarded⟩, ?_, hrun.refused⟩
    intro v hv
    exact (hrun.shown v hv).mono (List.subset_append_right l₁ l₂)
  | .ok (id, op) =>
    have hrecorded := hsubmit.recorded (id, op) rfl
    obtain ⟨final, l₃, rfl, hfinal⟩ := Code.Ends.of_call hrest
    have hpass : Rule name version preempt (p ++ l₁) ⟨.run id preempt, final⟩ :=
      ⟨List.mem_append_left l₁ hmoved, hrecorded, rfl⟩
    have hmem : (⟨.run id preempt, final⟩ : Event) ∈ l₁ ++ [⟨.run id preempt, final⟩] := by simp
    match final with
    | .error cls =>
      obtain ⟨rfl, rfl⟩ := Code.Ends.of_ret hfinal
      refine ⟨Code.guarded_append.mpr ⟨hsubmit.guarded, hpass, trivial⟩, ?_, by simp⟩
      intro v hv
      obtain rfl := Except.ok.inj hv
      exact ⟨rfl, preempt, cls, hmem, rfl⟩
    | .ok (final, reload) =>
      obtain ⟨rfl, rfl⟩ := Code.Ends.of_ret hfinal
      refine ⟨Code.guarded_append.mpr ⟨hsubmit.guarded, hpass, trivial⟩, ?_, by simp⟩
      intro v hv
      obtain rfl := Except.ok.inj hv
      have htracked : (view id final reload name llm).activation = some (id, some final) := by
        unfold view
        split
        · rfl
        · split
          · rfl
          · split <;> rfl
      rw [Shown, htracked]
      exact ⟨preempt, reload, llm, hmem, rfl⟩

/-! ## The promotion -/

/-- What the gated promotion does, after the checks. -/
structure PromoteSpec (name version : String) (preempt : Bool) (p l : Log)
    (out : Except Raised Promoted) : Prop where
  guarded : Code.Guarded (Rule name version preempt) p l
  still : Still l
  moved : ∀ res, out = .ok res → res.servingLlm = none ∧
    (res.promoted = true ↔ Moved name version l)
  failed : ∀ e, out = .error e → ¬ Moved name version l ∧ ∀ refusal, e ≠ .activation refusal

theorem Cleared.mono {target : Option LlmTarget} {p' : Log}
    (h : Cleared name version target p) (hsub : p ⊆ p') : Cleared name version target p' := by
  obtain ⟨⟨versions, hlisted, hmem⟩, htarget, hfree⟩ := h
  refine ⟨⟨versions, hsub hlisted, hmem⟩, hsub htarget, fun llm hllm => ?_⟩
  obtain ⟨herror, found, hfound, hno⟩ := hfree llm hllm
  exact ⟨herror, found, hsub hfound, hno⟩

/-- No alias was moved so far. -/
def Unpromoted (name version : String) (p : Log) : Prop := ∀ r, ⟨.setAlias name version, r⟩ ∉ p

theorem promote_spec {target : Option LlmTarget} (hcleared : Cleared name version target p)
    (hstill : Still p) (hfirst : Unpromoted name version p) {out : Except Raised Promoted}
    (he : (promote name version overriding).Ends l out) :
    PromoteSpec name version preempt p l out := by
  obtain ⟨verdict, l₁, rfl, hverdict⟩ := Code.Ends.of_call he
  have hgate : Rule name version preempt p ⟨.gate name version overriding, verdict⟩ :=
    ⟨rfl, rfl, hstill, target, hcleared⟩
  match verdict with
  | .error .other =>
    obtain ⟨rfl, rfl⟩ := Code.Ends.of_raise hverdict
    exact ⟨⟨hgate, trivial⟩, by simp, by simp, by simp [Moved]⟩
  | .error (.registry text) =>
    obtain ⟨rfl, rfl⟩ := Code.Ends.of_raise hverdict
    exact ⟨⟨hgate, trivial⟩, by simp, by simp, by simp [Moved]⟩
  | .ok verdict =>
    replace hverdict : (if verdict.verdict = .blocked then _ else _ : Prog Promoted).Ends l₁ out :=
      hverdict
    split at hverdict
    · obtain ⟨serving, l₂, rfl, hserving⟩ := Code.Ends.of_call hverdict
      obtain ⟨rfl, rfl⟩ := Code.Ends.of_ret hserving
      refine ⟨⟨hgate, trivial, trivial⟩, by simp, ?_, by simp⟩
      intro res hres
      obtain rfl := Except.ok.inj hres
      simp [Moved]
    · rename_i hpass
      obtain ⟨moved, l₂, rfl, hmoved⟩ := Code.Ends.of_call hverdict
      have hset : Rule name version preempt (p ++ [⟨.gate name version overriding, .ok verdict⟩])
          ⟨.setAlias name version, moved⟩ := by
        refine ⟨rfl, rfl, by simpa using hstill, ?_, ⟨target, hcleared.mono (by simp)⟩,
          overriding, verdict, by simp, hpass⟩
        intro r hr
        rcases List.mem_append.mp hr with hr | hr
        · exact hfirst r hr
        · cases List.mem_singleton.mp hr
      match moved with
      | .error e =>
        obtain ⟨rfl, rfl⟩ := Code.Ends.of_raise hmoved
        exact ⟨⟨hgate, hset, trivial⟩, by simp, by simp, by simp [Moved]⟩
      | .ok () =>
        obtain ⟨rfl, rfl⟩ := Code.Ends.of_ret hmoved
        refine ⟨⟨hgate, hset, trivial⟩, by simp, ?_, by simp⟩
        intro res hres
        obtain rfl := Except.ok.inj hres
        simp [Moved]

/-! ## The checks and the answer -/

@[simp] def Op.checks : Op → Bool
  | .listVersions _ | .llmTargetInfo .. | .currentActivation => true
  | _ => false

/-- How the checks end: with the target, or with an answer that the alias had no part in. -/
structure PrecheckSpec (name version : String) (l : Log)
    (out : Except Raised (Except GoLiveResult (Option LlmTarget))) : Prop where
  checks : ∀ ev ∈ l, ev.1.checks = true
  cleared : ∀ target, out = .ok (.ok target) → Cleared name version target l
  answered : ∀ r, out = .ok (.error r) → ∃ outcome detail metrics,
    r = .failed outcome detail metrics ∧ outcome.httpStatus ≠ 200 ∧
      metrics ∈ [[], ["refused"], ["conflict"]]
  raised : ∀ e, out = .error e → e = .other

namespace PrecheckSpec

variable {out : Except Raised (Except GoLiveResult (Option LlmTarget))}

theorem still (h : PrecheckSpec name version l out) : Still l := by
  rintro ⟨o, r⟩ hev
  have hchecks := h.checks _ hev
  cases o <;> simp_all

theorem unpromoted (h : PrecheckSpec name version l out) : Unpromoted name version l := by
  intro r hr
  have hchecks := h.checks _ hr
  simp at hchecks

theorem unmoved (h : PrecheckSpec name version l out) : ¬ Moved name version l :=
  h.unpromoted (.ok ())

theorem guarded (h : PrecheckSpec name version l out) :
    Code.Guarded (Rule name version preempt) [] l := by
  apply Code.guarded_of_forall
  rintro ⟨o, r⟩ hev p
  have hchecks := h.checks _ hev
  cases o <;> simp_all [Rule]

end PrecheckSpec

theorem assertNoConflict_ends {out : Except Raised Unit}
    (he : (assertNoConflict name version).Ends l out) :
    ∃ found, l = [⟨.currentActivation, found⟩] ∧
      ((out = .ok () ∧ Free name version found) ∨
        ∃ refusal, out = .error (.activation refusal)) := by
  obtain ⟨found, l₁, rfl, hfound⟩ := Code.Ends.of_call he
  match found with
  | .error () =>
    obtain ⟨rfl, rfl⟩ := Code.Ends.of_ret hfound
    exact ⟨_, rfl, .inl ⟨rfl, trivial⟩⟩
  | .ok none =>
    obtain ⟨rfl, rfl⟩ := Code.Ends.of_ret hfound
    exact ⟨_, rfl, .inl ⟨rfl, trivial⟩⟩
  | .ok (some op) =>
    replace hfound : (if elsewhere op.2 name version then _ else _ : Prog Unit).Ends l₁ out :=
      hfound
    split at hfound
    · obtain ⟨rfl, rfl⟩ := Code.Ends.of_raise hfound
      exact ⟨_, rfl, .inr ⟨_, rfl⟩⟩
    · rename_i hfree
      obtain ⟨rfl, rfl⟩ := Code.Ends.of_ret hfound
      exact ⟨_, rfl, .inl ⟨rfl, by simpa [Free] using hfree⟩⟩

theorem precheck_spec {out : Except Raised (Except GoLiveResult (Option LlmTarget))}
    (he : (precheck name version).Ends l out) : PrecheckSpec name version l out := by
  obtain ⟨versions, l₁, rfl, hversions⟩ := Code.Ends.of_call he
  match versions with
  | .error .other =>
    obtain ⟨rfl, rfl⟩ := Code.Ends.of_raise hversions
    exact ⟨by simp, by simp, by simp, by simp⟩
  | .error (.registry text) =>
    obtain ⟨rfl, rfl⟩ := Code.Ends.of_ret hversions
    refine ⟨by simp, by simp, ?_, by simp⟩
    intro r hr
    obtain rfl := Except.error.inj (Except.ok.inj hr)
    exact ⟨.error, .registryError text, [], rfl, by decide, by simp⟩
  | .ok versions =>
    replace hversions : (if version ∉ versions then _ else _ :
      Prog (Except GoLiveResult (Option LlmTarget))).Ends l₁ out := hversions
    split at hversions
    · obtain ⟨rfl, rfl⟩ := Code.Ends.of_ret hversions
      refine ⟨by simp, by simp, ?_, by simp⟩
      intro r hr
      obtain rfl := Except.error.inj (Except.ok.inj hr)
      exact ⟨.notFound, .noVersion name version, [], rfl, by decide, by simp⟩
    · rename_i hlisted
      obtain ⟨target, l₂, rfl, htarget⟩ := Code.Ends.of_call hversions
      match target with
      | .error .other =>
        obtain ⟨rfl, rfl⟩ := Code.Ends.of_raise htarget
        exact ⟨by simp, by simp, by simp, by simp⟩
      | .error (.registry text) =>
        obtain ⟨rfl, rfl⟩ := Code.Ends.of_ret htarget
        refine ⟨by simp, by simp, ?_, by simp⟩
        intro r hr
        obtain rfl := Except.error.inj (Except.ok.inj hr)
        exact ⟨.error, .registryError text, [], rfl, by decide, by simp⟩
      | .ok none =>
        obtain ⟨rfl, rfl⟩ := Code.Ends.of_ret htarget
        refine ⟨by simp, ?_, by simp, by simp⟩
        intro target htarget
        obtain rfl := Except.ok.inj (Except.ok.inj htarget)
        exact ⟨⟨versions, by simp, by simpa using hlisted⟩, by simp, by simp⟩
      | .ok (some llm) =>
        replace htarget : (match llm.error.filter (· ≠ "") with | some _ => _ | none => _ :
          Prog (Except GoLiveResult (Option LlmTarget))).Ends l₂ out := htarget
        split at htarget
        · rename_i error herror
          obtain ⟨rfl, rfl⟩ := Code.Ends.of_ret htarget
          refine ⟨by simp, by simp, ?_, by simp⟩
          intro r hr
          obtain rfl := Except.error.inj (Except.ok.inj hr)
          exact ⟨.refused, .promotionRefused error, _, rfl, by decide, by simp⟩
        · rename_i hresolves
          obtain ⟨checked, l₃, l₄, rfl, hchecked, hend⟩ := Code.Ends.of_result_bind htarget
          obtain ⟨found, rfl, ⟨rfl, hfree⟩ | ⟨refusal, rfl⟩⟩ := assertNoConflict_ends hchecked
          · obtain ⟨rfl, rfl⟩ := Code.Ends.of_ret hend
            refine ⟨by simp, ?_, by simp, by simp⟩
            intro target htarget
            obtain rfl := Except.ok.inj (Except.ok.inj htarget)
            refine ⟨⟨versions, by simp, by simpa using hlisted⟩, by simp, ?_⟩
            intro llm' hllm
            obtain rfl := Option.some.inj hllm
            exact ⟨hresolves, found, by simp, hfree⟩
          · obtain ⟨rfl, rfl⟩ := Code.Ends.of_ret hend
            refine ⟨by simp, by simp, ?_, by simp⟩
            intro r hr
            obtain rfl := Except.error.inj (Except.ok.inj hr)
            exact ⟨.conflict, .activationRefused refusal, _, rfl, by decide, by simp⟩

/-- How a promotion ends once the alias has moved: always with an answer. -/
inductive LaunchedAs (name : String) (target : Option LlmTarget) (res : Promoted) (l : Log) :
    GoLiveResult → Prop
  | plain : target = none → LaunchedAs name target res l ⟨.promoted, .ok res, ["ok"]⟩
  | overtaken (refusal : Refusal) :
      LaunchedAs name target res l
        (.failed .conflict (.activationRefused refusal) ["ok", "conflict"])
  | activated (sl : View) : target.isSome = true → Shown name l sl →
      LaunchedAs name target res l ⟨.promoted, .ok { res with servingLlm := some sl },
        if sl.rolledBack.isSome then ["ok", "unresolvable"] else ["ok"]⟩

theorem launch_spec {target : Option LlmTarget} {res : Promoted} (hmoved : Moved name version p)
    (hstill : Still p) (hpromoted : res.promoted = true) {out : Except Raised GoLiveResult}
    (he : (launch name version preempt target res).Ends l out) :
    Code.Guarded (Rule name version preempt) p l ∧
      ∃ r, out = .ok r ∧ LaunchedAs name target res l r := by
  have hfilter : target.filter (fun _ => res.promoted) = target := by
    cases target <;> simp [hpromoted]
  rw [launch, hfilter] at he
  cases target with
  | none =>
    obtain ⟨rfl, rfl⟩ := Code.Ends.of_ret he
    exact ⟨trivial, _, rfl, .plain rfl⟩
  | some llm =>
    obtain ⟨prior, l₁, rfl, hprior⟩ := Code.Ends.of_call he
    obtain ⟨activated, l₂, l₃, rfl, hactivated, hend⟩ := Code.Ends.of_result_bind hprior
    have hread : Rule name version preempt p ⟨.getServingLlm, prior⟩ := ⟨hmoved, hstill⟩
    have hspec := activate_spec (p := p ++ [⟨.getServingLlm, prior⟩])
      (List.mem_append_left _ hmoved) (by simp) hactivated
    match activated with
    | .error (.registry text) =>
      obtain ⟨refusal, hrefusal⟩ := hspec.refused _ rfl
      cases hrefusal
    | .error .other =>
      obtain ⟨refusal, hrefusal⟩ := hspec.refused _ rfl
      cases hrefusal
    | .error (.activation refusal) =>
      obtain ⟨rfl, rfl⟩ := Code.Ends.of_ret hend
      rw [List.append_nil]
      exact ⟨⟨hread, hspec.guarded⟩, _, rfl, .overtaken refusal⟩
    | .ok sl =>
      obtain ⟨rfl, rfl⟩ := Code.Ends.of_ret hend
      rw [List.append_nil]
      refine ⟨⟨hread, hspec.guarded⟩, _, rfl, ?_⟩
      exact .activated sl rfl ((hspec.shown sl rfl).mono (List.subset_cons_self _ _))

/-- An answer without the alias: it stands where it was, and nothing was activated. -/
theorem honest_unmoved {r : GoLiveResult} (hunmoved : ¬ Moved name version l) (hstill : Still l)
    (hbody : r.ok = r.body.toBool)
    (hres : ∀ res, r.body = .ok res → res.promoted = false ∧ res.servingLlm = none)
    (hmetrics : r.metricStatuses ∈ [[], ["refused"], ["conflict"], ["error"], ["blocked"]]) :
    Honest name version l r := by
  have hok : r.metricStatuses.head? ≠ some "ok" ∧ r.metricStatuses ≠ ["ok", "conflict"] ∧
      "unresolvable" ∉ r.metricStatuses := by
    simp only [List.mem_cons, List.not_mem_nil, or_false] at hmetrics
    rcases hmetrics with h | h | h | h | h <;> rw [h] <;> decide
  constructor
  · exact hbody
  · exact iff_of_false hok.1 hunmoved
  · intro res h
    rw [(hres res h).1]
    exact iff_of_false Bool.false_ne_true hunmoved
  · exact fun _ => hstill
  · exact iff_of_false (fun h => hunmoved h.2) hok.2.1
  · refine iff_of_false hok.2.2 ?_
    rintro ⟨res, v, hr, hv, -⟩
    rw [(hres res hr).2] at hv
    cases hv
  · intro res h hpromoted
    rw [(hres res h).1] at hpromoted
    cases hpromoted
  · intro res v h hv
    rw [(hres res h).2] at hv
    cases hv

/-- An answer with it. -/
theorem honest_moved {target : Option LlmTarget} {res : Promoted} {r : GoLiveResult} {l₁ : Log}
    (hmoved : Moved name version l) (hpromoted : res.promoted = true)
    (hnone : res.servingLlm = none) (htarget : ⟨.llmTargetInfo name version, .ok target⟩ ∈ l)
    (hsub : l₁ ⊆ l) (h : LaunchedAs name target res l₁ r) : Honest name version l r := by
  cases h with
  | plain hplain =>
    subst hplain
    constructor
    · rfl
    · exact iff_of_true rfl hmoved
    · intro res' hres
      obtain rfl := Except.ok.inj hres
      exact iff_of_true hpromoted hmoved
    · exact fun hno => absurd hmoved hno
    · exact iff_of_false (fun hno => nomatch hno.1) (show ["ok"] ≠ ["ok", "conflict"] by decide)
    · refine iff_of_false (show "unresolvable" ∉ ["ok"] by decide) ?_
      rintro ⟨res', v, hres, hv, -⟩
      obtain rfl := Except.ok.inj hres
      rw [hnone] at hv
      cases hv
    · intro res' hres _
      obtain rfl := Except.ok.inj hres
      exact ⟨none, htarget, by rw [hnone]; rfl⟩
    · intro res' v hres hv
      obtain rfl := Except.ok.inj hres
      rw [hnone] at hv
      cases hv
  | overtaken refusal =>
    constructor
    · rfl
    · exact iff_of_true rfl hmoved
    · intro res' hres
      cases hres
    · exact fun hno => absurd hmoved hno
    · exact iff_of_true ⟨rfl, hmoved⟩ rfl
    · refine iff_of_false (show "unresolvable" ∉ ["ok", "conflict"] by decide) ?_
      rintro ⟨res', v, hres, -⟩
      cases hres
    · intro res' hres
      cases hres
    · intro res' v hres
      cases hres
  | activated sl hsome hshown =>
    constructor
    · rfl
    · refine iff_of_true ?_ hmoved
      show (if _ then _ else _ : List String).head? = some "ok"
      split <;> rfl
    · intro res' hres
      obtain rfl := Except.ok.inj hres
      exact iff_of_true hpromoted hmoved
    · exact fun hno => absurd hmoved hno
    · refine iff_of_false (fun hno => nomatch hno.1) ?_
      show (if _ then _ else _ : List String) ≠ _
      split <;> decide
    · show "unresolvable" ∈ (if _ then _ else _ : List String) ↔ _
      split
      · rename_i hback
        exact iff_of_true (by decide) ⟨_, sl, rfl, rfl, hback⟩
      · rename_i hback
        refine iff_of_false (by decide) ?_
        rintro ⟨res', v, hres, hv, hsome'⟩
        obtain rfl := Except.ok.inj hres
        obtain rfl := Option.some.inj hv
        exact hback hsome'
    · intro res' hres _
      obtain rfl := Except.ok.inj hres
      exact ⟨target, htarget, hsome.symm⟩
    · intro res' v hres hv
      obtain rfl := Except.ok.inj hres
      obtain rfl := Option.some.inj hv
      exact hshown.mono hsub

theorem unmoved_append {l' : Log} (h : ¬ Moved name version l) (h' : ¬ Moved name version l') :
    ¬ Moved name version (l ++ l') := by
  intro hmoved
  rcases List.mem_append.mp hmoved with hmoved | hmoved
  · exact h hmoved
  · exact h' hmoved

/-- A promotion, whatever the registry, the stores and the agent answer: the alias moves at
most once and only past every check and the gate; nothing is activated before it has
moved, and what is written back is the pointer read in between; the answer, its status
and its labels say what was done; and once the alias has moved there is an answer. -/
theorem goLive_honest (name version : String) (overriding preempt : Bool) (l : Log)
    (out : Except Raised GoLiveResult)
    (h : (goLive name version overriding preempt).Ends l out) :
    Code.Guarded (Rule name version preempt) [] l ∧
    (∀ r, out = .ok r → Honest name version l r) ∧
    (∀ e, out = .error e → e = .other ∧ ¬ Moved name version l ∧ Still l) := by
  rcases h.of_bind with ⟨e, rfl, hcheck⟩ | ⟨checked, l₁, l₂, rfl, hcheck, hrest⟩
  · have hspec := precheck_spec hcheck
    refine ⟨hspec.guarded, by simp, fun e' he' => ?_⟩
    obtain rfl := Except.error.inj he'
    exact ⟨hspec.raised _ rfl, hspec.unmoved, hspec.still⟩
  have hspec := precheck_spec hcheck
  cases checked with
  | error answer =>
    obtain ⟨rfl, rfl⟩ := Code.Ends.of_ret hrest
    obtain ⟨outcome, detail, metrics, rfl, hstatus, hmetrics⟩ := hspec.answered _ rfl
    rw [List.append_nil]
    refine ⟨hspec.guarded, fun r hr => ?_, by simp⟩
    obtain rfl := Except.ok.inj hr
    apply honest_unmoved hspec.unmoved hspec.still
    · simp [GoLiveResult.ok, GoLiveResult.failed, hstatus, Except.toBool]
    · intro res hres
      cases hres
    · simp only [List.mem_cons, List.not_mem_nil, or_false] at hmetrics ⊢
      rcases hmetrics with hmetrics | hmetrics | hmetrics <;> simp [GoLiveResult.failed, hmetrics]
  | ok target =>
    have hcleared := hspec.cleared target rfl
    obtain ⟨promoted, l₃, l₄, rfl, hpromoted, hlaunch⟩ := Code.Ends.of_result_bind hrest
    have hpromote : PromoteSpec name version preempt l₁ l₃ promoted :=
      promote_spec hcleared hspec.still hspec.unpromoted hpromoted
    have hguarded : Code.Guarded (Rule name version preempt) [] (l₁ ++ l₃) :=
      Code.guarded_append.mpr ⟨hspec.guarded, hpromote.guarded⟩
    have hstill : Still (l₁ ++ l₃) := still_append.mpr ⟨hspec.still, hpromote.still⟩
    match promoted with
    | .error (.activation refusal) => exact absurd rfl ((hpromote.failed _ rfl).2 refusal)
    | .error .other =>
      obtain ⟨rfl, rfl⟩ := Code.Ends.of_raise hlaunch
      rw [List.append_nil]
      refine ⟨hguarded, by simp, fun e he => ?_⟩
      obtain rfl := Except.error.inj he
      exact ⟨rfl, unmoved_append hspec.unmoved (hpromote.failed _ rfl).1, hstill⟩
    | .error (.registry text) =>
      obtain ⟨rfl, rfl⟩ := Code.Ends.of_ret hlaunch
      rw [List.append_nil]
      refine ⟨hguarded, fun r hr => ?_, by simp⟩
      obtain rfl := Except.ok.inj hr
      apply honest_unmoved (unmoved_append hspec.unmoved (hpromote.failed _ rfl).1) hstill rfl
      · intro res hres
        cases hres
      · simp [GoLiveResult.failed]
    | .ok res =>
      obtain ⟨hnone, hiff⟩ := hpromote.moved res rfl
      replace hlaunch : (if !res.promoted then _ else _ : Prog GoLiveResult).Ends l₄ out := hlaunch
      split at hlaunch
      · rename_i hblocked
        have hblocked : res.promoted = false := by simpa using hblocked
        obtain ⟨rfl, rfl⟩ := Code.Ends.of_ret hlaunch
        rw [List.append_nil]
        refine ⟨hguarded, fun r hr => ?_, by simp⟩
        obtain rfl := Except.ok.inj hr
        have hunmoved : ¬ Moved name version l₃ := by
          rw [← hiff, hblocked]
          exact Bool.false_ne_true
        apply honest_unmoved (unmoved_append hspec.unmoved hunmoved) hstill rfl
        · intro res' hres
          obtain rfl := Except.ok.inj hres
          exact ⟨hblocked, hnone⟩
        · simp
      · rename_i hpassed
        have hpassed : res.promoted = true := by simpa using hpassed
        have hmoved : Moved name version (l₁ ++ l₃) :=
          List.mem_append_right _ (hiff.mp hpassed)
        obtain ⟨hguarded', r, rfl, hlaunched⟩ := launch_spec hmoved hstill hpassed hlaunch
        rw [← List.append_assoc]
        refine ⟨Code.guarded_append.mpr ⟨hguarded, hguarded'⟩, fun r' hr => ?_, by simp⟩
        obtain rfl := Except.ok.inj hr
        apply honest_moved (List.mem_append_left _ hmoved) hpassed hnone _
          (List.subset_append_right _ _) hlaunched
        exact List.mem_append_left _ (List.mem_append_left _ hcleared.2.1)

end

def passing : Verdict := ⟨.pass, .firstPromotion, false, false, none, none, none, none⟩

def fullTarget : LlmTarget := ⟨.full, none, none⟩

def before : ServingLlm := ⟨"base", 10, "operator"⟩

def unloadable : ReloadResult := ⟨some "deferred", true, some "no artifact", none⟩

/-- The store is down and the artifact cannot be loaded: the pointer goes back. -/
def sentBack : Log :=
  [⟨.listVersions "tuned", .ok ["2", "1"]⟩, ⟨.llmTargetInfo "tuned" "2", .ok (some fullTarget)⟩,
    ⟨.currentActivation, .error ()⟩, ⟨.gate "tuned" "2" false, .ok passing⟩,
    ⟨.setAlias "tuned" "2", .ok ()⟩, ⟨.getServingLlm, some before⟩,
    ⟨.findByKey (idempotencyKey "tuned" "2"), .error ()⟩, ⟨.setServingLlm "tuned", .ok ()⟩,
    ⟨.requestLlmReload true, unloadable⟩, ⟨.restoreServingLlm (some before), .ok ()⟩]

theorem sentBack_honest : ∃ r, Honest "tuned" "2" sentBack r ∧
    r.metricStatuses = ["ok", "unresolvable"] ∧
    Code.Guarded (Rule "tuned" "2" true) [] sentBack := by
  have hends : (goLive "tuned" "2" false true).Ends sentBack (.ok ⟨.promoted,
      .ok ⟨"tuned", some "2", true, passing,
        some (.back (some "base") fullTarget (some unloadable) none none)⟩,
      ["ok", "unresolvable"]⟩) := by
    iterate 10 refine Code.Ends.call ?_
    exact .ret _
  obtain ⟨hguarded, hhonest, -⟩ := goLive_honest "tuned" "2" false true _ _ hends
  exact ⟨_, hhonest _ rfl, rfl, hguarded⟩

end MlopsLite.Gateway.Promotion
